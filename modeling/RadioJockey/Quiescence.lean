import Mathlib.Algebra.BigOperators.Group.Finset.Basic
import RadioJockey.Streams

/-!
# The server comes to rest

The loop and the stream goroutines work off what the clients have asked for: a
created event starts a stream, and the end of a stream makes a `DeleteSession`
call, with an event of its own. The channel between them is bounded, and its
senders wait while it is full.

1. `steps_bounded`: in every run the server takes at most nine steps for each
   `CreateSession` call of a client and three for each `DeleteSession` call, and
   one step to return.
2. `comes_to_rest`: from every reachable state, the runs of the server alone are
   bounded, and one in which nothing is due any more has left nothing to do, or
   its loop has returned. A stream that nobody cancels may play on for ever.
-/

namespace RadioJockey.Streams

open Channel Transition

/-- The steps of the server itself. The others are those of the clients and of
their contexts. -/
def Action.internal : Action → Bool
  | .send _ | .abandon _ | .receive | .loopDone | .getQueue | .start | .cancelStream
  | .endStream _ | .endSession _ => true
  | .createSession .. | .deleteSession .. | .cancelCall _ | .shutdown | .closeEvents => false

def Action.isCreate : Action → Bool
  | .createSession .. => true
  | _ => false

def Action.isDelete : Action → Bool
  | .deleteSession .. => true
  | _ => false

/-- What the server does sooner or later: its steps, but for the end of a stream
that nobody has cancelled. -/
def State.Due (s : State) : Action → Prop
  | .endStream g => ∃ st, s.streams[g]? = some st ∧ st.cancelled = true
  | a => a.internal = true

/-- Nothing is left to do: the loop waits for an event and there is none, no call
is in its `select`, every cancelled stream has ended, and every stream that has
ended has called `DeleteSession`. -/
structure AtRest (s : State) : Prop where
  loop : s.loop = .idle
  events : s.manager.events.buf = []
  calls : ∀ c e, s.calls c ≠ .sending e
  cancelled : ∀ (g : Nat) st, s.streams[g]? = some st → st.cancelled = true → st.phase ≠ .running
  ended : ∀ (g : Nat) st, s.streams[g]? = some st → st.phase = .ended → s.calls (.stream g) ≠ .idle

/-! ## The work that is left -/

/-- What the handling of an event in the channel may bring about. -/
def eventWork (e : SessionManagerEvent) : Nat :=
  match e.type with
  -- the receive, and a stream that starts
  | .sessionCreated => 8
  | .sessionDeleted => 2

def callWork : Call → Nat
  | .sending e => eventWork e + 1
  | .idle | .returned _ => 0

/-- `call` is the `DeleteSession` call of the stream. -/
def streamWork (call : Call) : StreamPhase → Nat
  | .starting => 6
  | .running => 5
  -- the stream has yet to call, and its event to be sent and handled
  | .ended => if call = .idle then 4 else 0

def callerWork (s : State) : Caller → Nat
  | .rpc n => callWork (s.calls (.rpc n))
  | .stream g => callWork (s.calls (.stream g)) +
      (s.streams[g]?.map fun st => streamWork (s.calls (.stream g)) st.phase).getD 0

def loopWork : Loop → Nat
  | .idle | .starting _ => 1
  | .received e => eventWork e
  | .returned => 0

def sharedWork (s : State) : Nat :=
  (s.manager.events.buf.map eventWork).sum + loopWork s.loop

/-- The work of the callers, of whom only finitely many have any, and of the
loop. -/
def Potential (s : State) (n : Nat) : Prop :=
  ∃ callers : Finset Caller, (∀ c ∉ callers, callerWork s c = 0) ∧
    n = callers.sum (callerWork s) + sharedWork s

/-- The steps that a call of a client may bring about. -/
def Action.credit : Action → Nat
  | .createSession .. => 9
  | .deleteSession .. => 3
  | _ => 0

def Action.cost (a : Action) : Nat := if a.internal then 1 else 0

namespace QuiescenceLemmas

variable {s t : State}

/-- A step changes the work of one caller at most. -/
theorem potential_step {n k credit : Nat} (c : Caller) (h : Potential s n)
    (hsame : ∀ c' ≠ c, callerWork t c' = callerWork s c')
    (hle : callerWork t c + sharedWork t + k ≤ callerWork s c + sharedWork s + credit) :
    ∃ m, Potential t m ∧ m + k ≤ n + credit := by
  obtain ⟨callers, hcallers, rfl⟩ := h
  refine ⟨_, ⟨insert c callers, fun c' hc' => ?_, rfl⟩, ?_⟩
  · obtain ⟨hne, hc'⟩ := not_or.mp (mt Finset.mem_insert.mpr hc')
    rw [hsame c' hne, hcallers c' hc']
  · have hinsert : callers.sum (callerWork s) = (insert c callers).sum (callerWork s) :=
      (Finset.sum_insert_of_eq_zero_if_notMem (hcallers c)).symm
    have herase : ((insert c callers).erase c).sum (callerWork t) =
        ((insert c callers).erase c).sum (callerWork s) :=
      Finset.sum_congr rfl fun c' hc' => hsame c' (Finset.ne_of_mem_erase hc')
    have hsplit : ∀ s' : State, callerWork s' c + ((insert c callers).erase c).sum (callerWork s') =
        (insert c callers).sum (callerWork s') :=
      fun s' => Finset.add_sum_erase _ _ (Finset.mem_insert_self c callers)
    have hs := hsplit s
    have ht := hsplit t
    omega

/-- A step that changes no caller's work. -/
theorem potential_shared {n k credit : Nat} (h : Potential s n)
    (hsame : ∀ c, callerWork t c = callerWork s c)
    (hle : sharedWork t + k ≤ sharedWork s + credit) :
    ∃ m, Potential t m ∧ m + k ≤ n + credit := by
  refine potential_step (.rpc 0) h (fun c _ => hsame c) ?_
  rw [hsame]
  omega

/-- A caller's work depends on its call, and on its stream if it has one. -/
theorem callerWork_congr {c : Caller} (hcalls : t.calls c = s.calls c)
    (hphase : ∀ g, c = .stream g →
      t.streams[g]?.map Stream.phase = s.streams[g]?.map Stream.phase) :
    callerWork t c = callerWork s c := by
  cases c with
  | rpc n => simp only [callerWork, hcalls]
  | stream g =>
    have hmap : ∀ s' : State, (s'.streams[g]?.map fun st =>
        streamWork (s.calls (.stream g)) st.phase) =
        (s'.streams[g]?.map Stream.phase).map (streamWork (s.calls (.stream g))) :=
      fun s' => by rw [Option.map_map]; rfl
    simp only [callerWork, hcalls]
    rw [hmap t, hmap s, hphase g rfl]

theorem callerWork_update {c c' : Caller} {x : Call} (hne : c' ≠ c)
    (hcalls : t.calls = Function.update s.calls c x) (hstreams : t.streams = s.streams) :
    callerWork t c' = callerWork s c' := by
  refine callerWork_congr ?_ fun g _ => by rw [hstreams]
  rw [hcalls, Function.update_of_ne hne]

/-- A call in its `select` is not idle any more, so all its caller has left is
the call. -/
theorem callerWork_update_self {c : Caller} {x : Call} (hx : x ≠ .idle)
    (hcalls : t.calls = Function.update s.calls c x) (hstreams : t.streams = s.streams) :
    callerWork t c + callWork (s.calls c) ≤ callerWork s c + callWork x := by
  have hself : t.calls c = x := by rw [hcalls, Function.update_self]
  cases c with
  | rpc n => simp only [callerWork, hself]; omega
  | stream g =>
    simp only [callerWork, hself, hstreams]
    cases s.streams[g]? with
    | none => simp only [Option.map_none, Option.getD_none]; omega
    | some st =>
      have hphase : streamWork x st.phase ≤ streamWork (s.calls (.stream g)) st.phase := by
        cases st.phase with
        | ended => simp [streamWork, hx]
        | _ => exact Nat.le_refl _
      simp only [Option.map_some, Option.getD_some]
      omega

theorem eventWork_pos (e : SessionManagerEvent) : 0 < eventWork e := by
  unfold eventWork
  split <;> decide

theorem callerWork_stream {g : Nat} {st : Stream} (hst : s.streams[g]? = some st) :
    callerWork s (.stream g) =
      callWork (s.calls (.stream g)) + streamWork (s.calls (.stream g)) st.phase := by
  rw [callerWork, hst, Option.map_some, Option.getD_some]

/-- A client's call enters its `select`. -/
theorem potential_call {n credit : Nat} {c : Caller} {e : SessionManagerEvent}
    (h : Potential s n) (hidle : s.calls c = .idle) (hcredit : eventWork e + 1 ≤ credit)
    (hcalls : t.calls = Function.update s.calls c (.sending e))
    (hstreams : t.streams = s.streams) (hevents : t.manager.events = s.manager.events)
    (hloop : t.loop = s.loop) : ∃ m, Potential t m ∧ m + 0 ≤ n + credit := by
  refine potential_step c h (fun c' hne => callerWork_update hne hcalls hstreams) ?_
  have hself := callerWork_update_self (by simp) hcalls hstreams
  have hwork : callWork (.sending e) = eventWork e + 1 := rfl
  rw [hidle] at hself
  have hshared : sharedWork t = sharedWork s := by rw [sharedWork, sharedWork, hevents, hloop]
  omega

/-- A call returns, and what is shared grows by less than its work. -/
theorem potential_return {n k : Nat} {c : Caller} {err : Option SessionError}
    (h : Potential s n) (hcalls : t.calls = Function.update s.calls c (.returned err))
    (hstreams : t.streams = s.streams)
    (hle : sharedWork t + k ≤ sharedWork s + callWork (s.calls c)) :
    ∃ m, Potential t m ∧ m + k ≤ n + 0 := by
  refine potential_step c h (fun c' hne => callerWork_update hne hcalls hstreams) ?_
  have hself := callerWork_update_self (by simp) hcalls hstreams
  have hwork : callWork (.returned err) = 0 := rfl
  omega

/-- A stream is changed, and no call. -/
theorem potential_stream {n k : Nat} {g : Nat} {st st' : Stream} (h : Potential s n)
    (hst : s.streams[g]? = some st) (hcalls : t.calls = s.calls)
    (hstreams : t.streams = s.streams.set g st')
    (hle : streamWork (s.calls (.stream g)) st'.phase + sharedWork t + k ≤
      streamWork (s.calls (.stream g)) st.phase + sharedWork s) :
    ∃ m, Potential t m ∧ m + k ≤ n + 0 := by
  have hlt := (List.getElem?_eq_some_iff.mp hst).1
  have hst' : t.streams[g]? = some st' := by rw [hstreams, List.getElem?_set_self hlt]
  refine potential_step (.stream g) h (fun c hne => ?_) ?_
  · refine callerWork_congr (by rw [hcalls]) fun g' hg' => ?_
    subst hg'
    rw [hstreams, List.getElem?_set_ne]
    rintro rfl
    exact hne rfl
  · rw [callerWork_stream hst, callerWork_stream hst', hcalls]
    omega

/-- A stream is added, and nothing else that has work. -/
theorem potential_newStream {n k : Nat} {st : Stream} (h : Potential s n)
    (hcalls : t.calls = s.calls) (hstreams : t.streams = s.streams ++ [st])
    (hle : streamWork (s.calls (.stream s.streams.length)) st.phase + sharedWork t + k ≤
      sharedWork s) : ∃ m, Potential t m ∧ m + k ≤ n + 0 := by
  refine potential_step (.stream s.streams.length) h (fun c hne => ?_) ?_
  · refine callerWork_congr (by rw [hcalls]) fun g hg => ?_
    subst hg
    have hne : g ≠ s.streams.length := fun he => hne (congrArg _ he)
    rw [hstreams, List.getElem?_append]
    split
    · rfl
    · -- behind the new stream there is none, before and after
      have hgt : s.streams.length < g := by omega
      rw [List.getElem?_eq_none (by simp; omega), List.getElem?_eq_none hgt.le]
  · have hnew : t.streams[s.streams.length]? = some st := by
      rw [hstreams, List.getElem?_concat_length]
    rw [callerWork_stream hnew, hcalls]
    have hcall : callWork (s.calls (.stream s.streams.length)) ≤
        callerWork s (.stream s.streams.length) := Nat.le_add_right _ _
    omega

end QuiescenceLemmas

/-- Of the loop and the streams, what the steps rely on. -/
structure WorkInv (s : State) : Prop where
  starting : ∀ g, s.loop = .starting g → ∃ st, s.streams[g]? = some st ∧ st.phase = .starting
  cancels : ∀ id g, s.cancels.lookup id = some g → g < s.streams.length

namespace QuiescenceLemmas

variable {s t : State}

theorem workInv_frame (hinv : WorkInv s) (hloop : ∀ g, t.loop = .starting g → s.loop = .starting g)
    (hstreams : t.streams = s.streams) (hcancels : t.cancels = s.cancels) : WorkInv t where
  starting := by
    rw [hstreams]
    exact fun g h => hinv.starting g (hloop g h)
  cancels := by
    rw [hstreams, hcancels]
    exact hinv.cancels

/-- The loop has nothing in its hands. -/
theorem workInv_idle (hloop : ∀ g, t.loop ≠ .starting g)
    (hcancels : ∀ id g, t.cancels.lookup id = some g → g < t.streams.length) : WorkInv t :=
  ⟨fun g h => absurd h (hloop g), hcancels⟩

theorem workInv_step {a : Action} (hinv : WorkInv s) (h : s.step a = some t) : WorkInv t := by
  cases a with
  | createSession n id archiveID =>
    obtain ⟨-, ⟨err, -, rfl⟩ | ⟨-, -, rfl⟩⟩ := State.createSession_eq_some h
    · exact workInv_frame hinv (fun _ hl => hl) rfl rfl
    · exact workInv_frame hinv (fun _ hl => hl) rfl rfl
  | deleteSession n id =>
    obtain ⟨-, rfl⟩ := State.deleteSession_eq_some h
    exact workInv_frame hinv (fun _ hl => hl) rfl rfl
  | send c =>
    obtain ⟨e, m, -, -, rfl⟩ := State.send_eq_some h
    exact workInv_frame hinv (fun _ hl => hl) rfl rfl
  | abandon c =>
    obtain ⟨e, -, -, rfl⟩ := State.abandon_eq_some h
    exact workInv_frame hinv (fun _ hl => hl) rfl rfl
  | receive =>
    obtain ⟨-, ⟨e, m, -, rfl⟩ | ⟨-, -, rfl⟩⟩ := State.receive_eq_some h
    · exact workInv_frame hinv nofun rfl rfl
    · exact workInv_frame hinv nofun rfl rfl
  | loopDone =>
    obtain ⟨-, -, rfl⟩ := State.loopDone_eq_some h
    exact workInv_frame hinv nofun rfl rfl
  | getQueue =>
    obtain ⟨e, -, -, ⟨-, rfl⟩ | ⟨q, -, rfl⟩⟩ := State.getQueue_eq_some h
    · exact workInv_frame hinv nofun rfl rfl
    · refine ⟨fun g hg => ?_, fun id g hg => ?_⟩
      · cases hg
        exact ⟨_, List.getElem?_concat_length, rfl⟩
      · exact (hinv.cancels id g hg).trans_le (by simp)
  | start =>
    obtain ⟨g, st, hl, hst, rfl⟩ := State.start_eq_some h
    have hlt := (List.getElem?_eq_some_iff.mp hst).1
    refine workInv_idle nofun fun id g' hg' => ?_
    show g' < (s.streams.set g _).length
    rw [List.length_set]
    rcases eq_or_ne id st.sessionID with rfl | hne
    · rw [show AList.lookup _ _ = _ from AList.lookup_insert _] at hg'
      cases hg'
      exact hlt
    · rw [show AList.lookup _ _ = _ from AList.lookup_insert_ne hne] at hg'
      exact hinv.cancels id g' hg'
  | cancelStream =>
    have herase : ∀ (id id' : SessionID) g, (s.cancels.erase id').lookup id = some g →
        g < s.streams.length := by
      intro id id' g hg
      rcases eq_or_ne id id' with rfl | hne
      · rw [AList.lookup_erase] at hg
        cases hg
      · exact hinv.cancels id g ((AList.lookup_erase_ne hne).symm.trans hg)
    obtain ⟨e, -, -, ⟨-, rfl⟩ | ⟨g, st, -, -, rfl⟩⟩ := State.cancelStream_eq_some h
    · exact workInv_idle nofun fun id g => herase id _ g
    · refine workInv_idle nofun fun id g' hg' => ?_
      show g' < (s.streams.set g _).length
      rw [List.length_set]
      exact herase id _ g' hg'
  | endStream g =>
    obtain ⟨st, hst, hphase, rfl⟩ := State.endStream_eq_some h
    refine ⟨fun g' hg' => ?_, fun id g' hg' => ?_⟩
    · obtain ⟨st', hst', hphase'⟩ := hinv.starting g' hg'
      refine ⟨st', ?_, hphase'⟩
      show (s.streams.set g _)[g']? = _
      rw [List.getElem?_set_ne, hst']
      rintro rfl
      rw [hst] at hst'
      cases hst'
      rw [hphase] at hphase'
      cases hphase'
    · show g' < (s.streams.set g _).length
      rw [List.length_set]
      exact hinv.cancels id g' hg'
  | endSession g =>
    obtain ⟨st, -, -, -, rfl⟩ := State.endSession_eq_some h
    exact workInv_frame hinv (fun _ hl => hl) rfl rfl
  | cancelCall c | shutdown | closeEvents =>
    cases h
    exact workInv_frame hinv (fun _ hl => hl) rfl rfl

theorem workInv_initial (maxSessions : Int) : WorkInv (.initial maxSessions) := by
  constructor
  · intro g h
    cases h
  · intro id g h
    cases h

/-- Each step of the server spends some of the work that is left. -/
theorem potential_action {a : Action} {n : Nat} (hinv : WorkInv s) (hn : Potential s n)
    (h : s.step a = some t) : ∃ m, Potential t m ∧ m + a.cost ≤ n + a.credit := by
  cases a with
  | createSession n' id archiveID =>
    obtain ⟨hc, ⟨err, -, rfl⟩ | ⟨-, -, rfl⟩⟩ := State.createSession_eq_some h
    · -- the call is refused and brings nothing about
      have hreturn : ∃ m, Potential { s with
          calls := Function.update s.calls (.rpc n') (.returned (some err)) } m ∧ m + 0 ≤ n + 0 :=
        potential_return hn rfl rfl (Nat.le_add_right _ _)
      obtain ⟨m, hm, hle⟩ := hreturn
      exact ⟨m, hm, hle.trans (Nat.le_add_right _ _)⟩
    · exact potential_call hn hc (Nat.le_refl _) rfl rfl rfl rfl
  | deleteSession n' id =>
    obtain ⟨hc, rfl⟩ := State.deleteSession_eq_some h
    exact potential_call hn hc (Nat.le_refl _) rfl rfl rfl rfl
  | send c =>
    obtain ⟨e, m, hc, hm, rfl⟩ := State.send_eq_some h
    obtain ⟨-, hb, -⟩ := SessionManager.send_eq_some hm
    -- the event's work moves from the call to the channel
    refine potential_return hn rfl rfl ?_
    show (m.events.buf.map eventWork).sum + loopWork s.loop + 1 ≤ _
    rw [hc, hb, List.map_append, List.sum_append, sharedWork, callWork]
    simp only [List.map_cons, List.map_nil, List.sum_cons, List.sum_nil]
    omega
  | abandon c =>
    obtain ⟨e, hc, -, rfl⟩ := State.abandon_eq_some h
    refine potential_return hn rfl rfl (Nat.add_le_add_left ?_ _)
    rw [hc]
    exact Nat.le_add_left 1 _
  | receive =>
    obtain ⟨hl, ⟨e, m, hm, rfl⟩ | ⟨-, -, rfl⟩⟩ := State.receive_eq_some h
    · refine potential_shared hn (fun c => callerWork_congr rfl fun _ _ => rfl) ?_
      show (m.events.buf.map eventWork).sum + eventWork e + 1 ≤ sharedWork s
      rw [sharedWork, (SessionManager.receive_eq_some hm).1, hl]
      simp only [List.map_cons, List.sum_cons, loopWork]
      omega
    · refine potential_shared hn (fun c => callerWork_congr rfl fun _ _ => rfl) ?_
      rw [sharedWork, sharedWork, hl]
      exact Nat.le_refl _
  | loopDone =>
    obtain ⟨hl, -, rfl⟩ := State.loopDone_eq_some h
    refine potential_shared hn (fun c => callerWork_congr rfl fun _ _ => rfl) ?_
    rw [sharedWork, sharedWork, hl]
    exact Nat.le_refl _
  | getQueue =>
    obtain ⟨e, hl, ht, ⟨-, rfl⟩ | ⟨q, -, rfl⟩⟩ := State.getQueue_eq_some h
    · refine potential_shared hn (fun c => callerWork_congr rfl fun _ _ => rfl) ?_
      rw [sharedWork, sharedWork, hl]
      have hpos := eventWork_pos e
      simp only [loopWork, Action.cost, Action.internal, Action.credit, if_true]
      omega
    · refine potential_newStream hn rfl rfl ?_
      have hwork : eventWork e = 8 := by rw [eventWork, ht]
      simp only [sharedWork, hl, loopWork, hwork, streamWork, Action.cost, Action.internal,
        if_true]
      omega
  | start =>
    obtain ⟨g, st, hl, hst, rfl⟩ := State.start_eq_some h
    obtain ⟨st', hst', hphase⟩ := hinv.starting g hl
    obtain rfl : st = st' := Option.some.inj (hst.symm.trans hst')
    refine potential_stream hn hst rfl rfl ?_
    rw [hphase, sharedWork, sharedWork, hl]
    simp only [streamWork, loopWork, Action.cost, Action.internal, if_true]
    omega
  | cancelStream =>
    obtain ⟨e, hl, ht, ⟨-, rfl⟩ | ⟨g, st, -, hst, rfl⟩⟩ := State.cancelStream_eq_some h
    · refine potential_shared hn (fun c => callerWork_congr rfl fun _ _ => rfl) ?_
      rw [sharedWork, sharedWork, hl]
      have hwork : eventWork e = 2 := by rw [eventWork, ht]
      simp only [loopWork, hwork, Action.cost, Action.internal, Action.credit, if_true]
      omega
    · refine potential_stream hn hst rfl rfl ?_
      rw [sharedWork, sharedWork, hl]
      have hwork : eventWork e = 2 := by rw [eventWork, ht]
      simp only [loopWork, hwork, Action.cost, Action.internal, if_true]
      omega
  | endStream g =>
    obtain ⟨st, hst, hphase, rfl⟩ := State.endStream_eq_some h
    refine potential_stream hn hst rfl rfl ?_
    show streamWork _ .ended + sharedWork s + 1 ≤ _
    rw [hphase, streamWork, streamWork]
    split <;> omega
  | endSession g =>
    obtain ⟨st, hst, hphase, hc, ht⟩ := State.endSession_eq_some h
    have hcalls : t.calls = Function.update s.calls (.stream g)
        (.sending ⟨.sessionDeleted, st.sessionID, .stream g⟩) := by rw [ht]
    have hstreams : t.streams = s.streams := by rw [ht]
    have hshared : sharedWork t = sharedWork s := by rw [ht]; rfl
    refine potential_step (.stream g) hn (fun c hne => callerWork_update hne hcalls hstreams) ?_
    rw [callerWork_stream hst, callerWork_stream (hstreams ▸ hst), hcalls, Function.update_self,
      hshared, hc, hphase]
    simp only [callWork, streamWork, eventWork, Action.cost, Action.internal, if_true,
      reduceCtorEq, if_false]
    omega
  | cancelCall c | shutdown | closeEvents =>
    cases h
    exact potential_shared hn (fun c => callerWork_congr rfl fun _ _ => rfl) (Nat.le_refl _)

theorem potential_initial (maxSessions : Int) : Potential (.initial maxSessions) 1 := by
  refine ⟨∅, fun c _ => ?_, rfl⟩
  cases c <;> rfl

theorem sum_credit (as : List Action) :
    (as.map Action.credit).sum = 9 * as.countP Action.isCreate + 3 * as.countP Action.isDelete := by
  induction as with
  | nil => rfl
  | cons a as ih =>
    rw [List.map_cons, List.sum_cons, ih, List.countP_cons, List.countP_cons]
    cases a <;> simp [Action.credit, Action.isCreate, Action.isDelete] <;> omega

/-- The steps of the server in a run are paid for by the work that was left and
by the calls of the clients. -/
theorem run_work {maxSessions : Int} {as : List Action} {n : Nat} (hinv : WorkInv s)
    (hn : Potential s n) (h : run (sessionSystem maxSessions) s as = some t) :
    WorkInv t ∧ as.countP Action.internal ≤
      n + 9 * as.countP Action.isCreate + 3 * as.countP Action.isDelete := by
  have hstep : ∀ s (a : Action) t n, True → WorkInv s ∧ Potential s n →
      (sessionSystem maxSessions).step s a = some t →
        ∃ m, (WorkInv t ∧ Potential t m) ∧ m + a.cost ≤ n + a.credit := by
    intro s a t n _ hn hs
    obtain ⟨m, hm, hle⟩ := potential_action hn.1 hn.2 hs
    exact ⟨m, ⟨workInv_step hn.1 hs, hm⟩, hle⟩
  obtain ⟨m, ⟨hinv', -⟩, hle⟩ := run_amortized hstep (fun _ _ => trivial) ⟨hinv, hn⟩ h
  have hcost : (as.map Action.cost).sum = as.countP Action.internal := sum_cost Action.internal as
  rw [hcost, sum_credit] at hle
  exact ⟨hinv', by omega⟩

end QuiescenceLemmas

open QuiescenceLemmas

/-- For every cap and every run, however the calls and the streams interleave. -/
theorem steps_bounded {maxSessions : Int} {as : List Action} {s : State}
    (h : run (sessionSystem maxSessions) (.initial maxSessions) as = some s) :
    as.countP Action.internal ≤
      9 * as.countP Action.isCreate + 3 * as.countP Action.isDelete + 1 := by
  have hle := (run_work (workInv_initial maxSessions) (potential_initial maxSessions) h).2
  omega

/-- A session from its creation to the end of its stream: all nine steps. -/
theorem steps_bounded_session : ∃ as s, run (sessionSystem 50) (.initial 50) as = some s ∧
    as.countP Action.internal = 9 ∧ as.countP Action.internal ≤
      9 * as.countP Action.isCreate + 3 * as.countP Action.isDelete + 1 := by
  have h : run (sessionSystem 50) (.initial 50) [.createSession 0 "station" none, .send (.rpc 0),
      .receive, .getQueue, .start, .endStream 0, .endSession 0, .send (.stream 0), .receive,
      .cancelStream] = some _ := rfl
  exact ⟨_, _, h, rfl, steps_bounded h⟩

namespace QuiescenceLemmas

variable {s t : State}

theorem closed_of_internal {a : Action} (ha : a.internal = true) (h : s.step a = some t) :
    t.closed = s.closed := by
  cases a with
  | send c =>
    obtain ⟨e, m, -, -, rfl⟩ := State.send_eq_some h
    rfl
  | abandon c =>
    obtain ⟨e, -, -, rfl⟩ := State.abandon_eq_some h
    rfl
  | receive =>
    obtain ⟨-, ⟨e, m, -, rfl⟩ | ⟨-, -, rfl⟩⟩ := State.receive_eq_some h <;> rfl
  | loopDone =>
    obtain ⟨-, -, rfl⟩ := State.loopDone_eq_some h
    rfl
  | getQueue =>
    obtain ⟨e, -, -, ⟨-, rfl⟩ | ⟨q, -, rfl⟩⟩ := State.getQueue_eq_some h <;> rfl
  | start =>
    obtain ⟨g, st, -, -, rfl⟩ := State.start_eq_some h
    rfl
  | cancelStream =>
    obtain ⟨e, -, -, ⟨-, rfl⟩ | ⟨g, st, -, -, rfl⟩⟩ := State.cancelStream_eq_some h <;> rfl
  | endStream g =>
    obtain ⟨st, -, -, rfl⟩ := State.endStream_eq_some h
    rfl
  | endSession g =>
    obtain ⟨st, -, -, -, rfl⟩ := State.endSession_eq_some h
    rfl
  | createSession n id archiveID | deleteSession n id | cancelCall c | shutdown | closeEvents =>
    cases ha

/-- With room in the channel, a call in its `select` can send. -/
theorem send_of_room {c : Caller} {e : SessionManagerEvent} (hc : s.calls c = .sending e)
    (hopen : s.closed = false) (hroom : s.manager.events.buf.length < eventChannelBuffer) :
    ∃ t, s.step (.send c) = some t := by
  have hsend : s.manager.events.send? e = some ⟨s.manager.events.buf ++ [e], by
      rw [List.length_append, List.length_singleton]; exact hroom⟩ :=
    Chan.send?_eq_some.mpr ⟨hroom, rfl⟩
  simp only [State.step, State.send, hc, hopen, SessionManager.send, hsend, Option.map_some]
  exact ⟨_, rfl⟩

/-- An event in the channel can be received. -/
theorem receive_of_event (hl : s.loop = .idle) (hb : s.manager.events.buf ≠ []) :
    ∃ t, s.step .receive = some t := by
  obtain ⟨e, buf, hbuf⟩ := List.exists_cons_of_ne_nil hb
  have hle : buf.length ≤ eventChannelBuffer := by
    have := s.manager.events.bounded
    rw [hbuf, List.length_cons] at this
    omega
  have hrecv : s.manager.events.recv? = some (e, ⟨buf, hle⟩) := Chan.recv?_eq_some.mpr hbuf
  simp only [State.step, State.receive, hl, SessionManager.receive, hrecv, Option.map_some]
  exact ⟨_, rfl⟩

/-- What the loop has in its hands it can always handle. -/
theorem handle_of_received (hinv : WorkInv s) {e : SessionManagerEvent}
    (hl : s.loop = .received e) : ∃ a t, s.Due a ∧ s.step a = some t := by
  cases ht : e.type with
  | sessionCreated =>
    refine ⟨.getQueue, ?_⟩
    simp only [State.step, State.getQueue, hl, ht]
    split
    · exact ⟨_, rfl, rfl⟩
    · exact ⟨_, rfl, rfl⟩
  | sessionDeleted =>
    refine ⟨.cancelStream, ?_⟩
    simp only [State.step, State.cancelStream, hl, ht]
    cases hc : s.cancels.lookup e.sessionID with
    | none => exact ⟨_, rfl, rfl⟩
    | some g =>
      have hst := List.getElem?_eq_getElem (hinv.cancels _ g hc)
      simp only [hst]
      exact ⟨_, rfl, rfl⟩

/-- While the loop runs, a state in which nothing is due is at rest. -/
theorem atRest_of_stuck (hinv : WorkInv s) (hopen : s.closed = false) (hl : s.loop ≠ .returned)
    (hstuck : ∀ a, s.Due a → s.step a = none) : AtRest s := by
  have hidle : s.loop = .idle := by
    cases hloop : s.loop with
    | idle => rfl
    | returned => exact absurd hloop hl
    | received e =>
      obtain ⟨a, t, ha, hs⟩ := handle_of_received hinv hloop
      rw [hstuck a ha] at hs
      cases hs
    | starting g =>
      obtain ⟨st, hst, -⟩ := hinv.starting g hloop
      have hs := hstuck .start rfl
      simp only [State.step, State.start, hloop, hst] at hs
      cases hs
  have hevents : s.manager.events.buf = [] := by
    by_contra hb
    obtain ⟨t, hs⟩ := receive_of_event hidle hb
    rw [hstuck .receive rfl] at hs
    cases hs
  -- the channel is empty, so a call in its `select` would be sent
  refine ⟨hidle, hevents, fun c e hc => ?_, fun g st hst hcancelled hphase => ?_,
    fun g st hst hphase hc => ?_⟩
  · obtain ⟨t, hs⟩ := send_of_room hc hopen (by rw [hevents]; decide)
    rw [hstuck (.send c) rfl] at hs
    cases hs
  · have hs := hstuck (.endStream g) ⟨st, hst, hcancelled⟩
    simp only [State.step, State.endStream, hst, hphase, if_true] at hs
    cases hs
  · have hs := hstuck (.endSession g) rfl
    simp only [State.step, State.endSession, hst, hphase, if_true, State.deleteSession, hc] at hs
    cases hs

theorem countP_of_internal {as : List Action} (h : ∀ a ∈ as, a.internal = true) :
    as.countP Action.internal = as.length ∧ as.countP Action.isCreate = 0 ∧
      as.countP Action.isDelete = 0 := by
  refine ⟨List.countP_eq_length.mpr h, List.countP_eq_zero.mpr fun a ha => ?_,
    List.countP_eq_zero.mpr fun a ha => ?_⟩
  all_goals
    have hinternal := h a ha
    revert hinternal
    cases a <;> simp [Action.internal, Action.isCreate, Action.isDelete]

theorem work_reachable {maxSessions : Int} (h : Reachable (sessionSystem maxSessions) s) :
    WorkInv s ∧ ∃ n, Potential s n := by
  refine h.invariant (I := fun s => WorkInv s ∧ ∃ n, Potential s n) ?_ ?_
  · rintro _ rfl
    exact ⟨workInv_initial maxSessions, 1, potential_initial maxSessions⟩
  · rintro s a t - ⟨hi, n, hn⟩ - hs
    obtain ⟨m, hm, -⟩ := potential_action hi hn hs
    exact ⟨workInv_step hi hs, m, hm⟩

end QuiescenceLemmas

/-- For every cap and every reachable state, as long as nobody closes `Events`. -/
theorem comes_to_rest {maxSessions : Int} {s : State}
    (h : Reachable (sessionSystem maxSessions) s) (hopen : s.closed = false) :
    ∃ bound, ∀ as t, (∀ a ∈ as, a.internal = true) →
      run (sessionSystem maxSessions) s as = some t →
        as.length ≤ bound ∧
          ((∀ a, t.Due a → t.step a = none) → AtRest t ∨ t.loop = .returned) := by
  obtain ⟨hinv, n, hn⟩ := work_reachable h
  refine ⟨n, fun as t has hr => ?_⟩
  obtain ⟨hinv', hle⟩ := run_work hinv hn hr
  obtain ⟨hsteps, hcreate, hdelete⟩ := countP_of_internal has
  rw [hsteps, hcreate, hdelete] at hle
  have hopen' : t.closed = false :=
    run_keeps (I := fun s => s.closed = false)
      (fun _ _ _ ha hi hs => (closed_of_internal ha hs).trans hi) has hopen hr
  refine ⟨hle, fun hstuck => ?_⟩
  by_cases hl : t.loop = .returned
  · exact .inr hl
  · exact .inl (atRest_of_stuck hinv' hopen' hl hstuck)

/-- One station plays, and the loop has the created event of another in its hands. -/
theorem comes_to_rest_created : ∃ s, s.loop = .received ⟨.sessionCreated, "lounge", .rpc 1⟩ ∧
    s.streams.map Stream.phase = [.running] ∧
      ∃ bound, ∀ as t, (∀ a ∈ as, a.internal = true) →
        run (sessionSystem 50) s as = some t → as.length ≤ bound ∧
          ((∀ a, t.Due a → t.step a = none) → AtRest t ∨ t.loop = .returned) := by
  obtain ⟨s, hs, hp⟩ := Reachable.of_run (S := sessionSystem 50)
    (p := fun s => decide (s.loop = .received ⟨.sessionCreated, "lounge", .rpc 1⟩ ∧
      s.streams.map Stream.phase = [.running] ∧ s.closed = false))
    [.createSession 0 "station" none, .send (.rpc 0), .receive, .getQueue, .start,
      .createSession 1 "lounge" none, .send (.rpc 1), .receive] rfl (by decide)
  obtain ⟨hloop, hphases, hopen⟩ := of_decide_eq_true hp
  exact ⟨s, hloop, hphases, comes_to_rest hs hopen⟩

end RadioJockey.Streams
