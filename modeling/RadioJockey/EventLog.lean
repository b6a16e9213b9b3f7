import RadioJockey.Lib.LastWrite
import RadioJockey.Streams

/-!
# The event stream as a log of the registry

Whoever reads `Events` can only know the registry from it. The map is updated
under the lock, but the events are sent after it, so two calls on one id may
send in the opposite order from their updates.

1. `log_swapped`: a create and a delete of the same id swap their events. The
   registry is empty, and the log says that the session is there.
2. `log_faithful`: in every run in which no call overtakes another one that made
   its map update on the same id before it, the other way, the replay of the log
   is the registry whenever no call is on its way from its update to its send. A
   delete that finds no entry makes its update all the same.
-/

namespace RadioJockey.Streams

open Transition LastWrite

/-- The event that announces a change of the map. -/
def Effect.announced : Effect → Option SessionManagerEvent
  | .registered c id _ => some ⟨.sessionCreated, id, c⟩
  | .erased c id _ => some ⟨.sessionDeleted, id, c⟩
  | _ => none

def Effect.sentEvent : Effect → Option SessionManagerEvent
  | .sent e => some e
  | _ => none

/-- The changes of the map, as the events that announce them, last one first. -/
def updates (s : State) : List SessionManagerEvent := s.history.filterMap Effect.announced

/-- The events that have entered the channel, last one first. -/
def eventLog (s : State) : List SessionManagerEvent := s.history.filterMap Effect.sentEvent

/-- A created event adds its id to the empty set, and a deleted one removes it,
from the first event sent on. -/
def replayEvents (log : List SessionManagerEvent) : Finset SessionID :=
  replay SessionManagerEvent.sessionID (fun e => e.type = .sessionCreated) log

def registeredIDs (s : State) : Finset SessionID := s.manager.listSessions.toFinset

/-- No call is between its map update and its send. -/
def Settled (s : State) : Prop := ∀ c e, s.calls c ≠ .sending e

def FaithfulLog (s : State) : Prop := Settled s → replayEvents (eventLog s) = registeredIDs s

/-- The contexts of the callers are never cancelled. -/
def Uncancelled : Action → Prop
  | .cancelCall _ => False
  | _ => True

/-- The events are about one id, and they say different things about it. -/
def Contradict (e e' : SessionManagerEvent) : Prop := e.sessionID = e'.sessionID ∧ e.type ≠ e'.type

instance (e e' : SessionManagerEvent) : Decidable (Contradict e e') :=
  inferInstanceAs (Decidable (_ ∧ _))

/-- The event `e` does not overtake an event that contradicts it: what is still
to be sent announces a later change of the map. -/
def SentInTurn (s : State) (e : SessionManagerEvent) : Prop :=
  ∀ e' ∈ updates s, s.calls e'.caller = .sending e' → Contradict e' e → [e', e].Sublist (updates s)

instance (s : State) (e : SessionManagerEvent) : Decidable (SentInTurn s e) :=
  inferInstanceAs (Decidable (∀ e' ∈ updates s, _ → _ → _))

/-- The guard of `log_faithful`. -/
def InTurn (s : State) : Action → Prop
  | .send c => ∀ e, s.calls c = .sending e → SentInTurn s e
  | _ => True

/-- Callers that wait for their turn. -/
def UncancelledInTurn (s : State) (a : Action) : Prop := Uncancelled a ∧ InTurn s a

instance : ∀ a, Decidable (Uncancelled a)
  | .cancelCall _ => .isFalse id
  | .createSession .. | .deleteSession .. | .send _ | .abandon _ | .receive | .loopDone
  | .getQueue | .start | .cancelStream | .endStream _ | .endSession _ | .shutdown
  | .closeEvents => .isTrue trivial

instance (s : State) : ∀ a, Decidable (InTurn s a)
  | .send c =>
    match hc : s.calls c with
    | .sending e => decidable_of_iff (SentInTurn s e)
        ⟨fun h _ he => Call.sending.inj (hc.symm.trans he) ▸ h, fun h => h e hc⟩
    | .idle => .isTrue fun _ he => nomatch hc.symm.trans he
    | .returned _ => .isTrue fun _ he => nomatch hc.symm.trans he
  | .createSession .. | .deleteSession .. | .cancelCall _ | .abandon _ | .receive | .loopDone
  | .getQueue | .start | .cancelStream | .endStream _ | .endSession _ | .shutdown
  | .closeEvents => .isTrue trivial

instance (s : State) (a : Action) : Decidable (UncancelledInTurn s a) :=
  inferInstanceAs (Decidable (_ ∧ _))

/-- The session is created and deleted, and the deleted event is sent first. -/
theorem log_swapped :
    ∃ s, Reach (sessionSystem 50) (fun _ a => Uncancelled a) s ∧ Settled s ∧
      replayEvents (eventLog s) = {"station"} ∧ registeredIDs s = ∅ ∧ ¬ FaithfulLog s := by
  let as : List Action :=
    [.createSession 0 "station" none, .deleteSession 1 "station", .send (.rpc 1), .send (.rpc 0)]
  obtain ⟨s, hrun⟩ : ∃ s, run (sessionSystem 50) (.initial 50) as = some s := ⟨_, rfl⟩
  have hs : Reach (sessionSystem 50) (fun _ a => Uncancelled a) s :=
    Reach.run (.init rfl) (by simp [as, Uncancelled]) hrun
  have hlog : replayEvents (eventLog s) = {"station"} ∧ registeredIDs s = ∅ := by
    have h : (run (sessionSystem 50) (.initial 50) as).map
        (fun s => decide (replayEvents (eventLog s) = {"station"} ∧ registeredIDs s = ∅)) =
          some true := by decide
    rw [hrun] at h
    exact of_decide_eq_true (Option.some.inj h)
  have hcalls : ∀ c, s.calls c = .idle ∨ s.calls c = .returned none := by
    have h : ∀ c, ((run (sessionSystem 50) (.initial 50) as).map fun s => s.calls c) = some .idle ∨
        ((run (sessionSystem 50) (.initial 50) as).map fun s => s.calls c) =
          some (.returned none) := by
      intro c
      by_cases h0 : c = .rpc 0
      · subst h0; exact .inr rfl
      by_cases h1 : c = .rpc 1
      · subst h1; exact .inr rfl
      refine .inl ?_
      show some (Function.update _ _ _ _) = _
      simp [Function.update_of_ne h0, Function.update_of_ne h1, State.initial]
    simpa [hrun] using h
  have hsettled : Settled s := by
    intro c e h
    rcases hcalls c with hc | hc <;> rw [hc] at h <;> cases h
  refine ⟨s, hs, hsettled, hlog.1, hlog.2, fun hf => ?_⟩
  have heq := hf hsettled
  rw [hlog.1, hlog.2] at heq
  exact absurd heq (by decide)

/-! ## The invariant -/

/-- Every change of the map is announced once, now or later, and no event in the
log has overtaken one that contradicts it. -/
structure LogInv (s : State) : Prop where
  patient : ∀ c, s.callDone c = false
  nodup : (updates s).Nodup
  announced : ∀ e ∈ updates s, s.calls e.caller = .sending e ∨ e ∈ eventLog s
  sending : ∀ c e, s.calls c = .sending e → e.caller = c ∧ e ∈ updates s
  logged : ∀ e ∈ eventLog s, e ∈ updates s ∧ s.calls e.caller = .returned none
  /-- What is still to be sent comes after what contradicts it in the log. -/
  later : ∀ c e, s.calls c = .sending e → ∀ e' ∈ eventLog s, Contradict e e' →
    [e, e'].Sublist (updates s)
  order : SameOrder SessionManagerEvent.sessionID SessionManagerEvent.type (eventLog s) (updates s)
  registry : ∀ id, s.manager.sessions.lookup id ≠ none ↔
    (newest SessionManagerEvent.sessionID id (updates s)).map SessionManagerEvent.type =
      some .sessionCreated

namespace EventLogLemmas

theorem Contradict.symm {e e' : SessionManagerEvent} (h : Contradict e e') : Contradict e' e :=
  ⟨h.1.symm, Ne.symm h.2⟩

/-- A step that changes no entry of the map and sends nothing. At most, a call
that has changed nothing returns an error. -/
theorem logInv_frame {s t : State} (hinv : LogInv s) (hhist : t.history = s.history)
    (hcalls : ∀ c, t.calls c = s.calls c ∨
      s.calls c = .idle ∧ ∃ err, t.calls c = .returned (some err))
    (hdone : t.callDone = s.callDone)
    (hsessions : t.manager.sessions = s.manager.sessions) : LogInv t := by
  have hupdates : updates t = updates s := congrArg (List.filterMap Effect.announced) hhist
  have hlog : eventLog t = eventLog s := congrArg (List.filterMap Effect.sentEvent) hhist
  have hbusy : ∀ c x, x ≠ .idle → s.calls c = x → t.calls c = x := by
    intro c x hx hc
    rcases hcalls c with h | ⟨h, -⟩
    · exact h.trans hc
    · exact absurd (hc.symm.trans h) hx
  have hsending : ∀ c e, t.calls c = .sending e → s.calls c = .sending e := by
    intro c e h
    rcases hcalls c with hc | ⟨-, err, hc⟩
    · exact hc.symm.trans h
    · rw [hc] at h; cases h
  constructor
  case patient => rw [hdone]; exact hinv.patient
  case nodup => rw [hupdates]; exact hinv.nodup
  case announced =>
    rw [hupdates, hlog]
    intro e he
    exact (hinv.announced e he).imp (hbusy _ _ nofun) id
  case sending =>
    rw [hupdates]
    exact fun c e h => hinv.sending c e (hsending c e h)
  case logged =>
    rw [hupdates, hlog]
    exact fun e he => ⟨(hinv.logged e he).1, hbusy _ _ nofun (hinv.logged e he).2⟩
  case later =>
    rw [hupdates, hlog]
    exact fun c e h => hinv.later c e (hsending c e h)
  case order => rw [hupdates, hlog]; exact hinv.order
  case registry => rw [hupdates, hsessions]; exact hinv.registry

/-- A call `c` changes the entry of `e.sessionID` and is about to send `e`. -/
theorem logInv_update {s t : State} {c : Caller} {e : SessionManagerEvent} {eff : Effect}
    (hinv : LogInv s) (hidle : s.calls c = .idle) (hcaller : e.caller = c)
    (heff : eff.announced = some e) (hsent : eff.sentEvent = none)
    (hhist : t.history = eff :: s.history)
    (hcalls : t.calls = Function.update s.calls c (.sending e)) (hdone : t.callDone = s.callDone)
    (hkey : t.manager.sessions.lookup e.sessionID ≠ none ↔ e.type = .sessionCreated)
    (hrest : ∀ id, id ≠ e.sessionID →
      t.manager.sessions.lookup id = s.manager.sessions.lookup id) : LogInv t := by
  have hupdates : updates t = e :: updates s := by
    rw [updates, hhist, List.filterMap_cons_some heff]
    rfl
  have hlog : eventLog t = eventLog s := by
    rw [eventLog, hhist, List.filterMap_cons_none hsent]
    rfl
  -- the call is new, so nothing announces it yet
  have hother : ∀ e' ∈ updates s, e'.caller ≠ c := by
    rintro e' he' rfl
    rcases hinv.announced e' he' with h | h
    · cases hidle.symm.trans h
    · cases hidle.symm.trans (hinv.logged e' h).2
  have hsame : ∀ c', c' ≠ c → t.calls c' = s.calls c' := by
    intro c' hc'
    rw [hcalls, Function.update_of_ne hc']
  have hself : t.calls c = .sending e := by rw [hcalls, Function.update_self]
  constructor
  case patient => rw [hdone]; exact hinv.patient
  case nodup =>
    rw [hupdates]
    exact List.nodup_cons.mpr ⟨fun he => hother e he hcaller, hinv.nodup⟩
  case announced =>
    rw [hupdates, hlog]
    intro e' he'
    rcases List.mem_cons.mp he' with rfl | he'
    · rw [hcaller]; exact .inl hself
    · rw [hsame _ (hother e' he')]
      exact hinv.announced e' he'
  case sending =>
    rw [hupdates, hcalls]
    intro c' e' h
    rcases State.sending_of_update h with ⟨rfl, he⟩ | ⟨-, h⟩
    · cases he
      exact ⟨hcaller, List.mem_cons_self⟩
    · exact ⟨(hinv.sending c' e' h).1, List.mem_cons_of_mem _ (hinv.sending c' e' h).2⟩
  case logged =>
    rw [hupdates, hlog]
    intro e' he'
    obtain ⟨hmem, hret⟩ := hinv.logged e' he'
    exact ⟨List.mem_cons_of_mem _ hmem, (hsame _ (hother e' hmem)).trans hret⟩
  case later =>
    rw [hupdates, hlog, hcalls]
    intro c' e' h e'' he'' hcon
    rcases State.sending_of_update h with ⟨-, he⟩ | ⟨-, h⟩
    · cases he
      exact (List.singleton_sublist.mpr (hinv.logged e'' he'').1).cons_cons _
    · exact (hinv.later c' e' h e'' he'' hcon).cons _
  case order =>
    rw [hupdates, hlog]
    exact hinv.order.imp fun h hk hd => (h hk hd).cons _
  case registry =>
    rw [hupdates]
    intro id
    by_cases hid : id = e.sessionID
    · subst hid
      rw [newest_cons_self, Option.map_some, Option.some.injEq]
      exact hkey
    · rw [newest_cons_ne _ hid, hrest id hid]
      exact hinv.registry id

theorem logInv_delete {s t : State} {c : Caller} {id : SessionID} (hinv : LogInv s)
    (hidle : s.calls c = .idle)
    (ht : t = { s with
      manager := s.manager.deleteSession id
      calls := Function.update s.calls c (.sending ⟨.sessionDeleted, id, c⟩)
      history := .erased c id (s.manager.sessions.lookup id) :: s.history }) : LogInv t := by
  subst ht
  refine logInv_update (e := ⟨.sessionDeleted, id, c⟩) hinv hidle rfl rfl rfl rfl rfl rfl ?_ ?_
  · simp
  · exact fun id' hne => SessionManager.deleteSession_lookup_ne _ hne

theorem logInv_send {s t : State} {c : Caller} (hinv : LogInv s) (hg : InTurn s (.send c))
    (h : s.send c = some t) : LogInv t := by
  obtain ⟨e, m, hc, hm, rfl⟩ := State.send_eq_some h
  obtain ⟨-, -, hsessions, -⟩ := SessionManager.send_eq_some hm
  obtain ⟨hcaller, hmem⟩ := hinv.sending c e hc
  have hturn : SentInTurn s e := hg e hc
  have hself : Function.update s.calls c (.returned none) e.caller = .returned none := by
    rw [hcaller, Function.update_self]
  -- the other changes of the map are announced by other calls
  have hsame : ∀ e' ∈ updates s, e' ≠ e →
      Function.update s.calls c (.returned none) e'.caller = s.calls e'.caller ∨
        e' ∈ eventLog s := by
    intro e' he' hne
    rcases hinv.announced e' he' with h | h
    · refine .inl (Function.update_of_ne ?_ _ _)
      intro heq
      rw [heq, hc] at h
      cases h
      exact hne rfl
    · exact .inr h
  show LogInv { s with manager := m, calls := _, history := .sent e :: s.history }
  constructor
  case patient => exact hinv.patient
  case nodup => exact hinv.nodup
  case announced =>
    intro e' he'
    by_cases hne : e' = e
    · exact .inr (hne ▸ List.mem_cons_self)
    · rcases hsame e' he' hne with h | h
      · rcases hinv.announced e' he' with h' | h'
        · exact .inl (h.trans h')
        · exact .inr (List.mem_cons_of_mem _ h')
      · exact .inr (List.mem_cons_of_mem _ h)
  case sending => exact fun c' e' h' => hinv.sending c' e' (State.sending_of_returned h')
  case logged =>
    intro e' he'
    rcases List.mem_cons.mp he' with rfl | he'
    · exact ⟨hmem, hself⟩
    · obtain ⟨hup, hret⟩ := hinv.logged e' he'
      refine ⟨hup, ?_⟩
      by_cases hce : e'.caller = c
      · rw [hce, hc] at hret; cases hret
      · exact (Function.update_of_ne hce _ _).trans hret
  case later =>
    intro c' e' h' e'' he'' hcon
    have hs : s.calls c' = .sending e' := State.sending_of_returned h'
    rcases List.mem_cons.mp he'' with rfl | he''
    · -- the guard: `e'` waits, so it announces a later change
      obtain ⟨hc', hup⟩ := hinv.sending c' e' hs
      exact hturn e' hup (hc' ▸ hs) hcon
    · exact hinv.later c' e' hs e'' he'' hcon
  case order =>
    refine List.pairwise_cons.mpr ⟨?_, hinv.order⟩
    exact fun e' he' hk hd => hinv.later c e hc e' he' ⟨hk, hd⟩
  case registry =>
    show ∀ id, m.sessions.lookup id ≠ none ↔ _
    rw [hsessions]
    exact hinv.registry

end EventLogLemmas

open EventLogLemmas

theorem logInv_step {s t : State} {a : Action} (hinv : LogInv s) (hg : UncancelledInTurn s a)
    (h : s.step a = some t) : LogInv t := by
  cases a with
  | createSession n id archiveID =>
    obtain ⟨hc, ⟨err, -, rfl⟩ | ⟨-, -, rfl⟩⟩ := State.createSession_eq_some h
    · refine logInv_frame hinv rfl (fun c => ?_) rfl rfl
      rcases eq_or_ne c (.rpc n) with rfl | hne
      · exact .inr ⟨hc, err, Function.update_self ..⟩
      · exact .inl (Function.update_of_ne hne _ _)
    · refine logInv_update (e := ⟨.sessionCreated, id, .rpc n⟩) hinv hc rfl rfl rfl rfl rfl rfl
        ?_ ?_
      · simp
      · exact fun id' hne => SessionManager.register_lookup_ne _ _ hne
  | deleteSession n id =>
    obtain ⟨hc, ht⟩ := State.deleteSession_eq_some h
    exact logInv_delete hinv hc ht
  | endSession g =>
    obtain ⟨st, -, -, hc, ht⟩ := State.endSession_eq_some h
    exact logInv_delete hinv hc ht
  | send c => exact logInv_send hinv hg.2 h
  | abandon c =>
    obtain ⟨e, -, hd, -⟩ := State.abandon_eq_some h
    rw [hinv.patient] at hd
    cases hd
  | cancelCall c => exact absurd hg.1 id
  | receive =>
    obtain ⟨-, ⟨e, m, hm, rfl⟩ | ⟨-, -, rfl⟩⟩ := State.receive_eq_some h
    · exact logInv_frame hinv rfl (fun _ => .inl rfl) rfl (SessionManager.receive_eq_some hm).2.1
    · exact logInv_frame hinv rfl (fun _ => .inl rfl) rfl rfl
  | loopDone =>
    obtain ⟨-, -, rfl⟩ := State.loopDone_eq_some h
    exact logInv_frame hinv rfl (fun _ => .inl rfl) rfl rfl
  | getQueue =>
    obtain ⟨e, -, -, ⟨-, rfl⟩ | ⟨q, -, rfl⟩⟩ := State.getQueue_eq_some h
    · exact logInv_frame hinv rfl (fun _ => .inl rfl) rfl rfl
    · exact logInv_frame hinv rfl (fun _ => .inl rfl) rfl rfl
  | start =>
    obtain ⟨g, st, -, -, rfl⟩ := State.start_eq_some h
    exact logInv_frame hinv rfl (fun _ => .inl rfl) rfl rfl
  | cancelStream =>
    obtain ⟨e, -, -, ⟨-, rfl⟩ | ⟨g, st, -, -, rfl⟩⟩ := State.cancelStream_eq_some h
    · exact logInv_frame hinv rfl (fun _ => .inl rfl) rfl rfl
    · exact ⟨hinv.patient, hinv.nodup, hinv.announced, hinv.sending, hinv.logged, hinv.later,
        hinv.order, hinv.registry⟩
  | endStream g =>
    obtain ⟨st, -, -, rfl⟩ := State.endStream_eq_some h
    exact logInv_frame hinv rfl (fun _ => .inl rfl) rfl rfl
  | shutdown | closeEvents =>
    cases h
    exact logInv_frame hinv rfl (fun _ => .inl rfl) rfl rfl

theorem logInv_initial (maxSessions : Int) : LogInv (.initial maxSessions) := by
  constructor
  case patient => exact fun _ => rfl
  case nodup => exact List.nodup_nil
  case announced => exact fun e h => nomatch h
  case sending => exact fun c e h => nomatch h
  case logged => exact fun e h => nomatch h
  case later => exact fun c e h => nomatch h
  case order => exact List.Pairwise.nil
  case registry => exact fun id => iff_of_false (fun h => h rfl) nofun

/-- When no call is on its way, the log has every change of the map, in an order
that agrees with that of the changes. -/
theorem faithfulLog_of_inv {s : State} (hinv : LogInv s) : FaithfulLog s := by
  intro hsettled
  have hmem : ∀ e, e ∈ eventLog s ↔ e ∈ updates s := by
    intro e
    refine ⟨fun he => (hinv.logged e he).1, fun he => ?_⟩
    exact (hinv.announced e he).resolve_left (hsettled _ _)
  ext id
  have hnewest := kind_newest hmem hinv.order hinv.nodup id
  have hkeys : id ∈ registeredIDs s ↔ s.manager.sessions.lookup id ≠ none := by
    rw [registeredIDs, SessionManager.listSessions, List.mem_toFinset, ← AList.mem_keys,
      ← AList.lookup_isSome, Option.isSome_iff_ne_none]
  rw [hkeys, hinv.registry, ← hnewest, replayEvents, mem_replay]
  cases newest SessionManagerEvent.sessionID id (eventLog s) <;> simp

/-- In every run of callers whose contexts are never cancelled and who do not
overtake each other, the events sent so far replay to the registry whenever no
call is between its map update and its send. -/
theorem log_faithful {maxSessions : Int} {s : State}
    (h : Reach (sessionSystem maxSessions) UncancelledInTurn s) : FaithfulLog s := by
  have hinv : LogInv s :=
    h.invariant (fun _ hi => hi ▸ logInv_initial maxSessions)
      fun _ _ _ _ hi hg hs => logInv_step hi hg hs
  exact faithfulLog_of_inv hinv

/-- The calls of `log_swapped` in their turn, and another session. -/
theorem log_faithful_in_turn :
    ∃ s, FaithfulLog s ∧ registeredIDs s = {"lounge"} ∧ (eventLog s).length = 3 := by
  obtain ⟨s, hs, hp⟩ := Reach.of_guardedRun (S := sessionSystem 50) (C := UncancelledInTurn)
    (p := fun s => decide (registeredIDs s = {"lounge"} ∧ (eventLog s).length = 3))
    [.createSession 0 "station" none, .deleteSession 1 "station", .createSession 2 "lounge" none,
      .send (.rpc 0), .send (.rpc 2), .send (.rpc 1)]
    rfl (by decide)
  exact ⟨s, log_faithful hs, of_decide_eq_true hp⟩

end RadioJockey.Streams
