import RadioJockey.Streams

/-!
# The outcome of a call

`CreateSession` and `DeleteSession` change the map, unlock, and then wait to
send their event or for their context to end. The second case returns the
context's error and undoes nothing.

1. `half_done`: a `CreateSession` whose context ends while it waits returns an
   error, and leaves a registered session that no event announces.
2. `all_or_nothing_iff`: from any registry, any fill of the channel and in any
   interleaving, a call that returns is all or nothing unless it returns
   through `ctx.Done()` after its locked section changed the map.
-/

namespace RadioJockey.Streams

open Transition

/-- The effects of the call `c` itself. The loop's cancelling of a stream is
not one of them. -/
def Effect.ofCall (c : Caller) : Effect → Bool
  | .registered c' _ _ => c' = c
  | .erased c' _ _ => c' = c
  | .sent e => e.caller = c
  | .cancelled _ _ => false

/-- The effect changes the `sessions` map: an `erased` id that was not in the
map does not. -/
def Effect.changesMap : Effect → Bool
  | .registered _ _ _ => true
  | .erased _ _ old => old.isSome
  | _ => false

/-- What the call `c` has done, last effect first. -/
def State.effects (s : State) (c : Caller) : List Effect :=
  s.history.filter (Effect.ofCall c)

/-- The event announces the change. -/
inductive Announces : SessionManagerEvent → Effect → Prop
  | created (c : Caller) (id : SessionID) (q : QueueRef) :
      Announces ⟨.sessionCreated, id, c⟩ (.registered c id q)
  | deleted (c : Caller) (id : SessionID) (old : Option QueueRef) :
      Announces ⟨.sessionDeleted, id, c⟩ (.erased c id old)

/-- A call that returns an error has changed nothing and sent nothing. One that
returns without error has made one change and sent the one event for it. A delete
of an id that is not registered makes its change too: the map is without the id. -/
def AllOrNothing (s : State) (c : Caller) : Option SessionError → Prop
  | some _ => ∀ eff ∈ s.effects c, eff.changesMap = false ∧ ∀ e, eff ≠ .sent e
  | none => ∃ e change, Announces e change ∧ s.effects c = [.sent e, change]

/-- The step `a` is the `ctx.Done()` case of the call `c`, whose locked section
has changed the map. -/
def GivesUpHalfway (s : State) (a : Action) (c : Caller) : Prop :=
  a = .abandon c ∧ ∃ eff ∈ s.effects c, eff.changesMap = true

/-- The runs from any registry, channel, loop and streams, with the calls still
to be made. -/
def callSystem : System State Action where
  init := fun s => (∀ c, s.calls c = .idle) ∧ s.history = []
  step := State.step

/-- The context of a `CreateSession` ends while the call waits in its `select`,
although there is room in the channel. -/
theorem half_done :
    ∃ s, Reachable callSystem s ∧ s.calls (.rpc 0) = .returned (some .contextError) ∧
      s.manager.sessions.lookup "station" = some 0 ∧ s.manager.events.buf = [] ∧
      ¬ AllOrNothing s (.rpc 0) (some .contextError) := by
  obtain ⟨s, hs, hp⟩ := Reachable.of_run (S := callSystem)
    (p := fun s => decide (s.calls (.rpc 0) = .returned (some .contextError) ∧
      s.manager.sessions.lookup "station" = some 0 ∧ s.manager.events.buf = [] ∧
      .registered (.rpc 0) "station" 0 ∈ s.history))
    [.createSession 0 "station" none, .cancelCall (.rpc 0), .abandon (.rpc 0)]
    (show callSystem.init (.initial 50) from ⟨fun _ => rfl, rfl⟩) (by decide)
  obtain ⟨hc, hl, hb, hreg⟩ := of_decide_eq_true hp
  refine ⟨s, hs, hc, hl, hb, fun h => ?_⟩
  have hmem : Effect.registered (.rpc 0) "station" 0 ∈ s.effects (.rpc 0) :=
    List.mem_filter.mpr ⟨hreg, rfl⟩
  cases (h _ hmem).1

/-! ## What a step does to the calls -/

/-- A call is refused by its locked section, or passes it, or sends its event,
or gives up. All other steps leave the calls alone. -/
inductive CallStep (s t : State) : Action → Prop
  | refused {a : Action} {c : Caller} {err : SessionError} :
      s.calls c = .idle → a ≠ .abandon c →
      t.calls = Function.update s.calls c (.returned (some err)) → t.history = s.history →
      CallStep s t a
  | locked {a : Action} {c : Caller} {e : SessionManagerEvent} {change : Effect} :
      s.calls c = .idle → e.caller = c → Announces e change →
      t.calls = Function.update s.calls c (.sending e) → t.history = change :: s.history →
      CallStep s t a
  | sent {c : Caller} {e : SessionManagerEvent} :
      s.calls c = .sending e → t.calls = Function.update s.calls c (.returned none) →
      t.history = .sent e :: s.history → CallStep s t (.send c)
  | gaveUp {c : Caller} {e : SessionManagerEvent} :
      s.calls c = .sending e →
      t.calls = Function.update s.calls c (.returned (some .contextError)) →
      t.history = s.history → CallStep s t (.abandon c)
  | other {a : Action} :
      t.calls = s.calls →
      (t.history = s.history ∨ ∃ c g, t.history = .cancelled c g :: s.history) → CallStep s t a

theorem callStep {s t : State} {a : Action} (h : s.step a = some t) : CallStep s t a := by
  cases a with
  | createSession n id archiveID =>
    obtain ⟨hidle, ⟨err, -, rfl⟩ | ⟨-, -, rfl⟩⟩ := State.createSession_eq_some h
    · exact .refused hidle nofun rfl rfl
    · exact .locked hidle rfl (.created _ id _) rfl rfl
  | deleteSession n id =>
    obtain ⟨hidle, rfl⟩ := State.deleteSession_eq_some h
    exact .locked hidle rfl (.deleted _ id _) rfl rfl
  | endSession g =>
    obtain ⟨st, -, -, hidle, rfl⟩ := State.endSession_eq_some h
    exact .locked hidle rfl (.deleted _ st.sessionID _) rfl rfl
  | send c =>
    obtain ⟨e, m, hc, -, rfl⟩ := State.send_eq_some h
    exact .sent hc rfl rfl
  | abandon c =>
    obtain ⟨e, hc, -, rfl⟩ := State.abandon_eq_some h
    exact .gaveUp hc rfl rfl
  | receive =>
    obtain ⟨-, ⟨e, m, -, rfl⟩ | ⟨-, -, rfl⟩⟩ := State.receive_eq_some h
    · exact .other rfl (.inl rfl)
    · exact .other rfl (.inl rfl)
  | loopDone =>
    obtain ⟨-, -, rfl⟩ := State.loopDone_eq_some h
    exact .other rfl (.inl rfl)
  | getQueue =>
    obtain ⟨e, -, -, ⟨-, rfl⟩ | ⟨q, -, rfl⟩⟩ := State.getQueue_eq_some h
    · exact .other rfl (.inl rfl)
    · exact .other rfl (.inl rfl)
  | start =>
    obtain ⟨g, st, -, -, rfl⟩ := State.start_eq_some h
    exact .other rfl (.inl rfl)
  | cancelStream =>
    obtain ⟨e, -, -, ⟨-, rfl⟩ | ⟨g, st, -, -, rfl⟩⟩ := State.cancelStream_eq_some h
    · exact .other rfl (.inl rfl)
    · exact .other rfl (.inr ⟨_, _, rfl⟩)
  | endStream g =>
    obtain ⟨st, -, -, rfl⟩ := State.endStream_eq_some h
    exact .other rfl (.inl rfl)
  | cancelCall c | shutdown | closeEvents =>
    cases h
    exact .other rfl (.inl rfl)

/-! ## The invariant -/

/-- What a call has done so far. -/
def CallInv (s : State) (c : Caller) : Prop :=
  match s.calls c with
  | .idle => s.effects c = []
  | .sending e => e.caller = c ∧ ∃ change, Announces e change ∧ s.effects c = [change]
  | .returned _ => True

namespace AllOrNothingLemmas

theorem announces_caller {e : SessionManagerEvent} {change : Effect} (h : Announces e change) :
    ∀ c, change.ofCall c = decide (e.caller = c) := by
  intro c
  cases h <;> rfl

theorem announces_not_sent {e e' : SessionManagerEvent} {change : Effect}
    (h : Announces e change) : change ≠ .sent e' := by
  intro he
  cases h <;> cases he

theorem callInv_returned {s : State} {c : Caller} {err : Option SessionError}
    (hc : s.calls c = .returned err) : CallInv s c := by
  unfold CallInv
  rw [hc]
  trivial

theorem callInv_idle {s : State} {c : Caller} (h : CallInv s c) (hc : s.calls c = .idle) :
    s.effects c = [] := by
  unfold CallInv at h
  rwa [hc] at h

theorem callInv_sending {s : State} {c : Caller} {e : SessionManagerEvent} (h : CallInv s c)
    (hc : s.calls c = .sending e) :
    e.caller = c ∧ ∃ change, Announces e change ∧ s.effects c = [change] := by
  unfold CallInv at h
  rwa [hc] at h

/-- A step that is none of the call's own. -/
theorem callInv_frame {s t : State} {c : Caller} (hinv : CallInv s c)
    (hcalls : t.calls c = s.calls c) (heff : t.effects c = s.effects c) : CallInv t c := by
  unfold CallInv at hinv ⊢
  rw [hcalls, heff]
  exact hinv

theorem effects_cons (s : State) (c : Caller) (eff : Effect) :
    (eff :: s.history).filter (Effect.ofCall c) =
      if eff.ofCall c then eff :: s.effects c else s.effects c :=
  List.filter_cons

/-- A step of one call leaves what is said of the other calls as it was, and
needs to be looked at for its own call only. -/
theorem callInv_update {s t : State} {c : Caller} {x : Call} {eff : Effect}
    (hinv : ∀ c, CallInv s c) (hcalls : t.calls = Function.update s.calls c x)
    (hhist : t.history = eff :: s.history) (heff : ∀ c', eff.ofCall c' = decide (c = c'))
    (hown : CallInv t c) : ∀ c', CallInv t c' := by
  intro c'
  by_cases hc : c' = c
  · exact hc ▸ hown
  · refine callInv_frame (hinv c') (by rw [hcalls, Function.update_of_ne hc]) ?_
    show t.history.filter _ = _
    rw [hhist, effects_cons, heff, decide_eq_false (Ne.symm hc)]
    rfl

/-- The same for a call that fails and leaves no trace. -/
theorem callInv_fail {s t : State} {c : Caller} {err : SessionError}
    (hinv : ∀ c, CallInv s c)
    (hcalls : t.calls = Function.update s.calls c (.returned (some err)))
    (hhist : t.history = s.history) : ∀ c', CallInv t c' := by
  intro c'
  by_cases hc : c' = c
  · subst hc
    exact callInv_returned (by rw [hcalls, Function.update_self])
  · refine callInv_frame (hinv c') (by rw [hcalls, Function.update_of_ne hc]) ?_
    show t.history.filter _ = _
    rw [hhist]
    rfl

/-- The locked section of a call: its first effect, and the event to send. -/
theorem callInv_locked {s t : State} {c : Caller} {e : SessionManagerEvent} {change : Effect}
    (hinv : ∀ c, CallInv s c) (hidle : s.calls c = .idle) (he : e.caller = c)
    (ha : Announces e change) (hcalls : t.calls = Function.update s.calls c (.sending e))
    (hhist : t.history = change :: s.history) : ∀ c', CallInv t c' := by
  have hof : ∀ c', change.ofCall c' = decide (c = c') := fun c' => he ▸ announces_caller ha c'
  refine callInv_update hinv hcalls hhist hof ?_
  have hnone : s.effects c = [] := callInv_idle (hinv c) hidle
  have heff : t.effects c = [change] := by
    show t.history.filter _ = _
    rw [hhist, effects_cons, hof, hnone, decide_eq_true rfl]
    rfl
  unfold CallInv
  rw [hcalls, Function.update_self, heff]
  exact ⟨he, change, ha, rfl⟩

end AllOrNothingLemmas

open AllOrNothingLemmas

theorem callInv_step {s t : State} {a : Action} (hinv : ∀ c, CallInv s c)
    (h : s.step a = some t) : ∀ c, CallInv t c := by
  cases callStep h with
  | refused _ _ hcalls hh => exact callInv_fail hinv hcalls hh
  | gaveUp _ hcalls hh => exact callInv_fail hinv hcalls hh
  | locked hidle he ha hcalls hh => exact callInv_locked hinv hidle he ha hcalls hh
  | @sent c e hc hcalls hh =>
    obtain ⟨he, -⟩ := callInv_sending (hinv c) hc
    have hret : t.calls c = .returned none := by rw [hcalls, Function.update_self]
    exact callInv_update hinv hcalls hh (fun c' => by rw [← he]; rfl) (callInv_returned hret)
  | other hcalls hh =>
    intro c
    refine callInv_frame (hinv c) (by rw [hcalls]) ?_
    show t.history.filter _ = _
    rcases hh with hh | ⟨c', g, hh⟩
    · rw [hh]
      rfl
    · rw [hh]
      exact effects_cons s c _

theorem callInv_reachable {s : State} (h : Reachable callSystem s) (c : Caller) : CallInv s c := by
  refine h.invariant (I := fun s => ∀ c, CallInv s c) ?_ ?_ c
  · rintro s ⟨hidle, hhist⟩ c
    unfold CallInv
    rw [hidle]
    show s.history.filter _ = []
    rw [hhist]
    rfl
  · exact fun _ _ _ _ hinv _ hs => callInv_step hinv hs

theorem returned_of_update {f : Caller → Call} {c c' : Caller} {x : Call}
    {err : Option SessionError} (h : Function.update f c' x c = .returned err)
    (hf : ∀ err', f c ≠ .returned err') : c' = c ∧ x = .returned err := by
  by_cases hc : c = c'
  · subst hc
    rw [Function.update_self] at h
    exact ⟨rfl, h⟩
  · rw [Function.update_of_ne hc] at h
    exact absurd h (hf err)

/-- A call returns in three ways: refused by its locked section, after its
send, or through `ctx.Done()`. -/
theorem returns_eq_some {s t : State} {a : Action} {c : Caller} {err : Option SessionError}
    (h : s.step a = some t) (hc : ∀ err', s.calls c ≠ .returned err')
    (hret : t.calls c = .returned err) :
    (s.calls c = .idle ∧ a ≠ .abandon c ∧ (∃ x, err = some x) ∧ t.history = s.history) ∨
    (∃ e, s.calls c = .sending e ∧ a = .send c ∧ err = none ∧ t.history = .sent e :: s.history) ∨
    (∃ e, s.calls c = .sending e ∧ a = .abandon c ∧ (∃ x, err = some x) ∧
      t.history = s.history) := by
  cases callStep h with
  | refused hidle ha hcalls hh =>
    obtain ⟨rfl, hx⟩ := returned_of_update (hcalls ▸ hret) hc
    cases hx
    exact .inl ⟨hidle, ha, ⟨_, rfl⟩, hh⟩
  | locked _ _ _ hcalls => cases (returned_of_update (hcalls ▸ hret) hc).2
  | sent hsend hcalls hh =>
    obtain ⟨rfl, hx⟩ := returned_of_update (hcalls ▸ hret) hc
    cases hx
    exact .inr (.inl ⟨_, hsend, rfl, rfl, hh⟩)
  | gaveUp hsend hcalls hh =>
    obtain ⟨rfl, hx⟩ := returned_of_update (hcalls ▸ hret) hc
    cases hx
    exact .inr (.inr ⟨_, hsend, rfl, ⟨_, rfl⟩, hh⟩)
  | other hcalls => exact absurd (hcalls ▸ hret) (hc err)

/-- In any interleaving from any registry, the step with which a call returns
leaves it all or nothing if and only if that step is not the `ctx.Done()` case
after a change of the map. -/
theorem all_or_nothing_iff {s t : State} {a : Action} {c : Caller} {err : Option SessionError}
    (h : Reachable callSystem s) (hs : s.step a = some t)
    (hc : ∀ err', s.calls c ≠ .returned err') (hret : t.calls c = .returned err) :
    AllOrNothing t c err ↔ ¬ GivesUpHalfway s a c := by
  have hinv : CallInv s c := callInv_reachable h c
  have heffects : t.history = s.history → t.effects c = s.effects c :=
    fun he => congrArg (List.filter (Effect.ofCall c)) he
  rcases returns_eq_some hs hc hret with
    ⟨hidle, ha, ⟨x, rfl⟩, hh⟩ | ⟨e, hsend, rfl, rfl, hh⟩ | ⟨e, hsend, rfl, ⟨x, rfl⟩, hh⟩
  · -- refused: no effects
    have hnone : t.effects c = [] := (heffects hh).trans (callInv_idle hinv hidle)
    refine iff_of_true ?_ fun hg => ha hg.1
    intro eff hmem
    rw [hnone] at hmem
    cases hmem
  · -- sent: the change and its event
    obtain ⟨he, change, hch, heff⟩ := callInv_sending hinv hsend
    refine iff_of_true ⟨e, change, hch, ?_⟩ fun hg => nomatch hg.1
    show t.history.filter _ = _
    have hof : (Effect.sent e).ofCall c = true := decide_eq_true he
    rw [hh, effects_cons, hof, heff]
    rfl
  · -- given up: nothing has happened only if the locked section changed nothing
    obtain ⟨-, change, hch, heff⟩ := callInv_sending hinv hsend
    constructor
    · rintro hall ⟨-, eff, hmem, hmap⟩
      rw [(hall eff (heffects hh ▸ hmem)).1] at hmap
      cases hmap
    · intro hg eff hmem
      rw [heffects hh, heff] at hmem
      cases List.mem_singleton.mp hmem
      refine ⟨?_, fun e' => announces_not_sent hch⟩
      cases hm : change.changesMap with
      | false => rfl
      | true => exact absurd ⟨rfl, change, heff ▸ List.mem_singleton_self _, hm⟩ hg

/-- A `CreateSession` that gets its event into the channel. -/
theorem all_or_nothing_sent :
    ∃ s, s.calls (.rpc 0) = .returned none ∧ AllOrNothing s (.rpc 0) none := by
  obtain ⟨s, hs, hp⟩ := Reachable.of_run (S := callSystem)
    (p := fun s => decide (s.calls (.rpc 0) = .sending ⟨.sessionCreated, "station", .rpc 0⟩) &&
      (s.step (.send (.rpc 0))).any fun t : State => decide (t.calls (.rpc 0) = .returned none))
    [.createSession 0 "station" none]
    (show callSystem.init (.initial 50) from ⟨fun _ => rfl, rfl⟩) (by decide)
  obtain ⟨hc, hany⟩ := Bool.and_eq_true_iff.mp hp
  obtain ⟨t, hst, hret⟩ := (Option.any_eq_true _ _).mp hany
  have hwait : ∀ err, s.calls (.rpc 0) ≠ .returned err := by
    intro err h
    rw [of_decide_eq_true hc] at h
    cases h
  refine ⟨t, of_decide_eq_true hret, ?_⟩
  exact (all_or_nothing_iff hs hst hwait (of_decide_eq_true hret)).mpr fun hg => nomatch hg.1

end RadioJockey.Streams
