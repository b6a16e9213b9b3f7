import RadioJockey.Streams

/-!
# The event loop and its clients

`StreamSessions` returns when `GetQueue` does not find the session of a
created event. The session may be gone by then: the map is updated before the
event is sent, and the event is handled later still.

1. `loop_dies`: a create followed by a delete of the same id ends the loop for
   good, with its context not done and `Events` open.
2. `loop_survives`: the loop survives every run in which no deletion removes a
   session whose created event is still on its way.
-/

namespace RadioJockey.Streams

open Transition

/-- A created event for `id` is on its way: some `CreateSession` call is about
to send it, or it is in the channel, or the loop has received it. -/
def CreatedInFlight (s : State) (id : SessionID) : Prop :=
  (∃ c e, s.calls c = .sending e ∧ e.type = .sessionCreated ∧ e.sessionID = id) ∨
  ∃ e ∈ s.inbox, e.type = .sessionCreated ∧ e.sessionID = id

/-- A `DeleteSession` call for `id` that finds a session does not come while a
created event for `id` is on its way. -/
def DeleteAfterHandling (s : State) (id : SessionID) : Prop :=
  s.manager.sessions.lookup id ≠ none → ¬ CreatedInFlight s id

/-- The guard of `loop_survives`: every deletion, by a client or by the end of
a stream, comes after the created events of its id were handled. -/
def HandledBeforeDelete (s : State) : Action → Prop
  | .deleteSession _ id => DeleteAfterHandling s id
  | .endSession g => ∀ st, s.streams[g]? = some st → DeleteAfterHandling s st.sessionID
  | _ => True

/-- A client creates a session and another deletes it before the created event
is handled. `GetQueue` fails and the loop is gone. -/
theorem loop_dies :
    ∃ s, Reachable (sessionSystem 50) s ∧ s.loop = .returned ∧ s.ctxDone = false ∧
      s.closed = false := by
  obtain ⟨s, hs, hp⟩ := Reachable.of_run (S := sessionSystem 50)
    (p := fun s => decide (s.loop = .returned ∧ s.ctxDone = false ∧ s.closed = false))
    [.createSession 0 "station" none, .deleteSession 1 "station", .send (.rpc 0),
      .receive, .getQueue]
    rfl (by decide)
  exact ⟨s, hs, of_decide_eq_true hp⟩

/-- What the loop relies on: the session of every created event on its way is
registered. -/
structure LoopInv (s : State) : Prop where
  registered : ∀ id, CreatedInFlight s id → s.manager.sessions.lookup id ≠ none
  alive : s.loop = .returned → s.ctxDone = true ∨ s.closed = true

namespace EventLoopLemmas

/-- Created events come only from `CreateSession` calls: when a step puts no
new one into a `select`, it puts none in flight. -/
theorem inFlight_mono {s t : State} {id : SessionID} (h : CreatedInFlight t id)
    (hcalls : ∀ c e, t.calls c = .sending e → e.type = .sessionCreated → s.calls c = .sending e)
    (hinbox : ∀ e ∈ t.inbox, e ∈ s.inbox ∨ ∃ c, s.calls c = .sending e) :
    CreatedInFlight s id := by
  rcases h with ⟨c, e, hc, ht, hid⟩ | ⟨e, he, ht, hid⟩
  · exact .inl ⟨c, e, hcalls c e hc ht, ht, hid⟩
  · rcases hinbox e he with he | ⟨c, hc⟩
    · exact .inr ⟨e, he, ht, hid⟩
    · exact .inl ⟨c, e, hc, ht, hid⟩

/-- A call that leaves its `select`, or enters it with a deleted event, sends
no created event. -/
theorem calls_mono {f : Caller → Call} {c : Caller} {x : Call}
    (hx : ∀ e, x = .sending e → e.type = .sessionDeleted) (c' : Caller)
    (e : SessionManagerEvent) (h : Function.update f c x c' = .sending e)
    (ht : e.type = .sessionCreated) : f c' = .sending e := by
  rcases State.sending_of_update h with ⟨_, h⟩ | ⟨_, h⟩
  · rw [hx e h] at ht; cases ht
  · exact h

/-- A step that leaves the registry alone and announces nothing new. -/
theorem loopInv_mono {s t : State} (hinv : LoopInv s)
    (hs : t.manager.sessions = s.manager.sessions)
    (hcalls : ∀ c e, t.calls c = .sending e → e.type = .sessionCreated → s.calls c = .sending e)
    (hinbox : ∀ e ∈ t.inbox, e ∈ s.inbox ∨ ∃ c, s.calls c = .sending e)
    (halive : t.loop = .returned → t.ctxDone = true ∨ t.closed = true) : LoopInv t := by
  refine ⟨fun id h => ?_, halive⟩
  rw [hs]
  exact hinv.registered id (inFlight_mono h hcalls hinbox)

theorem loopInv_delete {s t : State} {c : Caller} {id : SessionID} (hinv : LoopInv s)
    (hg : DeleteAfterHandling s id)
    (ht : t = { s with
      manager := s.manager.deleteSession id
      calls := Function.update s.calls c (.sending ⟨.sessionDeleted, id, c⟩)
      history := .erased c id (s.manager.sessions.lookup id) :: s.history }) : LoopInv t := by
  subst ht
  refine ⟨fun id' h => ?_, hinv.alive⟩
  have hs : CreatedInFlight s id' :=
    inFlight_mono h (calls_mono fun e he => by cases he; rfl) fun e he => .inl he
  have hreg := hinv.registered id' hs
  have hne : id' ≠ id := fun he => hg (he ▸ hreg) (he ▸ hs)
  rw [SessionManager.deleteSession_lookup_ne _ hne]
  exact hreg

/-- The loop's handling of an event takes it out of the inbox. -/
theorem inbox_handled {s : State} {e : SessionManagerEvent} (hl : s.loop = .received e) :
    ∀ e' ∈ s.manager.events.buf, e' ∈ s.inbox :=
  fun _ he' => (State.tail_sublist hl).mem he'

end EventLoopLemmas

open EventLoopLemmas

theorem loopInv_step {s t : State} {a : Action} (hinv : LoopInv s)
    (hg : HandledBeforeDelete s a) (h : s.step a = some t) : LoopInv t := by
  cases a with
  | createSession n id archiveID =>
    obtain ⟨-, ⟨err, -, rfl⟩ | ⟨-, -, rfl⟩⟩ := State.createSession_eq_some h
    · exact loopInv_mono hinv rfl (calls_mono nofun) (fun e he => .inl he) hinv.alive
    · refine ⟨fun id' h => ?_, hinv.alive⟩
      by_cases he : id' = id
      · subst he; simp
      · rw [SessionManager.register_lookup_ne _ _ he]
        -- the new event is for another id
        rcases h with ⟨c, e, hc, ht, hid⟩ | ⟨e, hmem, ht, hid⟩
        · rcases State.sending_of_update hc with ⟨_, hc⟩ | ⟨_, hc⟩
          · cases hc; exact absurd hid.symm he
          · exact hinv.registered id' (.inl ⟨c, e, hc, ht, hid⟩)
        · exact hinv.registered id' (.inr ⟨e, hmem, ht, hid⟩)
  | deleteSession n id =>
    exact loopInv_delete hinv hg (State.deleteSession_eq_some h).2
  | endSession g =>
    obtain ⟨st, hst, -, -, ht⟩ := State.endSession_eq_some h
    exact loopInv_delete hinv (hg st hst) ht
  | send c =>
    obtain ⟨e, m, hc, hm, rfl⟩ := State.send_eq_some h
    obtain ⟨-, hb, hs, -⟩ := SessionManager.send_eq_some hm
    refine loopInv_mono hinv hs (calls_mono nofun) ?_ hinv.alive
    -- the inbox has gained the event of `c` at its end
    intro e' he'
    rw [State.inbox_send _ _ hb] at he'
    rcases List.mem_append.mp he' with hmem | hmem
    · exact .inl hmem
    · exact .inr ⟨c, List.mem_singleton.mp hmem ▸ hc⟩
  | abandon c =>
    obtain ⟨e, -, -, rfl⟩ := State.abandon_eq_some h
    exact loopInv_mono hinv rfl (calls_mono nofun) (fun e he => .inl he) hinv.alive
  | cancelCall c => cases h; exact ⟨hinv.registered, hinv.alive⟩
  | receive =>
    have hinbox := State.inbox_receive h
    obtain ⟨-, ⟨e, m, hm, rfl⟩ | ⟨-, hc, rfl⟩⟩ := State.receive_eq_some h
    · obtain ⟨-, hs, -⟩ := SessionManager.receive_eq_some hm
      exact loopInv_mono hinv hs (fun _ _ hc _ => hc) (fun _ he' => .inl (hinbox ▸ he')) nofun
    · exact loopInv_mono hinv rfl (fun _ _ hc _ => hc) (fun _ he' => .inl (hinbox ▸ he'))
        fun _ => .inr hc
  | loopDone =>
    have hinbox := State.inbox_loopDone h
    obtain ⟨-, hd, rfl⟩ := State.loopDone_eq_some h
    exact loopInv_mono hinv rfl (fun _ _ hc _ => hc) (fun _ he' => .inl (hinbox ▸ he'))
      fun _ => .inl hd
  | getQueue =>
    obtain ⟨e, hl, ht, ⟨hnone, rfl⟩ | ⟨q, -, rfl⟩⟩ := State.getQueue_eq_some h
    · -- the event in hand is on its way, so its session is registered
      have hmem : e ∈ s.inbox := State.inbox_received hl ▸ List.mem_cons_self
      exact absurd hnone (hinv.registered e.sessionID (.inr ⟨e, hmem, ht, rfl⟩))
    · exact loopInv_mono hinv rfl (fun _ _ hc _ => hc)
        (fun e' he' => .inl (inbox_handled hl e' he')) nofun
  | start =>
    have hinbox := State.inbox_start h
    obtain ⟨g, st, -, -, rfl⟩ := State.start_eq_some h
    exact loopInv_mono hinv rfl (fun _ _ hc _ => hc) (fun _ he' => .inl (hinbox ▸ he')) nofun
  | cancelStream =>
    obtain ⟨e, hl, -, ⟨-, rfl⟩ | ⟨g, st, -, -, rfl⟩⟩ := State.cancelStream_eq_some h
    · exact loopInv_mono hinv rfl (fun _ _ hc _ => hc)
        (fun e' he' => .inl (inbox_handled hl e' he')) nofun
    · exact loopInv_mono hinv rfl (fun _ _ hc _ => hc)
        (fun e' he' => .inl (inbox_handled hl e' he')) nofun
  | endStream g =>
    obtain ⟨st, -, -, rfl⟩ := State.endStream_eq_some h
    exact ⟨hinv.registered, hinv.alive⟩
  | shutdown => cases h; exact ⟨hinv.registered, fun _ => .inl rfl⟩
  | closeEvents => cases h; exact ⟨hinv.registered, fun _ => .inr rfl⟩

theorem loopInv_initial (maxSessions : Int) : LoopInv (.initial maxSessions) := by
  refine ⟨?_, nofun⟩
  rintro id (⟨c, e, hc, -⟩ | ⟨e, he, -⟩)
  · cases hc
  · cases he

/-- The loop survives every run in which no deletion removes a session whose
created event is still on its way: it has returned only when its context is
done or `Events` was closed. -/
theorem loop_survives {maxSessions : Int} {s : State}
    (h : Reach (sessionSystem maxSessions) HandledBeforeDelete s) (hr : s.loop = .returned) :
    s.ctxDone = true ∨ s.closed = true := by
  have hinv : LoopInv s :=
    h.invariant (fun _ hi => hi ▸ loopInv_initial maxSessions)
      fun _ _ _ _ hi hg hs => loopInv_step hi hg hs
  exact hinv.alive hr

/-- After the run no call is in its `select`, and the loop has worked off its
events. -/
theorem not_createdInFlight_of_run {maxSessions : Int} (as : List Action) {s : State}
    (hrun : run (sessionSystem maxSessions) (.initial maxSessions) as = some s)
    (hcalls : ∀ c e, (run (sessionSystem maxSessions) (.initial maxSessions) as).map
      (fun s => s.calls c) ≠ some (.sending e))
    (hinbox : (run (sessionSystem maxSessions) (.initial maxSessions) as).map State.inbox =
      some []) (id : SessionID) : ¬ CreatedInFlight s id := by
  rw [hrun] at hinbox
  rintro (⟨c, e, hc, -⟩ | ⟨e, he, -⟩)
  · exact hcalls c e (by rw [hrun, Option.map_some, hc])
  · rw [Option.some.inj hinbox] at he
    cases he

/-- A session is created and streamed, deleted once its created event is handled,
and then the server shuts down. -/
theorem loop_survives_shutdown :
    ∃ s : State, .erased (.rpc 1) "station" (some 0) ∈ s.history ∧ s.loop = .returned ∧
      (s.ctxDone = true ∨ s.closed = true) := by
  have hcalls : ∀ c e, (run (sessionSystem 50) (.initial 50)
      [.createSession 0 "station" none, .send (.rpc 0), .receive, .getQueue, .start]).map
        (fun s => s.calls c) ≠ some (.sending e) := by
    intro c e
    by_cases hc : c = .rpc 0
    · subst hc
      exact nofun
    · show some (Function.update _ _ _ _) ≠ _
      simp [State.initial, hc]
  obtain ⟨s, hs, hp⟩ := Reach.of_run_step (S := sessionSystem 50) (C := HandledBeforeDelete)
    (p := fun s => decide (.erased (.rpc 1) "station" (some 0) ∈ s.history ∧
      s.loop = .returned))
    (a := .deleteSession 1 "station")
    [.createSession 0 "station" none, .send (.rpc 0), .receive, .getQueue, .start]
    [.send (.rpc 1), .receive, .cancelStream, .shutdown, .loopDone]
    (.init rfl) (by simp [HandledBeforeDelete])
    (fun s hrun _ => not_createdInFlight_of_run _ hrun hcalls rfl _)
    (by simp [HandledBeforeDelete]) (by decide)
  obtain ⟨herased, hloop⟩ := of_decide_eq_true hp
  exact ⟨s, herased, hloop, loop_survives hs hloop⟩

end RadioJockey.Streams
