import RadioJockey.Lib.Transition
import RadioJockey.SessionManager

/-!
# Callers, event loop and stream goroutines (`session_manager.go`, `icecast.go`)

The system that the registry is part of. Its actors:

* any number of RPC handlers, each making one `CreateSession` or
  `DeleteSession` call: the locked map update, then the send;
* the `StreamSessions` loop: receive an event; for a created one `GetQueue`,
  store the cancel function and start the goroutine; for a deleted one take
  the cancel function out of `cancels` and call it;
* the `streamSession` goroutines: each runs, ends for whatever reason, and its
  deferred `endSession` makes a `DeleteSession` call of its own.

Any actor may move next. The contexts of the calls (that of an RPC, or the
5 second timeout of `endSession`) and the context of the loop end at any time.
What a stream plays is left to `Playback`.
-/

namespace RadioJockey.Streams

open Channel

/-- A call of `CreateSession` or `DeleteSession`: before its locked section,
in its `select` with the event to send, or returned. -/
inductive Call
  | idle
  | sending (e : SessionManagerEvent)
  | returned (err : Option SessionError)
  deriving DecidableEq

inductive Loop
  | idle
  | received (e : SessionManagerEvent)
  | starting (g : Nat)
  | returned
  deriving DecidableEq

/-- `starting` is the time between `GetQueue` and the `go` statement, and
`ended` is the time from the end of the body of `streamSession` on. -/
inductive StreamPhase
  | starting
  | running
  | ended
  deriving DecidableEq

/-- A `streamSession` goroutine, with the event that started it. -/
structure Stream where
  event : SessionManagerEvent
  queue : QueueRef
  cancelled : Bool
  phase : StreamPhase
  deriving DecidableEq

def Stream.sessionID (st : Stream) : SessionID := st.event.sessionID

/-- What happened, for the statements about runs: a call registered a queue,
erased an id (with the queue it removed, if any) or sent its event, and the
deleted event of a call cancelled a stream. -/
inductive Effect
  | registered (c : Caller) (id : SessionID) (q : QueueRef)
  | erased (c : Caller) (id : SessionID) (old : Option QueueRef)
  | sent (e : SessionManagerEvent)
  | cancelled (c : Caller) (g : Nat)
  deriving DecidableEq

/-- `streams` lists the goroutines in the order they were started and
`history` the effects, last one first. -/
structure State where
  manager : SessionManager Track
  loop : Loop
  cancels : AList fun _ : SessionID => Nat
  streams : List Stream
  calls : Caller → Call
  callDone : Caller → Bool
  ctxDone : Bool
  closed : Bool
  history : List Effect

namespace State

/-- The server before its first request. -/
def initial (maxSessions : Int) : State where
  manager := .createSessionManager maxSessions
  loop := .idle
  cancels := ∅
  streams := []
  calls := fun _ => .idle
  callDone := fun _ => false
  ctxDone := false
  closed := false
  history := []

def createSession (s : State) (c : Caller) (id : SessionID) (archiveID : Option Int) :
    Option State :=
  match s.calls c with
  | .idle =>
    match s.manager.createSession id archiveID with
    | .error err => some { s with calls := Function.update s.calls c (.returned (some err)) }
    | .ok (m, q) => some { s with
        manager := m
        calls := Function.update s.calls c (.sending ⟨.sessionCreated, id, c⟩)
        history := .registered c id q :: s.history }
  | _ => none

def deleteSession (s : State) (c : Caller) (id : SessionID) : Option State :=
  match s.calls c with
  | .idle => some { s with
      manager := s.manager.deleteSession id
      calls := Function.update s.calls c (.sending ⟨.sessionDeleted, id, c⟩)
      history := .erased c id (s.manager.sessions.lookup id) :: s.history }
  | _ => none

/-- The send case of the `select`. A send on a closed channel panics, so it is
no step. -/
def send (s : State) (c : Caller) : Option State :=
  match s.calls c with
  | .sending e =>
    if s.closed then none
    else (s.manager.send e).map fun m => { s with
      manager := m
      calls := Function.update s.calls c (.returned none)
      history := .sent e :: s.history }
  | _ => none

/-- The `ctx.Done()` case of the `select`. -/
def abandon (s : State) (c : Caller) : Option State :=
  match s.calls c with
  | .sending _ =>
    if s.callDone c then
      some { s with calls := Function.update s.calls c (.returned (some .contextError)) }
    else none
  | _ => none

/-- The receive case of the loop's `select`. A closed channel still delivers
what is buffered. -/
def receive (s : State) : Option State :=
  match s.loop with
  | .idle =>
    match s.manager.receive with
    | some (e, m) => some { s with manager := m, loop := .received e }
    | none => if s.closed then some { s with loop := .returned } else none
  | _ => none

/-- The `ctx.Done()` case of the loop's `select`. -/
def loopDone (s : State) : Option State :=
  match s.loop with
  | .idle => if s.ctxDone then some { s with loop := .returned } else none
  | _ => none

/-- `GetQueue` for a created event. When it fails, `StreamSessions` returns. -/
def getQueue (s : State) : Option State :=
  match s.loop with
  | .received e =>
    match e.type with
    | .sessionCreated =>
      match s.manager.getQueue e.sessionID with
      | .error _ => some { s with loop := .returned }
      | .ok q => some { s with
          streams := s.streams ++ [⟨e, q, false, .starting⟩]
          loop := .starting s.streams.length }
    | .sessionDeleted => none
  | _ => none

/-- The cancel function is stored and the goroutine started. -/
def start (s : State) : Option State :=
  match s.loop with
  | .starting g =>
    match s.streams[g]? with
    | some st => some { s with
        cancels := s.cancels.insert st.sessionID g
        streams := s.streams.set g { st with phase := .running }
        loop := .idle }
    | none => none
  | _ => none

/-- A deleted event: the cancel function is taken out of the map and called. -/
def cancelStream (s : State) : Option State :=
  match s.loop with
  | .received e =>
    match e.type with
    | .sessionCreated => none
    | .sessionDeleted =>
      match s.cancels.lookup e.sessionID with
      | none => some { s with cancels := s.cancels.erase e.sessionID, loop := .idle }
      | some g =>
        match s.streams[g]? with
        | some st => some { s with
            cancels := s.cancels.erase e.sessionID
            streams := s.streams.set g { st with cancelled := true }
            loop := .idle
            history := .cancelled e.caller g :: s.history }
        | none => none
  | _ => none

/-- The body of `streamSession` ends: cancelled, timed out, or failed. -/
def endStream (s : State) (g : Nat) : Option State :=
  match s.streams[g]? with
  | some st =>
    if st.phase = .running then
      some { s with streams := s.streams.set g { st with phase := .ended } }
    else none
  | none => none

/-- The deferred `endSession` calls `DeleteSession` with the stream's id. -/
def endSession (s : State) (g : Nat) : Option State :=
  match s.streams[g]? with
  | some st => if st.phase = .ended then s.deleteSession (.stream g) st.sessionID else none
  | none => none

end State

inductive Action
  | createSession (n : Nat) (id : SessionID) (archiveID : Option Int)
  | deleteSession (n : Nat) (id : SessionID)
  | send (c : Caller)
  | abandon (c : Caller)
  | cancelCall (c : Caller)
  | receive
  | loopDone
  | getQueue
  | start
  | cancelStream
  | endStream (g : Nat)
  | endSession (g : Nat)
  | shutdown
  | closeEvents
  deriving DecidableEq

def State.step (s : State) : Action → Option State
  | .createSession n id archiveID => s.createSession (.rpc n) id archiveID
  | .deleteSession n id => s.deleteSession (.rpc n) id
  | .send c => s.send c
  | .abandon c => s.abandon c
  | .cancelCall c => some { s with callDone := Function.update s.callDone c true }
  | .receive => s.receive
  | .loopDone => s.loopDone
  | .getQueue => s.getQueue
  | .start => s.start
  | .cancelStream => s.cancelStream
  | .endStream g => s.endStream g
  | .endSession g => s.endSession g
  | .shutdown => some { s with ctxDone := true }
  | .closeEvents => some { s with closed := true }

/-- The server's runs, for a session cap. -/
def sessionSystem (maxSessions : Int) : Transition.System State Action where
  init := fun s => s = .initial maxSessions
  step := State.step

/-! ## What each step does -/

namespace State

theorem createSession_eq_some {s t : State} {c : Caller} {id : SessionID}
    {archiveID : Option Int} (h : s.createSession c id archiveID = some t) :
    s.calls c = .idle ∧
      ((∃ err, s.manager.createSession id archiveID = .error err ∧
        t = { s with calls := Function.update s.calls c (.returned (some err)) }) ∨
      (s.manager.sessions.lookup id = none ∧
        s.manager.createSession id archiveID =
          .ok (s.manager.register id archiveID, s.manager.queues.length) ∧
        t = { s with
          manager := s.manager.register id archiveID
          calls := Function.update s.calls c (.sending ⟨.sessionCreated, id, c⟩)
          history := .registered c id s.manager.queues.length :: s.history })) := by
  unfold createSession at h
  split at h
  · next hc =>
    refine ⟨hc, ?_⟩
    split at h
    · next err he => cases h; exact .inl ⟨err, he, rfl⟩
    · next m q he =>
      cases h
      obtain ⟨hl, -, rfl, rfl⟩ := SessionManager.createSession_eq_ok he
      exact .inr ⟨hl, he, rfl⟩
  · cases h

theorem deleteSession_eq_some {s t : State} {c : Caller} {id : SessionID}
    (h : s.deleteSession c id = some t) :
    s.calls c = .idle ∧ t = { s with
      manager := s.manager.deleteSession id
      calls := Function.update s.calls c (.sending ⟨.sessionDeleted, id, c⟩)
      history := .erased c id (s.manager.sessions.lookup id) :: s.history } := by
  unfold deleteSession at h
  split at h
  · next hc => cases h; exact ⟨hc, rfl⟩
  · cases h

theorem send_eq_some {s t : State} {c : Caller} (h : s.send c = some t) :
    ∃ e m, s.calls c = .sending e ∧ s.manager.send e = some m ∧ t = { s with
      manager := m
      calls := Function.update s.calls c (.returned none)
      history := .sent e :: s.history } := by
  unfold send at h
  split at h
  · next e hc =>
    split at h
    · cases h
    · obtain ⟨m, hm, rfl⟩ := Option.map_eq_some_iff.mp h
      exact ⟨e, m, hc, hm, rfl⟩
  · cases h

theorem abandon_eq_some {s t : State} {c : Caller} (h : s.abandon c = some t) :
    ∃ e, s.calls c = .sending e ∧ s.callDone c = true ∧
      t = { s with calls := Function.update s.calls c (.returned (some .contextError)) } := by
  unfold abandon at h
  split at h
  · next e hc =>
    split at h
    · next hd => cases h; exact ⟨e, hc, hd, rfl⟩
    · cases h
  · cases h

theorem receive_eq_some {s t : State} (h : s.receive = some t) :
    s.loop = .idle ∧
      ((∃ e m, s.manager.receive = some (e, m) ∧
        t = { s with manager := m, loop := .received e }) ∨
      (s.manager.receive = none ∧ s.closed = true ∧ t = { s with loop := .returned })) := by
  unfold receive at h
  split at h
  · next hl =>
    refine ⟨hl, ?_⟩
    split at h
    · next e m hm => cases h; exact .inl ⟨e, m, hm, rfl⟩
    · next hm =>
      split at h
      · next hc => cases h; exact .inr ⟨hm, hc, rfl⟩
      · cases h
  · cases h

theorem loopDone_eq_some {s t : State} (h : s.loopDone = some t) :
    s.loop = .idle ∧ s.ctxDone = true ∧ t = { s with loop := .returned } := by
  unfold loopDone at h
  split at h
  · next hl =>
    split at h
    · next hd => cases h; exact ⟨hl, hd, rfl⟩
    · cases h
  · cases h

theorem getQueue_eq_some {s t : State} (h : s.getQueue = some t) :
    ∃ e, s.loop = .received e ∧ e.type = .sessionCreated ∧
      ((s.manager.sessions.lookup e.sessionID = none ∧ t = { s with loop := .returned }) ∨
      (∃ q, s.manager.sessions.lookup e.sessionID = some q ∧ t = { s with
        streams := s.streams ++ [⟨e, q, false, .starting⟩]
        loop := .starting s.streams.length })) := by
  unfold getQueue at h
  split at h
  · next e hl =>
    refine ⟨e, hl, ?_⟩
    split at h
    · next ht =>
      refine ⟨ht, ?_⟩
      split at h
      · next err he =>
        cases h
        exact .inl ⟨(SessionManager.getQueue_eq_error.mp he).1, rfl⟩
      · next q hq =>
        cases h
        exact .inr ⟨q, SessionManager.getQueue_eq_ok.mp hq, rfl⟩
    · cases h
  · cases h

theorem start_eq_some {s t : State} (h : s.start = some t) :
    ∃ g st, s.loop = .starting g ∧ s.streams[g]? = some st ∧ t = { s with
      cancels := s.cancels.insert st.sessionID g
      streams := s.streams.set g { st with phase := .running }
      loop := .idle } := by
  unfold start at h
  split at h
  · next g hl =>
    split at h
    · next st hst => cases h; exact ⟨g, st, hl, hst, rfl⟩
    · cases h
  · cases h

theorem cancelStream_eq_some {s t : State} (h : s.cancelStream = some t) :
    ∃ e, s.loop = .received e ∧ e.type = .sessionDeleted ∧
      ((s.cancels.lookup e.sessionID = none ∧
        t = { s with cancels := s.cancels.erase e.sessionID, loop := .idle }) ∨
      (∃ g st, s.cancels.lookup e.sessionID = some g ∧ s.streams[g]? = some st ∧ t = { s with
        cancels := s.cancels.erase e.sessionID
        streams := s.streams.set g { st with cancelled := true }
        loop := .idle
        history := .cancelled e.caller g :: s.history })) := by
  unfold cancelStream at h
  split at h
  · next e hl =>
    refine ⟨e, hl, ?_⟩
    split at h
    · cases h
    · next ht =>
      refine ⟨ht, ?_⟩
      split at h
      · next hc => cases h; exact .inl ⟨hc, rfl⟩
      · next g hc =>
        split at h
        · next st hst => cases h; exact .inr ⟨g, st, hc, hst, rfl⟩
        · cases h
  · cases h

theorem endStream_eq_some {s t : State} {g : Nat} (h : s.endStream g = some t) :
    ∃ st, s.streams[g]? = some st ∧ st.phase = .running ∧
      t = { s with streams := s.streams.set g { st with phase := .ended } } := by
  unfold endStream at h
  split at h
  · next st hst =>
    split at h
    · next hp => cases h; exact ⟨st, hst, hp, rfl⟩
    · cases h
  · cases h

theorem endSession_eq_some {s t : State} {g : Nat} (h : s.endSession g = some t) :
    ∃ st, s.streams[g]? = some st ∧ st.phase = .ended ∧ s.calls (.stream g) = .idle ∧
      t = { s with
        manager := s.manager.deleteSession st.sessionID
        calls := Function.update s.calls (.stream g)
          (.sending ⟨.sessionDeleted, st.sessionID, .stream g⟩)
        history := .erased (.stream g) st.sessionID (s.manager.sessions.lookup st.sessionID) ::
          s.history } := by
  unfold endSession at h
  split at h
  · next st hst =>
    split at h
    · next hp =>
      obtain ⟨hc, rfl⟩ := deleteSession_eq_some h
      exact ⟨st, hst, hp, hc, rfl⟩
    · cases h
  · cases h

/-- The events on their way to the loop's handler: the one it has received and
those in the channel, oldest first. -/
def inbox (s : State) : List SessionManagerEvent :=
  match s.loop with
  | .received e => e :: s.manager.events.buf
  | _ => s.manager.events.buf

theorem inbox_received {s : State} {e : SessionManagerEvent} (hl : s.loop = .received e) :
    s.inbox = e :: s.manager.events.buf := by
  rw [inbox, hl]

theorem inbox_idle {s : State} (hl : s.loop = .idle) : s.inbox = s.manager.events.buf := by
  rw [inbox, hl]

theorem inbox_starting {s : State} {g : Nat} (hl : s.loop = .starting g) :
    s.inbox = s.manager.events.buf := by
  rw [inbox, hl]

/-- The event that is received moves from the channel to the loop. -/
theorem inbox_receive {s t : State} (h : s.receive = some t) : t.inbox = s.inbox := by
  obtain ⟨hl, ⟨e, m, hm, rfl⟩ | ⟨-, -, rfl⟩⟩ := receive_eq_some h
  · exact (SessionManager.receive_eq_some hm).1.symm.trans (inbox_idle hl).symm
  · exact (inbox_idle hl).symm

theorem inbox_loopDone {s t : State} (h : s.loopDone = some t) : t.inbox = s.inbox := by
  obtain ⟨hl, -, rfl⟩ := loopDone_eq_some h
  exact (inbox_idle hl).symm

theorem inbox_start {s t : State} (h : s.start = some t) : t.inbox = s.inbox := by
  obtain ⟨g, st, hl, -, rfl⟩ := start_eq_some h
  exact (inbox_starting hl).symm

/-- A call in its `select` after another call `c` has moved to `x`. -/
theorem sending_of_update {f : Caller → Call} {c c' : Caller} {x : Call}
    {e : SessionManagerEvent} (h : Function.update f c x c' = .sending e) :
    (c' = c ∧ x = .sending e) ∨ (c' ≠ c ∧ f c' = .sending e) := by
  by_cases hc : c' = c
  · subst hc; rw [Function.update_self] at h; exact .inl ⟨rfl, h⟩
  · rw [Function.update_of_ne hc] at h; exact .inr ⟨hc, h⟩

/-- A call that returns leaves the others in their `select`. -/
theorem sending_of_returned {f : Caller → Call} {c c' : Caller} {err : Option SessionError}
    {e : SessionManagerEvent} (h : Function.update f c (.returned err) c' = .sending e) :
    f c' = .sending e := by
  rcases sending_of_update h with ⟨-, h⟩ | ⟨-, h⟩
  · cases h
  · exact h

/-- A call that has returned is not the one that moves. -/
theorem returned_update {f : Caller → Call} {c : Caller} (x : Call)
    (hc : ∀ err, f c ≠ .returned err) (c' : Caller) (err : Option SessionError)
    (h : f c' = .returned err) : Function.update f c x c' = .returned err := by
  have hne : c' ≠ c := by
    rintro rfl
    exact hc err h
  rw [Function.update_of_ne hne, h]

/-- What a handled event leaves of the inbox. -/
theorem tail_sublist {s : State} {e : SessionManagerEvent} (hl : s.loop = .received e) :
    s.manager.events.buf.Sublist s.inbox := by
  rw [inbox_received hl]
  exact List.sublist_cons_self _ _

/-- A send puts the event at the end. -/
theorem inbox_send {s : State} {m : SessionManager Track} {e : SessionManagerEvent}
    (calls : Caller → Call) (history : List Effect)
    (hb : m.events.buf = s.manager.events.buf ++ [e]) :
    inbox { s with manager := m, calls := calls, history := history } = s.inbox ++ [e] := by
  cases hl : s.loop <;> simp [inbox, hl, hb]

end State

end RadioJockey.Streams
