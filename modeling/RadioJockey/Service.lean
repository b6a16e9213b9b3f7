import Mathlib.Data.Multiset.Defs
import RadioJockey.Lib.Linearizability
import RadioJockey.Registry

/-!
# The registry as one service (`session_manager.go`, `session_queue.go`)

`Stations` is what the registry is for: stations with lists of tracks, and one
call at a time. The code looks a queue up under one lock and works on it under
another, so a session can be deleted, and its id used again, between the two.

* `linearizable`: in every run, with any number of callers, all calls are
  answered as `Stations` answers them in one order, which keeps the order of any
  two calls that do not overlap, and which leaves the stations as they are in the
  registry.

A call of a queue's method begins when its caller gets the queue. A call that is
late, on a queue that has left the registry, is put in front of the deletion.
-/

namespace RadioJockey.Service

open Transition Registry Linearizability

/-! ## The service -/

/-- The methods of a queue. -/
inductive QueueOp
  | enqueue (t : Track)
  | remove (index : Nat)
  | skip
  | dequeue

inductive Op
  | createSession (id : SessionID)
  | deleteSession (id : SessionID)
  | getQueue (id : SessionID)
  | listSessions
  | queue (id : SessionID) (op : QueueOp)

/-- Two listings of the sessions are one answer when only their order differs. -/
inductive Answer
  | ok
  | error (err : SessionError)
  | track (t : Track)
  | sessions (ids : Multiset SessionID)
  deriving DecidableEq

/-- What becomes of the tracks of a station. A skip is a request to the stream,
which dequeues the track itself. -/
def QueueOp.apply (tracks : List Track) : QueueOp → Answer × List Track
  | .enqueue t =>
    if maxQueueSize ≤ tracks.length then (.error .fullQueueError, tracks) else (.ok, tracks ++ [t])
  | .remove index =>
    if tracks.length ≤ index then (.error .badIndexError, tracks) else (.ok, tracks.eraseIdx index)
  | .skip => (if tracks = [] then .error .emptyQueueError else .ok, tracks)
  | .dequeue =>
    match tracks with
    | [] => (.error .emptyQueueError, [])
    | t :: ts => (.track t, ts)

/-- A station that is not in `ids` has no tracks. -/
structure Stations where
  ids : List SessionID
  tracks : SessionID → List Track
  maxSessions : Int

namespace Stations

def initial (maxSessions : Int) : Stations := ⟨[], fun _ => [], maxSessions⟩

def setTracks (σ : Stations) (id : SessionID) (tracks : List Track) : Stations :=
  { σ with tracks := Function.update σ.tracks id tracks }

def apply (σ : Stations) : Op → Answer × Stations
  | .createSession id =>
    if id ∈ σ.ids then (.error .alreadyExistsError, σ)
    else if σ.maxSessions ≤ σ.ids.length then (.error .tooManySessionsError, σ)
    else (.ok, { σ.setTracks id [] with ids := id :: σ.ids })
  | .deleteSession id => (.ok, { σ.setTracks id [] with ids := σ.ids.erase id })
  | .getQueue id => (if id ∈ σ.ids then .ok else .error .sessionNotFoundError, σ)
  | .listSessions => (.sessions σ.ids, σ)
  | .queue id op =>
    if id ∈ σ.ids then
      ((op.apply (σ.tracks id)).1, σ.setTracks id (op.apply (σ.tracks id)).2)
    else (.error .sessionNotFoundError, σ)

end Stations

abbrev Call := Linearizability.Call Op Answer

/-! ## The calls of a run -/

/-- The registry, and the calls that have taken effect, last one first. `since`
says when a caller of a queue has got its pointer. -/
structure State where
  registry : Registry.State
  now : Nat
  since : Nat → Nat
  calls : List Call

/-- `ids` is the order in which the call has met the sessions. -/
inductive Action
  | registry (a : Registry.Action)
  | listSessions (ids : List SessionID)

def ofExcept {α : Type} : Except SessionError α → Answer
  | .ok _ => .ok
  | .error err => .error err

/-- What the method of the code answers. -/
def QueueOp.answer (queue : SessionQueue Track) : QueueOp → Answer
  | .enqueue t => ofExcept (queue.enqueue t)
  | .remove index => ofExcept (queue.remove index)
  | .skip => ofExcept queue.skip
  | .dequeue =>
    match queue.dequeue with
    | .ok (t, _) => .track t
    | .error err => .error err

namespace State

def initial (maxSessions : Int) : State := ⟨.initial maxSessions, 0, fun _ => 0, []⟩

variable (s : State)

def manager : SessionManager Track := s.registry.server.manager

/-- A call whose whole effect is one locked section. -/
def atOnce (op : Op) (answer : Answer) : Call := ⟨op, answer, s.now, s.now⟩

/-- A call of the user `n` on the queue that it holds. -/
def onHeld (n : Nat) (op : QueueOp) : Option Call :=
  match s.registry.users n with
  | .holding q => s.manager.queues[q]?.map fun queue =>
      ⟨.queue queue.sessionId op, op.answer queue, s.since n, s.now⟩
  | _ => none

/-- The call that takes effect with a step. That of a session is answered with
an error also when its context ends before its event is sent. -/
def record : Registry.Action → Option Call
  | .server (.createSession _ id archiveID) =>
    some (s.atOnce (.createSession id) (ofExcept (s.manager.createSession id archiveID)))
  | .server (.deleteSession _ id) => some (s.atOnce (.deleteSession id) .ok)
  | .server (.endSession g) => s.registry.server.streams[g]?.map fun st =>
      s.atOnce (.deleteSession st.sessionID) .ok
  | .server .getQueue =>
    match s.registry.server.loop with
    | .received e =>
      some (s.atOnce (.getQueue e.sessionID) (ofExcept (s.manager.getQueue e.sessionID)))
    | _ => none
  | .getQueue _ id => some (s.atOnce (.getQueue id) (ofExcept (s.manager.getQueue id)))
  | .enqueue n t => s.onHeld n (.enqueue t)
  | .remove n index => s.onHeld n (.remove index)
  | .skip n => s.onHeld n .skip
  | .dequeue n => s.onHeld n .dequeue
  | _ => none

def sinceAfter : Registry.Action → Nat → Nat
  | .getQueue n id =>
    match s.manager.getQueue id with
    | .ok _ => Function.update s.since n s.now
    | .error _ => s.since
  | _ => s.since

def step : Action → Option State
  | .registry a => (s.registry.step a).map fun registry =>
      ⟨registry, s.now + 1, s.sinceAfter a, (s.record a).toList ++ s.calls⟩
  | .listSessions ids =>
    if s.manager.Lists ids then
      some { s with
        now := s.now + 1
        calls := s.atOnce .listSessions (.sessions ids) :: s.calls }
    else none

end State

def serviceSystem (maxSessions : Int) : System State Action where
  init s := s = .initial maxSessions
  step := State.step

/-! ## The property -/

/-- The stations are those of the registry. -/
structure Agrees (m : SessionManager Track) (σ : Stations) : Prop where
  ids : σ.ids = m.sessions.keys
  tracks : ∀ id q queue, m.sessions.lookup id = some q → m.queues[q]? = some queue →
    σ.tracks id = queue.tracks
  maxSessions : σ.maxSessions = m.maxSessions

/-! ## What a step does -/

/-- The pointer that a caller has. -/
def handle : User → Option QueueRef
  | .idle => none
  | .holding q | .signalling q => some q

/-- What the method of the code leaves, if it does not fail. -/
def QueueOp.run (op : QueueOp) (queue : SessionQueue Track) : Option (SessionQueue Track) :=
  match op with
  | .enqueue t => (queue.enqueue t).toOption
  | .remove index => (queue.remove index).toOption
  | .skip => queue.skip.toOption
  | .dequeue => queue.dequeue.toOption.map Prod.snd

/-- What the stations see of a queue. -/
def view (queue : SessionQueue Track) : SessionID × List Track := (queue.sessionId, queue.tracks)

structure SameStations (m m' : SessionManager Track) : Prop where
  sessions : m'.sessions = m.sessions
  maxSessions : m'.maxSessions = m.maxSessions
  queues : ∀ q : QueueRef, m'.queues[q]?.map view = m.queues[q]?.map view

/-- `m'` has `view'` where `m` has the queue `q`. -/
structure ChangesQueue (m m' : SessionManager Track) (q : QueueRef)
    (view' : SessionID × List Track) : Prop where
  sessions : m'.sessions = m.sessions
  maxSessions : m'.maxSessions = m.maxSessions
  changed : m'.queues[q]?.map view = some view'
  others : ∀ r : QueueRef, r ≠ q → m'.queues[r]?.map view = m.queues[r]?.map view

/-- The cases of a step: what it does to the stations, who has which pointer, and
the call that takes effect with it. -/
inductive Stepped (s t : State) : Prop
  | silent : SameStations s.manager t.manager → t.calls = s.calls → Stepped s t
  | answered (c : Call) : SameStations s.manager t.manager → t.calls = c :: s.calls →
      c.called = s.now → c.done = s.now →
      (∀ σ, Agrees s.manager σ → σ.apply c.op = (c.answer, σ)) → Stepped s t
  | created (id : SessionID) (archiveID : Option Int) : s.manager.sessions.lookup id = none →
      (s.manager.sessions.entries.length : Int) < s.manager.maxSessions →
      t.manager = s.manager.register id archiveID →
      t.calls = s.atOnce (.createSession id) .ok :: s.calls → Stepped s t
  | deleted (id : SessionID) : t.manager = s.manager.deleteSession id →
      t.calls = s.atOnce (.deleteSession id) .ok :: s.calls → Stepped s t
  | queued (n : Nat) (q : QueueRef) (queue : SessionQueue Track) (op : QueueOp) :
      handle (s.registry.users n) = some q → s.manager.queues[q]? = some queue →
      ChangesQueue s.manager t.manager q (queue.sessionId, (op.apply queue.tracks).2) →
      t.calls = ⟨.queue queue.sessionId op, (op.apply queue.tracks).1, s.since n, s.now⟩ ::
        s.calls → Stepped s t

/-- Who has which pointer after a step. -/
def HandlesAfter (s t : State) : Prop :=
  ∀ n q, handle (t.registry.users n) = some q →
    (handle (s.registry.users n) = some q ∧ t.since n = s.since n) ∨
      (t.since n = s.now ∧ ∃ id, s.manager.sessions.lookup id = some q)

/-- The steps of the server that are locked sections of a call. -/
def changesSessions : Streams.Action → Bool
  | .createSession _ _ _ | .deleteSession _ _ | .endSession _ => true
  | _ => false

namespace ServiceLemmas

/-! ## Queues -/

theorem answer_eq (queue : SessionQueue Track) (op : QueueOp) :
    op.answer queue = (op.apply queue.tracks).1 := by
  cases op with
  | enqueue t =>
    simp only [QueueOp.answer, QueueOp.apply, SessionQueue.enqueue]
    split <;> rfl
  | remove index =>
    simp only [QueueOp.answer, QueueOp.apply, SessionQueue.remove]
    split <;> rfl
  | skip =>
    obtain ⟨tracks, hb, i, c, e, a⟩ := queue
    cases tracks <;> rfl
  | dequeue =>
    obtain ⟨tracks, hb, i, c, e, a⟩ := queue
    cases tracks <;> rfl

theorem view_run (queue : SessionQueue Track) (op : QueueOp) :
    view ((op.run queue).getD queue) = (queue.sessionId, (op.apply queue.tracks).2) := by
  cases op with
  | enqueue t =>
    simp only [QueueOp.run, QueueOp.apply, SessionQueue.enqueue]
    split <;> rfl
  | remove index =>
    simp only [QueueOp.run, QueueOp.apply, SessionQueue.remove, List.eraseIdx_eq_take_drop_succ]
    split <;> rfl
  | skip =>
    obtain ⟨tracks, hb, i, c, e, a⟩ := queue
    cases tracks <;> rfl
  | dequeue =>
    obtain ⟨tracks, hb, i, c, e, a⟩ := queue
    cases tracks <;> rfl

theorem call_eq_some {s t : Registry.State} {n : Nat} {q : QueueRef} {next : User}
    {f : SessionQueue Track → Option (SessionQueue Track)} (h : s.call n q next f = some t) :
    ∃ queue, s.server.manager.queues[q]? = some queue ∧
      ((f queue = none ∧ t = s) ∨ ∃ queue', f queue = some queue' ∧
        t = ⟨s.setQueue q queue', Function.update s.users n next⟩) := by
  unfold Registry.State.call at h
  split at h
  · cases h
  · next queue hq =>
    refine ⟨queue, hq, ?_⟩
    split at h
    · next hf =>
      cases h
      exact .inl ⟨hf, rfl⟩
    · next queue' hf =>
      cases h
      exact .inr ⟨queue', hf, rfl⟩

/-- What a call on a queue does, whether it fails or not. -/
theorem changesQueue_call {s t : Registry.State} {n : Nat} {q : QueueRef} {next : User}
    {f : SessionQueue Track → Option (SessionQueue Track)} (h : s.call n q next f = some t) :
    ∃ queue, s.server.manager.queues[q]? = some queue ∧
      ChangesQueue s.server.manager t.server.manager q (view ((f queue).getD queue)) := by
  obtain ⟨queue, hq, ⟨hf, rfl⟩ | ⟨queue', hf, rfl⟩⟩ := call_eq_some h
  · refine ⟨queue, hq, rfl, rfl, ?_, fun _ _ => rfl⟩
    rw [hq, hf]
    rfl
  · refine ⟨queue, hq, rfl, rfl, ?_, fun r hr => ?_⟩
    · show (s.server.manager.queues.set q queue')[q]?.map view = _
      rw [List.getElem?_set_self (List.getElem?_eq_some_iff.mp hq).1, hf]
      rfl
    · show (s.server.manager.queues.set q queue')[r]?.map view = _
      rw [List.getElem?_set_ne (Ne.symm hr)]

theorem handle_call {s t : Registry.State} {n : Nat} {q : QueueRef} {next : User}
    {f : SessionQueue Track → Option (SessionQueue Track)} (h : s.call n q next f = some t)
    (hheld : handle (s.users n) = some q) (hnext : handle next = some q) (k : Nat) :
    handle (t.users k) = handle (s.users k) := by
  obtain ⟨queue, -, ⟨-, rfl⟩ | ⟨queue', -, rfl⟩⟩ := call_eq_some h
  · rfl
  · show handle (Function.update s.users n next k) = _
    rcases eq_or_ne k n with rfl | hne
    · rw [Function.update_self, hnext, hheld]
    · rw [Function.update_of_ne hne]

/-- A call that only touches the channels of a queue. -/
theorem sameStations_call {s t : Registry.State} {n : Nat} {q : QueueRef} {next : User}
    {f : SessionQueue Track → Option (SessionQueue Track)} (h : s.call n q next f = some t)
    (hf : ∀ queue queue', f queue = some queue' → view queue' = view queue) :
    SameStations s.server.manager t.server.manager := by
  obtain ⟨queue, hq, hchange⟩ := changesQueue_call h
  have hview : view ((f queue).getD queue) = view queue := by
    cases hqueue : f queue with
    | none => rfl
    | some queue' => exact hf queue queue' hqueue
  refine ⟨hchange.sessions, hchange.maxSessions, fun r => ?_⟩
  rcases eq_or_ne r q with rfl | hne
  · rw [hchange.changed, hview, hq]
    rfl
  · exact hchange.others r hne

theorem callHeld_eq_some {s t : Registry.State} {n : Nat}
    {f : SessionQueue Track → Option (SessionQueue Track)} (h : s.callHeld n f = some t) :
    ∃ q, s.users n = .holding q ∧ s.call n q (.holding q) f = some t := by
  unfold Registry.State.callHeld at h
  split at h
  · next q hq => exact ⟨q, hq, h⟩
  · cases h

/-! ## The cases of a step -/

theorem sameStations_of_eq {m m' : SessionManager Track} (hs : m'.sessions = m.sessions)
    (hq : m'.queues = m.queues) (hmax : m'.maxSessions = m.maxSessions) : SameStations m m' :=
  ⟨hs, hmax, fun q => by rw [hq]⟩

theorem sameStations_server {s t : Streams.State} {a : Streams.Action} (h : s.step a = some t)
    (ha : changesSessions a = false) : SameStations s.manager t.manager := by
  cases a with
  | createSession | deleteSession | endSession => cases ha
  | send c =>
    obtain ⟨e, m, -, hm, rfl⟩ := Streams.State.send_eq_some h
    obtain ⟨-, -, hs, hq, hmax⟩ := SessionManager.send_eq_some hm
    exact sameStations_of_eq hs hq hmax
  | receive =>
    obtain ⟨-, ⟨e, m, hm, rfl⟩ | ⟨-, -, rfl⟩⟩ := Streams.State.receive_eq_some h
    · obtain ⟨-, hs, hq, hmax⟩ := SessionManager.receive_eq_some hm
      exact sameStations_of_eq hs hq hmax
    · exact sameStations_of_eq rfl rfl rfl
  | abandon c =>
    obtain ⟨e, -, -, rfl⟩ := Streams.State.abandon_eq_some h
    exact sameStations_of_eq rfl rfl rfl
  | loopDone =>
    obtain ⟨-, -, rfl⟩ := Streams.State.loopDone_eq_some h
    exact sameStations_of_eq rfl rfl rfl
  | getQueue =>
    obtain ⟨e, -, -, ⟨-, rfl⟩ | ⟨q, -, rfl⟩⟩ := Streams.State.getQueue_eq_some h
    all_goals exact sameStations_of_eq rfl rfl rfl
  | start =>
    obtain ⟨g, st, -, -, rfl⟩ := Streams.State.start_eq_some h
    exact sameStations_of_eq rfl rfl rfl
  | cancelStream =>
    obtain ⟨e, -, -, ⟨-, rfl⟩ | ⟨g, st, -, -, rfl⟩⟩ := Streams.State.cancelStream_eq_some h
    all_goals exact sameStations_of_eq rfl rfl rfl
  | endStream g =>
    obtain ⟨st, -, -, rfl⟩ := Streams.State.endStream_eq_some h
    exact sameStations_of_eq rfl rfl rfl
  | cancelCall c | shutdown | closeEvents =>
    cases h
    exact sameStations_of_eq rfl rfl rfl

theorem handlesAfter_of_eq {s t : State}
    (hhandle : ∀ n, handle (t.registry.users n) = handle (s.registry.users n))
    (hsince : t.since = s.since) : HandlesAfter s t := by
  intro n q h
  exact .inl ⟨(hhandle n).symm.trans h, congrFun hsince n⟩

theorem stepped_queue {s t : State} {n : Nat} {q : QueueRef} {next : User} (op : QueueOp)
    (hheld : s.registry.users n = .holding q) (hnext : handle next = some q)
    (hcall : s.registry.call n q next op.run = some t.registry)
    (hcalls : t.calls = (s.onHeld n op).toList ++ s.calls) (hsince : t.since = s.since) :
    Stepped s t ∧ HandlesAfter s t := by
  have hhandle : handle (s.registry.users n) = some q := by
    rw [hheld]
    rfl
  obtain ⟨queue, hq, hchange⟩ := changesQueue_call hcall
  rw [view_run] at hchange
  have hrecord : s.onHeld n op =
      some ⟨.queue queue.sessionId op, (op.apply queue.tracks).1, s.since n, s.now⟩ := by
    rw [State.onHeld, hheld, ← answer_eq]
    exact Option.map_eq_some_iff.mpr ⟨queue, hq, rfl⟩
  rw [hrecord] at hcalls
  exact ⟨.queued n q queue op hhandle hq hchange hcalls,
    handlesAfter_of_eq (handle_call hcall hhandle hnext) hsince⟩

theorem mem_ids {m : SessionManager Track} {σ : Stations} (h : Agrees m σ) (id : SessionID) :
    id ∈ σ.ids ↔ (m.sessions.lookup id).isSome = true := by
  rw [h.ids, AList.lookup_isSome]
  exact AList.mem_keys.symm

theorem length_ids {m : SessionManager Track} {σ : Stations} (h : Agrees m σ) :
    σ.ids.length = m.sessions.entries.length := by
  rw [h.ids]
  exact List.length_map _

theorem apply_getQueue {m : SessionManager Track} {σ : Stations} (h : Agrees m σ) (id : SessionID) :
    σ.apply (.getQueue id) = (ofExcept (m.getQueue id), σ) := by
  have hmem := mem_ids h id
  rw [Stations.apply, SessionManager.getQueue]
  cases hl : m.sessions.lookup id with
  | none =>
    rw [if_neg (by simp [hmem, hl])]
    rfl
  | some q =>
    rw [if_pos (by simp [hmem, hl])]
    rfl

theorem apply_createSession_error {m : SessionManager Track} {σ : Stations} (h : Agrees m σ)
    {id : SessionID} {archiveID : Option Int} {err : SessionError}
    (hc : m.createSession id archiveID = .error err) :
    σ.apply (.createSession id) = (.error err, σ) := by
  have hmem := mem_ids h id
  rw [Stations.apply]
  obtain ⟨rfl, q, hl⟩ | ⟨rfl, hl, hmax⟩ := SessionManager.createSession_eq_error hc
  · rw [if_pos (by simp [hmem, hl])]
  · rw [if_neg (by simp [hmem, hl]), if_pos (by rw [h.maxSessions, length_ids h]; exact hmax)]

theorem getQueue_eq_some {s t : Registry.State} {n : Nat} {id : SessionID}
    (h : s.getQueue n id = some t) :
    ((∃ err, s.server.manager.getQueue id = .error err) ∧ t = s) ∨
      ∃ q, s.server.manager.getQueue id = .ok q ∧
        t = { s with users := Function.update s.users n (.holding q) } := by
  unfold Registry.State.getQueue at h
  split at h
  · cases h
  all_goals
    split at h
    · next err herr =>
      cases h
      exact .inl ⟨⟨err, herr⟩, rfl⟩
    · next q hq =>
      cases h
      exact .inr ⟨q, hq, rfl⟩

theorem stepped_registry {s t : State} {a : Registry.Action}
    (h : s.step (.registry a) = some t) : Stepped s t ∧ HandlesAfter s t := by
  obtain ⟨registry, hs, rfl⟩ := Option.map_eq_some_iff.mp h
  cases a with
  | server a =>
    obtain ⟨server, hserver, rfl⟩ := Option.map_eq_some_iff.mp hs
    refine ⟨?_, handlesAfter_of_eq (fun _ => rfl) rfl⟩
    cases a with
    | createSession n id archiveID =>
      obtain ⟨-, ⟨err, herr, rfl⟩ | ⟨hl, hok, rfl⟩⟩ := Streams.State.createSession_eq_some hserver
      · refine .answered (s.atOnce (.createSession id) (.error err))
          (sameStations_of_eq rfl rfl rfl) ?_ rfl rfl fun σ hσ => apply_createSession_error hσ herr
        show [s.atOnce _ (ofExcept (s.manager.createSession id archiveID))] ++ s.calls = _
        rw [State.manager, herr]
        rfl
      · obtain ⟨-, hlt, -, -⟩ := SessionManager.createSession_eq_ok hok
        refine .created id archiveID hl hlt rfl ?_
        show [s.atOnce _ (ofExcept (s.manager.createSession id archiveID))] ++ s.calls = _
        rw [State.manager, hok]
        rfl
    | deleteSession n id =>
      obtain ⟨-, rfl⟩ := Streams.State.deleteSession_eq_some hserver
      exact .deleted id rfl rfl
    | endSession g =>
      obtain ⟨st, hst, -, -, rfl⟩ := Streams.State.endSession_eq_some hserver
      refine .deleted st.sessionID rfl ?_
      show (s.registry.server.streams[g]?.map _).toList ++ s.calls = _
      rw [hst]
      rfl
    | getQueue =>
      obtain ⟨e, hl, -, -⟩ := Streams.State.getQueue_eq_some hserver
      have hsame := sameStations_server hserver rfl
      refine .answered (s.atOnce (.getQueue e.sessionID)
        (ofExcept (s.manager.getQueue e.sessionID))) hsame ?_ rfl rfl
        fun σ hσ => apply_getQueue hσ e.sessionID
      show (s.record (.server .getQueue)).toList ++ s.calls = _
      rw [State.record, hl]
      rfl
    | send | abandon | cancelCall | receive | loopDone | start | cancelStream | endStream
    | shutdown | closeEvents =>
      exact .silent (sameStations_server hserver rfl) rfl
  | getQueue n id =>
    have hanswered : Stepped s ⟨registry, s.now + 1, s.sinceAfter (.getQueue n id),
        s.atOnce (.getQueue id) (ofExcept (s.manager.getQueue id)) :: s.calls⟩ := by
      refine .answered _ ?_ rfl rfl rfl fun σ hσ => apply_getQueue hσ id
      rcases getQueue_eq_some hs with ⟨-, rfl⟩ | ⟨q, -, rfl⟩
      all_goals exact sameStations_of_eq rfl rfl rfl
    refine ⟨hanswered, ?_⟩
    rcases getQueue_eq_some hs with ⟨⟨err, herr⟩, rfl⟩ | ⟨q, hq, rfl⟩
    · refine handlesAfter_of_eq (fun _ => rfl) ?_
      rw [State.sinceAfter, State.manager, herr]
    · intro k r hr
      rw [State.sinceAfter, State.manager, hq]
      dsimp only at hr ⊢
      rcases eq_or_ne k n with rfl | hne
      · rw [Function.update_self] at hr ⊢
        cases hr
        exact .inr ⟨rfl, id, SessionManager.getQueue_eq_ok.mp hq⟩
      · rw [Function.update_of_ne hne] at hr ⊢
        exact .inl ⟨hr, rfl⟩
  | enqueue n t =>
    simp only [Registry.State.step, Registry.State.enqueue] at hs
    split at hs
    · next q hheld => exact stepped_queue (.enqueue t) hheld rfl hs rfl rfl
    · cases hs
  | wake n =>
    simp only [Registry.State.step, Registry.State.wake] at hs
    split at hs
    · next q hheld =>
      have hhandle : handle (s.registry.users n) = some q := by
        rw [hheld]
        rfl
      refine ⟨.silent (sameStations_call hs fun queue queue' hqueue => ?_) rfl,
        handlesAfter_of_eq (handle_call hs hhandle rfl) rfl⟩
      cases hqueue
      rfl
    · cases hs
  | dequeue n =>
    obtain ⟨q, hheld, hcall⟩ := callHeld_eq_some hs
    exact stepped_queue .dequeue hheld rfl hcall rfl rfl
  | remove n index =>
    obtain ⟨q, hheld, hcall⟩ := callHeld_eq_some hs
    exact stepped_queue (.remove index) hheld rfl hcall rfl rfl
  | skip n =>
    obtain ⟨q, hheld, hcall⟩ := callHeld_eq_some hs
    exact stepped_queue .skip hheld rfl hcall rfl rfl
  | receiveNotify n | receiveEvent n =>
    obtain ⟨q, hheld, hcall⟩ := callHeld_eq_some hs
    have hhandle : handle (s.registry.users n) = some q := by
      rw [hheld]
      rfl
    refine ⟨.silent (sameStations_call hcall fun queue queue' hqueue => ?_) rfl,
      handlesAfter_of_eq (handle_call hcall hhandle rfl) rfl⟩
    obtain ⟨p, -, rfl⟩ := Option.map_eq_some_iff.mp hqueue
    rfl

end ServiceLemmas

/-! ## The invariant -/

/-- The queue behind `q` has left the registry. -/
def Detached (m : SessionManager Track) (q : QueueRef) (queue : SessionQueue Track) : Prop :=
  m.queues[q]? = some queue ∧ m.sessions.lookup queue.sessionId ≠ some q

/-- `gone` is the time when a queue has left the registry. The callers that have
its pointer have got it before. -/
structure TimesInv (gone : QueueRef → Nat) (s : State) : Prop where
  calls : ∀ c ∈ s.calls, c.called ≤ s.now
  since : ∀ n q, handle (s.registry.users n) = some q → s.since n ≤ s.now
  sinceGone : ∀ n q queue, handle (s.registry.users n) = some q → Detached s.manager q queue →
    s.since n ≤ gone q
  goneBefore : ∀ q queue, Detached s.manager q queue → gone q < s.now
  distinct : ∀ q r queue queue', Detached s.manager q queue → Detached s.manager r queue' →
    gone q = gone r → q = r

/-- In the order, the deletion of `id` at `time` finds the session with these
tracks. -/
def FoundAt (maxSessions : Int) (order : List Call) (time : Nat) (id : SessionID)
    (tracks : List Track) : Prop :=
  ∃ d σ, d.op = .deleteSession id ∧ d.done = time ∧
    Cut Stations.apply (.initial maxSessions) order d σ ∧ id ∈ σ.ids ∧ σ.tracks id = tracks

/-- The calls have an order, and the deletion of a queue finds in it what is now
in the queue. -/
def OrderInv (maxSessions : Int) (gone : QueueRef → Nat) (s : State) : Prop :=
  ∃ order σ, Linearization Stations.apply (.initial maxSessions) s.calls order σ ∧
    Agrees s.manager σ ∧ ∀ q queue, Detached s.manager q queue →
      FoundAt maxSessions order (gone q) queue.sessionId queue.tracks

structure ServiceInv (maxSessions : Int) (s : State) : Prop where
  registry : RegistryInv s.manager s.registry.server.history
  order : ∃ gone, TimesInv gone s ∧ OrderInv maxSessions gone s

namespace ServiceLemmas

variable {s t : State} {maxSessions : Int} {gone : QueueRef → Nat}

/-! ## Queues that have left the registry -/

theorem eq_of_view {queue queue' : SessionQueue Track} (h : view queue' = view queue) :
    queue'.sessionId = queue.sessionId ∧ queue'.tracks = queue.tracks := Prod.mk.inj h

/-- Every detached queue was one before, with the same id; and the same tracks,
unless it is `q`. -/
theorem detached_of_changes {m m' : SessionManager Track} {q : QueueRef}
    {queue : SessionQueue Track} {tracks : List Track} (hq : m.queues[q]? = some queue)
    (h : ChangesQueue m m' q (queue.sessionId, tracks)) {r : QueueRef}
    {queue' : SessionQueue Track} (hd : Detached m' r queue') :
    ∃ old, Detached m r old ∧ old.sessionId = queue'.sessionId ∧
      queue'.tracks = if r = q then tracks else old.tracks := by
  obtain ⟨hr, hl⟩ := hd
  rcases eq_or_ne r q with rfl | hne
  · have hview := h.changed
    rw [hr] at hview
    obtain ⟨hid, htracks⟩ := Prod.mk.inj (Option.some_inj.mp hview)
    refine ⟨queue, ⟨hq, ?_⟩, hid.symm, htracks.trans (if_pos rfl).symm⟩
    rwa [← hid, ← h.sessions]
  · have hview := h.others r hne
    rw [hr] at hview
    obtain ⟨old, hold, heq⟩ := Option.map_eq_some_iff.mp hview.symm
    obtain ⟨hid, htracks⟩ := eq_of_view heq
    refine ⟨old, ⟨hold, ?_⟩, hid, htracks.symm.trans (if_neg hne).symm⟩
    rwa [hid, ← h.sessions]

theorem detached_of_same {m m' : SessionManager Track} (h : SameStations m m') {q : QueueRef}
    {queue : SessionQueue Track} (hd : Detached m' q queue) :
    ∃ old, Detached m q old ∧ view old = view queue := by
  obtain ⟨hq, hl⟩ := hd
  have hview := h.queues q
  rw [hq] at hview
  obtain ⟨old, hold, heq⟩ := Option.map_eq_some_iff.mp hview.symm
  refine ⟨old, ⟨hold, ?_⟩, heq⟩
  rwa [(eq_of_view heq).1, ← h.sessions]

theorem detached_of_register {m : SessionManager Track} {id : SessionID} {archiveID : Option Int}
    {q : QueueRef} {queue : SessionQueue Track} (hl : m.sessions.lookup id = none)
    (hd : Detached (m.register id archiveID) q queue) : Detached m q queue := by
  obtain ⟨hq, hlookup⟩ := hd
  have hq : (m.queues ++ [.newQueue id archiveID])[q]? = some queue := hq
  rcases Nat.lt_or_ge q m.queues.length with hold | hnew
  · rw [List.getElem?_append_left hold] at hq
    refine ⟨hq, fun h => ?_⟩
    rcases eq_or_ne queue.sessionId id with heq | hne
    · rw [heq, hl] at h
      cases h
    · exact hlookup ((SessionManager.register_lookup_ne m archiveID hne).trans h)
  · -- the new queue is registered
    have hlt := (List.getElem?_eq_some_iff.mp hq).1
    rw [List.length_append, List.length_singleton] at hlt
    obtain rfl : q = m.queues.length := Nat.le_antisymm (Nat.le_of_lt_succ hlt) hnew
    rw [List.getElem?_concat_length] at hq
    cases hq
    exact absurd (SessionManager.register_lookup m id archiveID) hlookup

/-- The queue that a deletion takes out, and those that were out before. -/
theorem detached_of_delete {m : SessionManager Track} {id : SessionID} {q : QueueRef}
    {queue : SessionQueue Track} (hd : Detached (m.deleteSession id) q queue) :
    Detached m q queue ∨ (queue.sessionId = id ∧ m.sessions.lookup id = some q) := by
  obtain ⟨hq, hl⟩ := hd
  rcases eq_or_ne queue.sessionId id with rfl | hne
  · by_cases h : m.sessions.lookup queue.sessionId = some q
    · exact .inr ⟨rfl, h⟩
    · exact .inl ⟨hq, h⟩
  · rw [SessionManager.deleteSession_lookup_ne m hne] at hl
    exact .inl ⟨hq, hl⟩

/-! ## The stations after a step -/

theorem agrees_of_same {m m' : SessionManager Track} {σ : Stations} (h : SameStations m m')
    (hσ : Agrees m σ) : Agrees m' σ := by
  refine ⟨by rw [h.sessions]; exact hσ.ids, fun id q queue hl hq => ?_,
    hσ.maxSessions.trans h.maxSessions.symm⟩
  have hview := h.queues q
  rw [hq] at hview
  obtain ⟨old, hold, heq⟩ := Option.map_eq_some_iff.mp hview.symm
  rw [h.sessions] at hl
  rw [hσ.tracks id q old hl hold, (eq_of_view heq).2]

theorem agrees_register {m : SessionManager Track} {σ : Stations} {id : SessionID}
    {archiveID : Option Int} (hl : m.sessions.lookup id = none) (hσ : Agrees m σ) :
    Agrees (m.register id archiveID) { σ.setTracks id [] with ids := id :: σ.ids } := by
  refine ⟨?_, fun id' q queue hl' hq => ?_, hσ.maxSessions⟩
  · have hnew : id ∉ m.sessions := AList.lookup_eq_none.mp hl
    have hentries := AList.entries_insert_of_notMem (b := m.queues.length) hnew
    show id :: σ.ids = _
    rw [hσ.ids]
    exact (congrArg List.keys hentries).symm
  · have hq : (m.queues ++ [.newQueue id archiveID])[q]? = some queue := hq
    show Function.update σ.tracks id [] id' = _
    rcases eq_or_ne id' id with rfl | hne
    · rw [SessionManager.register_lookup] at hl'
      cases hl'
      rw [List.getElem?_concat_length] at hq
      cases hq
      exact Function.update_self ..
    · rw [SessionManager.register_lookup_ne m archiveID hne] at hl'
      rw [List.getElem?_append_left (m.allocated id' q hl')] at hq
      rw [Function.update_of_ne hne]
      exact hσ.tracks id' q queue hl' hq

theorem agrees_delete {m : SessionManager Track} {σ : Stations} {id : SessionID}
    (hσ : Agrees m σ) :
    Agrees (m.deleteSession id) { σ.setTracks id [] with ids := σ.ids.erase id } := by
  refine ⟨?_, fun id' q queue hl hq => ?_, hσ.maxSessions⟩
  · show σ.ids.erase id = _
    rw [hσ.ids]
    exact (AList.keys_erase id m.sessions).symm
  · obtain ⟨hne, hl⟩ := SessionManager.lookup_of_deleteSession hl
    show Function.update σ.tracks id [] id' = _
    rw [Function.update_of_ne hne]
    exact hσ.tracks id' q queue hl hq

variable {m m' : SessionManager Track} {σ : Stations} {q : QueueRef} {queue : SessionQueue Track}
  {tracks : List Track}

theorem others_of_changes (h : ChangesQueue m m' q (queue.sessionId, tracks))
    (hσ : Agrees m σ) {id : SessionID} {r : QueueRef} {queue' : SessionQueue Track} (hne : r ≠ q)
    (hl : m'.sessions.lookup id = some r) (hr : m'.queues[r]? = some queue') :
    σ.tracks id = queue'.tracks := by
  have hview := h.others r hne
  rw [hr] at hview
  obtain ⟨old, hold, heq⟩ := Option.map_eq_some_iff.mp hview.symm
  rw [h.sessions] at hl
  rw [hσ.tracks id r old hl hold, (eq_of_view heq).2]

/-- A call on a queue that is registered. -/
theorem agrees_of_changes (h : ChangesQueue m m' q (queue.sessionId, tracks))
    (hreg : m.sessions.lookup queue.sessionId = some q)
    (hids : ∀ id r, m.sessions.lookup id = some r →
      m.queues[r]?.map SessionQueue.sessionId = some id)
    (hq : m.queues[q]? = some queue) (hσ : Agrees m σ) :
    Agrees m' (σ.setTracks queue.sessionId tracks) := by
  refine ⟨by rw [h.sessions]; exact hσ.ids, fun id r queue' hl hr => ?_,
    hσ.maxSessions.trans h.maxSessions.symm⟩
  show Function.update σ.tracks queue.sessionId tracks id = _
  rcases eq_or_ne r q with rfl | hne
  · have hid : queue.sessionId = id := by
      have := hids id r (h.sessions ▸ hl)
      rw [hq] at this
      exact Option.some_inj.mp this
    subst hid
    have hview := h.changed
    rw [hr] at hview
    rw [Function.update_self]
    exact (Prod.mk.inj (Option.some_inj.mp hview)).2.symm
  · -- the station of `q` has no other queue
    have hid : id ≠ queue.sessionId := by
      rintro rfl
      rw [h.sessions, hreg] at hl
      exact hne (Option.some_inj.mp hl).symm
    rw [Function.update_of_ne hid]
    exact others_of_changes h hσ hne hl hr

/-- A call on a queue that has left the registry. -/
theorem agrees_of_detached (h : ChangesQueue m m' q (queue.sessionId, tracks))
    (hd : Detached m q queue)
    (hids : ∀ id r, m.sessions.lookup id = some r →
      m.queues[r]?.map SessionQueue.sessionId = some id) (hσ : Agrees m σ) : Agrees m' σ := by
  refine ⟨by rw [h.sessions]; exact hσ.ids, fun id r queue' hl hr => ?_,
    hσ.maxSessions.trans h.maxSessions.symm⟩
  -- no entry leads to `q`
  refine others_of_changes h hσ ?_ hl hr
  rintro rfl
  rw [h.sessions] at hl
  have hid := hids id r hl
  rw [hd.1] at hid
  cases hid
  exact hd.2 hl

/-! ## The times -/

theorem calls_of_cons {c : Call} (h : t.calls = c :: s.calls) (hc : c.called ≤ s.now) :
    ∀ e ∈ t.calls, e ∈ s.calls ∨ e.called ≤ s.now := by
  intro e he
  rw [h] at he
  rcases List.mem_cons.mp he with rfl | he
  · exact .inr hc
  · exact .inl he

/-- `fresh` is the queue that leaves the registry in the step, if one does. -/
theorem timesInv_step {gone' : QueueRef → Nat} (fresh : Option QueueRef)
    (hids : ∀ id r, s.manager.sessions.lookup id = some r →
      s.manager.queues[r]?.map SessionQueue.sessionId = some id)
    (h : TimesInv gone s) (hnow : t.now = s.now + 1)
    (hcalls : ∀ c ∈ t.calls, c ∈ s.calls ∨ c.called ≤ s.now) (hhandles : HandlesAfter s t)
    (hdetached : ∀ q queue, Detached t.manager q queue →
      (gone' q = gone q ∧ ∃ old, Detached s.manager q old) ∨ (gone' q = s.now ∧ fresh = some q)) :
    TimesInv gone' t := by
  constructor
  case calls =>
    intro c hc
    rw [hnow]
    rcases hcalls c hc with hc | hc
    · exact Nat.le_succ_of_le (h.calls c hc)
    · exact Nat.le_succ_of_le hc
  case since =>
    intro n q hq
    rw [hnow]
    rcases hhandles n q hq with ⟨hold, hsince⟩ | ⟨hsince, -⟩
    · rw [hsince]
      exact Nat.le_succ_of_le (h.since n q hold)
    · rw [hsince]
      exact Nat.le_succ _
  case sinceGone =>
    intro n q queue hq hd
    rcases hhandles n q hq with ⟨hold, hsince⟩ | ⟨hsince, id, hl⟩
    · rw [hsince]
      rcases hdetached q queue hd with ⟨hgone, old, hd⟩ | ⟨hgone, -⟩
      · rw [hgone]
        exact h.sinceGone n q old hold hd
      · rw [hgone]
        exact h.since n q hold
    · rw [hsince]
      rcases hdetached q queue hd with ⟨-, old, hq, hnot⟩ | ⟨hgone, -⟩
      · -- the caller has just found it in the registry
        have hid := hids id q hl
        rw [hq] at hid
        cases hid
        exact absurd hl hnot
      · exact hgone.ge
  case goneBefore =>
    intro q queue hd
    rw [hnow]
    rcases hdetached q queue hd with ⟨hgone, old, hd⟩ | ⟨hgone, -⟩
    · rw [hgone]
      exact Nat.lt_succ_of_lt (h.goneBefore q old hd)
    · rw [hgone]
      exact Nat.lt_succ_self _
  case distinct =>
    intro q r queue queue' hq hr heq
    rcases hdetached q queue hq with ⟨hgone, old, hold⟩ | ⟨hgone, hfresh⟩ <;>
      rcases hdetached r queue' hr with ⟨hgone', old', hold'⟩ | ⟨hgone', hfresh'⟩
    · exact h.distinct q r old old' hold hold' (hgone.symm.trans (heq.trans hgone'))
    · have := h.goneBefore q old hold
      omega
    · have := h.goneBefore r old' hold'
      omega
    · exact Option.some_inj.mp (hfresh.symm.trans hfresh')

/-! ## The order -/

theorem foundAt_snoc {order : List Call} {time : Nat} {id : SessionID} {c : Call}
    (h : FoundAt maxSessions order time id tracks) (hlate : time ≤ c.done) :
    FoundAt maxSessions (order ++ [c]) time id tracks := by
  obtain ⟨d, σ, hop, rfl, hcut, hfound⟩ := h
  exact ⟨d, σ, hop, rfl, hcut.snoc hlate, hfound⟩

/-- The call goes to the end. -/
theorem orderInv_snoc {c : Call} {gone' : QueueRef → Nat} (htimes : TimesInv gone s)
    (h : OrderInv maxSessions gone s) (hcalls : t.calls = c :: s.calls) (hdone : c.done = s.now)
    (hc : ∀ σ, Agrees s.manager σ → ∃ σ', σ.apply c.op = (c.answer, σ') ∧ Agrees t.manager σ')
    (hdetached : ∀ q queue, Detached t.manager q queue →
      (gone' q = gone q ∧ ∃ old, Detached s.manager q old ∧ view old = view queue) ∨
      (gone' q = s.now ∧ c.op = .deleteSession queue.sessionId ∧
        s.manager.sessions.lookup queue.sessionId = some q ∧
          s.manager.queues[q]? = some queue)) :
    OrderInv maxSessions gone' t := by
  obtain ⟨order, σ, hlin, hσ, hfound⟩ := h
  obtain ⟨σ', happly, hσ'⟩ := hc σ hσ
  refine ⟨order ++ [c], σ', ?_, hσ', fun q queue hd => ?_⟩
  · rw [hcalls]
    refine hlin.snoc happly fun e he => ?_
    rw [hdone]
    exact htimes.calls e he
  · rcases hdetached q queue hd with ⟨hgone, old, hold, hview⟩ | ⟨hgone, hop, hl, hq⟩
    · obtain ⟨hid, htracks⟩ := eq_of_view hview
      rw [hgone, ← hid, ← htracks]
      refine foundAt_snoc (hfound q old hold) ?_
      rw [hdone]
      exact Nat.le_of_lt (htimes.goneBefore q old hold)
    · refine ⟨c, σ, hop, hdone.trans hgone.symm, hlin.cut_snoc, ?_, hσ.tracks _ q queue hl hq⟩
      rw [mem_ids hσ, hl]
      rfl

/-- The call goes in front of the deletion of its queue. -/
theorem orderInv_insert {n : Nat} {op : QueueOp} (htimes : TimesInv gone s)
    (h : OrderInv maxSessions gone s) (hhandle : handle (s.registry.users n) = some q)
    (hd : Detached s.manager q queue)
    (hchange : ChangesQueue s.manager t.manager q (queue.sessionId, (op.apply queue.tracks).2))
    (hids : ∀ id r, s.manager.sessions.lookup id = some r →
      s.manager.queues[r]?.map SessionQueue.sessionId = some id)
    (hcalls : t.calls =
      ⟨.queue queue.sessionId op, (op.apply queue.tracks).1, s.since n, s.now⟩ :: s.calls) :
    OrderInv maxSessions gone t := by
  obtain ⟨order, σ, hlin, hσ, hfound⟩ := h
  obtain ⟨d, u, hop, hdone, hcut, hmem, htracks⟩ := hfound q queue hd
  have happly : u.apply (.queue queue.sessionId op) =
      ((op.apply queue.tracks).1, u.setTracks queue.sessionId (op.apply queue.tracks).2) := by
    rw [Stations.apply, if_pos hmem, htracks]
  -- a deletion leaves nothing of the tracks, whatever they are
  have hforget : (u.setTracks queue.sessionId (op.apply queue.tracks).2).apply d.op =
      u.apply d.op := by
    simp [hop, Stations.apply, Stations.setTracks]
  obtain ⟨order', hlin', hcut', hothers⟩ := hlin.insert
    (c := ⟨.queue queue.sessionId op, (op.apply queue.tracks).1, s.since n, s.now⟩)
    hcut happly hforget (hdone ▸ htimes.sinceGone n q queue hhandle hd) htimes.calls
  refine ⟨order', σ, hcalls ▸ hlin', agrees_of_detached hchange hd hids hσ, fun r queue' hr => ?_⟩
  obtain ⟨old, hold, hid, htracks'⟩ := detached_of_changes hd.1 hchange hr
  -- the deletion of `q` finds what the call has left, the others what they found before
  rcases eq_or_ne r q with rfl | hne
  · have heq : old = queue := Option.some_inj.mp (hold.1.symm.trans hd.1)
    subst heq
    rw [if_pos rfl] at htracks'
    rw [← hid, htracks']
    exact ⟨d, _, hop, hdone, hcut', hmem, Function.update_self ..⟩
  · rw [if_neg hne] at htracks'
    rw [← hid, htracks']
    obtain ⟨d', w, hop', hdone', hcutr, hfoundr⟩ := hfound r old hold
    refine ⟨d', w, hop', hdone', hothers d' w (fun heq => ?_) ?_ hcutr, hfoundr⟩
    · exact hne (htimes.distinct r q old queue hold hd (hdone'.symm.trans (heq.trans hdone)))
    · rw [hdone']
      exact Nat.le_of_lt (htimes.goneBefore r old hold)

/-! ## One step -/

theorem apply_listSessions (hσ : Agrees m σ) {ids : List SessionID} (hids : m.Lists ids) :
    σ.apply .listSessions = (.sessions ids, σ) := by
  rw [Stations.apply, hσ.ids, Multiset.coe_eq_coe.mpr hids]
  rfl

theorem apply_register (hσ : Agrees m σ) {id : SessionID} (hl : m.sessions.lookup id = none)
    (hlt : (m.sessions.entries.length : Int) < m.maxSessions) :
    σ.apply (.createSession id) = (.ok, { σ.setTracks id [] with ids := id :: σ.ids }) := by
  have hnew : id ∉ σ.ids := by
    rw [mem_ids hσ, hl]
    exact Bool.false_ne_true
  have hroom : ¬ σ.maxSessions ≤ σ.ids.length := by
    rw [hσ.maxSessions, length_ids hσ]
    exact Int.not_le.mpr hlt
  rw [Stations.apply, if_neg hnew, if_neg hroom]

/-- When a queue has left the registry, after the deletion of `id`. -/
def goneAfter (s : State) (gone : QueueRef → Nat) (id : SessionID) (q : QueueRef) : Nat :=
  if s.manager.sessions.lookup id = some q then s.now else gone q

theorem detached_goneAfter {id : SessionID}
    (hids : ∀ id r, s.manager.sessions.lookup id = some r →
      s.manager.queues[r]?.map SessionQueue.sessionId = some id)
    (hd : Detached (s.manager.deleteSession id) q queue) :
    (goneAfter s gone id q = gone q ∧ Detached s.manager q queue) ∨
      (goneAfter s gone id q = s.now ∧ queue.sessionId = id ∧
        s.manager.sessions.lookup id = some q) := by
  rcases detached_of_delete hd with hold | ⟨hid, hl⟩
  · refine .inl ⟨if_neg fun hl => ?_, hold⟩
    have hid := hids id q hl
    rw [hold.1] at hid
    cases hid
    exact hold.2 hl
  · exact .inr ⟨if_pos hl, hid, hl⟩

section Stepped
variable (hids : ∀ id r, s.manager.sessions.lookup id = some r →
    s.manager.queues[r]?.map SessionQueue.sessionId = some id)
  (htimes : TimesInv gone s) (horder : OrderInv maxSessions gone s)
  (hhandles : HandlesAfter s t) (hnow : t.now = s.now + 1)
include hids htimes horder hhandles hnow

theorem inv_silent (hsame : SameStations s.manager t.manager) (hcalls : t.calls = s.calls) :
    TimesInv gone t ∧ OrderInv maxSessions gone t := by
  refine ⟨timesInv_step none hids htimes hnow (fun c hc => .inl (hcalls ▸ hc)) hhandles
    fun q queue hd => ?_, ?_⟩
  · obtain ⟨old, hold, -⟩ := detached_of_same hsame hd
    exact .inl ⟨rfl, old, hold⟩
  · obtain ⟨order, σ, hlin, hσ, hfound⟩ := horder
    refine ⟨order, σ, hcalls ▸ hlin, agrees_of_same hsame hσ, fun q queue hd => ?_⟩
    obtain ⟨old, hold, hview⟩ := detached_of_same hsame hd
    obtain ⟨hid, htracks⟩ := eq_of_view hview
    rw [← hid, ← htracks]
    exact hfound q old hold

/-- The call goes to the end of the order, and takes out `fresh`. -/
theorem inv_snoc {c : Call} {gone' : QueueRef → Nat} (fresh : Option QueueRef)
    (hcalls : t.calls = c :: s.calls) (hcalled : c.called ≤ s.now) (hdone : c.done = s.now)
    (hc : ∀ σ, Agrees s.manager σ → ∃ σ', σ.apply c.op = (c.answer, σ') ∧ Agrees t.manager σ')
    (hdetached : ∀ q queue, Detached t.manager q queue →
      (gone' q = gone q ∧ ∃ old, Detached s.manager q old ∧ view old = view queue) ∨
      (gone' q = s.now ∧ fresh = some q ∧ c.op = .deleteSession queue.sessionId ∧
        s.manager.sessions.lookup queue.sessionId = some q ∧
          s.manager.queues[q]? = some queue)) :
    TimesInv gone' t ∧ OrderInv maxSessions gone' t := by
  refine ⟨timesInv_step fresh hids htimes hnow (calls_of_cons hcalls hcalled) hhandles
    fun q queue hd => ?_, orderInv_snoc htimes horder hcalls hdone hc fun q queue hd => ?_⟩
  · rcases hdetached q queue hd with ⟨hgone, old, hold, -⟩ | ⟨hgone, hfresh, -⟩
    · exact .inl ⟨hgone, old, hold⟩
    · exact .inr ⟨hgone, hfresh⟩
  · rcases hdetached q queue hd with hold | ⟨hgone, -, hnew⟩
    · exact .inl hold
    · exact .inr ⟨hgone, hnew⟩

theorem inv_deleted {id : SessionID} (hm : t.manager = s.manager.deleteSession id)
    (hcalls : t.calls = s.atOnce (.deleteSession id) .ok :: s.calls) :
    TimesInv (goneAfter s gone id) t ∧ OrderInv maxSessions (goneAfter s gone id) t := by
  refine inv_snoc hids htimes horder hhandles hnow (s.manager.sessions.lookup id) hcalls
    Nat.le.refl rfl (fun σ hσ => ?_) fun q queue hd => ?_
  · rw [hm]
    exact ⟨_, rfl, agrees_delete hσ⟩
  · rw [hm] at hd
    rcases detached_goneAfter hids hd with ⟨hgone, hold⟩ | ⟨hgone, rfl, hl⟩
    · exact .inl ⟨hgone, queue, hold, rfl⟩
    · exact .inr ⟨hgone, hl, rfl, hl, hd.1⟩

theorem inv_queued {n : Nat} {op : QueueOp} (hhandle : handle (s.registry.users n) = some q)
    (hq : s.manager.queues[q]? = some queue)
    (hchange : ChangesQueue s.manager t.manager q (queue.sessionId, (op.apply queue.tracks).2))
    (hcalls : t.calls =
      ⟨.queue queue.sessionId op, (op.apply queue.tracks).1, s.since n, s.now⟩ :: s.calls) :
    TimesInv gone t ∧ OrderInv maxSessions gone t := by
  -- a call on a queue that is registered comes last, a late one in front of its deletion
  by_cases hreg : s.manager.sessions.lookup queue.sessionId = some q
  · refine inv_snoc hids htimes horder hhandles hnow none hcalls (htimes.since n q hhandle) rfl
      (fun σ hσ => ?_) fun r queue' hd => ?_
    · have hmem : queue.sessionId ∈ σ.ids := by
        rw [mem_ids hσ, hreg]
        rfl
      refine ⟨_, ?_, agrees_of_changes hchange hreg hids hq hσ⟩
      rw [Stations.apply, if_pos hmem, hσ.tracks _ q queue hreg hq]
    · obtain ⟨old, hold, hid, htracks⟩ := detached_of_changes hq hchange hd
      have hne : r ≠ q := by
        rintro rfl
        cases Option.some_inj.mp (hold.1.symm.trans hq)
        exact hold.2 hreg
      rw [if_neg hne] at htracks
      exact .inl ⟨rfl, old, hold, Prod.ext hid htracks.symm⟩
  · refine ⟨timesInv_step none hids htimes hnow
      (calls_of_cons hcalls (htimes.since n q hhandle)) hhandles fun r queue' hd => ?_,
      orderInv_insert htimes horder hhandle ⟨hq, hreg⟩ hchange hids hcalls⟩
    obtain ⟨old, hold, -⟩ := detached_of_changes hq hchange hd
    exact .inl ⟨rfl, old, hold⟩

theorem inv_stepped (hstep : Stepped s t) :
    ∃ gone', TimesInv gone' t ∧ OrderInv maxSessions gone' t := by
  cases hstep with
  | silent hsame hcalls =>
    exact ⟨gone, inv_silent hids htimes horder hhandles hnow hsame hcalls⟩
  | answered c hsame hcalls hcalled hdone hanswer =>
    exact ⟨gone, inv_snoc hids htimes horder hhandles hnow none hcalls hcalled.le hdone
      (fun σ hσ => ⟨σ, hanswer σ hσ, agrees_of_same hsame hσ⟩)
      fun q queue hd => .inl ⟨rfl, detached_of_same hsame hd⟩⟩
  | created id archiveID hl hlt hm hcalls =>
    refine ⟨gone, inv_snoc hids htimes horder hhandles hnow none hcalls Nat.le.refl rfl
      (fun σ hσ => ?_) fun q queue hd => ?_⟩
    · rw [hm]
      exact ⟨_, apply_register hσ hl hlt, agrees_register hl hσ⟩
    · rw [hm] at hd
      exact .inl ⟨rfl, queue, detached_of_register hl hd, rfl⟩
  | deleted id hm hcalls =>
    exact ⟨_, inv_deleted hids htimes horder hhandles hnow hm hcalls⟩
  | queued n q queue op hhandle hq hchange hcalls =>
    exact ⟨gone, inv_queued hids htimes horder hhandles hnow hhandle hq hchange hcalls⟩

end Stepped

theorem serviceInv_initial (maxSessions : Int) : ServiceInv maxSessions (.initial maxSessions) := by
  have hnone : ∀ q queue, ¬ Detached (State.initial maxSessions).manager q queue := by
    rintro q queue ⟨hq, -⟩
    cases hq
  refine ⟨RegistryLemmas.registryInv_initial maxSessions, fun _ => 0, ?_, [],
    .initial maxSessions, .nil _, ⟨rfl, fun id q queue hl => ?_, rfl⟩,
    fun q queue hd => absurd hd (hnone q queue)⟩
  · refine ⟨fun c hc => absurd hc List.not_mem_nil, fun _ _ _ => Nat.le.refl, ?_, ?_, ?_⟩
    · exact fun _ q queue _ hd => absurd hd (hnone q queue)
    · exact fun q queue hd => absurd hd (hnone q queue)
    · exact fun q _ queue _ hd => absurd hd (hnone q queue)
  · cases hl

theorem serviceInv_step {a : Action} (h : ServiceInv maxSessions s) (hs : s.step a = some t) :
    ServiceInv maxSessions t := by
  obtain ⟨hreg, gone, htimes, horder⟩ := h
  cases a with
  | registry a =>
    obtain ⟨hstep, hhandles⟩ := stepped_registry hs
    obtain ⟨registry, hregistry, rfl⟩ := Option.map_eq_some_iff.mp hs
    exact ⟨(RegistryLemmas.registryInv_step hreg (RegistryLemmas.managerStep hregistry)).1,
      inv_stepped hreg.ids htimes horder hhandles rfl hstep⟩
  | listSessions ids =>
    obtain ⟨hids, hs⟩ := Option.ite_none_right_eq_some.mp hs
    cases hs
    have hstep : Stepped s { s with
        now := s.now + 1
        calls := s.atOnce .listSessions (.sessions ids) :: s.calls } :=
      .answered _ (sameStations_of_eq rfl rfl rfl) rfl rfl rfl fun σ hσ =>
        apply_listSessions hσ hids
    exact ⟨hreg, inv_stepped hreg.ids htimes horder (handlesAfter_of_eq (fun _ => rfl) rfl) rfl
      hstep⟩

end ServiceLemmas

open ServiceLemmas

/-- For every cap and in every run, the calls have an order in which the service
gives the answers of the code. -/
theorem linearizable {maxSessions : Int} {s : State}
    (h : Reachable (serviceSystem maxSessions) s) :
    ∃ order σ, Linearization Stations.apply (.initial maxSessions) s.calls order σ ∧
      Agrees s.manager σ := by
  have hinv : ServiceInv maxSessions s := by
    refine h.invariant ?_ ?_
    · rintro _ rfl
      exact serviceInv_initial maxSessions
    · exact fun s a t _ hi _ hs => serviceInv_step hi hs
  obtain ⟨gone, -, order, σ, hlin, hσ, -⟩ := hinv.order
  exact ⟨order, σ, hlin, hσ⟩

def lateTrack : Track := ⟨1, "youtube", "x", "t", "a", 60, "f", 0, "", 0⟩

/-- The one session is deleted and its id used again, while a caller has its
queue: that caller still gets the track of the old queue, and can put one there. -/
theorem linearizable_late : ∃ s, Reachable (serviceSystem 1) s ∧
    s.calls.map (fun c => (c.answer, c.called, c.done)) =
      [(.sessions ["a"], 9, 9), (.ok, 1, 8), (.track lateTrack, 1, 7),
        (.error .tooManySessionsError, 6, 6), (.ok, 5, 5), (.ok, 4, 4), (.ok, 1, 2), (.ok, 1, 1),
        (.ok, 0, 0)] ∧
      ∃ order σ, Linearization Stations.apply (.initial 1) s.calls order σ ∧
        Agrees s.manager σ := by
  obtain ⟨s, hs, hp⟩ := Reachable.of_run (S := serviceSystem 1)
    (p := fun s => decide (s.calls.map (fun c => (c.answer, c.called, c.done)) =
      [(.sessions ["a"], 9, 9), (.ok, 1, 8), (.track lateTrack, 1, 7),
        (.error .tooManySessionsError, 6, 6), (.ok, 5, 5), (.ok, 4, 4), (.ok, 1, 2), (.ok, 1, 1),
        (.ok, 0, 0)]))
    [.registry (.server (.createSession 0 "a" none)), .registry (.getQueue 0 "a"),
      .registry (.enqueue 0 lateTrack), .registry (.wake 0),
      .registry (.server (.deleteSession 1 "a")),
      .registry (.server (.createSession 2 "a" none)),
      .registry (.server (.createSession 3 "b" none)), .registry (.dequeue 0),
      .registry (.enqueue 0 lateTrack), .listSessions ["a"]]
    (show (serviceSystem 1).init (.initial 1) from rfl) (by decide +kernel)
  exact ⟨s, hs, of_decide_eq_true hp, linearizable hs⟩

end RadioJockey.Service
