import Mathlib.Data.List.AList
import RadioJockey.SessionQueue
import RadioJockey.Tracks

/-!
# The session registry (`session_manager.go`, `session_event.go`)

`CreateSession` and `DeleteSession` change the map under `m.mu`, release the
lock, and only then send their event in a `select` with the caller's context.
So each is two steps. The locked section is a function here (`createSession`,
`deleteSession`), and so is the send (`send`); the models of the callers put
them together.

A `*SessionQueue` is the number of its allocation, an index into `queues`.
-/

namespace RadioJockey

open Channel

/-- Who calls the manager: an RPC handler, or the deferred `endSession` of a
stream goroutine. Each number stands for one call or one goroutine. -/
inductive Caller
  | rpc (n : Nat)
  | stream (g : Nat)
  deriving DecidableEq, Repr

inductive SessionManagerEventType
  | sessionCreated
  | sessionDeleted
  deriving DecidableEq, Repr

/-- `caller` is the call that sent the event. `CreateSession` allocates the
`Ready` channel, so in a created event `Ready` names the call. In a deleted
event `Ready` is nil and `caller` is only the model's knowledge. -/
structure SessionManagerEvent where
  type : SessionManagerEventType
  sessionID : SessionID
  caller : Caller
  deriving DecidableEq, Repr

def eventChannelBuffer : Nat := 16

abbrev QueueRef := Nat

structure SessionManager (T : Type) where
  sessions : AList fun _ : SessionID => QueueRef
  queues : List (SessionQueue T)
  allocated : ∀ id q, sessions.lookup id = some q → q < queues.length
  events : Chan SessionManagerEvent eventChannelBuffer
  maxSessions : Int

namespace SessionManager

variable {T : Type}

def createSessionManager (maxSessions : Int) : SessionManager T where
  sessions := ∅
  queues := []
  allocated := by simp
  events := .make
  maxSessions := maxSessions

/-- Registers a new queue. -/
def register (m : SessionManager T) (id : SessionID) (archiveID : Option Int) :
    SessionManager T where
  sessions := m.sessions.insert id m.queues.length
  queues := m.queues ++ [.newQueue id archiveID]
  allocated := by
    intro id' q h
    rw [List.length_append, List.length_singleton]
    by_cases he : id' = id
    · subst he
      rw [AList.lookup_insert] at h
      cases h
      exact Nat.lt_succ_self _
    · rw [AList.lookup_insert_ne he] at h
      exact Nat.lt_succ_of_lt (m.allocated id' q h)
  events := m.events
  maxSessions := m.maxSessions

/-- The locked section of `CreateSession`, with the queue it registers. -/
def createSession (m : SessionManager T) (id : SessionID) (archiveID : Option Int) :
    Except SessionError (SessionManager T × QueueRef) :=
  match m.sessions.lookup id with
  | some _ => .error .alreadyExistsError
  | none =>
    if m.maxSessions ≤ m.sessions.entries.length then .error .tooManySessionsError
    else .ok (m.register id archiveID, m.queues.length)

/-- The locked section of `DeleteSession`. -/
def deleteSession (m : SessionManager T) (id : SessionID) : SessionManager T where
  sessions := m.sessions.erase id
  queues := m.queues
  allocated := by
    intro id' q h
    by_cases he : id' = id
    · subst he; rw [AList.lookup_erase] at h; cases h
    · rw [AList.lookup_erase_ne he] at h; exact m.allocated id' q h
  events := m.events
  maxSessions := m.maxSessions

/-- The send case of the two `select`s. -/
def send (m : SessionManager T) (e : SessionManagerEvent) : Option (SessionManager T) :=
  (m.events.send? e).map fun c => { m with events := c }

/-- The receive of `StreamSessions`. -/
def receive (m : SessionManager T) : Option (SessionManagerEvent × SessionManager T) :=
  m.events.recv?.map fun p => (p.1, { m with events := p.2 })

def getQueue (m : SessionManager T) (id : SessionID) : Except SessionError QueueRef :=
  match m.sessions.lookup id with
  | none => .error .sessionNotFoundError
  | some q => .ok q

/-- The ids that `ListSessions` ranges over, in the order of the model's map. -/
def listSessions (m : SessionManager T) : List SessionID := m.sessions.keys

/-- An answer of `ListSessions`: a `range` over a map of Go takes any order. -/
def Lists (m : SessionManager T) (ids : List SessionID) : Prop := ids.Perm m.listSessions

instance (m : SessionManager T) (ids : List SessionID) : Decidable (m.Lists ids) :=
  inferInstanceAs (Decidable (List.Perm _ _))

/-- Stores `q'` behind the pointer `q`. -/
def setQueue (m : SessionManager T) (q : QueueRef) (q' : SessionQueue T) : SessionManager T where
  sessions := m.sessions
  queues := m.queues.set q q'
  allocated := by intro id r h; rw [List.length_set]; exact m.allocated id r h
  events := m.events
  maxSessions := m.maxSessions

/-- The ids of the tracks in the queues of the registered sessions. -/
def inUseTrackIDs (m : SessionManager Track) : List Int :=
  m.sessions.entries.flatMap fun e =>
    match m.queues[e.2]? with
    | none => []
    | some q => q.listQueue.map Track.id

theorem createSession_eq_ok {m m' : SessionManager T} {id : SessionID} {archiveID : Option Int}
    {q : QueueRef} (h : m.createSession id archiveID = .ok (m', q)) :
    m.sessions.lookup id = none ∧ (m.sessions.entries.length : Int) < m.maxSessions ∧
      m' = m.register id archiveID ∧ q = m.queues.length := by
  unfold createSession at h
  split at h
  · cases h
  · next hl =>
    split at h
    · cases h
    · next hlt =>
      cases h
      exact ⟨hl, by omega, rfl, rfl⟩

theorem createSession_eq_error {m : SessionManager T} {id : SessionID} {archiveID : Option Int}
    {err : SessionError} (h : m.createSession id archiveID = .error err) :
    (err = .alreadyExistsError ∧ ∃ q, m.sessions.lookup id = some q) ∨
      (err = .tooManySessionsError ∧ m.sessions.lookup id = none ∧
        m.maxSessions ≤ m.sessions.entries.length) := by
  unfold createSession at h
  split at h
  · next q hl => cases h; exact .inl ⟨rfl, q, hl⟩
  · next hl =>
    split at h
    · next hle => cases h; exact .inr ⟨rfl, hl, hle⟩
    · cases h

theorem getQueue_eq_ok {m : SessionManager T} {id : SessionID} {q : QueueRef} :
    m.getQueue id = .ok q ↔ m.sessions.lookup id = some q := by
  unfold getQueue
  split <;> next h => simp [h]

theorem getQueue_eq_error {m : SessionManager T} {id : SessionID} {err : SessionError} :
    m.getQueue id = .error err ↔ m.sessions.lookup id = none ∧ err = .sessionNotFoundError := by
  unfold getQueue
  split <;> next h => simp [h, eq_comm]

theorem send_eq_some {m m' : SessionManager T} {e : SessionManagerEvent}
    (h : m.send e = some m') :
    m.events.buf.length < eventChannelBuffer ∧ m'.events.buf = m.events.buf ++ [e] ∧
      m'.sessions = m.sessions ∧ m'.queues = m.queues ∧ m'.maxSessions = m.maxSessions := by
  obtain ⟨c, hc, rfl⟩ := Option.map_eq_some_iff.mp h
  obtain ⟨hlt, hb⟩ := Chan.send?_eq_some.mp hc
  exact ⟨hlt, hb, rfl, rfl, rfl⟩

theorem receive_eq_some {m m' : SessionManager T} {e : SessionManagerEvent}
    (h : m.receive = some (e, m')) :
    m.events.buf = e :: m'.events.buf ∧ m'.sessions = m.sessions ∧ m'.queues = m.queues ∧
      m'.maxSessions = m.maxSessions := by
  obtain ⟨⟨e', c⟩, hc, he⟩ := Option.map_eq_some_iff.mp h
  obtain ⟨rfl, rfl⟩ := Prod.mk.inj he
  exact ⟨Chan.recv?_eq_some.mp hc, rfl, rfl, rfl⟩

@[simp] theorem register_lookup (m : SessionManager T) (id : SessionID) (archiveID : Option Int) :
    (m.register id archiveID).sessions.lookup id = some m.queues.length :=
  AList.lookup_insert _

theorem register_lookup_ne (m : SessionManager T) {id id' : SessionID} (archiveID : Option Int)
    (h : id' ≠ id) : (m.register id archiveID).sessions.lookup id' = m.sessions.lookup id' :=
  AList.lookup_insert_ne h

@[simp] theorem register_events (m : SessionManager T) (id : SessionID) (archiveID : Option Int) :
    (m.register id archiveID).events = m.events := rfl

@[simp] theorem register_length (m : SessionManager T) (id : SessionID) (archiveID : Option Int) :
    (m.register id archiveID).queues.length = m.queues.length + 1 := by
  simp [register]

@[simp] theorem deleteSession_lookup (m : SessionManager T) (id : SessionID) :
    (m.deleteSession id).sessions.lookup id = none :=
  AList.lookup_erase _ _

theorem deleteSession_lookup_ne (m : SessionManager T) {id id' : SessionID} (h : id' ≠ id) :
    (m.deleteSession id).sessions.lookup id' = m.sessions.lookup id' :=
  AList.lookup_erase_ne h

/-- A registration that survives the deletion was there before it. -/
theorem lookup_of_deleteSession {m : SessionManager T} {id id' : SessionID} {q : QueueRef}
    (h : (m.deleteSession id).sessions.lookup id' = some q) :
    id' ≠ id ∧ m.sessions.lookup id' = some q := by
  by_cases he : id' = id
  · subst he; rw [deleteSession_lookup] at h; cases h
  · exact ⟨he, (deleteSession_lookup_ne m he) ▸ h⟩

/-- Deleting an id that is not registered changes nothing. -/
theorem deleteSession_sessions_of_none {m : SessionManager T} {id : SessionID}
    (h : m.sessions.lookup id = none) : (m.deleteSession id).sessions = m.sessions :=
  AList.ext (List.kerase_of_notMem_keys (AList.lookup_eq_none.mp h))

@[simp] theorem deleteSession_events (m : SessionManager T) (id : SessionID) :
    (m.deleteSession id).events = m.events := rfl

@[simp] theorem deleteSession_queues (m : SessionManager T) (id : SessionID) :
    (m.deleteSession id).queues = m.queues := rfl

end SessionManager

end RadioJockey
