import RadioJockey.Lib.Channel

/-!
# The queue of one session (`session_queue.go`, `session_event.go`)

Each function that holds `q.mu` for its whole body is one step here. `Enqueue`
releases the lock before it signals `notify`, so it is two steps: `enqueue`
(the append under the lock) and `wake` (the send).

The queue is generic in what stands for a `*db.Track`: the playback model
needs to tell two enqueued copies of one track apart.
-/

namespace RadioJockey

open Channel

abbrev SessionID := String

/-- The sentinel errors of the package `session`, and the error of a cancelled
context. -/
inductive SessionError
  | alreadyExistsError
  | sessionNotFoundError
  | tooManySessionsError
  | emptyQueueError
  | badIndexError
  | fullQueueError
  | contextError
  deriving DecidableEq, Repr

inductive SessionQueueEventType
  | skipTrack
  deriving DecidableEq, Repr

/-- `aimedAt` is not in the source: it is the entry that was at the head of the
queue when the event was sent. -/
structure SessionQueueEvent (T : Type) where
  type : SessionQueueEventType
  aimedAt : T
  deriving DecidableEq

def maxQueueSize : Nat := 16

structure SessionQueue (T : Type) where
  tracks : List T
  bounded : tracks.length ≤ maxQueueSize
  sessionId : SessionID
  notify : Chan Unit 1
  events : Chan (SessionQueueEvent T) 1
  archiveID : Option Int
  deriving DecidableEq

namespace SessionQueue

variable {T : Type}

def newQueue (sessionId : SessionID) (archiveID : Option Int) : SessionQueue T where
  tracks := []
  bounded := Nat.zero_le _
  sessionId := sessionId
  notify := .make
  events := .make
  archiveID := archiveID

/-- `Skip`: the event is dropped when one is buffered already. -/
def skip (q : SessionQueue T) : Except SessionError (SessionQueue T) :=
  match q.tracks with
  | [] => .error .emptyQueueError
  | t :: _ => .ok { q with events := q.events.trySend ⟨.skipTrack, t⟩ }

/-- The locked part of `Enqueue`. -/
def enqueue (q : SessionQueue T) (t : T) : Except SessionError (SessionQueue T) :=
  if h : maxQueueSize ≤ q.tracks.length then .error .fullQueueError
  else .ok { q with
    tracks := q.tracks ++ [t]
    bounded := by simp only [List.length_append, List.length_singleton]; omega }

/-- The signal that ends `Enqueue`. -/
def wake (q : SessionQueue T) : SessionQueue T := { q with notify := q.notify.trySend () }

def peek (q : SessionQueue T) : Except SessionError T :=
  match q.tracks with
  | [] => .error .emptyQueueError
  | t :: _ => .ok t

def dequeue (q : SessionQueue T) : Except SessionError (T × SessionQueue T) :=
  match q with
  | ⟨[], _, _, _, _, _⟩ => .error .emptyQueueError
  | ⟨t :: ts, h, i, n, e, a⟩ => .ok (t, ⟨ts, Nat.le_of_succ_le h, i, n, e, a⟩)

def listQueue (q : SessionQueue T) : List T := q.tracks

/-- `Remove`: the entries before and after `index` are kept. -/
def remove (q : SessionQueue T) (index : Nat) : Except SessionError (SessionQueue T) :=
  if q.tracks.length ≤ index then .error .badIndexError
  else .ok { q with
    tracks := q.tracks.take index ++ q.tracks.drop (index + 1)
    bounded := by
      have := q.bounded
      simp only [List.length_append, List.length_take, List.length_drop]
      omega }

theorem skip_eq_ok {q q' : SessionQueue T} :
    q.skip = .ok q' ↔
      ∃ t ts, q.tracks = t :: ts ∧ q' = { q with events := q.events.trySend ⟨.skipTrack, t⟩ } := by
  unfold skip
  split
  · next h => simp [h]
  · next t ts h => simp [h, eq_comm]

theorem enqueue_eq_ok {q q' : SessionQueue T} {t : T} (h : q.enqueue t = .ok q') :
    q.tracks.length < maxQueueSize ∧ q'.tracks = q.tracks ++ [t] ∧ q'.sessionId = q.sessionId ∧
      q'.notify = q.notify ∧ q'.events = q.events ∧ q'.archiveID = q.archiveID := by
  unfold enqueue at h
  split at h
  · cases h
  · next hlt =>
    cases h
    exact ⟨Nat.lt_of_not_le hlt, rfl, rfl, rfl, rfl, rfl⟩

theorem peek_eq_ok {q : SessionQueue T} {t : T} : q.peek = .ok t ↔ q.tracks.head? = some t := by
  unfold peek
  split <;> next h => simp [h]

theorem peek_eq_error {q : SessionQueue T} {err : SessionError} :
    q.peek = .error err ↔ q.tracks = [] ∧ err = .emptyQueueError := by
  unfold peek
  split <;> next h => simp [h, eq_comm]

theorem dequeue_eq_ok {q q' : SessionQueue T} {t : T} (h : q.dequeue = .ok (t, q')) :
    q.tracks = t :: q'.tracks ∧ q'.sessionId = q.sessionId ∧ q'.notify = q.notify ∧
      q'.events = q.events ∧ q'.archiveID = q.archiveID := by
  obtain ⟨ts, hb, i, n, e, a⟩ := q
  cases ts with
  | nil => cases h
  | cons x xs => cases h; exact ⟨rfl, rfl, rfl, rfl, rfl⟩

theorem dequeue_eq_error {q : SessionQueue T} {err : SessionError} (h : q.dequeue = .error err) :
    q.tracks = [] := by
  obtain ⟨ts, hb, i, n, e, a⟩ := q
  cases ts with
  | nil => rfl
  | cons x xs => cases h

theorem remove_eq_ok {q q' : SessionQueue T} {index : Nat} (h : q.remove index = .ok q') :
    index < q.tracks.length ∧ q'.tracks = q.tracks.take index ++ q.tracks.drop (index + 1) ∧
      q'.sessionId = q.sessionId ∧ q'.notify = q.notify ∧ q'.events = q.events ∧
      q'.archiveID = q.archiveID := by
  unfold remove at h
  split at h
  · cases h
  · next hlt =>
    cases h
    exact ⟨Nat.lt_of_not_le hlt, rfl, rfl, rfl, rfl, rfl⟩

theorem dequeue_sublist {q q' : SessionQueue T} {t : T} (h : q.dequeue = .ok (t, q')) :
    q'.tracks.Sublist q.tracks := by
  rw [(dequeue_eq_ok h).1]
  exact List.sublist_cons_self t q'.tracks

theorem remove_sublist {q q' : SessionQueue T} {index : Nat} (h : q.remove index = .ok q') :
    q'.tracks.Sublist q.tracks := by
  rw [(remove_eq_ok h).2.1, ← List.eraseIdx_eq_take_drop_succ]
  exact List.eraseIdx_sublist q.tracks index

/-- Removing an entry behind the head keeps the head. -/
theorem remove_head {q q' : SessionQueue T} {index : Nat} (h : q.remove index = .ok q')
    (hi : index ≠ 0) : q'.tracks.head? = q.tracks.head? := by
  obtain ⟨hlt, ht, -⟩ := remove_eq_ok h
  rw [ht]
  cases hq : q.tracks with
  | nil => simp [hq] at hlt
  | cons t ts =>
    obtain ⟨k, rfl⟩ := Nat.exists_eq_succ_of_ne_zero hi
    simp

end SessionQueue

end RadioJockey
