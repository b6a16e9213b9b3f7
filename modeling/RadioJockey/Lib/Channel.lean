import Mathlib.Data.List.Basic

/-!
# Buffered channels

A buffered channel of capacity `cap` is the list of its buffered values,
oldest first, with a proof that it fits. A hand-over to a waiting receiver is
a send followed at once by the receive, so it needs no case of its own.

* `send?`: the send case of a `select`. It is ready only when there is room.
* `trySend`: a `select` with the send and an empty `default`.
* `recv?`: the receive case of a `select`. It is ready only when a value is
  buffered.
* `drain`: a `select` with the receive and an empty `default`.
-/

namespace Channel

universe u

/-- A buffered channel. -/
structure Chan (α : Type u) (cap : Nat) where
  buf : List α
  bounded : buf.length ≤ cap
  deriving DecidableEq

namespace Chan

variable {α : Type u} {cap : Nat}

/-- A new channel, with nothing buffered. -/
def make : Chan α cap := ⟨[], Nat.zero_le cap⟩

/-- The send case of a `select`: ready only when there is room. -/
def send? (c : Chan α cap) (a : α) : Option (Chan α cap) :=
  if h : c.buf.length < cap then
    some ⟨c.buf ++ [a], by simp only [List.length_append, List.length_singleton]; omega⟩
  else none

/-- A non-blocking send: nothing happens when the buffer is full. -/
def trySend (c : Chan α cap) (a : α) : Chan α cap := (c.send? a).getD c

/-- The receive case of a `select`: ready only when a value is buffered. -/
def recv? (c : Chan α cap) : Option (α × Chan α cap) :=
  match c with
  | ⟨[], _⟩ => none
  | ⟨a :: as, h⟩ => some (a, ⟨as, Nat.le_of_succ_le h⟩)

/-- A non-blocking receive whose value is thrown away. -/
def drain (c : Chan α cap) : Chan α cap := (c.recv?.map Prod.snd).getD c

@[simp] theorem make_buf : (make : Chan α cap).buf = [] := rfl

theorem send?_eq_some {c c' : Chan α cap} {a : α} :
    c.send? a = some c' ↔ c.buf.length < cap ∧ c'.buf = c.buf ++ [a] := by
  unfold send?
  split
  · next h =>
    rw [Option.some.injEq]
    constructor
    · rintro rfl; exact ⟨h, rfl⟩
    · rintro ⟨_, hb⟩; cases c'; simp only at hb; subst hb; rfl
  · next h => simp [h]

theorem recv?_eq_some {c c' : Chan α cap} {a : α} :
    c.recv? = some (a, c') ↔ c.buf = a :: c'.buf := by
  obtain ⟨buf, hb⟩ := c
  obtain ⟨buf', hb'⟩ := c'
  cases buf with
  | nil => simp [recv?]
  | cons x xs => simp [recv?]

theorem trySend_buf (c : Chan α cap) (a : α) :
    (c.trySend a).buf = if c.buf.length < cap then c.buf ++ [a] else c.buf := by
  unfold trySend send?
  split <;> rfl

theorem drain_buf (c : Chan α cap) : c.drain.buf = c.buf.tail := by
  obtain ⟨buf, hb⟩ := c
  cases buf <;> rfl

end Chan

end Channel
