import Mathlib.Data.List.Basic
import Mathlib.Data.List.TakeDrop

/-!
# Slices over backing arrays

A slice of Go is a window on an array: which array, where the window starts, how
long it is, and how far the array goes on behind it. Two slices may share an
array, and `append` writes in place when the capacity allows.

* `Slice`, `Store`, `Store.read`: the headers, the arrays, and what a slice shows.
* `append`, `Slice.upto`, `Slice.since`: `append(s, xs...)`, `s[:i]`, `s[i:]`.
* `read_append`: what the appended slice shows.
* `read_append_eq_iff`: when another slice on the same store shows what it did.
-/

namespace GoSlice

universe u

variable {α : Type u}

/-- The window on the cells `off`, …, `off + len - 1` of the array, which has
`cap` cells from `off` on. -/
structure Slice where
  array : Nat
  off : Nat
  len : Nat
  cap : Nat
  deriving DecidableEq, Repr

/-- The arrays, in the order of their allocation. -/
structure Store (α : Type u) where
  arrays : List (List α)
  deriving DecidableEq

namespace Store

def cells (st : Store α) (a : Nat) : List α := st.arrays.getD a []

/-- What the slice shows. -/
def read (st : Store α) (s : Slice) : List α := ((st.cells s.array).drop s.off).take s.len

/-- Overwrites the cells from `i` on by `xs`. -/
def write (st : Store α) (a i : Nat) (xs : List α) : Store α :=
  ⟨st.arrays.set a ((st.cells a).take i ++ xs ++ (st.cells a).drop (i + xs.length))⟩

def alloc (st : Store α) (xs : List α) : Store α := ⟨st.arrays ++ [xs]⟩

end Store

namespace Slice

/-- `s[:i]` keeps the capacity of `s`. -/
def upto (s : Slice) (i : Nat) : Slice := { s with len := i }

/-- `s[i:]`. -/
def since (s : Slice) (i : Nat) : Slice :=
  { s with off := s.off + i, len := s.len - i, cap := s.cap - i }

structure Valid (st : Store α) (s : Slice) : Prop where
  array_lt : s.array < st.arrays.length
  len_le : s.len ≤ s.cap
  cap_le : s.off + s.cap ≤ (st.cells s.array).length

/-- The slice shows the cell `i` of the array `a`. -/
def Covers (s : Slice) (a i : Nat) : Prop := s.array = a ∧ s.off ≤ i ∧ i < s.off + s.len

instance (s : Slice) (a i : Nat) : Decidable (s.Covers a i) :=
  inferInstanceAs (Decidable (_ ∧ _ ∧ _))

end Slice

/-- `make([]α, 0, cap)`. -/
def make [Inhabited α] (st : Store α) (cap : Nat) : Store α × Slice :=
  (st.alloc (List.replicate cap default), ⟨st.arrays.length, 0, 0, cap⟩)

/-- `append(s, xs...)`. When the array has no room, the result is on a new array.
The runtime picks its capacity: `spare` cells more than it needs. -/
def append [Inhabited α] (st : Store α) (s : Slice) (xs : List α) (spare : Nat) :
    Store α × Slice :=
  if s.len + xs.length ≤ s.cap then
    (st.write s.array (s.off + s.len) xs, { s with len := s.len + xs.length })
  else
    (st.alloc (st.read s ++ xs ++ List.replicate spare default),
      ⟨st.arrays.length, 0, s.len + xs.length, s.len + xs.length + spare⟩)

/-- The append overwrites no cell that `r` shows, unless by what the cell held. -/
def Spares (st : Store α) (s : Slice) (xs : List α) (r : Slice) : Prop :=
  s.len + xs.length ≤ s.cap → ∀ k, k < xs.length → r.Covers s.array (s.off + s.len + k) →
    xs[k]? = (st.cells s.array)[s.off + s.len + k]?

instance [DecidableEq α] (st : Store α) (s : Slice) (xs : List α) (r : Slice) :
    Decidable (Spares st s xs r) :=
  inferInstanceAs (Decidable (_ → ∀ k, k < _ → _ → _ = _))

/-! ## Reading -/

namespace GoSliceLemmas

theorem length_read {st : Store α} {s : Slice} (h : s.Valid st) : (st.read s).length = s.len := by
  have := h.len_le
  have := h.cap_le
  simp only [Store.read, List.length_take, List.length_drop]
  omega

theorem getElem?_read (st : Store α) (s : Slice) (k : Nat) :
    (st.read s)[k]? = if k < s.len then (st.cells s.array)[s.off + k]? else none := by
  simp only [Store.read, List.getElem?_take, List.getElem?_drop]

/-- Two reads of one slice agree when the cells it shows do. -/
theorem read_eq_iff (st st' : Store α) (s : Slice) :
    st'.read s = st.read s ↔
      ∀ k, k < s.len → (st'.cells s.array)[s.off + k]? = (st.cells s.array)[s.off + k]? := by
  constructor
  · intro h k hk
    have := congrArg (fun l => l[k]?) h
    simpa only [getElem?_read, if_pos hk] using this
  · intro h
    refine List.ext_getElem? fun k => ?_
    rw [getElem?_read, getElem?_read]
    split
    · next hk => exact h k hk
    · rfl

/-! ## Writing -/

theorem cells_write (st : Store α) {a : Nat} (ha : a < st.arrays.length) (i : Nat) (xs : List α)
    (b : Nat) : (st.write a i xs).cells b =
      if b = a then (st.cells a).take i ++ xs ++ (st.cells a).drop (i + xs.length)
      else st.cells b := by
  simp only [Store.cells, Store.write, List.getD_eq_getElem?_getD, List.getElem?_set]
  by_cases h : a = b
  · subst h
    simp [ha]
  · simp [h, Ne.symm h]

theorem length_write (st : Store α) {a : Nat} (ha : a < st.arrays.length) {i : Nat} {xs : List α}
    (hi : i + xs.length ≤ (st.cells a).length) (b : Nat) :
    ((st.write a i xs).cells b).length = (st.cells b).length := by
  rw [cells_write st ha]
  split
  · next h =>
    subst h
    simp only [List.length_append, List.length_take, List.length_drop]
    omega
  · rfl

theorem getElem?_write (st : Store α) {a : Nat} (ha : a < st.arrays.length) {i : Nat}
    {xs : List α} (hi : i + xs.length ≤ (st.cells a).length) (b k : Nat) :
    ((st.write a i xs).cells b)[k]? =
      if b = a ∧ i ≤ k ∧ k < i + xs.length then xs[k - i]? else (st.cells b)[k]? := by
  rw [cells_write st ha]
  by_cases hb : b = a
  · subst hb
    have hlen : ((st.cells b).take i).length = i := by rw [List.length_take]; omega
    simp only [if_true, true_and, List.append_assoc]
    by_cases h₁ : k < i
    · rw [List.getElem?_append_left (hlen.symm ▸ h₁), List.getElem?_take, if_pos h₁,
        if_neg (by omega)]
    · rw [List.getElem?_append_right (by omega), hlen]
      by_cases h₂ : k < i + xs.length
      · rw [List.getElem?_append_left (by omega), if_pos (by omega)]
      · rw [List.getElem?_append_right (by omega), if_neg (by omega), List.getElem?_drop]
        congr 1
        omega
  · simp [hb]

theorem cells_alloc (st : Store α) (xs : List α) {a : Nat} (ha : a < st.arrays.length) :
    (st.alloc xs).cells a = st.cells a := by
  simp only [Store.cells, Store.alloc, List.getD_eq_getElem?_getD]
  rw [List.getElem?_append_left ha]

theorem cells_alloc_new (st : Store α) (xs : List α) :
    (st.alloc xs).cells st.arrays.length = xs := by
  simp [Store.cells, Store.alloc]

/-- A window of an array shows the window of what a longer one shows. -/
theorem read_since (st : Store α) (s : Slice) (i : Nat) :
    st.read (s.since i) = (st.read s).drop i := by
  simp only [Store.read, Slice.since, List.drop_take, List.drop_drop]

theorem read_upto (st : Store α) {s : Slice} {i : Nat} (h : i ≤ s.len) :
    st.read (s.upto i) = (st.read s).take i := by
  simp only [Store.read, Slice.upto, List.take_take, Nat.min_eq_left h]

end GoSliceLemmas

open GoSliceLemmas

/-! ## The slices that the operations make -/

theorem Slice.Valid.since {st : Store α} {s : Slice} (h : s.Valid st) {i : Nat} (hi : i ≤ s.len) :
    (s.since i).Valid st := by
  have h₁ := h.len_le
  have h₂ := h.cap_le
  refine ⟨h.array_lt, ?_, ?_⟩ <;> simp only [Slice.since] <;> omega

theorem Slice.Valid.upto {st : Store α} {s : Slice} (h : s.Valid st) {i : Nat} (hi : i ≤ s.len) :
    (s.upto i).Valid st :=
  ⟨h.array_lt, Nat.le_trans hi h.len_le, h.cap_le⟩

variable [Inhabited α]

theorem valid_make (st : Store α) (cap : Nat) : (make st cap).2.Valid (make st cap).1 := by
  refine ⟨?_, Nat.zero_le _, ?_⟩
  · simp [make, Store.alloc]
  · simp [make, cells_alloc_new]

/-- A slice stays a window of its array. -/
theorem Slice.Valid.append {st : Store α} {s r : Slice} (hs : s.Valid st) (hr : r.Valid st)
    (xs : List α) (spare : Nat) : r.Valid (append st s xs spare).1 := by
  have := hs.cap_le
  unfold GoSlice.append
  split
  · next h =>
    refine ⟨?_, hr.len_le, ?_⟩
    · simpa only [Store.write, List.length_set] using hr.array_lt
    · rw [length_write st hs.array_lt (by omega)]
      exact hr.cap_le
  · refine ⟨?_, hr.len_le, ?_⟩
    · simp only [Store.alloc, List.length_append]
      exact Nat.lt_add_right _ hr.array_lt
    · rw [cells_alloc st _ hr.array_lt]
      exact hr.cap_le

theorem valid_append {st : Store α} {s : Slice} (hs : s.Valid st) (xs : List α) (spare : Nat) :
    (append st s xs spare).2.Valid (append st s xs spare).1 := by
  have h' := hs.append hs xs spare
  have hlen := length_read hs
  unfold append at h' ⊢
  split
  · next h =>
    rw [if_pos h] at h'
    exact ⟨h'.array_lt, h, h'.cap_le⟩
  · refine ⟨?_, Nat.le_add_right _ _, ?_⟩
    · simp [Store.alloc]
    · simp only [cells_alloc_new, List.length_append, List.length_replicate, hlen]
      omega

theorem len_append (st : Store α) (s : Slice) (xs : List α) (spare : Nat) :
    (append st s xs spare).2.len = s.len + xs.length := by
  unfold append
  split <;> rfl

/-- The appended slice shows what it showed and then `xs`. -/
theorem read_append {st : Store α} {s : Slice} (hs : s.Valid st) (xs : List α) (spare : Nat) :
    (append st s xs spare).1.read (append st s xs spare).2 = st.read s ++ xs := by
  have hlen := length_read hs
  have hcap := hs.cap_le
  unfold append
  split
  · next h =>
    refine List.ext_getElem? fun k => ?_
    rw [getElem?_read, getElem?_write st hs.array_lt (by omega)]
    simp only [true_and]
    by_cases hk : k < s.len
    · rw [List.getElem?_append_left (by omega), getElem?_read, if_pos (by omega), if_pos hk,
        if_neg (by omega)]
    · rw [List.getElem?_append_right (by omega), hlen]
      by_cases hk' : k < s.len + xs.length
      · rw [if_pos hk', if_pos (by omega)]
        congr 1
        omega
      · rw [if_neg hk', List.getElem?_eq_none (by omega)]
  · have hl : (st.read s ++ xs).length = s.len + xs.length := by rw [List.length_append, hlen]
    rw [Store.read, cells_alloc_new, List.drop_zero, List.take_append_of_le_length
      (Nat.le_of_eq hl.symm)]
    exact List.take_of_length_le (Nat.le_of_eq hl)

/-- Another slice shows what it did exactly when the append spares it. -/
theorem read_append_eq_iff {st : Store α} {s r : Slice} (hs : s.Valid st) (hr : r.Valid st)
    (xs : List α) (spare : Nat) :
    (append st s xs spare).1.read r = st.read r ↔ Spares st s xs r := by
  have hcap := hs.cap_le
  unfold append Spares
  split
  · next h =>
    simp only [read_eq_iff, h, true_implies, Slice.Covers]
    have hfit : s.off + s.len + xs.length ≤ (st.cells s.array).length := by omega
    have hw := getElem?_write st hs.array_lt hfit r.array
    constructor
    · rintro h' k hk ⟨ha, h₁, h₂⟩
      have := h' (s.off + s.len + k - r.off) (by omega)
      rw [hw, if_pos ⟨ha, by omega, by omega⟩, ha] at this
      simpa only [Nat.add_sub_cancel' h₁, Nat.add_sub_cancel_left] using this
    · intro h' k hk
      rw [hw]
      split
      · next hb =>
        obtain ⟨ha, h₁, h₂⟩ := hb
        have := h' (r.off + k - (s.off + s.len)) (by omega) ⟨ha, by omega, by omega⟩
        rw [this, ha, Nat.add_sub_cancel' h₁]
      · rfl
  · next h =>
    simp [h, read_eq_iff, cells_alloc st _ hr.array_lt]

end GoSlice
