import Mathlib.Data.List.Basic
import Mathlib.Data.List.TakeDrop

/-!
# Lists compared entry by entry

`LeOn f l l'`: where both lists have an entry, that of `l` has no greater key. A
list that was read from a queue some time ago stands so to the queue when the
keys only grow along the queue, and the queue only loses entries or gets greater
ones at its end.

* `leOn_sublist`: the queue loses entries.
* `leOn_concat`: it gets another one.
* `leOn_window`: two windows of a sorted array, the left one first.
-/

namespace Pointwise

universe u

variable {α : Type u} {f : α → Nat} {l l' : List α}

def LeOn (f : α → Nat) (l l' : List α) : Prop :=
  ∀ (i : Nat) a b, l[i]? = some a → l'[i]? = some b → f a ≤ f b

/-- The keys grow along the list. -/
abbrev Ascending (f : α → Nat) (l : List α) : Prop := l.Pairwise fun a b => f a < f b

theorem ascending_le (h : Ascending f l) {i j : Nat} {a b : α} (hij : i ≤ j) (ha : l[i]? = some a)
    (hb : l[j]? = some b) : f a ≤ f b := by
  obtain ⟨hi, rfl⟩ := List.getElem?_eq_some_iff.mp ha
  obtain ⟨hj, rfl⟩ := List.getElem?_eq_some_iff.mp hb
  rcases Nat.lt_or_eq_of_le hij with hlt | rfl
  · exact Nat.le_of_lt (List.pairwise_iff_getElem.mp h i j hi hj hlt)
  · exact Nat.le_refl _

/-- What is left of an ascending list is behind, at each place. -/
theorem leOn_of_sublist (h : Ascending f l) (hsub : l'.Sublist l) : LeOn f l l' := by
  induction hsub with
  | slnil =>
    intro i a b ha
    cases ha
  | @cons l₁ l₂ x hsub ih =>
    obtain ⟨hx, htail⟩ := List.pairwise_cons.mp h
    intro i a b ha hb
    cases i with
    | zero =>
      obtain rfl : x = a := Option.some.inj ha
      exact Nat.le_of_lt (hx b (hsub.subset (List.mem_of_getElem? hb)))
    | succ i =>
      have hi : i < l₁.length := Nat.lt_of_succ_lt (List.getElem?_eq_some_iff.mp hb).1
      have hc := List.getElem?_eq_getElem hi
      exact Nat.le_trans (ih htail i a _ ha hc)
        (ascending_le (htail.sublist hsub) (Nat.le_succ i) hc hb)
  | @cons_cons l₁ l₂ x hsub ih =>
    obtain ⟨-, htail⟩ := List.pairwise_cons.mp h
    intro i a b ha hb
    cases i with
    | zero =>
      cases ha
      cases hb
      exact Nat.le_refl _
    | succ i => exact ih htail i a b ha hb

theorem leOn_sublist {l'' : List α} (h : LeOn f l l') (hsorted : Ascending f l')
    (hsub : l''.Sublist l') : LeOn f l l'' := by
  intro i a b ha hb
  have hi : i < l'.length :=
    Nat.lt_of_lt_of_le (List.getElem?_eq_some_iff.mp hb).1 hsub.length_le
  have hc := List.getElem?_eq_getElem hi
  exact Nat.le_trans (h i a _ ha hc) (leOn_of_sublist hsorted hsub i _ b hc hb)

theorem leOn_concat {b : α} (h : LeOn f l l') (hb : ∀ a ∈ l, f a ≤ f b) :
    LeOn f l (l' ++ [b]) := by
  intro i a c ha hc
  rw [List.getElem?_append] at hc
  split at hc
  · exact h i a c ha hc
  · cases List.mem_singleton.mp (List.mem_of_getElem? hc)
    exact hb a (List.mem_of_getElem? ha)

theorem leOn_window {cells : List α} {k n off len : Nat}
    (h : Ascending f (cells.take (off + len))) (hk : k ≤ off) :
    LeOn f ((cells.drop k).take n) ((cells.drop off).take len) := by
  intro i a b ha hb
  rw [List.getElem?_take, List.getElem?_drop] at ha hb
  split at hb
  · next hi =>
    split at ha
    · refine ascending_le h (Nat.add_le_add_right hk i) (i := k + i) (j := off + i) ?_ ?_
      · rw [List.getElem?_take, if_pos (by omega), ha]
      · rw [List.getElem?_take, if_pos (by omega), hb]
    · cases ha
  · cases hb

end Pointwise
