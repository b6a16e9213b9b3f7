import Mathlib.Data.List.Basic
import Mathlib.Data.List.Nodup
import Mathlib.Data.List.Perm.Basic

/-!
# Lists in the order of use

A list of entries, most recently used first. Entries may be marked as used, and
a used entry is never evicted.

* `promote key a l`: `a` moves, or comes, to the front.
* `evict used k l`: the list without its `k` least recently used entries that
  are not in use, or without all of these if there are fewer. `evicted` lists
  what is gone.
* `evict_succ`: to evict `k + 1` entries is to evict one and then `k`.
* `evicted_eq_take`, `evict_eq_filter`: what is evicted, and what stays.
* `behind_of_evicted`: an entry is evicted only if fewer than `k` entries that
  are not in use lie behind it.
-/

namespace Lru

universe u v

variable {α : Type u} {β : Type u} {κ : Type v}

/-! ## The operations -/

section Promote

variable [DecidableEq κ]

/-- `a` becomes the most recently used entry. An entry with its key is
replaced. -/
def promote (key : α → κ) (a : α) (l : List α) : List α :=
  a :: l.filter fun b => key b ≠ key a

theorem mem_promote {key : α → κ} {a b : α} {l : List α} :
    b ∈ promote key a l ↔ b = a ∨ b ∈ l ∧ key b ≠ key a := by
  simp [promote]

theorem map_promote (key : α → κ) (a : α) (l : List α) :
    (promote key a l).map key = promote id (key a) (l.map key) := by
  rw [promote, promote, List.map_cons, List.filter_map]
  rfl

/-- An entry that was promoted before is promoted as if it had not been. -/
theorem promote_promote {key : α → κ} {a b : α} (h : key a = key b) (l : List α) :
    promote key a (promote key b l) = promote key a l := by
  rw [promote, promote, promote, List.filter_cons_of_neg (by simp [h]), List.filter_filter]
  simp only [h, Bool.and_self]

/-- At most one entry makes room, so the first `n` entries are those that the
first `n` entries lead to. -/
theorem take_promote [DecidableEq α] {a : α} {l : List α} (hl : l.Nodup) (n : Nat) :
    (promote id a (l.take n)).take n = (promote id a l).take n := by
  cases n with
  | zero => rw [List.take_zero, List.take_zero]
  | succ n =>
    rw [promote, promote, List.take_succ_cons, List.take_succ_cons]
    refine congrArg (a :: ·) ?_
    have hsplit : l.filter (fun b => id b ≠ id a) =
        (l.take (n + 1)).filter (fun b => id b ≠ id a) ++
          (l.drop (n + 1)).filter (fun b => id b ≠ id a) := by
      rw [← List.filter_append, List.take_append_drop]
    have hroom : (l.take (n + 1)).length ≤
        ((l.take (n + 1)).filter fun b => id b ≠ id a).length + 1 := by
      have herase := (hl.sublist (List.take_sublist (n + 1) l)).erase_eq_filter a
      have hfilter : (l.take (n + 1)).filter (fun b => id b ≠ id a) = (l.take (n + 1)).erase a := by
        rw [herase]
        exact List.filter_congr fun b _ => by simp [bne, beq_eq_decide]
      have hlen := List.le_length_erase (a := a) (l := l.take (n + 1))
      rw [hfilter]
      omega
    rcases Nat.lt_or_ge l.length (n + 1) with hshort | hlong
    · rw [List.take_of_length_le (Nat.le_of_lt hshort)]
    · have hfull : n ≤ ((l.take (n + 1)).filter fun b => id b ≠ id a).length := by
        rw [List.length_take, Nat.min_eq_left hlong] at hroom
        omega
      rw [hsplit, List.take_append_of_le_length hfull]

end Promote

/-- Drops the first `k` entries that are not in use. -/
def keep (used : α → Bool) : Nat → List α → List α
  | 0, l => l
  | _ + 1, [] => []
  | k + 1, a :: l => if used a then a :: keep used (k + 1) l else keep used k l

/-- The entries that `keep` drops. -/
def gone (used : α → Bool) : Nat → List α → List α
  | 0, _ => []
  | _ + 1, [] => []
  | k + 1, a :: l => if used a then gone used (k + 1) l else a :: gone used k l

def evict (used : α → Bool) (k : Nat) (l : List α) : List α :=
  (keep used k l.reverse).reverse

def evicted (used : α → Bool) (k : Nat) (l : List α) : List α :=
  gone used k l.reverse

/-- How many entries that are not in use lie behind the entry with the key of
`a`. -/
def behind [DecidableEq κ] (key : α → κ) (used : α → Bool) (a : α) (l : List α) : Nat :=
  (l.reverse.takeWhile fun b => key b ≠ key a).countP fun b => !used b

example : evict (fun n => n % 2 = 0) 2 [5, 4, 3, 2, 1] = [5, 4, 2] := by decide

example : evicted (fun n => n % 2 = 0) 2 [5, 4, 3, 2, 1] = [1, 3] := by decide

/-! ## What is kept and what is gone -/

@[simp] theorem keep_zero (used : α → Bool) (l : List α) : keep used 0 l = l := by
  cases l <;> rfl

@[simp] theorem gone_zero (used : α → Bool) (l : List α) : gone used 0 l = [] := by
  cases l <;> rfl

theorem keep_sublist (used : α → Bool) : ∀ (k : Nat) (l : List α), (keep used k l).Sublist l
  | 0, l => by rw [keep_zero]
  | _ + 1, [] => List.Sublist.refl []
  | k + 1, a :: l => by
    rw [keep]
    split
    · exact (keep_sublist used (k + 1) l).cons_cons a
    · exact (keep_sublist used k l).cons a

theorem keep_gone_perm (used : α → Bool) :
    ∀ (k : Nat) (l : List α), (keep used k l ++ gone used k l).Perm l
  | 0, l => by simp
  | _ + 1, [] => List.Perm.refl []
  | k + 1, a :: l => by
    rw [keep, gone]
    split
    · exact (keep_gone_perm used (k + 1) l).cons a
    · exact List.perm_middle.trans ((keep_gone_perm used k l).cons a)

theorem not_used_of_gone {used : α → Bool} :
    ∀ {k : Nat} {l : List α} {a : α}, a ∈ gone used k l → used a = false
  | 0, l, a, h => by rw [gone_zero] at h; cases h
  | _ + 1, [], a, h => by cases h
  | k + 1, b :: l, a, h => by
    rw [gone] at h
    split at h
    · exact not_used_of_gone h
    · next hb =>
      rcases List.mem_cons.mp h with rfl | h
      · exact Bool.eq_false_iff.mpr hb
      · exact not_used_of_gone h

theorem keep_of_used {used : α → Bool} : ∀ {k : Nat} {l : List α}, (∀ a ∈ l, used a = true) →
    keep used k l = l ∧ gone used k l = []
  | 0, l, _ => ⟨keep_zero used l, gone_zero used l⟩
  | _ + 1, [], _ => ⟨rfl, rfl⟩
  | k + 1, a :: l, h => by
    have ha : used a = true := h a List.mem_cons_self
    obtain ⟨hk, hg⟩ := keep_of_used (k := k + 1) fun b hb => h b (List.mem_cons_of_mem a hb)
    rw [keep, gone, if_pos ha, if_pos ha, hk, hg]
    exact ⟨rfl, rfl⟩

/-- Entries that are not in use go first. -/
theorem keep_append_of_unused {used : α → Bool} (l' : List α) :
    ∀ {l : List α}, (∀ a ∈ l, used a = false) →
      keep used l.length (l ++ l') = l' ∧ gone used l.length (l ++ l') = l
  | [], _ => ⟨keep_zero used l', gone_zero used l'⟩
  | a :: l, h => by
    obtain ⟨hk, hg⟩ := keep_append_of_unused l' fun b hb => h b (List.mem_cons_of_mem a hb)
    rw [List.cons_append, List.length_cons, keep, gone, h a List.mem_cons_self]
    exact ⟨hk, congrArg (a :: ·) hg⟩

/-- The first entry that is not in use goes first. -/
theorem keep_succ {used : α → Bool} {a : α} : ∀ {l : List α} (k : Nat),
    l.find? (fun b => !used b) = some a →
      keep used (k + 1) l = keep used k (l.eraseP fun b => !used b) ∧
      gone used (k + 1) l = a :: gone used k (l.eraseP fun b => !used b)
  | [], _, h => by cases h
  | b :: l, k, h => by
    cases hb : used b with
    | false =>
      rw [List.find?_cons_of_pos (by simp [hb])] at h
      cases h
      rw [List.eraseP_cons_of_pos (by simp [hb]), keep, gone, hb]
      exact ⟨rfl, rfl⟩
    | true =>
      rw [List.find?_cons_of_neg (by simp [hb])] at h
      rw [List.eraseP_cons_of_neg (by simp [hb]), keep, gone, if_pos hb, if_pos hb]
      obtain ⟨hk, hg⟩ := keep_succ k h
      cases k with
      | zero =>
        rw [keep_zero] at hk ⊢
        exact ⟨congrArg (b :: ·) hk, by rw [hg, gone_zero, gone_zero]⟩
      | succ k =>
        rw [keep, gone, if_pos hb, if_pos hb]
        exact ⟨congrArg (b :: ·) hk, hg⟩

theorem keep_map (used : β → Bool) (f : α → β) : ∀ (k : Nat) (l : List α),
    keep used k (l.map f) = (keep (used ∘ f) k l).map f ∧
      gone used k (l.map f) = (gone (used ∘ f) k l).map f
  | 0, l => by simp
  | _ + 1, [] => ⟨rfl, rfl⟩
  | k + 1, a :: l => by
    obtain ⟨hk, hg⟩ := keep_map used f (k + 1) l
    obtain ⟨hk', hg'⟩ := keep_map used f k l
    rw [List.map_cons, keep, gone, keep, gone]
    cases ha : used (f a) with
    | true => simp [ha, hk, hg]
    | false => simp [ha, hk', hg']

/-- `gone` drops from the entries that are not in use. -/
theorem gone_eq_take (used : α → Bool) :
    ∀ (k : Nat) (l : List α), gone used k l = (l.filter fun a => !used a).take k
  | 0, l => by rw [gone_zero, List.take_zero]
  | _ + 1, [] => rfl
  | k + 1, a :: l => by
    rw [gone]
    cases ha : used a with
    | true =>
      rw [if_pos rfl, List.filter_cons_of_neg (by simp [ha])]
      exact gone_eq_take used (k + 1) l
    | false =>
      rw [if_neg Bool.false_ne_true, List.filter_cons_of_pos (by simp [ha]), List.take_succ_cons]
      exact congrArg (a :: ·) (gone_eq_take used k l)

theorem mem_of_gone {used : α → Bool} {k : Nat} {l : List α} {a : α} (h : a ∈ gone used k l) :
    a ∈ l :=
  (keep_gone_perm used k l).subset (List.mem_append_right _ h)

/-- `keep` keeps what `gone` does not drop, in its order. -/
theorem keep_eq_filter [DecidableEq α] (used : α → Bool) :
    ∀ (k : Nat) {l : List α}, l.Nodup → keep used k l = l.filter fun a => a ∉ gone used k l
  | 0, l, _ => by simp
  | _ + 1, [], _ => rfl
  | k + 1, a :: l, hl => by
    obtain ⟨ha, hl⟩ := List.nodup_cons.mp hl
    rw [keep, gone]
    cases used a with
    | true =>
      have hkept : a ∉ gone used (k + 1) l := fun h => ha (mem_of_gone h)
      rw [if_pos rfl, if_pos rfl, List.filter_cons_of_pos (by simp [hkept])]
      exact congrArg (a :: ·) (keep_eq_filter used (k + 1) hl)
    | false =>
      rw [if_neg Bool.false_ne_true, if_neg Bool.false_ne_true,
        List.filter_cons_of_neg (by simp), keep_eq_filter used k hl]
      refine List.filter_congr fun b hb => ?_
      have hne : b ≠ a := fun he => ha (he ▸ hb)
      simp [hne]

theorem count_of_gone [DecidableEq κ] {key : α → κ} {used : α → Bool} :
    ∀ {k : Nat} {l : List α} {a : α}, a ∈ gone used k l →
      ((l.takeWhile fun b => key b ≠ key a).countP fun b => !used b) < k
  | 0, l, a, h => by rw [gone_zero] at h; cases h
  | _ + 1, [], a, h => by cases h
  | k + 1, b :: l, a, h => by
    rw [gone] at h
    by_cases hk : key b = key a
    · rw [List.takeWhile_cons_of_neg (by simp [hk])]
      exact Nat.succ_pos k
    · rw [List.takeWhile_cons_of_pos (by simp [hk])]
      cases hb : used b with
      | true =>
        rw [if_pos hb] at h
        rw [List.countP_cons_of_neg (by simp [hb])]
        exact count_of_gone h
      | false =>
        rw [if_neg (by simp [hb])] at h
        rw [List.countP_cons_of_pos (by simp [hb])]
        rcases List.mem_cons.mp h with rfl | h
        · exact absurd rfl hk
        · exact Nat.succ_lt_succ (count_of_gone h)

/-! ## Eviction -/

theorem evict_sublist (used : α → Bool) (k : Nat) (l : List α) : (evict used k l).Sublist l := by
  have h := (keep_sublist used k l.reverse).reverse
  rwa [List.reverse_reverse] at h

/-- The last entries that are not in use are evicted. -/
theorem evicted_eq_take (used : α → Bool) (k : Nat) (l : List α) :
    evicted used k l = (l.reverse.filter fun a => !used a).take k :=
  gone_eq_take used k l.reverse

theorem evict_eq_filter [DecidableEq α] (used : α → Bool) (k : Nat) {l : List α} (hl : l.Nodup) :
    evict used k l = l.filter fun a => a ∉ evicted used k l := by
  rw [evict, keep_eq_filter used k (List.nodup_reverse.mpr hl), ← List.filter_reverse,
    List.reverse_reverse]
  rfl

/-- Every entry is either kept or evicted. -/
theorem mem_evict_or_evicted {used : α → Bool} {k : Nat} {l : List α} {a : α} :
    a ∈ l ↔ a ∈ evict used k l ∨ a ∈ evicted used k l := by
  rw [← List.mem_reverse, ← (keep_gone_perm used k l.reverse).mem_iff, List.mem_append, evict,
    List.mem_reverse, evicted]

theorem not_used_of_evicted {used : α → Bool} {k : Nat} {l : List α} {a : α}
    (h : a ∈ evicted used k l) : used a = false :=
  not_used_of_gone h

theorem evict_of_used {used : α → Bool} {k : Nat} {l : List α} (h : ∀ a ∈ l, used a = true) :
    evict used k l = l ∧ evicted used k l = [] := by
  obtain ⟨hk, hg⟩ := keep_of_used (k := k) fun a ha => h a (List.mem_reverse.mp ha)
  rw [evict, evicted, hk, hg, List.reverse_reverse]
  exact ⟨rfl, rfl⟩

/-- To evict one more entry is to begin with the last one not in use. -/
theorem evict_succ {used : α → Bool} {l l' : List α} {a : α} (k : Nat)
    (h : l.reverse.find? (fun b => !used b) = some a)
    (hl : l'.reverse = l.reverse.eraseP fun b => !used b) :
    evict used (k + 1) l = evict used k l' ∧ evicted used (k + 1) l = a :: evicted used k l' := by
  obtain ⟨hk, hg⟩ := keep_succ k h
  rw [evict, evict, evicted, evicted, hk, hg, hl]
  exact ⟨rfl, rfl⟩

/-- Behind the first `n` entries nothing is in use, so just these stay. -/
theorem evict_of_unused {used : α → Bool} {n : Nat} {l : List α}
    (h : ∀ a ∈ l.drop n, used a = false) :
    evict used (l.length - n) l = l.take n ∧
      evicted used (l.length - n) l = (l.drop n).reverse := by
  have hsplit : l.reverse = (l.drop n).reverse ++ (l.take n).reverse := by
    rw [← List.reverse_append, List.take_append_drop]
  have hlen : l.length - n = (l.drop n).reverse.length := by
    rw [List.length_reverse, List.length_drop]
  obtain ⟨hk, hg⟩ := keep_append_of_unused (l.take n).reverse (l := (l.drop n).reverse)
    fun a ha => h a (List.mem_reverse.mp ha)
  rw [evict, evicted, hsplit, hlen, hk, hg, List.reverse_reverse]
  exact ⟨rfl, rfl⟩

theorem evict_map (used : β → Bool) (f : α → β) (k : Nat) (l : List α) :
    evict used k (l.map f) = (evict (used ∘ f) k l).map f ∧
      evicted used k (l.map f) = (evicted (used ∘ f) k l).map f := by
  obtain ⟨hk, hg⟩ := keep_map used f k l.reverse
  rw [evict, evict, evicted, evicted, ← List.map_reverse, hk, hg, List.map_reverse]
  exact ⟨rfl, rfl⟩

theorem eraseP_of_find? [DecidableEq α] {p : α → Bool} {a : α} :
    ∀ {l : List α}, l.find? p = some a → l.eraseP p = l.erase a
  | [], h => by cases h
  | b :: l, h => by
    by_cases hb : p b = true
    · rw [List.find?_cons_of_pos hb] at h
      cases h
      rw [List.eraseP_cons_of_pos hb, List.erase_cons_head]
    · rw [List.find?_cons_of_neg hb] at h
      have hne : b ≠ a := fun he => hb (he ▸ List.find?_some h)
      rw [List.eraseP_cons_of_neg hb, List.erase_cons_tail (by simpa using hne),
        eraseP_of_find? h]

/-- Erasing the last entry that satisfies `p`. -/
theorem reverse_erase [DecidableEq α] {p : α → Bool} {l : List α} {a : α} (hl : l.Nodup)
    (h : l.reverse.find? p = some a) : (l.erase a).reverse = l.reverse.eraseP p := by
  have hr : l.reverse.Nodup := List.nodup_reverse.mpr hl
  rw [eraseP_of_find? h, hl.erase_eq_filter, hr.erase_eq_filter, List.filter_reverse]

/-- An entry that has `k` unused entries behind it survives the eviction of
`k` entries. -/
theorem behind_of_evicted [DecidableEq κ] (key : α → κ) {used : α → Bool} {k : Nat} {l : List α}
    {a : α} (h : a ∈ evicted used k l) : behind key used a l < k :=
  count_of_gone h

end Lru
