import Mathlib.Data.Finset.Basic
import Mathlib.Data.List.Nodup

/-!
# Logs in which the last entry about a key counts

A log is a list of entries, newest first. An entry is about one key, and it
says one of several things about it, its kind.

* `newest key k l`: the newest entry about `k`.
* `replay key adds l`: the set that is left when each entry, from the oldest on,
  adds or removes its key. `mem_replay`: only the newest entries count.
* `SameOrder key kind l m`: two entries of `l` that contradict each other stand
  in `m` in the same order.
* `kind_newest`: of two logs with the same entries, in the same order in this
  sense, the newest entries say the same about every key.
-/

namespace LastWrite

universe u v w

variable {α : Type u} {κ : Type v} {τ : Type w} [DecidableEq κ]

/-- The newest entry about `k`. -/
def newest (key : α → κ) (k : κ) (l : List α) : Option α := l.find? fun a => key a = k

theorem newest_cons_self (key : α → κ) (a : α) (l : List α) :
    newest key (key a) (a :: l) = some a := by
  simp [newest]

theorem newest_cons_ne {key : α → κ} {k : κ} {a : α} (l : List α) (h : k ≠ key a) :
    newest key k (a :: l) = newest key k l := by
  simp [newest, h.symm]

theorem newest_eq_some {key : α → κ} {k : κ} {l : List α} {a : α} (h : newest key k l = some a) :
    a ∈ l ∧ key a = k :=
  ⟨List.mem_of_find?_eq_some h, by simpa using List.find?_some h⟩

theorem newest_isSome {key : α → κ} {k : κ} {l : List α} {a : α} (h : a ∈ l) (hk : key a = k) :
    ∃ b, newest key k l = some b := by
  cases hn : newest key k l with
  | none => simpa [hk] using List.find?_eq_none.mp hn a h
  | some b => exact ⟨b, rfl⟩

/-- The newest entry stands before every other one about its key. -/
theorem sublist_of_newest {key : α → κ} {k : κ} {a b : α} :
    ∀ {l : List α}, newest key k l = some a → b ∈ l → key b = k → b ≠ a → [a, b].Sublist l
  | [], _, hb, _, _ => nomatch hb
  | x :: l, hn, hb, hk, hne => by
    by_cases hx : key x = k
    · obtain rfl : x = a := by
        subst hx
        exact Option.some.inj ((newest_cons_self key x l).symm.trans hn)
      have hmem : b ∈ l := (List.mem_cons.mp hb).resolve_left hne
      exact (List.singleton_sublist.mpr hmem).cons_cons x
    · rw [newest_cons_ne l (Ne.symm hx)] at hn
      have hmem : b ∈ l := (List.mem_cons.mp hb).resolve_left fun he => hx (he ▸ hk)
      exact (sublist_of_newest hn hmem hk hne).cons x

/-- Without repetitions, two entries stand in one order only. -/
theorem not_sublist_swap {a b : α} :
    ∀ {l : List α}, l.Nodup → [a, b].Sublist l → ¬ [b, a].Sublist l
  | [], _, h => nomatch h
  | x :: l, hnd, h => by
    obtain ⟨hx, hnd⟩ := List.nodup_cons.mp hnd
    intro h'
    rcases List.sublist_cons_iff.mp h with hab | ⟨r, hr, hb⟩
    · rcases List.sublist_cons_iff.mp h' with hba | ⟨r', hr', -⟩
      · exact not_sublist_swap hnd hab hba
      · obtain ⟨rfl, -⟩ := List.cons.inj hr'
        exact hx (hab.subset (List.mem_cons_of_mem a List.mem_cons_self))
    · obtain ⟨rfl, rfl⟩ := List.cons.inj hr
      have hbl : b ∈ l := List.singleton_sublist.mp hb
      rcases List.sublist_cons_iff.mp h' with hba | ⟨r', hr', -⟩
      · exact hx (hba.subset (List.mem_cons_of_mem b List.mem_cons_self))
      · obtain ⟨rfl, -⟩ := List.cons.inj hr'
        exact hx hbl

/-- Two entries stand in one order or the other. -/
theorem sublist_or_sublist {a b : α} (hne : a ≠ b) :
    ∀ {l : List α}, a ∈ l → b ∈ l → [a, b].Sublist l ∨ [b, a].Sublist l
  | [], ha, _ => nomatch ha
  | x :: l, ha, hb => by
    rcases List.mem_cons.mp ha with rfl | hal
    · have hbl := (List.mem_cons.mp hb).resolve_left (Ne.symm hne)
      exact .inl ((List.singleton_sublist.mpr hbl).cons_cons a)
    · rcases List.mem_cons.mp hb with rfl | hbl
      · exact .inr ((List.singleton_sublist.mpr hal).cons_cons b)
      · exact (sublist_or_sublist hne hal hbl).imp (·.cons x) (·.cons x)

/-! ## Replaying a log -/

/-- What is left of the empty set when each entry adds its key to it, or
removes it. -/
def replay (key : α → κ) (adds : α → Bool) : List α → Finset κ
  | [] => ∅
  | a :: l =>
    if adds a then insert (key a) (replay key adds l) else (replay key adds l).erase (key a)

theorem mem_replay {key : α → κ} {adds : α → Bool} {k : κ} {l : List α} :
    k ∈ replay key adds l ↔ (newest key k l).map adds = some true := by
  induction l with
  | nil => simp [replay, newest]
  | cons a l ih =>
    by_cases hk : k = key a
    · subst hk
      rw [newest_cons_self, Option.map_some, Option.some.injEq, replay]
      split <;> simp [*]
    · rw [newest_cons_ne l hk, ← ih, replay]
      split <;> simp [hk]

/-! ## Logs that agree -/

/-- Two entries of `l` about one key that say different things stand in `m` in
the same order. -/
def SameOrder (key : α → κ) (kind : α → τ) (l m : List α) : Prop :=
  l.Pairwise fun a b => key a = key b → kind a ≠ kind b → [a, b].Sublist m

/-- Two logs with the same entries about a key, in the same order, say the same
about it last. -/
theorem kind_newest_of_key {key : α → κ} {kind : α → τ} {l m : List α} {k : κ}
    (hmem : ∀ a, key a = k → (a ∈ l ↔ a ∈ m)) (horder : SameOrder key kind l m) (hnd : m.Nodup) :
    (newest key k l).map kind = (newest key k m).map kind := by
  cases hl : newest key k l with
  | none =>
    cases hm : newest key k m with
    | none => rfl
    | some b =>
      obtain ⟨hb, hk⟩ := newest_eq_some hm
      obtain ⟨a, ha⟩ := newest_isSome ((hmem b hk).mpr hb) hk
      rw [hl] at ha
      cases ha
  | some a =>
    obtain ⟨ha, hak⟩ := newest_eq_some hl
    obtain ⟨b, hm⟩ := newest_isSome ((hmem a hak).mp ha) hak
    obtain ⟨hb, hbk⟩ := newest_eq_some hm
    rw [hm, Option.map_some, Option.map_some, Option.some.injEq]
    by_contra hkind
    have hne : a ≠ b := fun he => hkind (he ▸ rfl)
    -- `a` is newest in `l` and `b` in `m`, so they stand in different orders
    have hab : [a, b].Sublist l := sublist_of_newest hl ((hmem b hbk).mpr hb) hbk hne.symm
    have hba : [b, a].Sublist m := sublist_of_newest hm ((hmem a hak).mp ha) hak hne
    have hpair := List.rel_of_pairwise_cons (horder.sublist hab) List.mem_cons_self
    exact not_sublist_swap hnd hba (hpair (hak.trans hbk.symm) hkind)

/-- Two logs with the same entries in the same order say the same last. -/
theorem kind_newest {key : α → κ} {kind : α → τ} {l m : List α} (hmem : ∀ a, a ∈ l ↔ a ∈ m)
    (horder : SameOrder key kind l m) (hnd : m.Nodup) (k : κ) :
    (newest key k l).map kind = (newest key k m).map kind :=
  kind_newest_of_key (fun a _ => hmem a) horder hnd

end LastWrite
