import Mathlib.Data.List.Pairwise
import Mathlib.Data.List.Perm.Basic
import Mathlib.Order.Basic

/-!
# Listings by a sort key

A query that orders its rows by a key says nothing about rows with equal keys.

* `OrderedBy key rows out`: the query over `rows` may return `out`.
* `map_eq_iff`: every listing of rows that are stored by rising key shows them
  as they are stored, as far as `f` can tell, exactly when `f` does not tell
  rows with equal keys apart.
-/

namespace OrderBy

universe u v w

variable {α α' : Type u} {β : Type v} {κ : Type w} {key : α → κ} {f : α → β}

/-- `f` tells no two entries with equal keys apart. -/
def TiesAgree (key : α → κ) (f : α → β) (rows : List α) : Prop :=
  rows.Pairwise fun a b => key a = key b → f a = f b

theorem TiesAgree.eq {rows : List α} (h : TiesAgree key f rows) {a b : α} (ha : a ∈ rows)
    (hb : b ∈ rows) (hkey : key a = key b) : f a = f b := by
  have : Std.Symm fun a b => key a = key b → f a = f b := ⟨fun _ _ h he => (h he.symm).symm⟩
  exact h.forall_of_forall (fun _ _ _ => rfl) ha hb hkey

/-- Lists with the same keys, and of which `f` and `g` show the same. -/
def SameColumns (key : α → κ) (f : α → β) (key' : α' → κ) (g : α' → β) (l : List α)
    (m : List α') : Prop :=
  l.map (fun a => (key a, f a)) = m.map fun b => (key' b, g b)

section SameColumns

variable {key' : α' → κ} {g : α' → β} {l : List α} {m : List α'}

theorem SameColumns.pairwise (h : SameColumns key f key' g l m) (R : κ × β → κ × β → Prop) :
    (l.Pairwise fun a b => R (key a, f a) (key b, f b)) ↔
      m.Pairwise fun a b => R (key' a, g a) (key' b, g b) := by
  calc (l.Pairwise fun a b => R (key a, f a) (key b, f b))
      ↔ (l.map fun a => (key a, f a)).Pairwise R := List.pairwise_map.symm
    _ ↔ (m.map fun b => (key' b, g b)).Pairwise R := iff_of_eq (congrArg (List.Pairwise R) h)
    _ ↔ m.Pairwise fun a b => R (key' a, g a) (key' b, g b) := List.pairwise_map

theorem SameColumns.tiesAgree (h : SameColumns key f key' g l m) :
    TiesAgree key f l ↔ TiesAgree key' g m :=
  h.pairwise fun p q => p.1 = q.1 → p.2 = q.2

theorem SameColumns.map_eq (h : SameColumns key f key' g l m) : l.map f = m.map g := by
  calc l.map f = (l.map fun a => (key a, f a)).map Prod.snd := by rw [List.map_map]; rfl
    _ = (m.map fun b => (key' b, g b)).map Prod.snd := congrArg _ h
    _ = m.map g := by rw [List.map_map]; rfl

end SameColumns

/-- A result of `SELECT ... ORDER BY key ASC`. -/
def OrderedBy [LE κ] (key : α → κ) (rows out : List α) : Prop :=
  out.Perm rows ∧ out.Pairwise fun a b => key a ≤ key b

instance [DecidableEq α] [LE κ] [DecidableLE κ] (rows out : List α) :
    Decidable (OrderedBy key rows out) :=
  inferInstanceAs (Decidable (_ ∧ _))

variable [PartialOrder κ]

/-- The first entry may stay in front of any listing of the others. -/
theorem OrderedBy.cons {a : α} {rows out : List α} (h : OrderedBy key rows out)
    (ha : ∀ b ∈ rows, key a ≤ key b) : OrderedBy key (a :: rows) (a :: out) :=
  ⟨h.1.cons a, List.pairwise_cons.mpr ⟨fun b hb => ha b (h.1.mem_iff.mp hb), h.2⟩⟩

/-- An entry may come before the first one when their keys are equal. -/
theorem OrderedBy.tie {a b : α} {rows : List α} (hb : b ∈ rows)
    (hsorted : (a :: rows).Pairwise fun a b => key a ≤ key b) (htie : key a = key b) :
    ∃ out, OrderedBy key (a :: rows) (b :: out) := by
  obtain ⟨before, after, rfl⟩ := List.append_of_mem hb
  obtain ⟨ha, hrest⟩ := List.pairwise_cons.mp hsorted
  have hperm : (before ++ b :: after).Perm (b :: (before ++ after)) := List.perm_middle
  have hsub : (before ++ after).Sublist (before ++ b :: after) :=
    (List.Sublist.refl before).append (List.sublist_cons_self b after)
  refine ⟨a :: (before ++ after), ?_, ?_⟩
  · exact (List.Perm.swap a b _).trans (hperm.symm.cons a)
  · refine List.pairwise_cons.mpr ⟨fun c hc => ?_, List.pairwise_cons.mpr ⟨fun c hc => ?_, ?_⟩⟩
    · rcases List.mem_cons.mp hc with rfl | hc
      · exact htie.ge
      · exact htie ▸ ha c (hsub.subset hc)
    · exact ha c (hsub.subset hc)
    · exact hrest.sublist hsub

theorem map_eq_of_tiesAgree {rows out : List α} (hties : TiesAgree key f rows)
    (hsorted : rows.Pairwise fun a b => key a ≤ key b) (hout : OrderedBy key rows out) :
    out.map f = rows.map f := by
  let pair := fun a => (key a, f a)
  have hpairs : ∀ {l : List α}, (l.Pairwise fun a b => key a ≤ key b) →
      (l.map pair).Pairwise fun p q => p.1 ≤ q.1 := fun h => List.pairwise_map.mpr h
  -- paired with its key, an entry is known from its key alone
  have hmap : out.map pair = rows.map pair := by
    refine (hout.1.map pair).eq_of_pairwise ?_ (hpairs hout.2) (hpairs hsorted)
    intro p q hp hq hpq hqp
    obtain ⟨a, ha, rfl⟩ := List.mem_map.mp hp
    obtain ⟨b, hb, rfl⟩ := List.mem_map.mp hq
    have hkey : key a = key b := le_antisymm hpq hqp
    exact Prod.ext hkey (hties.eq (hout.1.mem_iff.mp ha) hb hkey)
  exact SameColumns.map_eq hmap

/-- Every listing shows the rows as they are stored exactly when ties do not
matter. -/
theorem map_eq_iff {rows : List α} (hsorted : rows.Pairwise fun a b => key a ≤ key b) :
    (∀ out, OrderedBy key rows out → out.map f = rows.map f) ↔ TiesAgree key f rows := by
  refine ⟨fun h => ?_, fun h out hout => map_eq_of_tiesAgree h hsorted hout⟩
  induction rows with
  | nil => exact List.Pairwise.nil
  | cons a rows ih =>
    obtain ⟨ha, hrest⟩ := List.pairwise_cons.mp hsorted
    refine List.pairwise_cons.mpr ⟨fun b hb htie => ?_, ih hrest fun out hout => ?_⟩
    · obtain ⟨out, hout⟩ := OrderedBy.tie hb hsorted htie
      exact (List.cons.inj (h _ hout)).1.symm
    · exact (List.cons.inj (h _ (hout.cons ha))).2

end OrderBy
