import Mathlib.Data.List.Nodup

/-!
# Tables with a generated primary key and a unique key

A row of type `ρ` has an `id`, which is the primary key and is never reused
(`AUTOINCREMENT`), and a unique `key`. A statement that inserts rows, and one
that computes new columns from old ones, keep both constraints.

* `Table id key`: a table with its constraints.
* `Table.insert`: no row when the unique constraint fails.
* `Table.alter`: an `ALTER TABLE` or an `UPDATE` that leaves the constrained
  columns alone.
-/

namespace SqlTable

universe u v w

variable {ρ : Type u} {ρ' : Type v} {κ : Type w} {id : ρ → Int} {key : ρ → κ} {id' : ρ' → Int}
  {key' : ρ' → κ}

structure Table (id : ρ → Int) (key : ρ → κ) where
  rows : List ρ
  nextID : Int
  ids : (rows.map id).Nodup
  fresh : ∀ r ∈ rows, id r < nextID
  unique : (rows.map key).Nodup

namespace Table

theorem nodup_append_map {α : Type*} {f : ρ → α} {rows : List ρ} {r : ρ}
    (h : (rows.map f).Nodup) (hr : f r ∉ rows.map f) : ((rows ++ [r]).map f).Nodup := by
  rw [List.map_append, List.map_singleton]
  exact h.append (List.nodup_singleton _) (List.disjoint_singleton.mpr hr)

theorem fresh_notMem (t : Table id key) : t.nextID ∉ t.rows.map id := by
  intro h
  obtain ⟨r, hr, he⟩ := List.mem_map.mp h
  exact Int.ne_of_lt (t.fresh r hr) he

theorem fresh_append {rows : List ρ} {r : ρ} {n : Int} (h : ∀ x ∈ rows, id x < n) (hr : id r = n) :
    ∀ x ∈ rows ++ [r], id x < n + 1 := by
  intro x hx
  rcases List.mem_append.mp hx with hx | hx
  · exact Int.lt_add_one_of_le (Int.le_of_lt (h x hx))
  · rw [List.mem_singleton.mp hx, hr]
    exact Int.lt_add_one_of_le (Int.le_refl n)

section Insert

variable [DecidableEq κ]

/-- An `INSERT` of the row that `mk` makes of the new id. -/
def insert (t : Table id key) (mk : Int → ρ) (hmk : ∀ i, id (mk i) = i) :
    Option (Table id key) :=
  if h : key (mk t.nextID) ∈ t.rows.map key then none
  else some {
    rows := t.rows ++ [mk t.nextID]
    nextID := t.nextID + 1
    ids := nodup_append_map t.ids ((hmk t.nextID).symm ▸ t.fresh_notMem)
    fresh := fresh_append t.fresh (hmk t.nextID)
    unique := nodup_append_map t.unique h }

theorem insert_eq_some {t t' : Table id key} {mk : Int → ρ} {hmk : ∀ i, id (mk i) = i}
    (h : t.insert mk hmk = some t') :
    key (mk t.nextID) ∉ t.rows.map key ∧ t'.rows = t.rows ++ [mk t.nextID] ∧
      t'.nextID = t.nextID + 1 := by
  unfold insert at h
  split at h
  · cases h
  · next hkey =>
    cases h
    exact ⟨hkey, rfl, rfl⟩

theorem insert_eq_none {t : Table id key} {mk : Int → ρ} {hmk : ∀ i, id (mk i) = i}
    (h : t.insert mk hmk = none) : key (mk t.nextID) ∈ t.rows.map key := by
  unfold insert at h
  split at h
  · next hkey => exact hkey
  · cases h

end Insert

theorem map_alter {α : Type*} {f : ρ → ρ'} {g : ρ → α} {g' : ρ' → α} (hg : ∀ r, g' (f r) = g r)
    (rows : List ρ) : (rows.map f).map g' = rows.map g := by
  rw [List.map_map]
  exact List.map_congr_left fun r _ => hg r

theorem fresh_alter {f : ρ → ρ'} (hid : ∀ r, id' (f r) = id r) {rows : List ρ} {n : Int}
    (h : ∀ r ∈ rows, id r < n) : ∀ r ∈ rows.map f, id' r < n := by
  intro x hx
  obtain ⟨r, hr, rfl⟩ := List.mem_map.mp hx
  exact hid r ▸ h r hr

/-- Computes every row anew, perhaps with other columns. -/
def alter (t : Table id key) (f : ρ → ρ') (hid : ∀ r, id' (f r) = id r)
    (hkey : ∀ r, key' (f r) = key r) : Table id' key' where
  rows := t.rows.map f
  nextID := t.nextID
  ids := (map_alter hid t.rows).symm ▸ t.ids
  fresh := fresh_alter hid t.fresh
  unique := (map_alter hkey t.rows).symm ▸ t.unique

end Table

end SqlTable
