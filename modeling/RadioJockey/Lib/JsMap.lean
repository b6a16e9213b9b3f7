import Mathlib.Data.List.Nodup

/-!
# Maps in insertion order

The `Map` of JavaScript: `set` keeps the place of a key that is there and puts a
new one at the end, and `keys()` runs from the oldest key on.

* `JsMap`: the entries, oldest first, no key twice.
* `mem_of_get`, `get_of_mem`: `get` reads the entries.
* `mem_set`, `mem_delete`, `get_set_self`: what a write leaves.
* `InOrder`, `oldest_iff`: the keys against a log of insertions. The first key is
  the one that was inserted least recently.
-/

universe u v

/-- A map that remembers the order of insertion. -/
structure JsMap (κ : Type u) (ν : Type v) where
  entries : List (κ × ν)
  nodup : (entries.map Prod.fst).Nodup

namespace JsMap

variable {κ : Type u} {ν : Type v}

def empty : JsMap κ ν := ⟨[], List.nodup_nil⟩

def keys (m : JsMap κ ν) : List κ := m.entries.map Prod.fst

def size (m : JsMap κ ν) : Nat := m.entries.length

/-- `keys().next().value`. -/
def firstKey (m : JsMap κ ν) : Option κ := m.keys.head?

theorem size_eq (m : JsMap κ ν) : m.size = m.keys.length := by
  rw [size, keys, List.length_map]

theorem nodup_append_new {m : JsMap κ ν} {k : κ} (v : ν) (h : k ∉ m.keys) :
    ((m.entries ++ [(k, v)]).map Prod.fst).Nodup := by
  rw [List.map_append, List.nodup_append]
  refine ⟨m.nodup, List.nodup_singleton k, fun a ha b hb hab => h ?_⟩
  obtain rfl : b = k := List.mem_singleton.mp hb
  exact hab ▸ ha

section

variable [DecidableEq κ]

def get (m : JsMap κ ν) (k : κ) : Option ν := (m.entries.find? fun e => e.1 = k).map Prod.snd

def delete (m : JsMap κ ν) (k : κ) : JsMap κ ν where
  entries := m.entries.filter fun e => e.1 ≠ k
  nodup := m.nodup.sublist (List.filter_sublist.map Prod.fst)

/-- The entries with `v` in the place of what `k` had. -/
def replaced (m : JsMap κ ν) (k : κ) (v : ν) : List (κ × ν) :=
  m.entries.map fun e => if e.1 = k then (k, v) else e

theorem keys_replaced (m : JsMap κ ν) (k : κ) (v : ν) :
    (m.replaced k v).map Prod.fst = m.keys := by
  rw [replaced, keys, List.map_map]
  refine List.map_congr_left fun e _ => ?_
  by_cases he : e.1 = k <;> simp [he]

def set (m : JsMap κ ν) (k : κ) (v : ν) : JsMap κ ν :=
  if h : k ∈ m.keys then ⟨m.replaced k v, by rw [keys_replaced]; exact m.nodup⟩
  else ⟨m.entries ++ [(k, v)], nodup_append_new v h⟩

theorem mem_of_get {m : JsMap κ ν} {k : κ} {v : ν} (h : m.get k = some v) :
    (k, v) ∈ m.entries := by
  obtain ⟨e, he, rfl⟩ := Option.map_eq_some_iff.mp h
  obtain rfl : e.1 = k := by simpa using List.find?_some he
  exact List.mem_of_find?_eq_some he

theorem get_of_mem {m : JsMap κ ν} {k : κ} {v : ν} (h : (k, v) ∈ m.entries) :
    m.get k = some v := by
  cases hf : m.entries.find? fun e => e.1 = k with
  | none => exact absurd (decide_eq_true rfl) (List.find?_eq_none.mp hf _ h)
  | some e =>
    have he := List.mem_of_find?_eq_some hf
    have hk : e.1 = k := by simpa using List.find?_some hf
    obtain rfl : e = (k, v) := List.inj_on_of_nodup_map m.nodup he h hk
    rw [get, hf, Option.map_some]

theorem mem_delete_iff {m : JsMap κ ν} {k : κ} {e : κ × ν} :
    e ∈ (m.delete k).entries ↔ e ∈ m.entries ∧ e.1 ≠ k := by
  rw [delete, List.mem_filter, decide_eq_true_iff]

theorem mem_delete {m : JsMap κ ν} {k : κ} {e : κ × ν} (h : e ∈ (m.delete k).entries) :
    e ∈ m.entries :=
  (mem_delete_iff.mp h).1

/-- What a map holds after `set`: the new entry, and entries it had. -/
theorem mem_set {m : JsMap κ ν} {k : κ} {v : ν} {e : κ × ν} (h : e ∈ (m.set k v).entries) :
    e = (k, v) ∨ e ∈ m.entries := by
  unfold set at h
  split at h
  · obtain ⟨e', he', rfl⟩ := List.mem_map.mp h
    split
    · exact .inl rfl
    · exact .inr he'
  · exact (List.mem_append.mp h).symm.imp_left List.mem_singleton.mp

theorem mem_set_self (m : JsMap κ ν) (k : κ) (v : ν) : (k, v) ∈ (m.set k v).entries := by
  unfold set
  split
  · next h =>
    obtain ⟨e, he, rfl⟩ := List.mem_map.mp h
    exact List.mem_map.mpr ⟨e, he, if_pos rfl⟩
  · exact List.mem_append_right _ (List.mem_singleton_self _)

/-- What is set is read. -/
theorem get_set_self (m : JsMap κ ν) (k : κ) (v : ν) : (m.set k v).get k = some v :=
  get_of_mem (mem_set_self m k v)

/-- The entries of other keys stay as they are. -/
theorem mem_set_of_ne {m : JsMap κ ν} {k : κ} {v : ν} {e : κ × ν} (he : e.1 ≠ k) :
    e ∈ (m.set k v).entries ↔ e ∈ m.entries := by
  constructor
  · intro h
    rcases mem_set h with rfl | h
    · exact absurd rfl he
    · exact h
  · intro h
    unfold set
    split
    · exact List.mem_map.mpr ⟨e, h, if_neg he⟩
    · exact List.mem_append_left _ h

theorem keys_set (m : JsMap κ ν) (k : κ) (v : ν) :
    (m.set k v).keys = if k ∈ m.keys then m.keys else m.keys ++ [k] := by
  unfold set
  split
  · exact keys_replaced m k v
  · simp [keys]

theorem keys_delete (m : JsMap κ ν) (k : κ) : (m.delete k).keys = m.keys.filter (· ≠ k) := by
  simp [keys, delete, List.filter_map, Function.comp_def]

theorem get_eq_none {m : JsMap κ ν} {k : κ} : m.get k = none ↔ k ∉ m.keys := by
  rw [get, keys, Option.map_eq_none_iff, List.find?_eq_none, List.mem_map]
  constructor
  · rintro h ⟨e, he, hk⟩
    exact h e he (decide_eq_true hk)
  · exact fun h e he hk => h ⟨e, he, of_decide_eq_true hk⟩

theorem size_set_le (m : JsMap κ ν) (k : κ) (v : ν) : (m.set k v).size ≤ m.size + 1 := by
  rw [size_eq, size_eq, keys_set]
  split
  · exact Nat.le_succ _
  · exact Nat.le_of_eq List.length_append

theorem size_delete_le (m : JsMap κ ν) (k : κ) : (m.delete k).size ≤ m.size :=
  List.length_filter_le _ _

theorem size_delete_lt {m : JsMap κ ν} {k : κ} (h : k ∈ m.keys) : (m.delete k).size < m.size := by
  rw [size_eq, size_eq, keys_delete]
  exact List.length_filter_lt_length_iff_exists.mpr ⟨k, h, by simp⟩

end

/-! ## The order of insertion -/

/-- The last insertions of the keys, oldest first, are in this order in the log,
which has the newest one first. -/
def InOrder : List κ → List κ → Prop
  | _, [] => True
  | log, k :: ks => ∃ later earlier, log = later ++ k :: earlier ∧ k ∉ later ∧ InOrder later ks

/-- Since `k` was inserted for the last time, every other key has been. -/
def Oldest (log keys : List κ) (k : κ) : Prop :=
  k ∈ keys ∧ ∃ later earlier, log = later ++ k :: earlier ∧ k ∉ later ∧
    ∀ k' ∈ keys, k' ≠ k → k' ∈ later

theorem InOrder.append {log keys : List κ} {k : κ} (h : InOrder log keys) (hk : k ∉ keys) :
    InOrder (k :: log) (keys ++ [k]) := by
  induction keys generalizing log with
  | nil => exact ⟨[], log, rfl, List.not_mem_nil, trivial⟩
  | cons k₀ keys ih =>
    obtain ⟨later, earlier, rfl, hlater, hkeys⟩ := h
    rw [List.mem_cons, not_or] at hk
    refine ⟨k :: later, earlier, rfl, ?_, ih hkeys hk.2⟩
    rw [List.mem_cons, not_or]
    exact ⟨fun he => hk.1 he.symm, hlater⟩

theorem InOrder.extend {log keys : List κ} (h : InOrder log keys) (rest : List κ) :
    InOrder (log ++ rest) keys := by
  cases keys with
  | nil => trivial
  | cons k keys =>
    obtain ⟨later, earlier, rfl, hlater, hkeys⟩ := h
    exact ⟨later, earlier ++ rest, by simp, hlater, hkeys⟩

theorem InOrder.sublist {log keys keys' : List κ} (h : InOrder log keys) (hs : keys'.Sublist keys) :
    InOrder log keys' := by
  induction hs generalizing log with
  | slnil => trivial
  | cons k _ ih =>
    obtain ⟨later, earlier, rfl, -, hkeys⟩ := h
    exact (ih hkeys).extend (k :: earlier)
  | cons_cons k _ ih =>
    obtain ⟨later, earlier, rfl, hlater, hkeys⟩ := h
    exact ⟨later, earlier, rfl, hlater, ih hkeys⟩

theorem InOrder.mem {log keys : List κ} (h : InOrder log keys) {k : κ} (hk : k ∈ keys) :
    k ∈ log := by
  induction keys generalizing log with
  | nil => cases hk
  | cons k₀ keys ih =>
    obtain ⟨later, earlier, rfl, -, hkeys⟩ := h
    rcases List.mem_cons.mp hk with rfl | hk
    · exact List.mem_append_right _ List.mem_cons_self
    · exact List.mem_append_left _ (ih hkeys hk)

/-- No two keys are the oldest. -/
theorem Oldest.unique {log keys : List κ} {a b : κ} (ha : Oldest log keys a)
    (hb : Oldest log keys b) : a = b := by
  by_contra hne
  obtain ⟨hamem, later, earlier, rfl, hlater, hall⟩ := ha
  obtain ⟨hbmem, later', earlier', heq, hlater', hall'⟩ := hb
  have hb' : b ∈ later := hall b hbmem fun h => hne h.symm
  have ha' : a ∈ later' := hall' a hamem hne
  -- one of the two stretches is a part of the other, and lacks its last key
  rcases List.append_eq_append_iff.mp heq with ⟨mid, rfl, -⟩ | ⟨mid, rfl, -⟩
  · exact hlater' (List.mem_append_left _ hb')
  · exact hlater (List.mem_append_left _ ha')

theorem oldest_iff {log keys : List κ} (h : InOrder log keys) {k : κ} :
    Oldest log keys k ↔ keys.head? = some k := by
  cases keys with
  | nil => exact iff_of_false (fun hk => List.not_mem_nil hk.1) (fun hk => by cases hk)
  | cons k₀ keys =>
    obtain ⟨later, earlier, rfl, hlater, hkeys⟩ := h
    have holdest : Oldest (later ++ k₀ :: earlier) (k₀ :: keys) k₀ := by
      refine ⟨List.mem_cons_self, later, earlier, rfl, hlater, fun k' hk' hne => ?_⟩
      exact hkeys.mem ((List.mem_cons.mp hk').resolve_left hne)
    rw [List.head?_cons, Option.some_inj]
    exact ⟨fun hk => holdest.unique hk, fun hk => hk ▸ holdest⟩

end JsMap
