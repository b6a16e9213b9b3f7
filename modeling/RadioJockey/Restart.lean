import Mathlib.Data.List.Sort
import RadioJockey.Snapshots

/-!
# Restarts and the file cache (`music/cache.go`, `db/tracks.go`)

The window is a list that `Touch` reorders, and `last_used_at` is a column that
`Touch` writes. A restart reads the one off the other. If all writes have
different times, in the order in which they happen, the window is always what a
restart would make of the table.

* `restart_transparent`: in every run, the window lists the first `CacheWindow`
  rows of `ListTracksByLastUsed`, and the same tracks are evicted in the same
  order without the restarts.
-/

namespace RadioJockey

open Lru

namespace TracksTable

/-- The order of `ListTracksByLastUsed`. -/
def NotOlder (a b : Track) : Prop := b.lastUsedAt ≤ a.lastUsedAt

instance : DecidableRel NotOlder := fun _ _ => inferInstanceAs (Decidable (_ ≤ _))

instance : Std.Total NotOlder := ⟨fun a b => Int.le_total b.lastUsedAt a.lastUsedAt⟩

instance : IsTrans Track NotOlder := ⟨fun _ _ _ hab hbc => Int.le_trans hbc hab⟩

def byLastUsed (d : TracksTable) : List Track := d.rows.insertionSort NotOlder

/-- The ids of the `CacheWindow` most recently touched rows. -/
def recentIDs (d : TracksTable) : List Int := (d.byLastUsed.map Track.id).take cacheWindow

/-- No two rows were used at one time. -/
def DistinctTimes (d : TracksTable) : Prop := (d.rows.map Track.lastUsedAt).Nodup

instance (d : TracksTable) : Decidable d.DistinctTimes := inferInstanceAs (Decidable (List.Nodup _))

theorem byLastUsed_perm (d : TracksTable) : d.byLastUsed.Perm d.rows :=
  List.perm_insertionSort NotOlder d.rows

theorem ids_byLastUsed_nodup (d : TracksTable) : (d.byLastUsed.map Track.id).Nodup :=
  (d.byLastUsed_perm.map Track.id).nodup_iff.mpr d.ids

theorem listsByLastUsed_byLastUsed (d : TracksTable) : d.ListsByLastUsed d.byLastUsed :=
  ⟨d.byLastUsed_perm, List.pairwise_insertionSort NotOlder d.rows⟩

/-- There is one listing only. -/
theorem eq_byLastUsed {d : TracksTable} (hd : d.DistinctTimes) {listing : List Track}
    (h : d.ListsByLastUsed listing) : listing = d.byLastUsed := by
  refine (h.1.trans d.byLastUsed_perm.symm).eq_of_pairwise ?_ h.2
    (List.pairwise_insertionSort NotOlder d.rows)
  intro a b ha hb hba hab
  exact List.inj_on_of_nodup_map hd (h.1.mem_iff.mp ha) (d.byLastUsed_perm.mem_iff.mp hb)
    (Int.le_antisymm hab hba)

/-- A row and the other rows. -/
theorem rows_perm_cons {d : TracksTable} {r : Track} (hr : r ∈ d.rows) :
    d.rows.Perm (r :: d.rows.filter fun x => x.id ≠ r.id) := by
  have hnodup : d.rows.Nodup := List.Nodup.of_map _ d.ids
  have hothers : d.rows.erase r = d.rows.filter fun x => x.id ≠ r.id := by
    rw [hnodup.erase_eq_filter]
    refine List.filter_congr fun x hx => ?_
    rcases eq_or_ne x r with rfl | hne
    · simp
    · have : x.id ≠ r.id := fun he => hne (eq_of_id hx hr he)
      simp [hne, this]
  exact hothers ▸ List.perm_cons_erase hr

/-- The newest row comes first in the listing, and the others keep their
order. -/
theorem byLastUsed_eq_cons {d d' : TracksTable} (hd : d.DistinctTimes) {r : Track}
    {p : Track → Bool} (hrows : d'.rows.Perm (r :: d.rows.filter p))
    (hnow : ∀ x ∈ d.rows, x.lastUsedAt < r.lastUsedAt) :
    d'.DistinctTimes ∧ d'.byLastUsed = r :: d.byLastUsed.filter p := by
  have hd' : d'.DistinctTimes := by
    refine (hrows.map Track.lastUsedAt).nodup_iff.mpr (List.nodup_cons.mpr ⟨fun hmem => ?_, ?_⟩)
    · obtain ⟨x, hx, he⟩ := List.mem_map.mp hmem
      exact absurd he (Int.ne_of_lt (hnow x (List.mem_of_mem_filter hx)))
    · exact hd.sublist ((List.filter_sublist).map Track.lastUsedAt)
  refine ⟨hd', (eq_byLastUsed hd' ⟨?_, List.pairwise_cons.mpr ⟨fun x hx => ?_, ?_⟩⟩).symm⟩
  · exact ((d.byLastUsed_perm.filter p).cons r).trans hrows.symm
  · exact Int.le_of_lt (hnow x (d.byLastUsed_perm.mem_iff.mp (List.mem_of_mem_filter hx)))
  · exact (listsByLastUsed_byLastUsed d).2.filter p

/-- `TouchTrackLastUsed` promotes its row. -/
theorem byLastUsed_touch {d : TracksTable} (hd : d.DistinctTimes) {r : Track} (hr : r ∈ d.rows)
    {now : Int} (hnow : ∀ x ∈ d.rows, x.lastUsedAt < now) :
    (d.touchTrackLastUsed r.id now).DistinctTimes ∧
      (d.touchTrackLastUsed r.id now).byLastUsed.map Track.id =
        promote id r.id (d.byLastUsed.map Track.id) := by
  have hrows : (d.touchTrackLastUsed r.id now).rows.Perm
      ({ r with lastUsedAt := now } :: d.rows.filter fun x => x.id ≠ r.id) := by
    refine ((rows_perm_cons hr).map _).trans (.of_eq ?_)
    rw [List.map_cons, if_pos rfl]
    refine congrArg (_ :: ·) ((List.map_congr_left fun x hx => ?_).trans (List.map_id _))
    exact if_neg (of_decide_eq_true (List.mem_filter.mp hx).2)
  obtain ⟨hd', hlist⟩ := byLastUsed_eq_cons hd hrows hnow
  refine ⟨hd', ?_⟩
  rw [hlist]
  exact map_promote Track.id { r with lastUsedAt := now } d.byLastUsed

/-- `CreateTrack` puts its row in front. -/
theorem byLastUsed_insert {d d' : TracksTable} (hd : d.DistinctTimes)
    {source sourceID title artist filePath : String} {duration : Int} {albumArtURL : String}
    {now : Int}
    (h : d.insert source sourceID title artist filePath duration albumArtURL now = some d')
    (hnow : ∀ x ∈ d.rows, x.lastUsedAt < now) :
    d'.DistinctTimes ∧ d'.byLastUsed.map Track.id = d.nextID :: d.byLastUsed.map Track.id := by
  have hrows : d'.rows.Perm (⟨d.nextID, source, sourceID, title, artist, duration, filePath, now,
      albumArtURL, now⟩ :: d.rows.filter fun _ => true) := by
    rw [insert_rows h, List.filter_true]
    exact List.perm_append_singleton _ _
  obtain ⟨hd', hlist⟩ := byLastUsed_eq_cons hd hrows hnow
  refine ⟨hd', ?_⟩
  rw [hlist, List.filter_true]
  rfl

end TracksTable

namespace Restart

open Transition AddTrack AddTrack.SnapshotsLemmas Cache CacheLemmas TracksTable

instance (d : TracksTable) (t : Track) : Decidable (Snapshot d t) :=
  inferInstanceAs (Decidable (∃ r ∈ d.rows, r.id = t.id ∧ r.key = t.key ∧ r.filePath = t.filePath))

/-! ## Runs -/

/-- How `AddTrack` comes by the track that it touches. -/
inductive Lookup
  /-- `Get` hits the track with this id. -/
  | hit (sourceID : String) (id : Int)
  /-- `CreateTrack` returns the row that it has made. -/
  | created (sourceID title artist filePath : String) (duration : Int) (albumArtURL : String)
    (now : Int)
  /-- The track was read from the table. -/
  | known (t : Track)

inductive Action
  | addTrack (l : Lookup) (inUse : List Int) (now : Int)
  | restart (listing : List Track)

/-- `evicted` has the ids of the evicted tracks, oldest first. -/
structure State where
  db : TracksTable
  cache : Cache
  evicted : List Int

namespace State

def found (s : State) : Lookup → Option (Track × State)
  | .hit sourceID id =>
    match s.cache.get sourceID with
    | none => none
    | some (t, c) => if t.id = id then some (t, { s with cache := c }) else none
  | .created sourceID title artist filePath duration albumArtURL now =>
    match s.db.insert source sourceID title artist filePath duration albumArtURL now with
    | none => none
    | some d =>
      match d.getTrack sourceID with
      | none => none
      | some t => if t.id = s.db.nextID then some (t, { s with db := d }) else none
  | .known t => if Snapshot s.db t then some (t, s) else none

/-- `Touch`. -/
def touch (s : State) (t : Track) (inUse : List Int) (now : Int) : State where
  db := s.db.touchTrackLastUsed t.id now
  cache := (s.cache.touch t inUse).1
  evicted := s.evicted ++ (s.cache.touch t inUse).2.map Track.id

def step (s : State) : Action → Option State
  | .addTrack l inUse now => (s.found l).map fun x => x.2.touch x.1 inUse now
  | .restart listing =>
    if s.db.ListsByLastUsed listing then some { s with cache := newCache listing } else none

end State

def restartSystem : System State Action where
  init s := ∃ db listing, db.DistinctTimes ∧ db.ListsByLastUsed listing ∧
    s = ⟨db, newCache listing, []⟩
  step := State.step

/-- The time of a new row is later than those in the table. -/
def Lookup.InOrder (d : TracksTable) : Lookup → Prop
  | .created _ _ _ _ _ _ now => ∀ r ∈ d.rows, r.lastUsedAt < now
  | .hit _ _ | .known _ => True

instance (d : TracksTable) : ∀ l : Lookup, Decidable (l.InOrder d)
  | .created _ _ _ _ _ _ now => inferInstanceAs (Decidable (∀ r ∈ d.rows, r.lastUsedAt < now))
  | .hit _ _ | .known _ => .isTrue trivial

/-- Each write has a later time than all before it, and what is in use at a
`Touch` is among the `CacheWindow` most recently touched tracks. -/
def InOrder (s : State) : Action → Prop
  | .addTrack l inUse now => l.InOrder s.db ∧ ∀ x ∈ s.found l,
    (∀ r ∈ x.2.db.rows, r.lastUsedAt < now) ∧
      ∀ i ∈ inUse, i ∈ (x.2.db.touchTrackLastUsed x.1.id now).recentIDs
  | .restart _ => True

instance (s : State) : ∀ a, Decidable (InOrder s a)
  | .addTrack l inUse now => inferInstanceAs (Decidable (l.InOrder s.db ∧ ∀ x ∈ s.found l,
      (∀ r ∈ x.2.db.rows, r.lastUsedAt < now) ∧
        ∀ i ∈ inUse, i ∈ (x.2.db.touchTrackLastUsed x.1.id now).recentIDs))
  | .restart _ => .isTrue trivial

def Action.isRestart : Action → Bool
  | .restart _ => true
  | .addTrack _ _ _ => false

/-! ## The table alone -/

/-- The cache is the listing of the table, cut off. A restart does nothing. -/
structure Table where
  db : TracksTable
  evicted : List Int

def State.table (s : State) : Table := ⟨s.db, s.evicted⟩

/-- The id of the track, and the table that it is then in. -/
def Lookup.row (d : TracksTable) : Lookup → Option (Int × TracksTable)
  | .hit _ id => some (id, d)
  | .created sourceID title artist filePath duration albumArtURL now =>
    (d.insert source sourceID title artist filePath duration albumArtURL now).map fun d' =>
      (d.nextID, d')
  | .known t => some (t.id, d)

/-- A touch evicts what it drives out of the first `CacheWindow` rows. -/
def Table.step (s : Table) : Action → Option Table
  | .addTrack l _ now => (l.row s.db).map fun x =>
    ⟨x.2.touchTrackLastUsed x.1 now,
      s.evicted ++ ((promote id x.1 s.db.recentIDs).drop cacheWindow).reverse⟩
  | .restart _ => some s

/-! ## The invariant -/

/-- All elements ever allocated hold copies of rows, and `bySourceID` points to
nothing else. -/
structure Grounded (d : TracksTable) (c : Cache) : Prop where
  pointers : ∀ sourceID el, c.bySourceID.lookup sourceID = some el → el < c.next
  rows : ∀ el < c.next, Snapshot d (c.nodes el)

structure RestartInv (s : State) : Prop where
  distinct : s.db.DistinctTimes
  linked : s.cache.Linked
  grounded : Grounded s.db s.cache
  window : s.cache.tracks.map Track.id = s.db.recentIDs

namespace RestartLemmas

theorem grounded_mono {d d' : TracksTable} {c : Cache} (hd : Extends d d') (h : Grounded d c) :
    Grounded d' c :=
  ⟨h.pointers, fun el hel => snapshot_mono hd (h.rows el hel)⟩

theorem grounded_add {d : TracksTable} {c c' : Cache} {t : Track} (ha : Adds c c' t)
    (ht : Snapshot d t) (h : Grounded d c) : Grounded d c' where
  pointers sourceID el hl := by
    rw [ha.next]
    rw [ha.bySource] at hl
    rcases eq_or_ne sourceID t.sourceID with rfl | hne
    · rw [AList.lookup_insert] at hl
      cases hl
      exact Nat.lt_succ_self _
    · rw [AList.lookup_insert_ne hne] at hl
      exact Nat.lt_succ_of_lt (h.pointers sourceID el hl)
  rows el hel := by
    rcases eq_or_ne el c.next with rfl | hne
    · rw [ha.nodes_new]
      exact ht
    · rw [ha.nodes, Function.update_of_ne hne]
      rw [ha.next] at hel
      exact h.rows el (Nat.lt_of_le_of_ne (Nat.le_of_lt_succ hel) hne)

theorem grounded_touchWindow {d : TracksTable} {c : Cache} {t : Track} (ht : Snapshot d t)
    (h : Grounded d c) : Grounded d (c.touchWindow t) := by
  unfold touchWindow
  split
  · next el hl =>
    refine ⟨h.pointers, fun x hx => ?_⟩
    show Snapshot d (Function.update c.nodes el t x)
    rcases eq_or_ne x el with rfl | hne
    · rw [Function.update_self]
      exact ht
    · rw [Function.update_of_ne hne]
      exact h.rows x hx
  · exact grounded_add (adds_pushFront c t) ht h

theorem grounded_remove {d : TracksTable} {c : Cache} {el : NodeRef} (h : Grounded d c) :
    Grounded d (c.remove el) where
  pointers sourceID x hl := by
    change (c.bySourceID.erase (c.nodes el).sourceID).lookup sourceID = some x at hl
    rcases eq_or_ne sourceID (c.nodes el).sourceID with rfl | hne
    · rw [AList.lookup_erase] at hl
      cases hl
    · rw [AList.lookup_erase_ne hne] at hl
      exact h.pointers sourceID x hl
  rows := h.rows

theorem grounded_touch {d : TracksTable} {c : Cache} {t : Track} (ht : Snapshot d t)
    (inUse : List Int) (h : Grounded d c) : Grounded d (c.touch t inUse).1 :=
  evictLoop_invariant inUse (fun _ _ hc _ => grounded_remove hc) _ (grounded_touchWindow ht h)

theorem grounded_newCache {d : TracksTable} {listing : List Track}
    (h : ∀ t ∈ listing, t ∈ d.rows) : Grounded d (newCache listing) := by
  have hfold : ∀ l : List Track, (∀ t ∈ l, t ∈ d.rows) → ∀ c, Grounded d c →
      Grounded d (l.foldl pushBack c) := by
    intro l
    induction l with
    | nil => exact fun _ _ hc => hc
    | cons t l ih =>
      intro hl c hc
      exact ih (fun x hx => hl x (List.mem_cons_of_mem t hx)) _
        (grounded_add (adds_pushBack c t) (snapshot_of_mem (hl t List.mem_cons_self)) hc)
  refine hfold _ (fun t ht => h t (List.mem_of_mem_take ht)) _ ⟨fun sourceID el hl => ?_, nofun⟩
  change (∅ : AList fun _ : String => NodeRef).lookup sourceID = some el at hl
  rw [AList.lookup_empty] at hl
  cases hl

/-- A new cache over a listing of the table. -/
theorem restartInv_new {d : TracksTable} (hd : d.DistinctTimes) {listing : List Track}
    (h : d.ListsByLastUsed listing) (evicted : List Int) :
    RestartInv ⟨d, newCache listing, evicted⟩ := by
  have hids : (listing.map Track.id).Nodup := (h.1.map Track.id).nodup_iff.mpr d.ids
  obtain ⟨htracks, hlinked⟩ := newCache_linked hids
  refine ⟨hd, hlinked, grounded_newCache fun t ht => h.1.mem_iff.mp ht, ?_⟩
  rw [htracks, eq_byLastUsed hd h, List.map_take]
  rfl

/-! ### A lookup -/

/-- The state in which `x` has been found, on the way from `s`: a `Touch` of `x`
undoes what `Get` did to the window. -/
structure Found (s u : State) (l : Lookup) (x : Track) : Prop where
  row : l.row s.db = some (x.id, u.db)
  evicted : u.evicted = s.evicted
  distinct : u.db.DistinctTimes
  linked : u.cache.Linked
  grounded : Grounded u.db u.cache
  snapshot : Snapshot u.db x
  window : promote id x.id (u.cache.tracks.map Track.id) = promote id x.id s.db.recentIDs
  listing : promote id x.id (u.db.byLastUsed.map Track.id) =
    promote id x.id (s.db.byLastUsed.map Track.id)

theorem found_hit {s u : State} {sourceID : String} {id : Int} {x : Track} (hinv : RestartInv s)
    (h : s.found (.hit sourceID id) = some (x, u)) : Found s u (.hit sourceID id) x := by
  simp only [State.found] at h
  split at h
  · cases h
  · next t c hget =>
    split at h
    · next hid =>
      cases h
      obtain ⟨el, hl, he⟩ := Option.map_eq_some_iff.mp hget
      cases he
      cases hid
      have hmoved : (s.cache.moveToFront el).Linked ∧
          promote id (s.cache.nodes el).id ((s.cache.moveToFront el).tracks.map Track.id) =
            promote id (s.cache.nodes el).id (s.cache.tracks.map Track.id) := by
        by_cases hel : el ∈ s.cache.window
        · refine ⟨linked_moveToFront hinv.linked hel, ?_⟩
          rw [tracks_moveToFront hinv.linked hel, map_promote]
          exact promote_promote rfl _
        · have hsame : s.cache.moveToFront el = s.cache := by rw [moveToFront, if_neg hel]
          rw [hsame]
          exact ⟨hinv.linked, rfl⟩
      exact {
        row := rfl
        evicted := rfl
        distinct := hinv.distinct
        linked := hmoved.1
        grounded := ⟨hinv.grounded.pointers, hinv.grounded.rows⟩
        snapshot := hinv.grounded.rows el (hinv.grounded.pointers sourceID el hl)
        window := hmoved.2.trans (congrArg (promote id _) hinv.window)
        listing := rfl }
    · cases h

theorem found_created {s u : State} {sourceID title artist filePath : String} {duration : Int}
    {albumArtURL : String} {now : Int} {x : Track} (hinv : RestartInv s)
    (hnow : ∀ r ∈ s.db.rows, r.lastUsedAt < now)
    (h : s.found (.created sourceID title artist filePath duration albumArtURL now) =
      some (x, u)) :
    Found s u (.created sourceID title artist filePath duration albumArtURL now) x := by
  simp only [State.found] at h
  split at h
  · cases h
  · next d hd =>
    split at h
    · cases h
    · next t ht =>
      split at h
      · next hid =>
        cases h
        obtain ⟨hdistinct, hlist⟩ := byLastUsed_insert hinv.distinct hd hnow
        exact {
          row := by rw [Lookup.row, hd, hid]; rfl
          evicted := rfl
          distinct := hdistinct
          linked := hinv.linked
          grounded := grounded_mono (extends_insert hd) hinv.grounded
          snapshot := snapshot_of_mem (getTrack_eq_some ht).1
          window := congrArg (promote id _) hinv.window
          listing := by
            rw [hlist, hid, promote, promote, List.filter_cons_of_neg (by simp)] }
      · cases h

theorem found_eq_some {s u : State} {l : Lookup} {x : Track} (hinv : RestartInv s)
    (hl : l.InOrder s.db) (h : s.found l = some (x, u)) : Found s u l x := by
  cases l with
  | hit sourceID id => exact found_hit hinv h
  | created sourceID title artist filePath duration albumArtURL now =>
    exact found_created hinv hl h
  | known t =>
    obtain ⟨ht, hx⟩ := Option.ite_some_none_eq_some.mp h
    cases hx
    exact {
      row := rfl
      evicted := rfl
      distinct := hinv.distinct
      linked := hinv.linked
      grounded := hinv.grounded
      snapshot := ht
      window := congrArg (promote id _) hinv.window
      listing := rfl }

/-! ### A touch -/

/-- A touch leaves the first `CacheWindow` rows, and evicts what it drives out. -/
theorem restartInv_touch {s u : State} {l : Lookup} {x : Track} (hf : Found s u l x)
    {inUse : List Int} {now : Int} (hnow : ∀ r ∈ u.db.rows, r.lastUsedAt < now)
    (hinUse : ∀ i ∈ inUse, i ∈ (u.db.touchTrackLastUsed x.id now).recentIDs) :
    RestartInv (u.touch x inUse now) ∧
      (u.touch x inUse now).evicted =
        s.evicted ++ ((promote id x.id s.db.recentIDs).drop cacheWindow).reverse := by
  obtain ⟨r, hr, hid, -⟩ := hf.snapshot
  obtain ⟨hdistinct, hlist⟩ := byLastUsed_touch hf.distinct hr hnow
  rw [hid] at hdistinct hlist
  -- the first rows after the touch are those of the window with `x` in front
  have hrecent : (u.db.touchTrackLastUsed x.id now).recentIDs =
      (promote id x.id s.db.recentIDs).take cacheWindow := by
    rw [recentIDs, hlist, hf.listing, recentIDs]
    exact (take_promote s.db.ids_byLastUsed_nodup cacheWindow).symm
  have hids : (promote Track.id x u.cache.tracks).map Track.id = promote id x.id s.db.recentIDs :=
    (map_promote Track.id x u.cache.tracks).trans hf.window
  have hnodup : (promote id x.id s.db.recentIDs).Nodup := by
    obtain ⟨htracks, hlinked⟩ := touchWindow_linked hf.linked x
    rw [← hids, ← htracks]
    exact ids_nodup hlinked
  have hunused : ∀ t ∈ (promote Track.id x u.cache.tracks).drop cacheWindow,
      used inUse t = false := by
    intro t ht
    refine decide_eq_false fun hmem => ?_
    have hdrop : t.id ∈ (promote id x.id s.db.recentIDs).drop cacheWindow := by
      rw [← hids, ← List.map_drop]
      exact List.mem_map_of_mem ht
    exact List.disjoint_take_drop hnodup (Nat.le_refl _) (hrecent ▸ hinUse _ hmem) hdrop
  obtain ⟨hkept, hgone, hlinked⟩ := touch_linked hf.linked x inUse
  obtain ⟨hkeep, hevict⟩ := evict_of_unused hunused
  have hextends : Extends u.db (u.db.touchTrackLastUsed x.id now) := extends_update fun _ => rfl
  refine ⟨⟨hdistinct, hlinked, ?_, ?_⟩, ?_⟩
  · exact grounded_touch (snapshot_mono hextends hf.snapshot) inUse
      (grounded_mono hextends hf.grounded)
  · show (u.cache.touch x inUse).1.tracks.map Track.id = _
    rw [hkept, overflow, hkeep, List.map_take, hids]
    exact hrecent.symm
  · show u.evicted ++ (u.cache.touch x inUse).2.map Track.id = _
    rw [hgone, overflow, hevict, List.map_reverse, List.map_drop, hids, hf.evicted]

end RestartLemmas

open RestartLemmas

/-- Each step keeps the window in step with the table, and does what the table
alone would do. -/
theorem restartInv_step {s t : State} {a : Action} (hinv : RestartInv s) (ha : InOrder s a)
    (h : s.step a = some t) : RestartInv t ∧ s.table.step a = some t.table := by
  cases a with
  | addTrack l inUse now =>
    obtain ⟨⟨x, u⟩, hfound, rfl⟩ := Option.map_eq_some_iff.mp h
    obtain ⟨hl, htouch⟩ := ha
    obtain ⟨hnow, hinUse⟩ := htouch (x, u) hfound
    have hf := found_eq_some hinv hl hfound
    obtain ⟨hinv', hevicted⟩ := restartInv_touch hf hnow hinUse
    refine ⟨hinv', ?_⟩
    rw [Table.step, State.table, hf.row, Option.map_some, State.table, hevicted]
    rfl
  | restart listing =>
    obtain ⟨hlisting, rfl⟩ := Option.ite_some_none_eq_some.mp h
    exact ⟨restartInv_new hinv.distinct hlisting s.evicted, rfl⟩

/-! ## With and without restarts -/

/-- A guarded run does what the table alone would do. -/
theorem table_run {s t : State} {as : List Action} (hinv : RestartInv s)
    (h : guardedRun restartSystem InOrder s as = some t) :
    RestartInv t ∧ as.foldlM Table.step s.table = some t.table := by
  induction as generalizing s with
  | nil =>
    cases h
    exact ⟨hinv, rfl⟩
  | cons a as ih =>
    rw [guardedRun] at h
    split at h
    · next ha =>
      obtain ⟨u, hu, h⟩ := Option.bind_eq_some_iff.mp h
      obtain ⟨hinv', hstep⟩ := restartInv_step hinv ha hu
      obtain ⟨hinv'', hrun⟩ := ih hinv' h
      refine ⟨hinv'', ?_⟩
      rw [List.foldlM_cons, hstep]
      exact hrun
    · cases h

/-- For the table, restarts can be left out. -/
theorem table_run_filter (s : Table) (as : List Action) :
    (as.filter fun a => !a.isRestart).foldlM Table.step s = as.foldlM Table.step s := by
  induction as generalizing s with
  | nil => rfl
  | cons a as ih =>
    cases a with
    | restart listing =>
      rw [List.filter_cons_of_neg (by simp [Action.isRestart]), List.foldlM_cons]
      exact ih s
    | addTrack l inUse now =>
      rw [List.filter_cons_of_pos (by simp [Action.isRestart]), List.foldlM_cons,
        List.foldlM_cons]
      exact congrArg _ (funext ih)

/-! ## Tables of one source -/

/-- Only `DownloadTrackFromURL` writes rows, and it has one source. -/
def OneSource (d : TracksTable) : Prop := ∀ r ∈ d.rows, r.source = source

instance (d : TracksTable) : Decidable (OneSource d) :=
  inferInstanceAs (Decidable (∀ r ∈ d.rows, r.source = source))

/-- `Get` finds every track of the window, as no two have one source id. -/
structure SourceInv (s : State) : Prop where
  inv : RestartInv s
  source : OneSource s.db
  valid : s.cache.Valid

namespace RestartLemmas

/-- The tracks of the window are copies of rows. -/
theorem snapshot_of_tracks {s : State} (hinv : RestartInv s) {t : Track}
    (ht : t ∈ s.cache.tracks) : Snapshot s.db t := by
  obtain ⟨el, hel, rfl⟩ := mem_tracks.mp ht
  exact hinv.grounded.rows el (hinv.linked.allocated el hel)

/-- The same track is found in every state with the same table. -/
theorem found_of_table {s s' u : State} (hs : SourceInv s) (hs' : SourceInv s')
    (hdb : s'.db = s.db) {l : Lookup} {x : Track} (h : s.found l = some (x, u)) :
    ∃ x' u', s'.found l = some (x', u') ∧ x'.id = x.id ∧ u'.db = u.db ∧
      OneSource u'.db ∧ u'.cache.Valid := by
  cases l with
  | hit sourceID id =>
    simp only [State.found] at h
    split at h
    · cases h
    · next t c hget =>
      split at h
      · next hid =>
        cases h
        obtain ⟨hx, hsource, -⟩ := get_eq_some hs.valid hget
        obtain ⟨y, hy, hyid⟩ : ∃ y ∈ s'.cache.tracks, y.id = x.id := by
          have hmem : x.id ∈ s'.cache.tracks.map Track.id := by
            rw [hs'.inv.window, hdb, ← hs.inv.window]
            exact List.mem_map_of_mem hx
          exact List.mem_map.mp hmem
        have hagree : y.sourceID = sourceID := by
          have hy' := hdb ▸ snapshot_of_tracks hs'.inv hy
          rw [← hsource]
          exact (snapshot_ids hs.source hy' (snapshot_of_tracks hs.inv hx)).mp hyid
        cases hget' : s'.cache.get sourceID with
        | none => exact absurd hagree ((get_eq_none hs'.valid).mp hget' y hy)
        | some r =>
          obtain ⟨z, c'⟩ := r
          obtain ⟨hz, hzs, -, hvalid⟩ := get_eq_some hs'.valid hget'
          have hzid : z.id = id := by
            rw [← hid, ← hyid]
            exact (snapshot_ids hs'.source (snapshot_of_tracks hs'.inv hz)
              (snapshot_of_tracks hs'.inv hy)).mpr (hzs.trans hagree.symm)
          refine ⟨z, { s' with cache := c' }, ?_, hzid.trans hid.symm, hdb, hs'.source, hvalid⟩
          rw [State.found, hget']
          exact if_pos hzid
      · cases h
  | created sourceID title artist filePath duration albumArtURL now =>
    simp only [State.found] at h ⊢
    rw [hdb]
    split at h
    · cases h
    · next d hd =>
      split at h
      · cases h
      · next t ht =>
        split at h
        · next hid =>
          cases h
          refine ⟨x, { s' with db := d }, ?_, rfl, rfl, ?_, hs'.valid⟩
          · exact if_pos hid
          · intro r hr
            rw [insert_rows hd] at hr
            rcases List.mem_append.mp hr with hr | hr
            · exact hs.source r hr
            · rw [List.mem_singleton.mp hr]
        · cases h
  | known t =>
    obtain ⟨ht, hx⟩ := Option.ite_some_none_eq_some.mp h
    cases hx
    exact ⟨_, s', if_pos (hdb ▸ ht), rfl, hdb, hs'.source, hs'.valid⟩

/-- A touch, when the track has been found. -/
theorem sourceInv_touch {s u : State} {l : Lookup} {x : Track} (hf : Found s u l x)
    (hsource : OneSource u.db) (hvalid : u.cache.Valid) {inUse : List Int} {now : Int}
    (hinv : RestartInv (u.touch x inUse now)) : SourceInv (u.touch x inUse now) := by
  have hagrees : u.cache.Agrees x := by
    intro y hy
    obtain ⟨el, hel, rfl⟩ := mem_tracks.mp hy
    exact snapshot_ids hsource (hf.grounded.rows el (hf.linked.allocated el hel)) hf.snapshot
  refine ⟨hinv, fun r hr => ?_, (touch_tracks hvalid hagrees inUse).2.2⟩
  obtain ⟨y, hy, rfl⟩ := List.mem_map.mp hr
  split
  · exact hsource y hy
  · exact hsource y hy

/-- What one of two states with the same table can do, the other can do too. -/
theorem step_of_table {s s' t : State} (hs : SourceInv s) (hs' : SourceInv s')
    (htable : s'.table = s.table) {l : Lookup} {inUse : List Int} {now : Int}
    (ha : InOrder s (.addTrack l inUse now)) (h : s.step (.addTrack l inUse now) = some t) :
    ∃ t', InOrder s' (.addTrack l inUse now) ∧ s'.step (.addTrack l inUse now) = some t' ∧
      SourceInv t' ∧ t'.table = t.table := by
  have hdb : s'.db = s.db := congrArg Table.db htable
  obtain ⟨⟨x, u⟩, hfound, rfl⟩ := Option.map_eq_some_iff.mp h
  obtain ⟨x', u', hfound', hid, hdb', hsource, hvalid⟩ := found_of_table hs hs' hdb hfound
  obtain ⟨hnow, hinUse⟩ := ha.2 (x, u) hfound
  have ha' : InOrder s' (.addTrack l inUse now) := by
    refine ⟨hdb ▸ ha.1, fun y hy => ?_⟩
    cases hfound'.symm.trans hy
    rw [hdb', hid]
    exact ⟨hnow, hinUse⟩
  have hstep' : s'.step (.addTrack l inUse now) = some (u'.touch x' inUse now) := by
    rw [State.step, hfound']
    rfl
  obtain ⟨hinv, htable'⟩ := restartInv_step hs'.inv ha' hstep'
  have hf := found_eq_some hs'.inv ha'.1 hfound'
  refine ⟨_, ha', hstep', sourceInv_touch hf hsource hvalid hinv, ?_⟩
  have hsame := (restartInv_step hs.inv ha h).2
  rw [← htable, htable'] at hsame
  exact Option.some.inj hsame

end RestartLemmas

open RestartLemmas

theorem sourceInv_step {s t : State} {a : Action} (hs : SourceInv s) (ha : InOrder s a)
    (h : s.step a = some t) : SourceInv t := by
  cases a with
  | addTrack l inUse now =>
    obtain ⟨t', -, hstep, ht', -⟩ := step_of_table hs hs rfl ha h
    cases h.symm.trans hstep
    exact ht'
  | restart listing =>
    obtain ⟨hlisting, rfl⟩ := Option.ite_some_none_eq_some.mp h
    exact ⟨restartInv_new hs.inv.distinct hlisting s.evicted, hs.source,
      (newCache_listing hs.source hlisting).2⟩

/-- The run without the restarts. -/
theorem run_filter {s s' t : State} {as : List Action} (hs : SourceInv s) (hs' : SourceInv s')
    (htable : s'.table = s.table) (h : guardedRun restartSystem InOrder s as = some t) :
    ∃ t', guardedRun restartSystem InOrder s' (as.filter fun a => !a.isRestart) = some t' := by
  induction as generalizing s s' with
  | nil => exact ⟨s', rfl⟩
  | cons a as ih =>
    rw [guardedRun] at h
    split at h
    · next ha =>
      obtain ⟨u, hu, hrun⟩ := Option.bind_eq_some_iff.mp h
      have hu' := sourceInv_step hs ha hu
      cases a with
      | restart listing =>
        rw [List.filter_cons_of_neg (by simp [Action.isRestart])]
        obtain ⟨-, rfl⟩ := Option.ite_some_none_eq_some.mp hu
        exact ih hu' hs' htable hrun
      | addTrack l inUse now =>
        rw [List.filter_cons_of_pos (by simp [Action.isRestart])]
        obtain ⟨v, hav, hv, hinv, htable'⟩ := step_of_table hs hs' htable ha hu
        obtain ⟨t', ht'⟩ := ih hu' hinv htable' hrun
        refine ⟨t', ?_⟩
        rw [guardedRun, if_pos hav]
        exact Option.bind_eq_some_iff.mpr ⟨v, hv, ht'⟩
    · cases h

/-! ## Main result -/

/-- The window is the beginning of the listing after every step of every run. A
run of the same interactions, with other restarts or with none, has the same
table in the end and evicts the same tracks in the same order. As long as all
rows have the one source of the server, there is such a run without restarts. -/
theorem restart_transparent {s t : State} {as : List Action} (hinit : restartSystem.init s)
    (h : guardedRun restartSystem InOrder s as = some t) :
    (∀ listing, t.db.ListsByLastUsed listing →
      t.cache.tracks.map Track.id = (listing.take cacheWindow).map Track.id) ∧
    (∀ bs t', bs.filter (fun a => !a.isRestart) = as.filter (fun a => !a.isRestart) →
      guardedRun restartSystem InOrder s bs = some t' →
        t'.db = t.db ∧ t'.evicted = t.evicted) ∧
    (OneSource s.db →
      ∃ t', guardedRun restartSystem InOrder s (as.filter fun a => !a.isRestart) = some t') := by
  obtain ⟨db, listing₀, hdistinct, hlisting₀, rfl⟩ := hinit
  have hinv := restartInv_new hdistinct hlisting₀ []
  obtain ⟨hinv', htable⟩ := table_run hinv h
  refine ⟨fun listing hlisting => ?_, fun bs t' hsame h' => ?_, fun hsource => ?_⟩
  · rw [hinv'.window, eq_byLastUsed hinv'.distinct hlisting, List.map_take]
    rfl
  · have htable' := (table_run hinv h').2
    rw [← table_run_filter, hsame, table_run_filter, htable] at htable'
    obtain ⟨hdb, hevicted⟩ := Table.mk.inj (Option.some.inj htable')
    exact ⟨hdb.symm, hevicted.symm⟩
  · have hs : SourceInv ⟨db, newCache listing₀, []⟩ :=
      ⟨hinv, hsource, (newCache_listing hsource hlisting₀).2⟩
    exact run_filter hs hs rfl h

/-- The row with the id `n`, last used at the time `t`. -/
def rowAt (n : Nat) (t : Int) : Track :=
  ⟨n, source, String.ofList (List.replicate n 'v'), "", "", 0, "", 0, "", t⟩

/-- As many rows as the window holds, used in the order of their ids. -/
def fullTable : TracksTable where
  rows := (List.range cacheWindow).map fun n => rowAt n n
  nextID := 50
  ids := by decide +kernel
  fresh := by decide +kernel
  unique := by decide +kernel

/-- A new track, a restart, a hit, and one more new track. -/
def restartRun : List Action :=
  [.addTrack (.created "new" "" "" "" 0 "" 50) [] 51,
    .restart (⟨50, source, "new", "", "", 0, "", 50, "", 51⟩ ::
      (List.range cacheWindow).reverse.map fun n => rowAt n n),
    .addTrack (.hit "v" 1) [50] 52,
    .addTrack (.created "newer" "" "" "" 0 "" 53) [1, 50] 54]

/-- The hit saves the second row from the second eviction. -/
theorem restart_transparent_hit :
    ∃ t : State, t.evicted = [0, 2] ∧
      (∀ listing, t.db.ListsByLastUsed listing →
        t.cache.tracks.map Track.id = (listing.take cacheWindow).map Track.id) ∧
      ∃ t', guardedRun restartSystem InOrder ⟨fullTable, newCache fullTable.byLastUsed, []⟩
        (restartRun.filter fun a => !a.isRestart) = some t' ∧ t'.evicted = [0, 2] := by
  have hinit : restartSystem.init ⟨fullTable, newCache fullTable.byLastUsed, []⟩ :=
    ⟨fullTable, _, by decide +kernel, listsByLastUsed_byLastUsed fullTable, rfl⟩
  obtain ⟨t, ht, hevicted⟩ := Option.map_eq_some_iff.mp (show (guardedRun restartSystem InOrder
    ⟨fullTable, newCache fullTable.byLastUsed, []⟩ restartRun).map (fun t =>
      decide (t.evicted = [0, 2])) = some true by decide +kernel)
  obtain ⟨hwindow, hsame, hexists⟩ := restart_transparent hinit ht
  obtain ⟨t', ht'⟩ := hexists (by decide +kernel)
  refine ⟨t, of_decide_eq_true hevicted, hwindow, t', ht', ?_⟩
  have hidem : (restartRun.filter fun a => !a.isRestart).filter (fun a => !a.isRestart) =
      restartRun.filter fun a => !a.isRestart := by
    rw [List.filter_filter]
    simp only [Bool.and_self]
  exact (hsame _ t' hidem ht').2.trans (of_decide_eq_true hevicted)

end Restart

end RadioJockey
