import Mathlib.Data.List.AList
import RadioJockey.Lib.Lru
import RadioJockey.Tracks

/-!
# The file cache (`music/cache.go`)

The window is a `container/list`: its elements are pointers, their values can
be replaced, and two maps point into it. An element is its number in the heap
`nodes`. A removed element keeps its number, and moving it does nothing.

* `Valid`: the maps point to exactly the elements of the window, each under
  the id and the source id of its track.
* `Linked`: the part of this that is about ids.
* `tracks`: the tracks of the window, most recently used first. On a linked
  cache `Touch` and the eviction loop do to `tracks` what `Lru.promote` and
  `Lru.evict` do, and keep it linked. On a valid cache so does `Get`, and they
  all keep it valid.
-/

namespace RadioJockey

open Lru

def cacheWindow : Nat := 50

abbrev NodeRef := Nat

/-- `next` is the number of the next element that is allocated. -/
structure Cache where
  nodes : NodeRef → Track
  next : NodeRef
  window : List NodeRef
  windowNodes : AList fun _ : Int => NodeRef
  bySourceID : AList fun _ : String => NodeRef

namespace Cache

/-- What nothing points to. -/
def noTrack : Track := ⟨0, "", "", "", "", 0, "", 0, "", 0⟩

def empty : Cache := ⟨fun _ => noTrack, 0, [], ∅, ∅⟩

/-- `PushBack` and the two maps. -/
def pushBack (c : Cache) (t : Track) : Cache where
  nodes := Function.update c.nodes c.next t
  next := c.next + 1
  window := c.window ++ [c.next]
  windowNodes := c.windowNodes.insert t.id c.next
  bySourceID := c.bySourceID.insert t.sourceID c.next

/-- `PushFront` and the two maps. -/
def pushFront (c : Cache) (t : Track) : Cache where
  nodes := Function.update c.nodes c.next t
  next := c.next + 1
  window := c.next :: c.window
  windowNodes := c.windowNodes.insert t.id c.next
  bySourceID := c.bySourceID.insert t.sourceID c.next

/-- `MoveToFront`, which does nothing to an element of no list. -/
def moveToFront (c : Cache) (el : NodeRef) : Cache :=
  { c with window := if el ∈ c.window then el :: c.window.erase el else c.window }

/-- `NewCache`, for the rows that `ListTracksByLastUsed` returns. -/
def newCache (listing : List Track) : Cache :=
  (listing.take cacheWindow).foldl pushBack empty

def get (c : Cache) (sourceID : String) : Option (Track × Cache) :=
  (c.bySourceID.lookup sourceID).map fun el => (c.nodes el, c.moveToFront el)

/-- The update of the window in `Touch`. -/
def touchWindow (c : Cache) (track : Track) : Cache :=
  match c.windowNodes.lookup track.id with
  | some el => moveToFront { c with nodes := Function.update c.nodes el track } el
  | none => c.pushFront track

/-- The oldest element whose track is not in use. -/
def victim (c : Cache) (inUse : List Int) : Option NodeRef :=
  c.window.reverse.find? fun el => !decide ((c.nodes el).id ∈ inUse)

def remove (c : Cache) (el : NodeRef) : Cache :=
  { c with
    window := c.window.erase el
    windowNodes := c.windowNodes.erase (c.nodes el).id
    bySourceID := c.bySourceID.erase (c.nodes el).sourceID }

/-- The loop of `Touch`, with the tracks whose files it removes. Each round
removes an element, so `fuel` rounds are enough if the window is no longer
than that. -/
def evictLoop (inUse : List Int) : Nat → Cache → Cache × List Track
  | 0, c => (c, [])
  | fuel + 1, c =>
    if c.window.length ≤ cacheWindow then (c, [])
    else match c.victim inUse with
      | none => (c, [])
      | some el =>
        let r := evictLoop inUse fuel (c.remove el)
        (r.1, c.nodes el :: r.2)

/-- The locked section of `Touch`. -/
def touch (c : Cache) (track : Track) (inUse : List Int) : Cache × List Track :=
  evictLoop inUse (c.touchWindow track).window.length (c.touchWindow track)

def tracks (c : Cache) : List Track := c.window.map c.nodes

structure Valid (c : Cache) : Prop where
  nodup : c.window.Nodup
  allocated : ∀ el ∈ c.window, el < c.next
  byID : ∀ id el, c.windowNodes.lookup id = some el ↔ el ∈ c.window ∧ (c.nodes el).id = id
  bySource : ∀ sourceID el, c.bySourceID.lookup sourceID = some el ↔
    el ∈ c.window ∧ (c.nodes el).sourceID = sourceID

/-- The part of `Valid` that is not about source ids. The order of the window
rests on it alone. -/
structure Linked (c : Cache) : Prop where
  nodup : c.window.Nodup
  allocated : ∀ el ∈ c.window, el < c.next
  byID : ∀ id el, c.windowNodes.lookup id = some el ↔ el ∈ c.window ∧ (c.nodes el).id = id

theorem Valid.linked {c : Cache} (h : c.Valid) : c.Linked := ⟨h.nodup, h.allocated, h.byID⟩

/-- In the window and with `t`, id and source id determine each other. -/
def Agrees (c : Cache) (t : Track) : Prop :=
  ∀ x ∈ c.tracks, x.id = t.id ↔ x.sourceID = t.sourceID

namespace CacheLemmas

/-! ### A map from keys to the elements of a window -/

section Index

variable {κ : Type} [DecidableEq κ] {m : AList fun _ : κ => NodeRef} {w w' : List NodeRef}
  {f f' : NodeRef → κ} {el : NodeRef}

theorem index_insert (h : ∀ k x, m.lookup k = some x ↔ x ∈ w ∧ f x = k)
    (hmem : ∀ x, x ∈ w' ↔ x = el ∨ x ∈ w) (hold : ∀ x ∈ w, f' x = f x)
    (hnew : ∀ x ∈ w, f x ≠ f' el) (k : κ) (x : NodeRef) :
    (m.insert (f' el) el).lookup k = some x ↔ x ∈ w' ∧ f' x = k := by
  rw [hmem]
  rcases eq_or_ne k (f' el) with rfl | hne
  · rw [AList.lookup_insert]
    constructor
    · rintro hx
      cases hx
      exact ⟨.inl rfl, rfl⟩
    · rintro ⟨rfl | hx, hxk⟩
      · rfl
      · exact absurd ((hold x hx).symm.trans hxk) (hnew x hx)
  · rw [AList.lookup_insert_ne hne, h]
    constructor
    · rintro ⟨hx, hxk⟩
      exact ⟨.inr hx, (hold x hx).trans hxk⟩
    · rintro ⟨rfl | hx, hxk⟩
      · exact absurd hxk.symm hne
      · exact ⟨hx, (hold x hx).symm.trans hxk⟩

theorem index_erase (h : ∀ k x, m.lookup k = some x ↔ x ∈ w ∧ f x = k) (hw : w.Nodup)
    (hinj : ∀ x ∈ w, f x = f el → x = el) (k : κ) (x : NodeRef) :
    (m.erase (f el)).lookup k = some x ↔ x ∈ w.erase el ∧ f x = k := by
  rw [hw.mem_erase_iff]
  rcases eq_or_ne k (f el) with rfl | hne
  · rw [AList.lookup_erase]
    exact ⟨nofun, fun ⟨⟨hxel, hx⟩, hxk⟩ => absurd (hinj x hx hxk) hxel⟩
  · rw [AList.lookup_erase_ne hne, h]
    constructor
    · rintro ⟨hx, hxk⟩
      exact ⟨⟨fun hxel => hne (hxk ▸ hxel ▸ rfl), hx⟩, hxk⟩
    · rintro ⟨⟨-, hx⟩, hxk⟩
      exact ⟨hx, hxk⟩

end Index

theorem mem_tracks {c : Cache} {t : Track} : t ∈ c.tracks ↔ ∃ el ∈ c.window, c.nodes el = t :=
  List.mem_map

/-- Two elements of the window with one id are the same element. -/
theorem eq_of_id {c : Cache} (h : c.Linked) {el el' : NodeRef} (hel : el ∈ c.window)
    (hel' : el' ∈ c.window) (he : (c.nodes el).id = (c.nodes el').id) : el = el' := by
  have h₁ := (h.byID (c.nodes el').id el).mpr ⟨hel, he⟩
  have h₂ := (h.byID (c.nodes el').id el').mpr ⟨hel', rfl⟩
  exact Option.some.inj (h₁.symm.trans h₂)

theorem eq_of_sourceID {c : Cache} (h : c.Valid) {el el' : NodeRef} (hel : el ∈ c.window)
    (hel' : el' ∈ c.window) (he : (c.nodes el).sourceID = (c.nodes el').sourceID) :
    el = el' := by
  have h₁ := (h.bySource (c.nodes el').sourceID el).mpr ⟨hel, he⟩
  have h₂ := (h.bySource (c.nodes el').sourceID el').mpr ⟨hel', rfl⟩
  exact Option.some.inj (h₁.symm.trans h₂)

/-- The tracks of the window have different ids. -/
theorem ids_nodup {c : Cache} (h : c.Linked) : (c.tracks.map Track.id).Nodup := by
  rw [tracks, List.map_map]
  exact List.Nodup.map_on (fun _ hx _ hy he => eq_of_id h hx hy he) h.nodup

theorem sourceIDs_nodup {c : Cache} (h : c.Valid) : (c.tracks.map Track.sourceID).Nodup := by
  rw [tracks, List.map_map]
  exact List.Nodup.map_on (fun _ hx _ hy he => eq_of_sourceID h hx hy he) h.nodup

/-- Taking an element out of the window is dropping its track. -/
theorem tracks_erase {c : Cache} (h : c.Linked) {el : NodeRef} (hel : el ∈ c.window) :
    (c.window.erase el).map c.nodes = c.tracks.filter fun t => t.id ≠ (c.nodes el).id := by
  rw [h.nodup.erase_eq_filter, tracks, List.filter_map]
  refine congrArg (List.map c.nodes) (List.filter_congr fun x hx => ?_)
  show (x != el) = decide ((c.nodes x).id ≠ (c.nodes el).id)
  rcases eq_or_ne x el with rfl | hne
  · simp
  · have : (c.nodes x).id ≠ (c.nodes el).id := fun hid => hne (eq_of_id h hx hel hid)
    simp [hne, this]

theorem valid_empty : empty.Valid := by
  refine ⟨List.nodup_nil, ?_, ?_, ?_⟩
  · exact fun el h => nomatch h
  · intro id el
    show (∅ : AList fun _ : Int => NodeRef).lookup id = some el ↔ _
    rw [AList.lookup_empty]
    exact ⟨nofun, fun h => nomatch h.1⟩
  · intro sourceID el
    show (∅ : AList fun _ : String => NodeRef).lookup sourceID = some el ↔ _
    rw [AList.lookup_empty]
    exact ⟨nofun, fun h => nomatch h.1⟩

/-! ### `MoveToFront` -/

theorem mem_moveToFront {c : Cache} (h : c.window.Nodup) {el : NodeRef} (hel : el ∈ c.window)
    (x : NodeRef) : x ∈ (c.moveToFront el).window ↔ x ∈ c.window := by
  show x ∈ (if el ∈ c.window then _ else _ : List NodeRef) ↔ _
  rw [if_pos hel, List.mem_cons, h.mem_erase_iff]
  rcases eq_or_ne x el with rfl | hne
  · exact iff_of_true (.inl rfl) hel
  · simp [hne]

theorem linked_moveToFront {c : Cache} (h : c.Linked) {el : NodeRef} (hel : el ∈ c.window) :
    (c.moveToFront el).Linked where
  nodup := by
    show (if el ∈ c.window then _ else _ : List NodeRef).Nodup
    rw [if_pos hel, List.nodup_cons]
    exact ⟨h.nodup.not_mem_erase, h.nodup.erase el⟩
  allocated x hx := h.allocated x ((mem_moveToFront h.nodup hel x).mp hx)
  byID id x := (h.byID id x).trans (and_congr_left' (mem_moveToFront h.nodup hel x).symm)

theorem valid_moveToFront {c : Cache} (h : c.Valid) {el : NodeRef} (hel : el ∈ c.window) :
    (c.moveToFront el).Valid := by
  obtain ⟨hnodup, hallocated, hbyID⟩ := linked_moveToFront h.linked hel
  exact ⟨hnodup, hallocated, hbyID, fun sourceID x =>
    (h.bySource sourceID x).trans (and_congr_left' (mem_moveToFront h.nodup hel x).symm)⟩

theorem tracks_moveToFront {c : Cache} (h : c.Linked) {el : NodeRef} (hel : el ∈ c.window) :
    (c.moveToFront el).tracks = promote Track.id (c.nodes el) c.tracks := by
  show (if el ∈ c.window then _ else _ : List NodeRef).map c.nodes = _
  rw [if_pos hel, List.map_cons, tracks_erase h hel]
  rfl

/-! ### Replacing, adding and removing -/

/-- The value of an element is replaced by one that `f` maps to the same. -/
theorem update_same {κ : Type} (f : Track → κ) {nodes : NodeRef → Track} {el : NodeRef}
    {t : Track} (h : f t = f (nodes el)) (x : NodeRef) :
    f (Function.update nodes el t x) = f (nodes x) := by
  rcases eq_or_ne x el with rfl | hne
  · rw [Function.update_self, h]
  · rw [Function.update_of_ne hne]

theorem linked_setNode {c : Cache} (h : c.Linked) {el : NodeRef} {t : Track}
    (hid : t.id = (c.nodes el).id) :
    Linked { c with nodes := Function.update c.nodes el t } := by
  refine ⟨h.nodup, h.allocated, fun id x => ?_⟩
  rw [update_same Track.id hid]
  exact h.byID id x

theorem valid_setNode {c : Cache} (h : c.Valid) {el : NodeRef} {t : Track}
    (hid : t.id = (c.nodes el).id) (hsource : t.sourceID = (c.nodes el).sourceID) :
    Valid { c with nodes := Function.update c.nodes el t } := by
  refine ⟨h.nodup, h.allocated, (linked_setNode h.linked hid).byID, fun sourceID x => ?_⟩
  rw [update_same Track.sourceID hsource]
  exact h.bySource sourceID x

/-- `c'` is `c` with a new element for `t`, in front or at the back. -/
structure Adds (c c' : Cache) (t : Track) : Prop where
  window : c'.window.Perm (c.next :: c.window)
  nodes : c'.nodes = Function.update c.nodes c.next t
  next : c'.next = c.next + 1
  byID : c'.windowNodes = c.windowNodes.insert t.id c.next
  bySource : c'.bySourceID = c.bySourceID.insert t.sourceID c.next

theorem adds_pushFront (c : Cache) (t : Track) : Adds c (c.pushFront t) t :=
  ⟨List.Perm.refl _, rfl, rfl, rfl, rfl⟩

theorem adds_pushBack (c : Cache) (t : Track) : Adds c (c.pushBack t) t :=
  ⟨List.perm_append_comm, rfl, rfl, rfl, rfl⟩

namespace Adds

variable {c c' : Cache} {t : Track}

theorem mem (h : Adds c c' t) (x : NodeRef) : x ∈ c'.window ↔ x = c.next ∨ x ∈ c.window := by
  rw [h.window.mem_iff, List.mem_cons]

theorem nodes_new (h : Adds c c' t) : c'.nodes c.next = t := by
  rw [h.nodes, Function.update_self]

theorem nodes_old (h : Adds c c' t) (hc : c.Linked) {x : NodeRef} (hx : x ∈ c.window) :
    c'.nodes x = c.nodes x := by
  rw [h.nodes, Function.update_of_ne (Nat.ne_of_lt (hc.allocated x hx))]

theorem map_nodes (h : Adds c c' t) (hc : c.Linked) : c.window.map c'.nodes = c.tracks :=
  List.map_congr_left fun _ hx => h.nodes_old hc hx

end Adds

theorem linked_add {c c' : Cache} {t : Track} (ha : Adds c c' t) (h : c.Linked)
    (hid : ∀ x ∈ c.tracks, x.id ≠ t.id) : c'.Linked := by
  have hfresh : c.next ∉ c.window := fun hm => Nat.lt_irrefl _ (h.allocated _ hm)
  refine ⟨ha.window.nodup_iff.mpr (List.nodup_cons.mpr ⟨hfresh, h.nodup⟩), fun x hx => ?_, ?_⟩
  · rw [ha.next]
    rcases (ha.mem x).mp hx with rfl | hx
    · exact Nat.lt_succ_self _
    · exact Nat.lt_succ_of_lt (h.allocated x hx)
  · rw [ha.byID, ← ha.nodes_new]
    refine index_insert h.byID ha.mem (fun x hx => congrArg Track.id (ha.nodes_old h hx)) ?_
    rw [ha.nodes_new]
    exact fun x hx => hid _ (mem_tracks.mpr ⟨x, hx, rfl⟩)

theorem valid_add {c c' : Cache} {t : Track} (ha : Adds c c' t) (h : c.Valid)
    (hid : ∀ x ∈ c.tracks, x.id ≠ t.id) (hsource : ∀ x ∈ c.tracks, x.sourceID ≠ t.sourceID) :
    c'.Valid := by
  obtain ⟨hnodup, hallocated, hbyID⟩ := linked_add ha h.linked hid
  refine ⟨hnodup, hallocated, hbyID, ?_⟩
  rw [ha.bySource, ← ha.nodes_new]
  refine index_insert h.bySource ha.mem
    (fun x hx => congrArg Track.sourceID (ha.nodes_old h.linked hx)) ?_
  rw [ha.nodes_new]
  exact fun x hx => hsource _ (mem_tracks.mpr ⟨x, hx, rfl⟩)

theorem linked_remove {c : Cache} (h : c.Linked) {el : NodeRef} (hel : el ∈ c.window) :
    (c.remove el).Linked where
  nodup := h.nodup.erase el
  allocated x hx := h.allocated x (List.mem_of_mem_erase hx)
  byID := index_erase h.byID h.nodup fun _ hx he => eq_of_id h hx hel he

theorem valid_remove {c : Cache} (h : c.Valid) {el : NodeRef} (hel : el ∈ c.window) :
    (c.remove el).Valid := by
  obtain ⟨hnodup, hallocated, hbyID⟩ := linked_remove h.linked hel
  exact ⟨hnodup, hallocated, hbyID,
    index_erase h.bySource h.nodup fun _ hx he => eq_of_sourceID h hx hel he⟩

end CacheLemmas

open CacheLemmas

/-! ## The operations refine the list of tracks -/

theorem get_eq_none {c : Cache} (h : c.Valid) {sourceID : String} :
    c.get sourceID = none ↔ ∀ t ∈ c.tracks, t.sourceID ≠ sourceID := by
  rw [get, Option.map_eq_none_iff]
  constructor
  · rintro hnone t ht rfl
    obtain ⟨el, hel, rfl⟩ := mem_tracks.mp ht
    rw [(h.bySource _ el).mpr ⟨hel, rfl⟩] at hnone
    cases hnone
  · intro hall
    cases hl : c.bySourceID.lookup sourceID with
    | none => rfl
    | some el =>
      obtain ⟨hel, hs⟩ := (h.bySource sourceID el).mp hl
      exact absurd hs (hall _ (mem_tracks.mpr ⟨el, hel, rfl⟩))

theorem get_eq_some {c c' : Cache} (h : c.Valid) {sourceID : String} {t : Track}
    (hg : c.get sourceID = some (t, c')) :
    t ∈ c.tracks ∧ t.sourceID = sourceID ∧ c'.tracks = promote Track.id t c.tracks ∧
      c'.Valid := by
  obtain ⟨el, hl, he⟩ := Option.map_eq_some_iff.mp hg
  obtain ⟨rfl, rfl⟩ := Prod.mk.inj he
  obtain ⟨hel, hs⟩ := (h.bySource sourceID el).mp hl
  exact ⟨mem_tracks.mpr ⟨el, hel, rfl⟩, hs, tracks_moveToFront h.linked hel,
    valid_moveToFront h hel⟩

theorem id_ne_of_lookup {c : Cache} (h : c.Linked) {id : Int}
    (hnone : c.windowNodes.lookup id = none) : ∀ x ∈ c.tracks, x.id ≠ id := by
  rintro x hx he
  obtain ⟨el, hel, rfl⟩ := mem_tracks.mp hx
  rw [(h.byID id el).mpr ⟨hel, he⟩] at hnone
  cases hnone

/-- Whatever the source ids, the track comes to the front. -/
theorem touchWindow_linked {c : Cache} (h : c.Linked) (t : Track) :
    (c.touchWindow t).tracks = promote Track.id t c.tracks ∧ (c.touchWindow t).Linked := by
  unfold touchWindow
  split
  · next el hl =>
    obtain ⟨hel, hid⟩ := (h.byID t.id el).mp hl
    have hset := linked_setNode h hid.symm
    refine ⟨?_, linked_moveToFront hset hel⟩
    have hmap : (c.window.erase el).map (Function.update c.nodes el t) =
        (c.window.erase el).map c.nodes :=
      List.map_congr_left fun x hx =>
        Function.update_of_ne (fun he => h.nodup.not_mem_erase (he ▸ hx)) _ _
    show (if el ∈ c.window then _ else _ : List NodeRef).map (Function.update c.nodes el t) = _
    rw [if_pos hel, List.map_cons, Function.update_self, hmap, tracks_erase h hel, hid]
    rfl
  · next hnone =>
    have hid := id_ne_of_lookup h hnone
    refine ⟨?_, linked_add (adds_pushFront c t) h hid⟩
    show (c.next :: c.window).map (c.pushFront t).nodes = _
    rw [List.map_cons, (adds_pushFront c t).nodes_new, (adds_pushFront c t).map_nodes h, promote,
      List.filter_eq_self.mpr]
    exact fun x hx => decide_eq_true (hid x hx)

theorem touchWindow_tracks {c : Cache} (h : c.Valid) {t : Track} (ha : c.Agrees t) :
    (c.touchWindow t).tracks = promote Track.id t c.tracks ∧ (c.touchWindow t).Valid := by
  refine ⟨(touchWindow_linked h.linked t).1, ?_⟩
  unfold touchWindow
  split
  · next el hl =>
    obtain ⟨hel, hid⟩ := (h.byID t.id el).mp hl
    have hs : (c.nodes el).sourceID = t.sourceID :=
      (ha _ (mem_tracks.mpr ⟨el, hel, rfl⟩)).mp hid
    exact valid_moveToFront (valid_setNode h hid.symm hs.symm) hel
  · next hnone =>
    have hid := id_ne_of_lookup h.linked hnone
    exact valid_add (adds_pushFront c t) h hid fun x hx he => hid x hx ((ha x hx).mpr he)

/-- Hydration, row by row. -/
theorem pushBack_foldl : ∀ (l : List Track) {c : Cache}, c.Linked →
    ((c.tracks ++ l).map Track.id).Nodup →
      (l.foldl pushBack c).tracks = c.tracks ++ l ∧ (l.foldl pushBack c).Linked ∧
        (c.Valid → ((c.tracks ++ l).map Track.sourceID).Nodup → (l.foldl pushBack c).Valid)
  | [], c, h, _ => by
    rw [List.append_nil]
    exact ⟨rfl, h, fun hv _ => hv⟩
  | t :: l, c, h, hi => by
    have ha := adds_pushBack c t
    have htracks : (c.pushBack t).tracks = c.tracks ++ [t] := by
      show (c.window ++ [c.next]).map (c.pushBack t).nodes = _
      rw [List.map_append, ha.map_nodes h, List.map_singleton, ha.nodes_new]
    have hfresh : ∀ {κ : Type} (f : Track → κ), ((c.tracks ++ t :: l).map f).Nodup →
        ∀ x ∈ c.tracks, f x ≠ f t := by
      intro κ f hn x hx he
      rw [List.map_append, List.nodup_append] at hn
      exact hn.2.2 (f x) (List.mem_map_of_mem hx) (f t)
        (List.mem_map_of_mem List.mem_cons_self) he
    have happ : c.tracks ++ t :: l = (c.pushBack t).tracks ++ l := by
      rw [htracks, List.append_assoc, List.singleton_append]
    have hid := hfresh _ hi
    rw [happ] at hi
    obtain ⟨ht, hl, hv⟩ := pushBack_foldl l (linked_add ha h hid) hi
    refine ⟨ht.trans happ.symm, hl, fun hc hs => ?_⟩
    have hsource := hfresh _ hs
    rw [happ] at hs
    exact hv (valid_add ha hc hid hsource) hs

/-- `NewCache` over rows with different ids. -/
theorem newCache_linked {listing : List Track} (hids : (listing.map Track.id).Nodup) :
    (newCache listing).tracks = listing.take cacheWindow ∧ (newCache listing).Linked := by
  obtain ⟨ht, hl, -⟩ := pushBack_foldl (listing.take cacheWindow) valid_empty.linked
    (((List.take_sublist _ _).map Track.id).nodup hids)
  exact ⟨ht, hl⟩

/-- `NewCache` over rows with different ids and source ids. -/
theorem newCache_tracks {listing : List Track} (hids : (listing.map Track.id).Nodup)
    (hsources : (listing.map Track.sourceID).Nodup) :
    (newCache listing).tracks = listing.take cacheWindow ∧ (newCache listing).Valid := by
  obtain ⟨ht, -, hv⟩ := pushBack_foldl (listing.take cacheWindow) valid_empty.linked
    (((List.take_sublist _ _).map Track.id).nodup hids)
  exact ⟨ht, hv valid_empty (((List.take_sublist _ _).map Track.sourceID).nodup hsources)⟩

/-- Whether a track may not be evicted. -/
def used (inUse : List Int) (t : Track) : Bool := decide (t.id ∈ inUse)

/-- What the removal of an element keeps. -/
theorem evictLoop_invariant {I : Cache → Prop} (inUse : List Int)
    (hremove : ∀ c el, I c → el ∈ c.window → I (c.remove el)) :
    ∀ (fuel : Nat) {c : Cache}, I c → I (evictLoop inUse fuel c).1
  | 0, _, h => h
  | fuel + 1, c, h => by
    rw [evictLoop]
    split
    · exact h
    · split
      · exact h
      · next el hsome =>
        have hel : el ∈ c.window := List.mem_reverse.mp (List.mem_of_find?_eq_some hsome)
        exact evictLoop_invariant inUse hremove fuel (hremove c el h hel)

theorem evictLoop_linked (inUse : List Int) : ∀ (fuel : Nat) {c : Cache}, c.Linked →
    c.window.length ≤ fuel + cacheWindow →
    (evictLoop inUse fuel c).1.tracks =
        evict (used inUse) (c.tracks.length - cacheWindow) c.tracks ∧
      (evictLoop inUse fuel c).2 =
        evicted (used inUse) (c.tracks.length - cacheWindow) c.tracks
  | 0, c, h, hlen => by
    have hzero : c.tracks.length - cacheWindow = 0 := by
      rw [tracks, List.length_map]
      omega
    rw [hzero, evictLoop, evict, evicted, keep_zero, gone_zero, List.reverse_reverse]
    exact ⟨rfl, rfl⟩
  | fuel + 1, c, h, hlen => by
    have htl : c.tracks.length = c.window.length := List.length_map _
    rw [evictLoop]
    split
    · next hle =>
      have hzero : c.tracks.length - cacheWindow = 0 := by omega
      rw [hzero, evict, evicted, keep_zero, gone_zero, List.reverse_reverse]
      exact ⟨rfl, rfl⟩
    · next hgt =>
      split
      · next hnone =>
        -- everything is in use
        have hall : ∀ t ∈ c.tracks, used inUse t = true := by
          intro t ht
          obtain ⟨el, hel, rfl⟩ := mem_tracks.mp ht
          have := List.find?_eq_none.mp hnone el (List.mem_reverse.mpr hel)
          simpa [used] using this
        obtain ⟨hk, hg⟩ := evict_of_used (k := c.tracks.length - cacheWindow) hall
        exact ⟨hk.symm, hg.symm⟩
      · next el hsome =>
        have hel : el ∈ c.window := List.mem_reverse.mp (List.mem_of_find?_eq_some hsome)
        have hlen' : (c.remove el).window.length = c.window.length - 1 :=
          List.length_erase_of_mem hel
        have htl' : (c.remove el).tracks.length = c.tracks.length - 1 := by
          rw [tracks, List.length_map, hlen', htl]
        obtain ⟨ht, hg⟩ := evictLoop_linked inUse fuel (linked_remove h hel) (by omega)
        obtain ⟨k, hk', hk⟩ : ∃ k, (c.remove el).tracks.length - cacheWindow = k ∧
            c.tracks.length - cacheWindow = k + 1 := ⟨_, rfl, by omega⟩
        rw [hk'] at ht hg
        rw [hk]
        have hstep := evict_succ k hsome (reverse_erase h.nodup hsome)
        have hkept : evict (used inUse) (k + 1) c.tracks =
            evict (used inUse) k (c.remove el).tracks :=
          (evict_map (used inUse) c.nodes (k + 1) c.window).1.trans
            ((congrArg (List.map c.nodes) hstep.1).trans
              (evict_map (used inUse) c.nodes k (c.window.erase el)).1.symm)
        have hgone : evicted (used inUse) (k + 1) c.tracks =
            c.nodes el :: evicted (used inUse) k (c.remove el).tracks :=
          (evict_map (used inUse) c.nodes (k + 1) c.window).2.trans
            ((congrArg (List.map c.nodes) hstep.2).trans
              (congrArg (c.nodes el :: ·)
                (evict_map (used inUse) c.nodes k (c.window.erase el)).2.symm))
        exact ⟨ht.trans hkept.symm, (congrArg (c.nodes el :: ·) hg).trans hgone.symm⟩

/-- With enough rounds the loop evicts what is over the window's size. -/
theorem evictLoop_tracks (inUse : List Int) (fuel : Nat) {c : Cache} (h : c.Valid)
    (hlen : c.window.length ≤ fuel + cacheWindow) :
    (evictLoop inUse fuel c).1.tracks =
        evict (used inUse) (c.tracks.length - cacheWindow) c.tracks ∧
      (evictLoop inUse fuel c).2 =
        evicted (used inUse) (c.tracks.length - cacheWindow) c.tracks ∧
      (evictLoop inUse fuel c).1.Valid := by
  obtain ⟨hkept, hgone⟩ := evictLoop_linked inUse fuel h.linked hlen
  exact ⟨hkept, hgone, evictLoop_invariant inUse (fun _ _ hc hel => valid_remove hc hel) fuel h⟩

/-- How many tracks the window is over its size. -/
def overflow (l : List Track) : Nat := l.length - cacheWindow

/-- `Touch` promotes its track and evicts what is over the window's size. -/
theorem touch_linked {c : Cache} (h : c.Linked) (t : Track) (inUse : List Int) :
    (c.touch t inUse).1.tracks = evict (used inUse) (overflow (promote Track.id t c.tracks))
        (promote Track.id t c.tracks) ∧
      (c.touch t inUse).2 = evicted (used inUse) (overflow (promote Track.id t c.tracks))
        (promote Track.id t c.tracks) ∧
      (c.touch t inUse).1.Linked := by
  obtain ⟨ht, hl⟩ := touchWindow_linked h t
  obtain ⟨hkept, hgone⟩ :=
    evictLoop_linked inUse (c.touchWindow t).window.length hl (Nat.le_add_right _ _)
  rw [ht] at hkept hgone
  exact ⟨hkept, hgone, evictLoop_invariant inUse (fun _ _ hc hel => linked_remove hc hel) _ hl⟩

theorem touch_tracks {c : Cache} (h : c.Valid) {t : Track} (ha : c.Agrees t)
    (inUse : List Int) :
    (c.touch t inUse).1.tracks = evict (used inUse) (overflow (promote Track.id t c.tracks))
        (promote Track.id t c.tracks) ∧
      (c.touch t inUse).2 = evicted (used inUse) (overflow (promote Track.id t c.tracks))
        (promote Track.id t c.tracks) ∧
      (c.touch t inUse).1.Valid := by
  obtain ⟨ht, hv⟩ := touchWindow_tracks h ha
  have hloop := evictLoop_tracks inUse (c.touchWindow t).window.length hv (Nat.le_add_right _ _)
  rw [ht] at hloop
  exact hloop

end Cache

end RadioJockey
