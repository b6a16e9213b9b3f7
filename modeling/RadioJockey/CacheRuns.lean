import RadioJockey.Cache
import RadioJockey.Lib.Transition

/-!
# Runs of the file cache (`music/cache.go`)

`NewCache`, `Get` and the two branches of `Touch` update the window and the two
maps one after the other, and an eviction loop may follow. The tracks come from
a table in which an id and a source id stand for each other.

* `cache_coherent`: after any sequence of calls, the maps and the window say the
  same, and `Get` answers from the window.
-/

namespace RadioJockey.Cache

open Lru Transition CacheLemmas

inductive Action
  | get (sourceID : String)
  /-- `ok` tells whether `TouchTrackLastUsed` succeeds. -/
  | touch (ok : Bool) (track : Track) (inUse : List Int)

def step (c : Cache) : Action → Option Cache
  | .get sourceID =>
    match c.get sourceID with
    | none => some c
    | some (_, c') => some c'
  | .touch ok track inUse => if ok then some (c.touch track inUse).1 else some c

/-- The rows of one table, as they are or were at any time, as far as their ids
and source ids go. -/
def OneToOne (FromTable : Track → Prop) : Prop :=
  ∀ t u, FromTable t → FromTable u → (t.id = u.id ↔ t.sourceID = u.sourceID)

def cacheSystem (FromTable : Track → Prop) : System Cache Action where
  init c := ∃ (d : TracksTable) (listing : List Track), d.ListsByLastUsed listing ∧
    (∀ r ∈ d.rows, FromTable r) ∧ c = newCache listing
  step := step

/-- `Touch` is called with tracks of the table. -/
def TouchesRows (FromTable : Track → Prop) : Cache → Action → Prop
  | _, .touch _ track _ => FromTable track
  | _, .get _ => True

/-- The window and the two maps agree. -/
structure Coherent (c : Cache) : Prop where
  ids : (c.tracks.map Track.id).Nodup
  sourceIDs : (c.tracks.map Track.sourceID).Nodup
  windowNodes : ∀ id el, c.windowNodes.lookup id = some el ↔ el ∈ c.window ∧ (c.nodes el).id = id
  bySourceID : ∀ sourceID el, c.bySourceID.lookup sourceID = some el ↔
    el ∈ c.window ∧ (c.nodes el).sourceID = sourceID
  hits : ∀ sourceID t, (c.get sourceID).map Prod.fst = some t ↔
    t ∈ c.tracks ∧ t.sourceID = sourceID

variable {FromTable : Track → Prop}

/-- The maps point to exactly the window, whose tracks are of the table. -/
structure RunInv (FromTable : Track → Prop) (c : Cache) : Prop where
  valid : c.Valid
  rows : ∀ t ∈ c.tracks, FromTable t

namespace CacheRunsLemmas

theorem runInv_new (hone : OneToOne FromTable) {d : TracksTable} {listing : List Track}
    (hlisting : d.ListsByLastUsed listing) (hrows : ∀ r ∈ d.rows, FromTable r) :
    RunInv FromTable (newCache listing) := by
  have hids : (listing.map Track.id).Nodup := (hlisting.1.map Track.id).nodup_iff.mpr d.ids
  have hmem : ∀ t ∈ listing, FromTable t := fun t ht => hrows t (hlisting.1.mem_iff.mp ht)
  have hsources : (listing.map Track.sourceID).Nodup :=
    (List.Nodup.of_map _ hids).map_on fun t ht u hu he =>
      List.inj_on_of_nodup_map hids ht hu ((hone t u (hmem t ht) (hmem u hu)).mpr he)
  obtain ⟨htracks, hvalid⟩ := newCache_tracks hids hsources
  refine ⟨hvalid, fun t ht => hmem t ?_⟩
  rw [htracks] at ht
  exact List.mem_of_mem_take ht

theorem runInv_touch (hone : OneToOne FromTable) {c : Cache} (hinv : RunInv FromTable c)
    {track : Track} (htrack : FromTable track) (inUse : List Int) :
    RunInv FromTable (c.touch track inUse).1 := by
  have hagrees : c.Agrees track := fun x hx => hone x track (hinv.rows x hx) htrack
  obtain ⟨hkept, -, hvalid⟩ := touch_tracks hinv.valid hagrees inUse
  refine ⟨hvalid, fun t ht => ?_⟩
  rw [hkept] at ht
  rcases mem_promote.mp ((evict_sublist _ _ _).subset ht) with rfl | ⟨ht, -⟩
  · exact htrack
  · exact hinv.rows t ht

theorem runInv_step (hone : OneToOne FromTable) {c c' : Cache} {a : Action}
    (hinv : RunInv FromTable c) (ha : TouchesRows FromTable c a) (h : c.step a = some c') :
    RunInv FromTable c' := by
  cases a with
  | get sourceID =>
    simp only [step] at h
    split at h
    · cases h
      exact hinv
    · next t c'' hget =>
      cases h
      obtain ⟨hmem, -, htracks, hvalid⟩ := get_eq_some hinv.valid hget
      refine ⟨hvalid, fun x hx => ?_⟩
      rw [htracks] at hx
      rcases mem_promote.mp hx with rfl | ⟨hx, -⟩
      · exact hinv.rows x hmem
      · exact hinv.rows x hx
  | touch ok track inUse =>
    cases ok with
    | false =>
      cases h
      exact hinv
    | true =>
      cases h
      exact runInv_touch hone hinv ha inUse

theorem get_hits {c : Cache} (h : c.Valid) (sourceID : String) (t : Track) :
    (c.get sourceID).map Prod.fst = some t ↔ t ∈ c.tracks ∧ t.sourceID = sourceID := by
  constructor
  · intro hget
    obtain ⟨⟨x, c'⟩, hx, rfl⟩ := Option.map_eq_some_iff.mp hget
    obtain ⟨hmem, hs, -⟩ := get_eq_some h hx
    exact ⟨hmem, hs⟩
  · rintro ⟨hmem, rfl⟩
    obtain ⟨el, hel, rfl⟩ := mem_tracks.mp hmem
    rw [get, (h.bySource _ el).mpr ⟨hel, rfl⟩]
    rfl

end CacheRunsLemmas

open CacheRunsLemmas

theorem cache_coherent (hone : OneToOne FromTable) {c : Cache}
    (h : Reach (cacheSystem FromTable) (TouchesRows FromTable) c) : Coherent c := by
  have hinv : RunInv FromTable c := by
    refine h.invariant (I := RunInv FromTable) ?_
      fun _ _ _ _ hinv ha hs => runInv_step hone hinv ha hs
    rintro _ ⟨d, listing, hlisting, hrows, rfl⟩
    exact runInv_new hone hlisting hrows
  exact {
    ids := ids_nodup hinv.valid.linked
    sourceIDs := sourceIDs_nodup hinv.valid
    windowNodes := hinv.valid.byID
    bySourceID := hinv.valid.bySource
    hits := get_hits hinv.valid }

/-- A row whose source id is made of `n` letters. -/
def lettersRow (n : Nat) : Track :=
  ⟨n, "youtube", String.ofList (List.replicate n 'v'), "", "", 0, "", 0, "", 0⟩

theorem lettersRow_oneToOne : OneToOne fun t => ∃ n, t = lettersRow n := by
  rintro _ _ ⟨n, rfl⟩ ⟨m, rfl⟩
  constructor
  · intro h
    rw [Int.ofNat_inj.mp h]
  · intro h
    have hlen := congrArg List.length (String.ofList_injective h)
    rw [List.length_replicate, List.length_replicate] at hlen
    rw [hlen]

/-- The fifty-first track drives the first one out, and with it both of its map
entries. -/
theorem cache_coherent_evicted :
    ∃ c : Cache, Coherent c ∧ (c.get (lettersRow 0).sourceID).map Prod.fst = none ∧
      (c.get (lettersRow 1).sourceID).map Prod.fst = some (lettersRow 1) := by
  have hinit : (cacheSystem fun t => ∃ n, t = lettersRow n).init (newCache []) :=
    ⟨.empty, [], by decide, fun _ hr => (nomatch hr), rfl⟩
  have htouches : ∀ a ∈ (List.range 51).map fun n => Action.touch true (lettersRow n) [],
      ∀ c, TouchesRows (fun t => ∃ n, t = lettersRow n) c a := by
    intro a ha c
    obtain ⟨n, -, rfl⟩ := List.mem_map.mp ha
    exact ⟨n, rfl⟩
  obtain ⟨c, hrun, hc⟩ := Option.map_eq_some_iff.mp (show (run (cacheSystem fun t =>
    ∃ n, t = lettersRow n) (newCache []) ((List.range 51).map fun n =>
      .touch true (lettersRow n) [])).map (fun c =>
        decide ((c.get (lettersRow 0).sourceID).map Prod.fst = none ∧
          (c.get (lettersRow 1).sourceID).map Prod.fst = some (lettersRow 1))) = some true
    by decide +kernel)
  exact ⟨c, cache_coherent lettersRow_oneToOne ((Reach.init hinit).run htouches hrun),
    of_decide_eq_true hc⟩

end RadioJockey.Cache
