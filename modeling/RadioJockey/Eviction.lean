import Mathlib.Data.Finset.Basic
import RadioJockey.Cache

/-!
# What `Touch` evicts (`music/cache.go`)

`Touch` writes to the database first. Then it brings its track to the front of
the window, and as long as the window is too long it scans for the oldest track
that is not in use. `Evicts` is this loop without a bound on its rounds.

1. `evicts_evictLoop`: the loop ends, and `Cache.touch` computes what it ends in.
2. `touch_refines`: `Touch` drops the oldest tracks that are not in use, as many
   as the window is too long, and deletes their files. It changes nothing when
   the update of the database fails.
-/

namespace RadioJockey.Eviction

open Lru Cache CacheLemmas

/-- The loop begins with the first cache and ends with the second one. The files
of the tracks have been removed, in this order. -/
inductive Evicts (inUse : List Int) : Cache → Cache → List Track → Prop
  | fits {c : Cache} : c.window.length ≤ cacheWindow → Evicts inUse c c []
  | allInUse {c : Cache} : cacheWindow < c.window.length → c.victim inUse = none →
      Evicts inUse c c []
  | round {c c' : Cache} {el : NodeRef} {removed : List Track} :
      cacheWindow < c.window.length → c.victim inUse = some el →
      Evicts inUse (c.remove el) c' removed → Evicts inUse c c' (c.nodes el :: removed)

/-- `files` is the music directory. -/
structure State where
  db : TracksTable
  cache : Cache
  files : Finset String

/-- A call of `Touch` returns, with the update of the database done or failed. -/
inductive Touch (s : State) (track : Track) (inUse : List Int) (now : Int) :
    Bool → State → List Track → Prop
  | failed : Touch s track inUse now false s []
  | updated {c : Cache} {removed : List Track} :
      Evicts inUse (s.cache.touchWindow track) c removed →
      Touch s track inUse now true
        { db := s.db.touchTrackLastUsed track.id now
          cache := c
          files := s.files.filter fun p => p ∉ removed.map Track.filePath } removed

/-! ## What is claimed of it -/

/-- The track, and the tracks of the old window with other ids. -/
def touched (c : Cache) (track : Track) : List Track :=
  track :: c.tracks.filter fun t => t.id ≠ track.id

/-- The tracks that are not in use, least recently used first. -/
def unused (inUse : List Int) (l : List Track) : List Track :=
  l.reverse.filter fun t => t.id ∉ inUse

/-- As many of them as the window is too long, or all of them. -/
def victims (inUse : List Int) (l : List Track) : List Track :=
  (unused inUse l).take (l.length - cacheWindow)

structure Refines (s t : State) (track : Track) (inUse : List Int) (now : Int)
    (removed : List Track) : Prop where
  window : t.cache.tracks = (touched s.cache track).filter fun x =>
    x ∉ victims inUse (touched s.cache track)
  evicts : removed = victims inUse (touched s.cache track)
  files : t.files = s.files.filter fun p => p ∉ removed.map Track.filePath
  db : t.db = s.db.touchTrackLastUsed track.id now
  spared : ∀ x ∈ removed, x.id ∉ inUse
  bounded : t.cache.tracks.length ≤ cacheWindow ∨ ∀ x ∈ t.cache.tracks, x.id ∈ inUse
  linked : t.cache.Linked

/-! ## The loop -/

namespace EvictionLemmas

/-- With enough rounds the bounded loop is the loop. -/
theorem evicts_evictLoop (inUse : List Int) : ∀ (fuel : Nat) {c : Cache},
    c.window.length ≤ fuel + cacheWindow →
      Evicts inUse c (evictLoop inUse fuel c).1 (evictLoop inUse fuel c).2
  | 0, c, hlen => .fits (by omega)
  | fuel + 1, c, hlen => by
    rw [evictLoop]
    split
    · next hle => exact .fits hle
    · next hgt =>
      split
      · next hnone => exact .allInUse (Nat.lt_of_not_le hgt) hnone
      · next el hsome =>
        have hel : el ∈ c.window := List.mem_reverse.mp (List.mem_of_find?_eq_some hsome)
        have hlen' : (c.remove el).window.length = c.window.length - 1 :=
          List.length_erase_of_mem hel
        exact .round (Nat.lt_of_not_le hgt) hsome (evicts_evictLoop inUse fuel (by omega))

theorem evicts_unique {inUse : List Int} {c c₁ c₂ : Cache} {removed₁ removed₂ : List Track}
    (h₁ : Evicts inUse c c₁ removed₁) (h₂ : Evicts inUse c c₂ removed₂) :
    c₁ = c₂ ∧ removed₁ = removed₂ := by
  induction h₁ generalizing removed₂ with
  | fits hle =>
    cases h₂ with
    | fits => exact ⟨rfl, rfl⟩
    | allInUse hlt => exact absurd hle (Nat.not_le_of_lt hlt)
    | round hlt => exact absurd hle (Nat.not_le_of_lt hlt)
  | allInUse hlt hnone =>
    cases h₂ with
    | fits hle => exact absurd hle (Nat.not_le_of_lt hlt)
    | allInUse => exact ⟨rfl, rfl⟩
    | round _ hsome => cases hnone.symm.trans hsome
  | round hlt hsome _ ih =>
    cases h₂ with
    | fits hle => exact absurd hle (Nat.not_le_of_lt hlt)
    | allInUse _ hnone => cases hnone.symm.trans hsome
    | round _ hsome' h =>
      obtain rfl := Option.some.inj (hsome.symm.trans hsome')
      obtain ⟨rfl, rfl⟩ := ih h
      exact ⟨rfl, rfl⟩

/-- The loop ends when the window fits or nothing can be evicted. -/
theorem evicts_bounded {inUse : List Int} {c c' : Cache} {removed : List Track}
    (h : Evicts inUse c c' removed) :
    c'.tracks.length ≤ cacheWindow ∨ ∀ x ∈ c'.tracks, x.id ∈ inUse := by
  induction h with
  | fits hle =>
    left
    rw [tracks, List.length_map]
    exact hle
  | allInUse _ hnone =>
    right
    intro x hx
    obtain ⟨el, hel, rfl⟩ := mem_tracks.mp hx
    simpa using List.find?_eq_none.mp hnone el (List.mem_reverse.mpr hel)
  | round _ _ _ ih => exact ih

theorem touched_nodup {c : Cache} (h : c.Linked) (track : Track) : (touched c track).Nodup := by
  have hids := ids_nodup h
  refine List.nodup_cons.mpr ⟨fun hm => ?_, (List.Nodup.of_map _ hids).filter _⟩
  exact of_decide_eq_true (List.mem_filter.mp hm).2 rfl

theorem evicted_eq_victims (inUse : List Int) (l : List Track) :
    evicted (used inUse) (overflow l) l = victims inUse l := by
  rw [evicted_eq_take, victims, unused, overflow]
  refine congrArg (List.take _) (List.filter_congr fun t _ => ?_)
  simp [used]

theorem spared_of_victims {inUse : List Int} {l : List Track} {x : Track}
    (h : x ∈ victims inUse l) : x.id ∉ inUse :=
  of_decide_eq_true (List.mem_filter.mp (List.mem_of_mem_take h)).2

theorem refines_of_evicts {s : State} (h : s.cache.Linked) (track : Track) {inUse : List Int}
    (now : Int) {c : Cache} {removed : List Track}
    (he : Evicts inUse (s.cache.touchWindow track) c removed) :
    Refines s ⟨s.db.touchTrackLastUsed track.id now, c,
      s.files.filter fun p => p ∉ removed.map Track.filePath⟩ track inUse now removed := by
  have hloop := evicts_evictLoop inUse (s.cache.touchWindow track).window.length
    (c := s.cache.touchWindow track) (Nat.le_add_right _ _)
  obtain ⟨rfl, rfl⟩ := evicts_unique he hloop
  obtain ⟨hkept, hgone, hlinked⟩ := touch_linked h track inUse
  have hvictims : (evictLoop inUse (s.cache.touchWindow track).window.length
      (s.cache.touchWindow track)).2 = victims inUse (touched s.cache track) :=
    hgone.trans (evicted_eq_victims inUse (touched s.cache track))
  constructor
  case window =>
    refine hkept.trans ((evict_eq_filter _ _ (touched_nodup h track)).trans ?_)
    refine List.filter_congr fun x _ => ?_
    rw [← evicted_eq_victims]
    rfl
  case evicts => exact hvictims
  case files => rfl
  case db => rfl
  case spared =>
    intro x hx
    rw [hvictims] at hx
    exact spared_of_victims hx
  case bounded => exact evicts_bounded he
  case linked => exact hlinked

end EvictionLemmas

open EvictionLemmas

/-- For every linked cache, every track and every set of ids in use. -/
theorem touch_refines {s : State} (h : s.cache.Linked) (track : Track) (inUse : List Int)
    (now : Int) :
    (∀ ok, ∃ t removed, Touch s track inUse now ok t removed) ∧
      (∀ t removed, Touch s track inUse now true t removed →
        Refines s t track inUse now removed) ∧
      ∀ t removed, Touch s track inUse now false t removed → t = s ∧ removed = [] := by
  refine ⟨fun ok => ?_, ?_, ?_⟩
  · cases ok with
    | true => exact ⟨_, _, .updated (evicts_evictLoop inUse _ (Nat.le_add_right _ _))⟩
    | false => exact ⟨s, [], .failed⟩
  · rintro t removed ⟨⟩
    exact refines_of_evicts h track now ‹_›
  · rintro t removed ⟨⟩
    exact ⟨rfl, rfl⟩

def videoRow (n : Nat) : Track :=
  ⟨n, "youtube", String.ofList (List.replicate n 'v'), "", "", 0, "", 0, "", 0⟩

/-- A full window, with the most recently used row first. -/
def fullCache : Cache := newCache ((List.range cacheWindow).map videoRow)

theorem fullCache_tracks :
    fullCache.tracks = (List.range cacheWindow).map videoRow ∧ fullCache.Linked :=
  newCache_linked (by decide +kernel)

/-- The two oldest rows are in use, so the third oldest makes room. -/
theorem touch_refines_full : ∃ t removed,
    Touch ⟨.empty, fullCache, ∅⟩ (videoRow 50) [49, 48, 50] 7 true t removed ∧
      removed = [videoRow 47] ∧ t.cache.tracks.length = cacheWindow := by
  obtain ⟨hends, htouch, -⟩ :=
    touch_refines (s := ⟨.empty, fullCache, ∅⟩) fullCache_tracks.2 (videoRow 50) [49, 48, 50] 7
  obtain ⟨t, removed, ht⟩ := hends true
  have href := htouch t removed ht
  refine ⟨t, removed, ht, ?_, ?_⟩
  · rw [href.evicts, touched, fullCache_tracks.1]
    decide +kernel
  · rw [href.window, touched, fullCache_tracks.1]
    decide +kernel

end RadioJockey.Eviction
