import RadioJockey.SearchCache

/-!
# What the search cache forgets (`api/youtube-search/+server.ts`)

`setCache` makes room before it looks whether its key is already there. A run is
recorded here with its calls of `setCache`, so that the age of a key can be
told from the insertions before.

1. `evicts_early`: two requests miss on one key, the cache fills up, and the
   second one to store its page evicts an entry although its own key is there.
2. `evicts_minimally_iff`: the cache is bounded in every run, and it evicts only
   when it must in exactly the runs without such a call.
-/

namespace RadioJockey.YouTubeSearch

open JsString Transition JsMap SearchCacheLemmas

/-- A call of `setCache`, with the cache before it. -/
structure Call where
  cache : JsMap JsString CacheEntry
  key : JsString
  entry : CacheEntry

/-- What `setCache` does before it sets the key. -/
def makeRoom (cache : JsMap JsString CacheEntry) : JsMap JsString CacheEntry :=
  if CACHE_MAX_ENTRIES ≤ cache.size then
    match cache.firstKey with
    | some oldestKey => cache.delete oldestKey
    | none => cache
  else cache

theorem setCache_eq (cache : JsMap JsString CacheEntry) (key : JsString) (entry : CacheEntry) :
    setCache cache key entry = (makeRoom cache).set key entry := rfl

namespace Call

def after (c : Call) : JsMap JsString CacheEntry := setCache c.cache c.key c.entry

/-- The key, if it is inserted and not only set again. -/
def inserted? (c : Call) : Option JsString :=
  if c.key ∈ (makeRoom c.cache).keys then none else some c.key

/-- The keys that were inserted, the newest one first. -/
def insertions (calls : List Call) : List JsString := calls.filterMap inserted?

/-- Of the other keys' entries exactly the oldest one is removed if the key is not
there and the cache is full, and none is removed otherwise. -/
def Minimal (c : Call) (before : List Call) : Prop :=
  ∀ e ∈ c.cache.entries, e.1 ≠ c.key → (e ∉ c.after.entries ↔
    c.key ∉ c.cache.keys ∧ CACHE_MAX_ENTRIES ≤ c.cache.size ∧
      Oldest (insertions before) c.cache.keys e.1)

/-- The cache is full, and the key is in it and not the first one. -/
def Wasteful (c : Call) : Prop :=
  c.key ∈ c.cache.keys ∧ CACHE_MAX_ENTRIES ≤ c.cache.size ∧ c.cache.firstKey ≠ some c.key

end Call

/-- A server, and the calls of `setCache` so far, the newest one first. -/
structure Recorded where
  server : State
  calls : List Call

/-- The call of `setCache` in this step. -/
def State.call? (s : State) : Action → Option Call
  | .fetchOk n data now =>
    match s.requests n with
    | .fetching _ _ key =>
      (toPage data).map fun page => ⟨s.cache, key, ⟨page, now + CACHE_TTL_MS⟩⟩
    | _ => none
  | _ => none

def Recorded.step (toLowerCase : JsString → JsString) (r : Recorded) (a : Action) :
    Option Recorded :=
  (r.server.step toLowerCase a).map fun s => ⟨s, (r.server.call? a).toList ++ r.calls⟩

def recordedSystem (toLowerCase : JsString → JsString) : System Recorded Action where
  init r := r = ⟨.initial, []⟩
  step := Recorded.step toLowerCase

/-! ## One call -/

theorem makeRoom_eq (cache : JsMap JsString CacheEntry) :
    makeRoom cache = cache ∨ CACHE_MAX_ENTRIES ≤ cache.size ∧
      ∃ oldestKey, cache.firstKey = some oldestKey ∧ makeRoom cache = cache.delete oldestKey := by
  unfold makeRoom
  split
  · next hfull =>
    split
    · next oldestKey hfirst => exact .inr ⟨hfull, oldestKey, hfirst, rfl⟩
    · exact .inl rfl
  · exact .inl rfl

theorem exists_firstKey {cache : JsMap JsString CacheEntry}
    (h : CACHE_MAX_ENTRIES ≤ cache.size) : ∃ k, cache.firstKey = some k := by
  cases hk : cache.firstKey with
  | some k => exact ⟨k, rfl⟩
  | none =>
    rw [JsMap.firstKey, List.head?_eq_none_iff] at hk
    rw [JsMap.size_eq, hk] at h
    exact absurd h (by decide)

theorem makeRoom_of_full {cache : JsMap JsString CacheEntry} {k : JsString}
    (h : CACHE_MAX_ENTRIES ≤ cache.size) (hk : cache.firstKey = some k) :
    makeRoom cache = cache.delete k := by
  rw [makeRoom, if_pos h, hk]

theorem mem_firstKey {cache : JsMap JsString CacheEntry} {k : JsString}
    (h : cache.firstKey = some k) : k ∈ cache.keys :=
  List.mem_of_head? h

theorem keys_makeRoom (cache : JsMap JsString CacheEntry) :
    (makeRoom cache).keys.Sublist cache.keys := by
  obtain h | ⟨-, k, -, h⟩ := makeRoom_eq cache
  · rw [h]
  · rw [h, JsMap.keys_delete]
    exact List.filter_sublist

theorem size_setCache (cache : JsMap JsString CacheEntry) (key : JsString) (entry : CacheEntry)
    (h : cache.size ≤ CACHE_MAX_ENTRIES) :
    (setCache cache key entry).size ≤ CACHE_MAX_ENTRIES := by
  have hroom : (makeRoom cache).size < CACHE_MAX_ENTRIES := by
    by_cases hfull : CACHE_MAX_ENTRIES ≤ cache.size
    · obtain ⟨k, hk⟩ := exists_firstKey hfull
      rw [makeRoom_of_full hfull hk]
      exact Nat.lt_of_lt_of_le (JsMap.size_delete_lt (mem_firstKey hk)) h
    · rw [makeRoom, if_neg hfull]
      exact Nat.lt_of_not_le hfull
  rw [setCache_eq]
  exact Nat.le_trans (JsMap.size_set_le _ _ _) hroom

/-- Which entries of other keys a call removes. -/
theorem removed_iff {cache : JsMap JsString CacheEntry} {key : JsString} {entry : CacheEntry}
    {e : JsString × CacheEntry} (he : e ∈ cache.entries) (hne : e.1 ≠ key) :
    e ∉ (setCache cache key entry).entries ↔
      CACHE_MAX_ENTRIES ≤ cache.size ∧ cache.firstKey = some e.1 := by
  rw [setCache_eq, JsMap.mem_set_of_ne hne]
  by_cases hfull : CACHE_MAX_ENTRIES ≤ cache.size
  · obtain ⟨k, hk⟩ := exists_firstKey hfull
    rw [makeRoom_of_full hfull hk, JsMap.mem_delete_iff, hk, Option.some_inj]
    simp [he, hfull, eq_comm]
  · rw [makeRoom, if_neg hfull]
    simp [he, hfull]

/-- With the keys in the order of the insertions before. -/
theorem minimal_iff {c : Call} {before : List Call}
    (h : InOrder (Call.insertions before) c.cache.keys) : c.Minimal before ↔ ¬ c.Wasteful := by
  have holdest : ∀ k, Oldest (Call.insertions before) c.cache.keys k ↔ c.cache.firstKey = some k :=
    fun k => oldest_iff h
  constructor
  · rintro hmin ⟨hkey, hfull, hfirst⟩
    obtain ⟨k, hk⟩ := exists_firstKey hfull
    obtain ⟨e, he, rfl⟩ := List.mem_map.mp (mem_firstKey hk)
    have hne : e.1 ≠ c.key := fun heq => hfirst (heq ▸ hk)
    exact ((hmin e he hne).mp ((removed_iff he hne).mpr ⟨hfull, hk⟩)).1 hkey
  · intro hw e he hne
    rw [Call.after, removed_iff he hne, holdest]
    refine ⟨fun ⟨hfull, hk⟩ => ⟨fun hkey => hw ⟨hkey, hfull, ?_⟩, hfull, hk⟩, fun h => h.2⟩
    rw [hk]
    exact fun heq => hne (Option.some.inj heq)

/-! ## Runs -/

structure RecordedInv (r : Recorded) : Prop where
  bounded : r.server.cache.size ≤ CACHE_MAX_ENTRIES
  ordered : InOrder (Call.insertions r.calls) r.server.cache.keys
  minimal : Each (fun c before => c.Minimal before ↔ ¬ c.Wasteful) r.calls

namespace SearchEvictionLemmas

variable {toLowerCase : JsString → JsString}

theorem get_cache {s t : State} {n : Nat} {r : Request} {apiKey : Bool} {now : Int}
    (h : s.get toLowerCase n r apiKey now = some t) :
    t.cache = s.cache ∨ ∃ key, t.cache = s.cache.delete key := by
  have hstart : ∀ (s : State) (search : Search) (key : JsString),
      (s.startFetch n r search key apiKey now).cache = s.cache := by
    intro s search key
    unfold State.startFetch
    split <;> rfl
  unfold State.get at h
  split at h
  · split at h
    · cases h; exact .inl rfl
    · dsimp only at h
      split at h
      · split at h
        · cases h; exact .inl rfl
        · cases h; exact .inr ⟨_, hstart _ _ _⟩
      · cases h; exact .inl (hstart _ _ _)
  · cases h

/-- The cache is changed by a call of `setCache`, or else a key is deleted. -/
theorem step_cache {s t : State} {a : Action} (h : s.step toLowerCase a = some t) :
    (∃ c, s.call? a = some c ∧ c.cache = s.cache ∧ t.cache = c.after) ∨
      s.call? a = none ∧ (t.cache = s.cache ∨ ∃ key, t.cache = s.cache.delete key) := by
  cases a with
  | get n r apiKey now => exact .inr ⟨rfl, get_cache h⟩
  | fetchFails n status reason now =>
    obtain ⟨r, text, code, rfl⟩ := State.fetchFails_eq_some h
    exact .inr ⟨rfl, .inl rfl⟩
  | fetchThrows n now =>
    obtain ⟨r, rfl⟩ := State.fetchThrows_eq_some h
    exact .inr ⟨rfl, .inl rfl⟩
  | fetchOk n data now =>
    rw [State.step, State.fetchOk] at h
    split at h
    · next r search key hn =>
      split at h
      · next hp =>
        cases h
        exact .inr ⟨by simp [State.call?, hn, hp], .inl rfl⟩
      · next page hp =>
        cases h
        exact .inl ⟨⟨s.cache, key, ⟨page, now + CACHE_TTL_MS⟩⟩,
          by simp [State.call?, hn, hp], rfl, rfl⟩
    · cases h

theorem ordered_after {c : Call} {before : List Call}
    (h : InOrder (Call.insertions before) c.cache.keys) :
    InOrder (Call.insertions (c :: before)) c.after.keys := by
  have hroom := h.sublist (keys_makeRoom c.cache)
  rw [Call.after, setCache_eq, JsMap.keys_set]
  by_cases hkey : c.key ∈ (makeRoom c.cache).keys
  · simpa [Call.insertions, Call.inserted?, hkey] using hroom
  · simpa [Call.insertions, Call.inserted?, hkey] using hroom.append hkey

theorem recordedInv_step {r r' : Recorded} {a : Action} (hinv : RecordedInv r)
    (h : r.step toLowerCase a = some r') : RecordedInv r' := by
  obtain ⟨t, ht, rfl⟩ := Option.map_eq_some_iff.mp h
  obtain ⟨c, hc, hcache, hafter⟩ | ⟨hc, hcache⟩ := step_cache ht
  · have hordered : InOrder (Call.insertions r.calls) c.cache.keys := hcache ▸ hinv.ordered
    refine ⟨?_, ?_, ?_⟩
    · rw [hafter]
      exact size_setCache _ _ _ (hcache ▸ hinv.bounded)
    · simp only [hc, hafter]
      exact ordered_after hordered
    · simp only [hc]
      exact ⟨minimal_iff hordered, hinv.minimal⟩
  · have hcalls : (r.server.call? a).toList ++ r.calls = r.calls := by rw [hc]; rfl
    rw [hcalls]
    obtain hsame | ⟨key, hdelete⟩ := hcache
    · exact ⟨hsame ▸ hinv.bounded, hsame ▸ hinv.ordered, hinv.minimal⟩
    · refine ⟨?_, ?_, hinv.minimal⟩
      · rw [hdelete]
        exact Nat.le_trans (JsMap.size_delete_le _ _) hinv.bounded
      · rw [hdelete, JsMap.keys_delete]
        exact hinv.ordered.sublist List.filter_sublist

theorem recordedInv_reach {r : Recorded} (h : Reachable (recordedSystem toLowerCase) r) :
    RecordedInv r := by
  refine h.invariant (I := RecordedInv) ?_ fun _ _ _ _ hi _ hs => recordedInv_step hi hs
  rintro _ rfl
  exact ⟨Nat.zero_le _, trivial, trivial⟩

end SearchEvictionLemmas

open SearchEvictionLemmas

/-! ## A cache that fills up -/

def earlySearch : Search := ⟨ofString "a", none⟩

def earlyKey : JsString := cacheKey toLowerAscii earlySearch.q earlySearch.pageToken

/-- Searches for `b`, `bb`, and so on. -/
def fillerSearch (m : Nat) : Search := ⟨List.replicate (m + 1) 0x62, none⟩

def fillerKey (m : Nat) : JsString :=
  cacheKey toLowerAscii (fillerSearch m).q (fillerSearch m).pageToken

def Search.request (search : Search) : Request := ⟨some search.q, search.pageToken⟩

/-- Two requests for one search wait, while so many others are stored. -/
def fillingRun (m : Nat) : List Action :=
  [.get 0 earlySearch.request true 0, .get 1 earlySearch.request true 0] ++
    (List.range m).flatMap fun i =>
      [.get (i + 2) (fillerSearch i).request true 0, .fetchOk (i + 2) noItems 0]

/-- Then the two get their answers. -/
def earlyRun : List Action :=
  fillingRun (CACHE_MAX_ENTRIES - 1) ++ [.fetchOk 0 noItems 0, .fetchOk 1 noItems 0]

structure Filled (m : Nat) (r : Recorded) : Prop where
  keys : r.server.cache.keys = (List.range m).map fillerKey
  waiting : ∀ n, n < 2 →
    r.server.requests n = .fetching earlySearch.request earlySearch earlyKey
  idle : ∀ n, m + 2 ≤ n → r.server.requests n = .idle

namespace SearchEvictionLemmas

variable {toLowerCase : JsString → JsString}

theorem search?_filler (m : Nat) : (fillerSearch m).request.search? = some (fillerSearch m) := by
  have hspace : isWhiteSpace 0x62 = false := by decide
  have htrim : trim (List.replicate (m + 1) 0x62) = List.replicate (m + 1) 0x62 := by
    simp [trim, List.rdropWhile, List.replicate_succ, hspace, ← List.replicate_succ']
  simp [Search.request, Request.search?, fillerSearch, htrim]

theorem fillerKey_injective {i j : Nat} (h : fillerKey i = fillerKey j) : i = j := by
  have hlength := congrArg List.length h
  simpa [fillerKey, fillerSearch, cacheKey, toLowerAscii] using hlength

theorem fillerKey_ne_early (m : Nat) : fillerKey m ≠ earlyKey := by
  have hearly : earlyKey.head? = some 0x61 := by decide
  have hfiller : (fillerKey m).head? = some 0x62 := by
    simp [fillerKey, fillerSearch, cacheKey, toLowerAscii, List.replicate_succ]
  intro h
  rw [h, hearly] at hfiller
  exact absurd hfiller (by decide)

theorem toPage_noItems : toPage noItems = some noResults := rfl

theorem fetchOk_stores {s : State} {n : Nat} {r : Request} {search : Search} {key : JsString}
    (now : Int) (hn : s.requests n = .fetching r search key) :
    s.fetchOk n noItems now =
      some ((stored s search key noResults now).answer n r (.page noResults false) now) := by
  simp [State.fetchOk, hn, stored, toPage_noItems]

/-- A new key goes to the end of a cache that is not full. -/
theorem keys_setCache_new {cache : JsMap JsString CacheEntry} {key : JsString}
    (entry : CacheEntry) (hsize : cache.size < CACHE_MAX_ENTRIES) (hkey : key ∉ cache.keys) :
    (setCache cache key entry).keys = cache.keys ++ [key] := by
  rw [setCache_eq, makeRoom, if_neg (Nat.not_le_of_lt hsize), JsMap.keys_set, if_neg hkey]

theorem run_cons {s t : State} {a : Action} (calls : List Call) (as : List Action)
    (h : s.step toLowerCase a = some t) :
    run (recordedSystem toLowerCase) ⟨s, calls⟩ (a :: as) =
      run (recordedSystem toLowerCase) ⟨t, (s.call? a).toList ++ calls⟩ as := by
  simp [run, recordedSystem, Recorded.step, h]

/-- A search for a new key, from its start to its end. -/
theorem run_search {r : Recorded} {n : Nat} {search : Search}
    (hn : r.server.requests n = .idle) (hs : search.request.search? = some search)
    (hkey : cacheKey toLowerCase search.q search.pageToken ∉ r.server.cache.keys)
    (hsize : r.server.cache.size < CACHE_MAX_ENTRIES) :
    ∃ r', run (recordedSystem toLowerCase) r
        [.get n search.request true 0, .fetchOk n noItems 0] = some r' ∧
      r'.server.cache.keys =
        r.server.cache.keys ++ [cacheKey toLowerCase search.q search.pageToken] ∧
      ∀ m, m ≠ n → r'.server.requests m = r.server.requests m := by
  let key := cacheKey toLowerCase search.q search.pageToken
  have hget : r.server.step toLowerCase (.get n search.request true 0) =
      some (awaiting r.server n search.request search key) :=
    get_miss 0 hn hs (JsMap.get_eq_none.mpr hkey)
  have hfetch : (awaiting r.server n search.request search key).step toLowerCase
      (.fetchOk n noItems 0) = some _ :=
    fetchOk_awaiting n search.request search key 0 toPage_noItems
  refine ⟨_, ((run_cons r.calls _ hget).trans (run_cons _ [] hfetch)), ?_, ?_⟩
  · exact keys_setCache_new _ hsize hkey
  · intro m hm
    simp [State.answer, stored, awaiting, Function.update_of_ne hm]

theorem search?_early : earlySearch.request.search? = some earlySearch := by decide +kernel

theorem filled_zero :
    ∃ r, run (recordedSystem toLowerAscii) ⟨.initial, []⟩ (fillingRun 0) = some r ∧
      Filled 0 r := by
  let first := awaiting .initial 0 earlySearch.request earlySearch earlyKey
  have hmiss : State.initial.cache.get earlyKey = none :=
    JsMap.get_eq_none.mpr List.not_mem_nil
  have hfirst : State.initial.step toLowerAscii (.get 0 earlySearch.request true 0) = some first :=
    get_miss (s := .initial) (n := 0) 0 rfl search?_early hmiss
  have hsecond : first.step toLowerAscii (.get 1 earlySearch.request true 0) =
      some (awaiting first 1 earlySearch.request earlySearch earlyKey) :=
    get_miss (s := first) (n := 1) 0 rfl search?_early hmiss
  refine ⟨_, (run_cons [] _ hfirst).trans (run_cons _ [] hsecond), rfl, fun n hn => ?_,
    fun n hn => ?_⟩
  · rcases Nat.lt_succ_iff_lt_or_eq.mp hn with hn | rfl
    · obtain rfl := Nat.lt_one_iff.mp hn
      rfl
    · rfl
  · have h₀ : n ≠ 0 := by omega
    have h₁ : n ≠ 1 := by omega
    simp [awaiting, first, State.initial, Function.update_of_ne h₀, Function.update_of_ne h₁]

theorem filled_succ {m : Nat} {r : Recorded} (h : Filled m r) (hm : m < CACHE_MAX_ENTRIES) :
    ∃ r', run (recordedSystem toLowerAscii) r
        [.get (m + 2) (fillerSearch m).request true 0, .fetchOk (m + 2) noItems 0] = some r' ∧
      Filled (m + 1) r' := by
  have hkey : fillerKey m ∉ r.server.cache.keys := by
    rw [h.keys, List.mem_map]
    rintro ⟨i, hi, heq⟩
    exact Nat.ne_of_lt (List.mem_range.mp hi) (fillerKey_injective heq)
  have hsize : r.server.cache.size < CACHE_MAX_ENTRIES := by
    rwa [JsMap.size_eq, h.keys, List.length_map, List.length_range]
  obtain ⟨r', hrun, hkeys, hrequests⟩ :=
    run_search (h.idle _ (Nat.le_refl _)) (search?_filler m) hkey hsize
  refine ⟨r', hrun, ?_, fun n hn => ?_, fun n hn => ?_⟩
  · rw [hkeys, h.keys, List.range_succ, List.map_append]
    rfl
  · rw [hrequests n (by omega)]
    exact h.waiting n hn
  · rw [hrequests n (by omega)]
    exact h.idle n (by omega)

theorem filled (m : Nat) (hm : m ≤ CACHE_MAX_ENTRIES) :
    ∃ r, run (recordedSystem toLowerAscii) ⟨.initial, []⟩ (fillingRun m) = some r ∧
      Filled m r := by
  induction m with
  | zero => exact filled_zero
  | succ m ih =>
    obtain ⟨r, hrun, hfilled⟩ := ih (Nat.le_of_succ_le hm)
    obtain ⟨r', hrun', hfilled'⟩ := filled_succ hfilled hm
    refine ⟨r', ?_, hfilled'⟩
    rw [fillingRun] at hrun ⊢
    rw [List.range_succ, List.flatMap_append, ← List.append_assoc, run_append, hrun]
    simpa using hrun'

theorem early_notMem {r : Recorded} {m : Nat} (h : Filled m r) :
    earlyKey ∉ r.server.cache.keys := by
  rw [h.keys, List.mem_map]
  rintro ⟨i, -, heq⟩
  exact fillerKey_ne_early i heq

/-- The first of the two requests stores its page, and the cache is full. -/
theorem filled_early {r : Recorded} (h : Filled (CACHE_MAX_ENTRIES - 1) r) :
    ∃ s, r.server.step toLowerAscii (.fetchOk 0 noItems 0) = some s ∧
      s.requests 1 = .fetching earlySearch.request earlySearch earlyKey ∧
      s.cache.keys = (List.range (CACHE_MAX_ENTRIES - 1)).map fillerKey ++ [earlyKey] := by
  have hsize : r.server.cache.size < CACHE_MAX_ENTRIES := by
    rw [JsMap.size_eq, h.keys, List.length_map, List.length_range]
    decide
  exact ⟨_, fetchOk_stores 0 (h.waiting 0 (by decide)), h.waiting 1 (by decide),
    h.keys ▸ keys_setCache_new _ hsize (early_notMem h)⟩

/-- A new key goes to the end of a full cache, and the first one goes. -/
theorem keys_setCache_full {cache : JsMap JsString CacheEntry} {k key : JsString}
    (entry : CacheEntry) (hfull : CACHE_MAX_ENTRIES ≤ cache.size) (hk : cache.firstKey = some k)
    (hkey : key ∉ cache.keys) :
    (setCache cache key entry).keys = cache.keys.filter (fun k' => k' ≠ k) ++ [key] := by
  have hnew : key ∉ (cache.delete k).keys := by
    rw [JsMap.keys_delete]
    exact fun hmem => hkey (List.mem_of_mem_filter hmem)
  rw [setCache_eq, makeRoom_of_full hfull hk, JsMap.keys_set, if_neg hnew, JsMap.keys_delete]

theorem wasteful_of_keys {cache : JsMap JsString CacheEntry} (entry : CacheEntry)
    (h : cache.keys = (List.range (CACHE_MAX_ENTRIES - 1)).map fillerKey ++ [earlyKey]) :
    Call.Wasteful ⟨cache, earlyKey, entry⟩ := by
  refine ⟨?_, ?_, ?_⟩
  · rw [h]
    exact List.mem_append_right _ (List.mem_singleton_self _)
  · rw [JsMap.size_eq, h, List.length_append, List.length_map, List.length_range]
    decide
  · rw [JsMap.firstKey, h, show CACHE_MAX_ENTRIES - 1 = 998 + 1 from rfl, List.range_succ_eq_map]
    simpa using fillerKey_ne_early 0

end SearchEvictionLemmas

/-- The second of the two requests finds its key in the full cache, and the page
of the first filler is dropped. -/
theorem evicts_early : ∃ r, run (recordedSystem toLowerAscii) ⟨.initial, []⟩ earlyRun = some r ∧
    ¬ Each Call.Minimal r.calls := by
  obtain ⟨r, hrun, hfilled⟩ := filled (CACHE_MAX_ENTRIES - 1) (Nat.sub_le _ _)
  obtain ⟨s, hfirst, hn, hkeys⟩ := filled_early hfilled
  let c : Call := ⟨s.cache, earlyKey, ⟨noResults, 0 + CACHE_TTL_MS⟩⟩
  let s' := (stored s earlySearch earlyKey noResults 0).answer 1 earlySearch.request
    (.page noResults false) 0
  have hsecond : s.step toLowerAscii (.fetchOk 1 noItems 0) = some s' := fetchOk_stores 0 hn
  have hcall : s.call? (.fetchOk 1 noItems 0) = some c := by
    simp [State.call?, hn, toPage_noItems, c]
  have hrun' : run (recordedSystem toLowerAscii) ⟨.initial, []⟩ earlyRun =
      some ⟨s', c :: ((r.server.call? (.fetchOk 0 noItems 0)).toList ++ r.calls)⟩ := by
    rw [earlyRun, run_append, hrun]
    refine (run_cons r.calls _ hfirst).trans ((run_cons _ [] hsecond).trans ?_)
    rw [hcall]
    rfl
  have hreach := Reach.run (C := NoGuard) (.init rfl) (fun _ _ _ => trivial) hrun'
  exact ⟨_, hrun', fun h =>
    (recordedInv_reach hreach).minimal.1.mp h.1 (wasteful_of_keys _ hkeys)⟩

/-- For every way to put letters into lower case and every run: the cache is
bounded, and every call in it evicts only when it must if and only if no call
finds its key in a full cache behind another one. -/
theorem evicts_minimally_iff (toLowerCase : JsString → JsString) (r : Recorded)
    (h : Reachable (recordedSystem toLowerCase) r) :
    r.server.cache.size ≤ CACHE_MAX_ENTRIES ∧
      (Each Call.Minimal r.calls ↔ Each (fun c _ => ¬ c.Wasteful) r.calls) := by
  have hinv := recordedInv_reach h
  refine ⟨hinv.bounded, fun hmin => ?_, fun hw => ?_⟩
  · exact Each.imp (fun c before _ hiff hm => hiff.mp hm) hinv.minimal hmin
  · exact Each.imp (fun c before _ hiff hm => hiff.mpr hm) hinv.minimal hw

/-- A thousand searches are stored, and then another one, which drops the first. -/
theorem evicts_minimally_stored : ∃ r : Recorded,
    run (recordedSystem toLowerAscii) ⟨.initial, []⟩
      (fillingRun CACHE_MAX_ENTRIES ++ [.fetchOk 0 noItems 0]) = some r ∧
    earlyKey ∈ r.server.cache.keys ∧ fillerKey 0 ∉ r.server.cache.keys ∧
    r.server.cache.size ≤ CACHE_MAX_ENTRIES ∧
      (Each Call.Minimal r.calls ↔ Each (fun c _ => ¬ c.Wasteful) r.calls) := by
  obtain ⟨r, hrun, hfilled⟩ := filled CACHE_MAX_ENTRIES (Nat.le_refl _)
  let s := (stored r.server earlySearch earlyKey noResults 0).answer 0 earlySearch.request
    (.page noResults false) 0
  have hstep : r.server.step toLowerAscii (.fetchOk 0 noItems 0) = some s :=
    fetchOk_stores 0 (hfilled.waiting 0 (by decide))
  have hfull : CACHE_MAX_ENTRIES ≤ r.server.cache.size := by
    rw [JsMap.size_eq, hfilled.keys, List.length_map, List.length_range]
  have hfirst : r.server.cache.firstKey = some (fillerKey 0) := by
    rw [JsMap.firstKey, hfilled.keys, show CACHE_MAX_ENTRIES = 999 + 1 from rfl,
      List.range_succ_eq_map]
    rfl
  have hkeys : s.cache.keys =
      r.server.cache.keys.filter (fun k => k ≠ fillerKey 0) ++ [earlyKey] :=
    keys_setCache_full _ hfull hfirst (early_notMem hfilled)
  have hrun' : run (recordedSystem toLowerAscii) ⟨.initial, []⟩
      (fillingRun CACHE_MAX_ENTRIES ++ [.fetchOk 0 noItems 0]) =
        some ⟨s, (r.server.call? (.fetchOk 0 noItems 0)).toList ++ r.calls⟩ := by
    rw [run_append, hrun]
    exact run_cons r.calls [] hstep
  have hreach := Reach.run (C := NoGuard) (.init rfl) (fun _ _ _ => trivial) hrun'
  refine ⟨_, hrun', ?_, ?_, evicts_minimally_iff toLowerAscii _ hreach⟩
  · show earlyKey ∈ s.cache.keys
    rw [hkeys]
    exact List.mem_append_right _ List.mem_cons_self
  · show fillerKey 0 ∉ s.cache.keys
    rw [hkeys, List.mem_append, List.mem_singleton]
    rintro (hmem | heq)
    · exact of_decide_eq_true (List.mem_filter.mp hmem).2 rfl
    · exact fillerKey_ne_early 0 heq

end RadioJockey.YouTubeSearch
