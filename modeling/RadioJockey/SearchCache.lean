import RadioJockey.Lib.JsMap
import RadioJockey.Lib.Transition
import RadioJockey.HtmlEntities

/-!
# The search endpoint and its cache (`api/youtube-search/+server.ts`)

A `GET` runs to its `await fetch`, in which other requests may run, and from the
answer of YouTube to its end. In the first part it looks into the cache, in the
second one it stores what it has fetched. The clock is whatever `Date.now()`
returns. `String.prototype.toLowerCase` is a parameter.

1. `foreign_hit`: two different searches have one key, and the second one gets
   the results of the first.
2. `own_results_iff`: for any set of requests, no run of them serves a foreign
   page from the cache, or an expired one, if and only if no two different
   searches among them have the same key.
3. `unambiguous_of_noColon`: searches without a colon in the query never do.
-/

namespace RadioJockey.YouTubeSearch

open JsString Transition

structure SearchResult where
  videoId : JsString
  title : JsString
  channelTitle : JsString
  thumbnailUrl : JsString
  deriving DecidableEq

/-- An item of the answer. `videoId` is `item.id?.videoId`, and `thumbnailUrl` is
`item.snippet.thumbnails?.default?.url`. -/
structure YouTubeSearchItem where
  videoId : Option JsString
  title : JsString
  channelTitle : JsString
  thumbnailUrl : Option JsString
  deriving DecidableEq

structure YouTubeSearchResponse where
  items : Option (List YouTubeSearchItem)
  nextPageToken : Option JsString
  prevPageToken : Option JsString
  deriving DecidableEq

/-- What is cached and answered. -/
structure Page where
  results : List SearchResult
  nextPageToken : Option JsString
  prevPageToken : Option JsString
  deriving DecidableEq

structure CacheEntry where
  page : Page
  expiresAt : Int
  deriving DecidableEq

def CACHE_TTL_MS : Int := 24 * 60 * 60 * 1000

def CACHE_MAX_ENTRIES : Nat := 1000

/-- The body of the `map`: an item without a video id is dropped. The decoding of
a text may throw. -/
def toResult (item : YouTubeSearchItem) : Option (Option SearchResult) :=
  match item.videoId.filter (· ≠ []) with
  | none => some none
  | some videoId => do
    let title ← decodeHtmlEntities item.title
    let channelTitle ← decodeHtmlEntities item.channelTitle
    return some ⟨videoId, title, channelTitle, item.thumbnailUrl.getD []⟩

def toPage (data : YouTubeSearchResponse) : Option Page := do
  let results ← (data.items.getD []).mapM toResult
  return ⟨results.reduceOption, data.nextPageToken, data.prevPageToken⟩

def cacheKey (toLowerCase : JsString → JsString) (q : JsString) (pageToken : Option JsString) :
    JsString :=
  toLowerCase q ++ ofString "::" ++ pageToken.getD []

def setCache (cache : JsMap JsString CacheEntry) (key : JsString) (entry : CacheEntry) :
    JsMap JsString CacheEntry :=
  let cache :=
    if CACHE_MAX_ENTRIES ≤ cache.size then
      match cache.firstKey with
      | some oldestKey => cache.delete oldestKey
      | none => cache
    else cache
  cache.set key entry

/-- The query parameters of a request, `none` for one that is absent. -/
structure Request where
  q : Option JsString
  pageToken : Option JsString
  deriving DecidableEq

/-- What a request searches for: `q` trimmed, and not empty. -/
structure Search where
  q : JsString
  pageToken : Option JsString
  deriving DecidableEq

def Request.search? (r : Request) : Option Search :=
  ((r.q.map trim).filter (· ≠ [])).map fun q => ⟨q, r.pageToken⟩

inductive Response
  | page (p : Page) (cached : Bool)
  | error (text : String) (status : Nat)
  | thrown
  deriving DecidableEq

/-- What happened, with the readings of the clock: a page that was fetched for a
search was stored, or a request was answered. -/
inductive Event
  | fetched (search : Search) (page : Page) (time : Int)
  | answered (request : Request) (response : Response) (time : Int)
  deriving DecidableEq

/-- A `GET` before it runs, in its `await`, or answered. -/
inductive Phase
  | idle
  | fetching (request : Request) (search : Search) (key : JsString)
  | answered
  deriving DecidableEq

/-- `history` has the newest event first. -/
structure State where
  cache : JsMap JsString CacheEntry
  requests : Nat → Phase
  history : List Event

namespace State

def initial : State := ⟨.empty, fun _ => .idle, []⟩

def answer (s : State) (n : Nat) (r : Request) (response : Response) (time : Int) : State :=
  { s with
    requests := Function.update s.requests n .answered
    history := .answered r response time :: s.history }

/-- What follows the lookup: the fetch, unless no key is configured. -/
def startFetch (s : State) (n : Nat) (r : Request) (search : Search) (key : JsString)
    (apiKey : Bool) (now : Int) : State :=
  if apiKey then { s with requests := Function.update s.requests n (.fetching r search key) }
  else s.answer n r (.error "search not configured" 503) now

/-- `GET`, up to `await fetch`. -/
def get (toLowerCase : JsString → JsString) (s : State) (n : Nat) (r : Request) (apiKey : Bool)
    (now : Int) : Option State :=
  match s.requests n with
  | .idle =>
    match r.search? with
    | none => some (s.answer n r (.error "missing query" 400) now)
    | some search =>
      let key := cacheKey toLowerCase search.q search.pageToken
      match s.cache.get key with
      | some cached =>
        if now < cached.expiresAt then some (s.answer n r (.page cached.page true) now)
        else some ({ s with cache := s.cache.delete key }.startFetch n r search key apiKey now)
      | none => some (s.startFetch n r search key apiKey now)
  | _ => none

/-- The answer of YouTube is not ok. `reason` is what `parseErrorReason` finds. -/
def fetchFails (s : State) (n : Nat) (status : Nat) (reason : Option String) (now : Int) :
    Option State :=
  match s.requests n with
  | .fetching r _ _ =>
    if status = 403 ∧ (reason = some "quotaExceeded" ∨ reason = some "dailyLimitExceeded") then
      some (s.answer n r (.error "quota exceeded" 429) now)
    else some (s.answer n r (.error "search failed" 502) now)
  | _ => none

/-- `fetch` or `res.json` throws. -/
def fetchThrows (s : State) (n : Nat) (now : Int) : Option State :=
  match s.requests n with
  | .fetching r _ _ => some (s.answer n r .thrown now)
  | _ => none

/-- The answer of YouTube is ok: `GET`, from there to its end. -/
def fetchOk (s : State) (n : Nat) (data : YouTubeSearchResponse) (now : Int) : Option State :=
  match s.requests n with
  | .fetching r search key =>
    match toPage data with
    | none => some (s.answer n r .thrown now)
    | some page => some ({ s with
        cache := setCache s.cache key ⟨page, now + CACHE_TTL_MS⟩
        history := .fetched search page now :: s.history }.answer n r (.page page false) now)
  | _ => none

end State

inductive Action
  | get (n : Nat) (r : Request) (apiKey : Bool) (now : Int)
  | fetchFails (n : Nat) (status : Nat) (reason : Option String) (now : Int)
  | fetchThrows (n : Nat) (now : Int)
  | fetchOk (n : Nat) (data : YouTubeSearchResponse) (now : Int)

def State.step (toLowerCase : JsString → JsString) (s : State) : Action → Option State
  | .get n r apiKey now => s.get toLowerCase n r apiKey now
  | .fetchFails n status reason now => s.fetchFails n status reason now
  | .fetchThrows n now => s.fetchThrows n now
  | .fetchOk n data now => s.fetchOk n data now

def searchSystem (toLowerCase : JsString → JsString) : System State Action where
  init s := s = .initial
  step := State.step toLowerCase

/-! ## The property -/

/-- The same query up to letter case, and the same page token, absent and empty
being the same. -/
def SameSearch (toLowerCase : JsString → JsString) (a b : Search) : Prop :=
  toLowerCase a.q = toLowerCase b.q ∧ a.pageToken.getD [] = b.pageToken.getD []

instance (toLowerCase : JsString → JsString) (a b : Search) :
    Decidable (SameSearch toLowerCase a b) := inferInstanceAs (Decidable (_ ∧ _))

/-- The event is the fetch of the page for this search, less than the time to
live before `now`. -/
def FetchOf (toLowerCase : JsString → JsString) (search : Search) (p : Page) (now : Int) :
    Event → Prop
  | .fetched search' p' time =>
    SameSearch toLowerCase search' search ∧ p' = p ∧ now < time + CACHE_TTL_MS
  | .answered .. => False

/-- An answer that is marked cached goes back to a fetch before it. -/
def OwnResult (toLowerCase : JsString → JsString) (e : Event) (before : List Event) : Prop :=
  match e with
  | .answered r (.page p true) now =>
    ∃ search, r.search? = some search ∧ ∃ e' ∈ before, FetchOf toLowerCase search p now e'
  | _ => True

/-- So do all answers. -/
def OwnResults (toLowerCase : JsString → JsString) (s : State) : Prop :=
  Each (OwnResult toLowerCase) s.history

/-- The runs of these requests. -/
def Within (R : Set Request) (_ : State) : Action → Prop
  | .get _ r _ _ => r ∈ R
  | _ => True

/-- Two searches among these requests have one key only when they are the same. -/
def Unambiguous (toLowerCase : JsString → JsString) (R : Set Request) : Prop :=
  ∀ r ∈ R, ∀ r' ∈ R, ∀ a b, r.search? = some a → r'.search? = some b →
    cacheKey toLowerCase a.q a.pageToken = cacheKey toLowerCase b.q b.pageToken →
    SameSearch toLowerCase a b

/-! ## What each step does -/

namespace State

variable {toLowerCase : JsString → JsString}

theorem get_eq_some {s t : State} {n : Nat} {r : Request} {apiKey : Bool} {now : Int}
    (h : s.get toLowerCase n r apiKey now = some t) :
    (r.search? = none ∧ t = s.answer n r (.error "missing query" 400) now) ∨
      ∃ search, r.search? = some search ∧
        ((∃ cached, s.cache.get (cacheKey toLowerCase search.q search.pageToken) = some cached ∧
          now < cached.expiresAt ∧ t = s.answer n r (.page cached.page true) now) ∨
        ∃ cache, (∀ e ∈ cache.entries, e ∈ s.cache.entries) ∧
          t = { s with cache := cache }.startFetch n r search
            (cacheKey toLowerCase search.q search.pageToken) apiKey now) := by
  unfold get at h
  split at h
  · split at h
    · next hr => cases h; exact .inl ⟨hr, rfl⟩
    · next search hr =>
      refine .inr ⟨search, hr, ?_⟩
      dsimp only at h
      split at h
      · next cached hc =>
        split at h
        · next hlt => cases h; exact .inl ⟨cached, hc, hlt, rfl⟩
        · cases h
          exact .inr ⟨_, fun e he => JsMap.mem_delete he, rfl⟩
      · cases h
        exact .inr ⟨s.cache, fun e he => he, rfl⟩
  · cases h

theorem fetchFails_eq_some {s t : State} {n : Nat} {status : Nat} {reason : Option String}
    {now : Int} (h : s.fetchFails n status reason now = some t) :
    ∃ r text code, t = s.answer n r (.error text code) now := by
  unfold fetchFails at h
  split at h
  · split at h
    · cases h; exact ⟨_, _, _, rfl⟩
    · cases h; exact ⟨_, _, _, rfl⟩
  · cases h

theorem fetchThrows_eq_some {s t : State} {n : Nat} {now : Int}
    (h : s.fetchThrows n now = some t) : ∃ r, t = s.answer n r .thrown now := by
  unfold fetchThrows at h
  split at h
  · cases h; exact ⟨_, rfl⟩
  · cases h

theorem fetchOk_eq_some {s t : State} {n : Nat} {data : YouTubeSearchResponse} {now : Int}
    (h : s.fetchOk n data now = some t) :
    ∃ r search key, s.requests n = .fetching r search key ∧
      (t = s.answer n r .thrown now ∨
      ∃ page, toPage data = some page ∧ t = { s with
        cache := setCache s.cache key ⟨page, now + CACHE_TTL_MS⟩
        history := .fetched search page now :: s.history }.answer n r (.page page false) now) := by
  unfold fetchOk at h
  split at h
  · next r search key hn =>
    refine ⟨r, search, key, hn, ?_⟩
    split at h
    · cases h; exact .inl rfl
    · next page hp => cases h; exact .inr ⟨page, hp, rfl⟩
  · cases h

end State

/-- `setCache` adds the entry, and at most drops others. -/
theorem mem_setCache {cache : JsMap JsString CacheEntry} {key : JsString} {entry : CacheEntry}
    {e : JsString × CacheEntry} (h : e ∈ (setCache cache key entry).entries) :
    e = (key, entry) ∨ e ∈ cache.entries := by
  unfold setCache at h
  refine (JsMap.mem_set h).imp_right fun h => ?_
  split at h
  · split at h
    · exact JsMap.mem_delete h
    · exact h
  · exact h

/-! ## The invariant -/

/-- Each entry is a page fetched for a search of one of the requests, under the
key of that search. -/
structure SearchInv (toLowerCase : JsString → JsString) (R : Set Request) (s : State) : Prop where
  entries : ∀ e ∈ s.cache.entries, ∃ r ∈ R, ∃ search time, r.search? = some search ∧
    e.1 = cacheKey toLowerCase search.q search.pageToken ∧
    .fetched search e.2.page time ∈ s.history ∧ e.2.expiresAt = time + CACHE_TTL_MS
  fetching : ∀ n r search key, s.requests n = .fetching r search key →
    r ∈ R ∧ r.search? = some search ∧ key = cacheKey toLowerCase search.q search.pageToken
  own : OwnResults toLowerCase s

namespace SearchCacheLemmas

variable {toLowerCase : JsString → JsString} {R : Set Request} {s : State}

theorem searchInv_answer {n : Nat} {r : Request} {response : Response} {time : Int}
    (hinv : SearchInv toLowerCase R s)
    (hown : OwnResult toLowerCase (.answered r response time) s.history) :
    SearchInv toLowerCase R (s.answer n r response time) where
  entries := by
    intro e he
    obtain ⟨r', hr', search, t, hs, hk, hmem, hexp⟩ := hinv.entries e he
    exact ⟨r', hr', search, t, hs, hk, List.mem_cons_of_mem _ hmem, hexp⟩
  fetching := by
    intro m r' search key hm
    by_cases hmn : m = n
    · subst hmn
      simp [State.answer] at hm
    · simp only [State.answer, Function.update_of_ne hmn] at hm
      exact hinv.fetching m r' search key hm
  own := ⟨hown, hinv.own⟩

/-- Entries may be dropped. -/
theorem searchInv_forget {cache : JsMap JsString CacheEntry} (hinv : SearchInv toLowerCase R s)
    (hsub : ∀ e ∈ cache.entries, e ∈ s.cache.entries) :
    SearchInv toLowerCase R { s with cache := cache } :=
  ⟨fun e he => hinv.entries e (hsub e he), hinv.fetching, hinv.own⟩

theorem searchInv_startFetch {n : Nat} {r : Request} {search : Search} (apiKey : Bool) (now : Int)
    (hinv : SearchInv toLowerCase R s) (hr : r ∈ R) (hs : r.search? = some search) :
    SearchInv toLowerCase R
      (s.startFetch n r search (cacheKey toLowerCase search.q search.pageToken) apiKey now) := by
  unfold State.startFetch
  split
  · refine ⟨hinv.entries, fun m r' search' key hm => ?_, hinv.own⟩
    by_cases hmn : m = n
    · subst hmn
      simp only [Function.update_self, Phase.fetching.injEq] at hm
      obtain ⟨rfl, rfl, rfl⟩ := hm
      exact ⟨hr, hs, rfl⟩
    · simp only [Function.update_of_ne hmn] at hm
      exact hinv.fetching m r' search' key hm
  · exact searchInv_answer hinv trivial

theorem searchInv_store {r : Request} {search : Search} {key : JsString} {page : Page}
    {now : Int} {n : Nat} (hinv : SearchInv toLowerCase R s)
    (hn : s.requests n = .fetching r search key) :
    SearchInv toLowerCase R { s with
      cache := setCache s.cache key ⟨page, now + CACHE_TTL_MS⟩
      history := .fetched search page now :: s.history } where
  entries := by
    intro e he
    rcases mem_setCache he with rfl | he
    · obtain ⟨hr, hs, hk⟩ := hinv.fetching n r search key hn
      exact ⟨r, hr, search, now, hs, hk, List.mem_cons_self, rfl⟩
    · obtain ⟨r', hr', search', t, hs, hk, hmem, hexp⟩ := hinv.entries e he
      exact ⟨r', hr', search', t, hs, hk, List.mem_cons_of_mem _ hmem, hexp⟩
  fetching := hinv.fetching
  own := ⟨trivial, hinv.own⟩

/-- A live entry under the key of a search was fetched for that search. -/
theorem own_hit {r : Request} {search : Search} {cached : CacheEntry} {now : Int}
    (hinv : SearchInv toLowerCase R s) (hR : Unambiguous toLowerCase R) (hr : r ∈ R)
    (hs : r.search? = some search)
    (hc : s.cache.get (cacheKey toLowerCase search.q search.pageToken) = some cached)
    (hnow : now < cached.expiresAt) :
    OwnResult toLowerCase (.answered r (.page cached.page true) now) s.history := by
  obtain ⟨r', hr', search', time, hs', hk, hmem, hexp⟩ := hinv.entries _ (JsMap.mem_of_get hc)
  have hsame := hR r' hr' r hr search' search hs' hs hk.symm
  exact ⟨search, hs, _, hmem, hsame, rfl, hexp ▸ hnow⟩

theorem searchInv_step {t : State} {a : Action} (hR : Unambiguous toLowerCase R)
    (hinv : SearchInv toLowerCase R s) (ha : Within R s a) (h : s.step toLowerCase a = some t) :
    SearchInv toLowerCase R t := by
  cases a with
  | get n r apiKey now =>
    obtain ⟨-, rfl⟩ | ⟨search, hs, ⟨cached, hc, hnow, rfl⟩ | ⟨cache, hsub, rfl⟩⟩ :=
      State.get_eq_some h
    · exact searchInv_answer hinv trivial
    · exact searchInv_answer hinv (own_hit hinv hR ha hs hc hnow)
    · exact searchInv_startFetch apiKey now (searchInv_forget hinv hsub) ha hs
  | fetchFails n status reason now =>
    obtain ⟨r, text, code, rfl⟩ := State.fetchFails_eq_some h
    exact searchInv_answer hinv trivial
  | fetchThrows n now =>
    obtain ⟨r, rfl⟩ := State.fetchThrows_eq_some h
    exact searchInv_answer hinv trivial
  | fetchOk n data now =>
    obtain ⟨r, search, key, hn, rfl | ⟨page, -, rfl⟩⟩ := State.fetchOk_eq_some h
    · exact searchInv_answer hinv trivial
    · exact searchInv_answer (searchInv_store hinv hn) trivial

theorem searchInv_initial : SearchInv toLowerCase R .initial :=
  ⟨fun _ he => absurd he List.not_mem_nil, fun _ _ _ _ h => by (cases h), trivial⟩

theorem ownResults_reach (hR : Unambiguous toLowerCase R)
    (h : Reach (searchSystem toLowerCase) (Within R) s) : OwnResults toLowerCase s := by
  have hinv : SearchInv toLowerCase R s := by
    refine h.invariant ?_ fun _ _ _ _ hi ha hs => searchInv_step hR hi ha hs
    rintro _ rfl
    exact searchInv_initial
  exact hinv.own

/-- An answer of YouTube without items. -/
def noItems : YouTubeSearchResponse := ⟨none, none, none⟩

def noResults : Page := ⟨[], none, none⟩

/-- The state in which the request `n` awaits its fetch. -/
def awaiting (s : State) (n : Nat) (r : Request) (search : Search) (key : JsString) : State :=
  { s with requests := Function.update s.requests n (.fetching r search key) }

/-- The state in which the page is stored. -/
def stored (s : State) (search : Search) (key : JsString) (page : Page) (now : Int) : State :=
  { s with
    cache := setCache s.cache key ⟨page, now + CACHE_TTL_MS⟩
    history := .fetched search page now :: s.history }

theorem get_miss {n : Nat} {r : Request} {search : Search} (now : Int)
    (hn : s.requests n = .idle) (hs : r.search? = some search)
    (hc : s.cache.get (cacheKey toLowerCase search.q search.pageToken) = none) :
    s.get toLowerCase n r true now =
      some (awaiting s n r search (cacheKey toLowerCase search.q search.pageToken)) := by
  simp [State.get, hn, hs, hc, State.startFetch, awaiting]

theorem get_hit {n : Nat} {r : Request} {search : Search} {cached : CacheEntry} {now : Int}
    (hn : s.requests n = .idle) (hs : r.search? = some search)
    (hc : s.cache.get (cacheKey toLowerCase search.q search.pageToken) = some cached)
    (hnow : now < cached.expiresAt) :
    s.get toLowerCase n r true now = some (s.answer n r (.page cached.page true) now) := by
  simp [State.get, hn, hs, hc, hnow]

theorem fetchOk_awaiting (n : Nat) (r : Request) (search : Search) (key : JsString)
    {data : YouTubeSearchResponse} {page : Page} (now : Int) (hp : toPage data = some page) :
    (awaiting s n r search key).fetchOk n data now =
      some ((stored (awaiting s n r search key) search key page now).answer n r
        (.page page false) now) := by
  simp [State.fetchOk, awaiting, hp, stored]

/-- A search is fetched, and one with the same key is served its page. -/
theorem second_served {r r' : Request} {a b : Search} (hr : r ∈ R) (hr' : r' ∈ R)
    (ha : r.search? = some a) (hb : r'.search? = some b)
    (hkey : cacheKey toLowerCase a.q a.pageToken = cacheKey toLowerCase b.q b.pageToken) :
    ∃ s, Reach (searchSystem toLowerCase) (Within R) s ∧
      s.history = [.answered r' (.page noResults true) 0, .answered r (.page noResults false) 0,
        .fetched a noResults 0] := by
  let key := cacheKey toLowerCase b.q b.pageToken
  let s₁ := awaiting .initial 0 r a key
  let s₂ := (stored s₁ a key noResults 0).answer 0 r (.page noResults false) 0
  have hmiss : State.initial.get toLowerCase 0 r true 0 = some s₁ := by
    have hget : State.initial.get toLowerCase 0 r true 0 =
        some (awaiting .initial 0 r a (cacheKey toLowerCase a.q a.pageToken)) :=
      get_miss 0 rfl ha rfl
    rwa [hkey] at hget
  have hfetch : s₁.fetchOk 0 noItems 0 = some s₂ := fetchOk_awaiting 0 r a key 0 rfl
  have hcached : s₂.cache.get key = some ⟨noResults, 0 + CACHE_TTL_MS⟩ :=
    JsMap.get_set_self JsMap.empty key _
  have hhit : s₂.get toLowerCase 1 r' true 0 = some (s₂.answer 1 r' (.page noResults true) 0) :=
    get_hit rfl hb hcached (show (0 : Int) < 0 + CACHE_TTL_MS by decide)
  have h₁ : Reach (searchSystem toLowerCase) (Within R) s₁ :=
    .step (Action.get 0 r true 0) (.init rfl) hr hmiss
  have h₂ : Reach (searchSystem toLowerCase) (Within R) s₂ :=
    .step (Action.fetchOk 0 noItems 0) h₁ trivial hfetch
  exact ⟨_, .step (Action.get 1 r' true 0) h₂ hr' hhit, rfl⟩

end SearchCacheLemmas

open SearchCacheLemmas

/-- For every set of requests and every way to put letters into lower case. -/
theorem own_results_iff (toLowerCase : JsString → JsString) (R : Set Request) :
    (∀ s, Reach (searchSystem toLowerCase) (Within R) s → OwnResults toLowerCase s) ↔
      Unambiguous toLowerCase R := by
  constructor
  · intro h r hr r' hr' a b ha hb hkey
    obtain ⟨s, hs, hhist⟩ := second_served hr hr' ha hb hkey
    have hown := h s hs
    rw [OwnResults, hhist] at hown
    obtain ⟨search, hsearch, e, he, hfetch⟩ := hown.1
    obtain rfl : b = search := Option.some.inj (hb.symm.trans hsearch)
    simp only [List.mem_cons, List.not_mem_nil, or_false] at he
    rcases he with rfl | rfl
    · exact hfetch.elim
    · exact hfetch.1
  · exact fun hR s hs => ownResults_reach hR hs

def colon : CodeUnit := 0x3a

/-- The separator is the first colon of the key. -/
theorem unambiguous_of_noColon {toLowerCase : JsString → JsString} {R : Set Request}
    (h : ∀ r ∈ R, ∀ a, r.search? = some a → colon ∉ toLowerCase a.q) :
    Unambiguous toLowerCase R := by
  intro r hr r' hr' a b ha hb hkey
  have hsep : ofString "::" = [colon, colon] := by decide
  simp only [cacheKey, hsep, List.append_assoc, List.cons_append, List.nil_append] at hkey
  have hsplit := congrArg (List.splitOn colon) hkey
  rw [List.splitOn_append_cons_self_of_not_mem (h r hr a ha),
    List.splitOn_append_cons_self_of_not_mem (h r' hr' b hb)] at hsplit
  have hq := (List.cons.inj hsplit).1
  rw [hq, List.append_cancel_left_eq] at hkey
  exact ⟨hq, (List.cons.inj (List.cons.inj hkey).2).2⟩

/-- `toLowerCase` on ASCII. -/
def toLowerAscii (s : JsString) : JsString :=
  s.map fun c => if 0x41 ≤ c.toNat ∧ c.toNat ≤ 0x5a then c + 0x20 else c

/-- A search for `a` with the page token `b::` is fetched, and one for `a::b`
without a token is served its page. -/
theorem foreign_hit : ∃ s, Reachable (searchSystem toLowerAscii) s ∧
    s.history = [
      .answered ⟨some (ofString "a::b"), none⟩ (.page ⟨[], some (ofString "c"), none⟩ true) 1,
      .answered ⟨some (ofString "a"), some (ofString "b::")⟩
        (.page ⟨[], some (ofString "c"), none⟩ false) 0,
      .fetched ⟨ofString "a", some (ofString "b::")⟩ ⟨[], some (ofString "c"), none⟩ 0] ∧
    ¬ OwnResults toLowerAscii s := by
  obtain ⟨s, hs, hp⟩ := Reachable.of_run (S := searchSystem toLowerAscii)
    (p := fun s => s.history = [
      .answered ⟨some (ofString "a::b"), none⟩ (.page ⟨[], some (ofString "c"), none⟩ true) 1,
      .answered ⟨some (ofString "a"), some (ofString "b::")⟩
        (.page ⟨[], some (ofString "c"), none⟩ false) 0,
      .fetched ⟨ofString "a", some (ofString "b::")⟩ ⟨[], some (ofString "c"), none⟩ 0])
    [.get 0 ⟨some (ofString "a"), some (ofString "b::")⟩ true 0,
      .fetchOk 0 ⟨none, some (ofString "c"), none⟩ 0,
      .get 1 ⟨some (ofString "a::b"), none⟩ true 1]
    (show (searchSystem toLowerAscii).init .initial from rfl) (by decide +kernel)
  have hhist := of_decide_eq_true hp
  refine ⟨s, hs, hhist, fun h => ?_⟩
  rw [OwnResults, hhist] at h
  obtain ⟨search, hsearch, e, he, hfetch⟩ := h.1
  obtain rfl : (⟨ofString "a::b", none⟩ : Search) = search := by
    have : Request.search? ⟨some (ofString "a::b"), none⟩ = some ⟨ofString "a::b", none⟩ := by
      decide +kernel
    exact Option.some.inj (this.symm.trans hsearch)
  simp only [List.mem_cons, List.not_mem_nil, or_false] at he
  rcases he with rfl | rfl
  · exact hfetch.elim
  · exact absurd hfetch.1 (by decide +kernel)

end RadioJockey.YouTubeSearch
