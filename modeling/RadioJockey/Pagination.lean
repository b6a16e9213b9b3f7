import RadioJockey.SearchCache

/-!
# The pages of a search (`YouTubeSearch.svelte`)

`handleSearch`, `handleNext` and `handlePrev` change the page index and the
tokens, and then `runSearch` awaits the answer. The view allows a search while
none is running, and a page turn while the results are shown and the button is
enabled; a search may start while a page turn is running.

1. `failed_turn_advances`: a page turn that fails leaves the old results under
   the new page index.
2. `late_turn_overwrites`: a page turn that is answered after a later search
   puts its results under the query of that search.
3. `pagination_matches`: in every run in which no page turn fails unless a search
   was started after it, and none is answered after such a search has ended,
   what is shown is the answer for the query and the token of the page index.
-/

namespace RadioJockey.Pagination

open Transition YouTubeSearch

abbrev Token := JsString

inductive Direction
  | next
  | prev
  deriving DecidableEq

/-- The argument `page` of `runSearch`. -/
structure PageTurn where
  token : Option Token
  direction : Direction
  deriving DecidableEq

/-- What the user turns the pages of. -/
structure View where
  results : List SearchResult
  nextPageToken : Option Token
  pageTokens : List (Option Token)
  pageIndex : Nat
  deriving DecidableEq

/-- A call of `runSearch` that awaits its answer. `number` counts the calls, and
`before` is the view before a page turn. -/
structure Call where
  number : Nat
  query : JsString
  page : Option PageTurn
  before : View
  deriving DecidableEq

inductive Outcome
  | ok (data : Page)
  | httpError (status : Nat)
  | networkError
  deriving DecidableEq

/-- The variables of the component, and for the statements: the number of the
last search, whether it failed, the answers, and the view before and after each
page turn that failed with no search started after it. -/
structure State where
  view : View
  currentQuery : JsString
  searching : Bool
  pageLoadingDirection : Option Direction
  searchError : String
  inFlight : List Call
  nextNumber : Nat
  lastSearch : Nat
  searchFailed : Bool
  responses : List (JsString × Option Token × Page)
  failedTurns : List (View × View)

def resetPagination : View := ⟨[], none, [none], 0⟩

/-- `pageTokens[pageIndex]`. -/
def View.token (v : View) : Option Token := v.pageTokens[v.pageIndex]?.join

namespace State

def initial : State where
  view := resetPagination
  currentQuery := []
  searching := false
  pageLoadingDirection := none
  searchError := ""
  inFlight := []
  nextNumber := 1
  lastSearch := 0
  searchFailed := false
  responses := []
  failedTurns := []

/-- `runSearch`, up to its first `await`. `before` is the view before the call. -/
def runSearch (s : State) (query : JsString) (page : Option PageTurn) (before : View) : State :=
  { s with
    searching := s.searching || page.isNone
    pageLoadingDirection := (page.map PageTurn.direction).or s.pageLoadingDirection
    searchError := ""
    inFlight := ⟨s.nextNumber, query, page, before⟩ :: s.inFlight
    nextNumber := s.nextNumber + 1 }

/-- `handleSearch`, from the search bar. -/
def handleSearch (s : State) (query : JsString) : Option State :=
  if s.searching ∨ query = [] then none
  else some ({ s with
    currentQuery := query
    view := resetPagination
    lastSearch := s.nextNumber
    searchFailed := false }.runSearch query none s.view)

/-- The results are shown. -/
def shown (s : State) : Bool :=
  s.currentQuery ≠ [] && s.searchError = "" && !s.searching

/-- `nextPageToken`, when it is truthy. -/
def hasNext (s : State) : Option Token := s.view.nextPageToken.filter (· ≠ [])

/-- `handleNext`, from its button. -/
def handleNext (s : State) : Option State :=
  match s.hasNext with
  | none => none
  | some token =>
    if s.shown = true ∧ s.pageLoadingDirection = none then
      some ({ s with view := { s.view with
        pageTokens := s.view.pageTokens.take (s.view.pageIndex + 1) ++ [some token]
        pageIndex := s.view.pageIndex + 1 } }.runSearch s.currentQuery
          (some ⟨some token, .next⟩) s.view)
    else none

/-- `handlePrev`, from its button. -/
def handlePrev (s : State) : Option State :=
  if 0 < s.view.pageIndex ∧ s.shown = true ∧ s.pageLoadingDirection = none then
    let view := { s.view with pageIndex := s.view.pageIndex - 1 }
    some ({ s with view := view }.runSearch s.currentQuery (some ⟨view.token, .prev⟩) s.view)
  else none

def httpErrorText (status : Nat) : String :=
  if status = 503 then "YouTube search is not configured."
  else if status = 429 then
    "Daily YouTube search limit reached. Try again tomorrow, or paste a YouTube URL below instead."
  else "Search failed. Please try again."

/-- `GENERIC_ERROR` of `friendlyError`. -/
def GENERIC_ERROR : String := "Something went wrong. Please try again."

/-- The answer is there. -/
def succeed (s : State) (c : Call) (data : Page) : State :=
  { s with
    view := { s.view with results := data.results, nextPageToken := data.nextPageToken }
    responses := (c.query, c.page.bind PageTurn.token, data) :: s.responses }

/-- The request fails: only a search resets the pagination. -/
def fail (s : State) (c : Call) (text : String) : State :=
  { s with
    searchError := text
    view := if c.page.isNone then resetPagination else s.view
    searchFailed := s.searchFailed || c.page.isNone
    failedTurns := if c.page.isSome ∧ s.lastSearch < c.number then
      (c.before, s.view) :: s.failedTurns else s.failedTurns }

def finish (s : State) (c : Call) : State :=
  { s with
    inFlight := s.inFlight.filter fun c' => c'.number ≠ c.number
    searching := s.searching && c.page.isSome
    pageLoadingDirection := if c.page.isSome then none else s.pageLoadingDirection }

/-- `runSearch`, from its first `await` on. -/
def respond (s : State) (c : Call) : Outcome → State
  | .ok data => (s.succeed c data).finish c
  | .httpError status => (s.fail c (httpErrorText status)).finish c
  | .networkError => (s.fail c GENERIC_ERROR).finish c

end State

inductive Action
  | search (query : JsString)
  | next
  | prev
  | respond (number : Nat) (o : Outcome)

def State.step (s : State) : Action → Option State
  | .search query => s.handleSearch query
  | .next => s.handleNext
  | .prev => s.handlePrev
  | .respond number o => (s.inFlight.find? fun c => c.number = number).map fun c => s.respond c o

def searchPanel : System State Action where
  init s := s = .initial
  step := State.step

/-! ## The property -/

/-- What is shown is the answer for the query and the token of the page index. -/
def Matches (s : State) : Prop :=
  ∃ data, (s.currentQuery, s.view.token, data) ∈ s.responses ∧
    s.view.results = data.results ∧ s.view.nextPageToken = data.nextPageToken

/-- With no request in flight, what is shown matches, or the last search failed
and nothing is shown, or nothing was searched for yet. A page turn that failed
has left the view as it was before. -/
structure MatchesShown (s : State) : Prop where
  settled : s.inFlight = [] → Matches s ∨
    (s.searchFailed = true ∧ s.view = resetPagination) ∨
    (s.lastSearch = 0 ∧ s.view = resetPagination)
  turns : ∀ t ∈ s.failedTurns, t.2 = t.1

/-- A search was started after the page turn. -/
def Call.Superseded (c : Call) (s : State) : Prop := c.page.isSome = true ∧ c.number < s.lastSearch

instance (c : Call) (s : State) : Decidable (c.Superseded s) :=
  inferInstanceAs (Decidable (_ ∧ _))

/-- A page turn fails only when a search was started after it, and succeeds only
when none was, or that search is still running. -/
def InTurn (s : State) : Action → Prop
  | .respond number o =>
    ∀ c ∈ s.inFlight, c.number = number → c.page.isSome = true →
      match o with
      | .ok _ => c.Superseded s → s.searching = true
      | .httpError _ | .networkError => c.Superseded s
  | .search _ | .next | .prev => True

instance (s : State) : ∀ a, Decidable (InTurn s a)
  | .respond _ (.ok _) => inferInstanceAs (Decidable (∀ c ∈ s.inFlight, _ → _ → _ → _ = true))
  | .respond _ (.httpError _) | .respond _ .networkError =>
    inferInstanceAs (Decidable (∀ c ∈ s.inFlight, _ → _ → Call.Superseded c s))
  | .search _ | .next | .prev => .isTrue trivial

/-! ## What each step does -/

namespace State

theorem handleSearch_eq_some {s t : State} {query : JsString} (h : s.handleSearch query = some t) :
    s.searching = false ∧ query ≠ [] ∧ t = { s with
      currentQuery := query
      view := resetPagination
      lastSearch := s.nextNumber
      searchFailed := false }.runSearch query none s.view := by
  unfold handleSearch at h
  split at h
  · cases h
  · next hn =>
    cases h
    exact ⟨by simpa using fun hs => hn (.inl hs), fun hq => hn (.inr hq), rfl⟩

theorem handleNext_eq_some {s t : State} (h : s.handleNext = some t) :
    ∃ token, s.shown = true ∧ s.pageLoadingDirection = none ∧
      t = { s with view := { s.view with
        pageTokens := s.view.pageTokens.take (s.view.pageIndex + 1) ++ [some token]
        pageIndex := s.view.pageIndex + 1 } }.runSearch s.currentQuery
          (some ⟨some token, .next⟩) s.view := by
  unfold handleNext at h
  split at h
  · cases h
  · next token _ =>
    split at h
    · next hs => cases h; exact ⟨token, hs.1, hs.2, rfl⟩
    · cases h

theorem handlePrev_eq_some {s t : State} (h : s.handlePrev = some t) :
    0 < s.view.pageIndex ∧ s.shown = true ∧ s.pageLoadingDirection = none ∧
      t = { s with view := { s.view with pageIndex := s.view.pageIndex - 1 } }.runSearch
        s.currentQuery
        (some ⟨({ s.view with pageIndex := s.view.pageIndex - 1 } : View).token, .prev⟩)
        s.view := by
  unfold handlePrev at h
  split at h
  · next hs => cases h; exact ⟨hs.1, hs.2.1, hs.2.2, rfl⟩
  · cases h

theorem shown_searching {s : State} (h : s.shown = true) : s.searching = false := by
  simp only [shown, Bool.and_eq_true, Bool.not_eq_true'] at h
  exact h.2

end State

/-! ## The invariant -/

/-- What is shown when nothing that matters is in flight. -/
def Settled (s : State) : Prop :=
  Matches s ∨ (s.searchFailed = true ∧ s.view = resetPagination) ∨
    (s.lastSearch = 0 ∧ s.view = resetPagination)

/-- At most one search and one page turn are in flight, and the page turn, if no
search was started after it, is for the page at the index. -/
structure PageInv (s : State) : Prop where
  numbers : ∀ c ∈ s.inFlight, ∀ c' ∈ s.inFlight, c.number = c'.number → c = c'
  bound : ∀ c ∈ s.inFlight, c.number < s.nextNumber
  last : s.lastSearch < s.nextNumber
  index : s.view.pageIndex < s.view.pageTokens.length
  search : ∀ c ∈ s.inFlight, c.page = none →
    c.number = s.lastSearch ∧ c.query = s.currentQuery ∧ s.searching = true
  searching : s.searching = true →
    (∃ c ∈ s.inFlight, c.page = none) ∧ s.view.pageTokens = [none] ∧ s.view.pageIndex = 0
  turning : ∀ c ∈ s.inFlight, c.page.isSome = true →
    s.pageLoadingDirection ≠ none ∧ c.number ≠ s.lastSearch
  oneTurn : ∀ c ∈ s.inFlight, ∀ c' ∈ s.inFlight, c.page.isSome = true → c'.page.isSome = true →
    c = c'
  current : ∀ c ∈ s.inFlight, ∀ p, c.page = some p → s.lastSearch < c.number →
    s.searching = false ∧ c.query = s.currentQuery ∧ p.token = s.view.token
  settled : s.searching = false →
    (∀ c ∈ s.inFlight, c.page.isSome = true → c.number < s.lastSearch) → Settled s
  turns : s.failedTurns = []

namespace PaginationLemmas

variable {s : State}

/-- While no search is running, only page turns are in flight. -/
theorem isSome_of_inFlight (hinv : PageInv s) (hs : s.searching = false) {c : Call}
    (hc : c ∈ s.inFlight) : c.page.isSome = true := by
  cases hp : c.page with
  | none =>
    have := (hinv.search c hc hp).2.2
    rw [hs] at this
    cases this
  | some p => rfl

/-- While the results are shown and no page is turned, nothing is in flight. -/
theorem inFlight_of_shown (hinv : PageInv s) (hs : s.searching = false)
    (hd : s.pageLoadingDirection = none) : s.inFlight = [] := by
  refine List.eq_nil_iff_forall_not_mem.mpr fun c hc => ?_
  exact (hinv.turning c hc (isSome_of_inFlight hinv hs hc)).1 hd

theorem pageInv_search {query : JsString} (hinv : PageInv s) (hs : s.searching = false) :
    PageInv ({ s with
      currentQuery := query
      view := resetPagination
      lastSearch := s.nextNumber
      searchFailed := false }.runSearch query none s.view) := by
  constructor
  case numbers =>
    intro c hc c' hc' heq
    rcases List.mem_cons.mp hc with rfl | hc <;> rcases List.mem_cons.mp hc' with rfl | hc'
    · rfl
    · exact absurd heq (Nat.ne_of_gt (hinv.bound c' hc'))
    · exact absurd heq (Nat.ne_of_lt (hinv.bound c hc))
    · exact hinv.numbers c hc c' hc' heq
  case bound =>
    intro c hc
    rcases List.mem_cons.mp hc with rfl | hc
    · exact Nat.lt_succ_self _
    · exact Nat.lt_succ_of_lt (hinv.bound c hc)
  case last => exact Nat.lt_succ_self _
  case index => exact Nat.zero_lt_one
  case search =>
    intro c hc hp
    rcases List.mem_cons.mp hc with rfl | hc
    · exact ⟨rfl, rfl, Bool.or_true _⟩
    · -- no other search is in flight
      have := isSome_of_inFlight hinv hs hc
      rw [hp] at this
      cases this
  case searching => exact fun _ => ⟨⟨_, List.mem_cons_self, rfl⟩, rfl, rfl⟩
  case turning =>
    intro c hc hp
    rcases List.mem_cons.mp hc with rfl | hc
    · cases hp
    · exact ⟨(hinv.turning c hc hp).1, Nat.ne_of_lt (hinv.bound c hc)⟩
  case oneTurn =>
    intro c hc c' hc' hp hp'
    rcases List.mem_cons.mp hc with rfl | hc
    · cases hp
    rcases List.mem_cons.mp hc' with rfl | hc'
    · cases hp'
    exact hinv.oneTurn c hc c' hc' hp hp'
  case current =>
    intro c hc p hp hlt
    rcases List.mem_cons.mp hc with rfl | hc
    · cases hp
    · exact absurd hlt (Nat.lt_asymm (hinv.bound c hc))
  case settled => exact fun h => absurd ((Bool.or_true _).symm.trans h) (by simp)
  case turns => exact hinv.turns

/-- A page turn, to a view with the token that it asks for. -/
theorem pageInv_turn (view : View) (direction : Direction) (hinv : PageInv s)
    (hs : s.searching = false) (hd : s.pageLoadingDirection = none)
    (hindex : view.pageIndex < view.pageTokens.length) :
    PageInv ({ s with view := view }.runSearch s.currentQuery
      (some ⟨view.token, direction⟩) s.view) := by
  have hempty := inFlight_of_shown hinv hs hd
  have hmem : ∀ c ∈ (⟨s.nextNumber, s.currentQuery, some ⟨view.token, direction⟩, s.view⟩ : Call) ::
      s.inFlight, c = ⟨s.nextNumber, s.currentQuery, some ⟨view.token, direction⟩, s.view⟩ := by
    simp [hempty]
  constructor
  case numbers => exact fun c hc c' hc' _ => (hmem c hc).trans (hmem c' hc').symm
  case bound =>
    intro c hc
    rw [hmem c hc]
    exact Nat.lt_succ_self _
  case last => exact Nat.lt_succ_of_lt hinv.last
  case index => exact hindex
  case search =>
    intro c hc hp
    rw [hmem c hc] at hp
    cases hp
  case searching =>
    intro h
    simp [State.runSearch, hs] at h
  case turning =>
    intro c hc _
    rw [hmem c hc]
    exact ⟨by simp [State.runSearch], Nat.ne_of_gt hinv.last⟩
  case oneTurn => exact fun c hc c' hc' _ _ => (hmem c hc).trans (hmem c' hc').symm
  case current =>
    intro c hc p hp _
    rw [hmem c hc] at hp ⊢
    cases hp
    exact ⟨by simp [State.runSearch, hs], rfl, rfl⟩
  case settled =>
    intro _ hold
    have := hold _ List.mem_cons_self rfl
    exact absurd hinv.last (Nat.lt_asymm this)
  case turns => exact hinv.turns

theorem mem_finish {c c' : Call} (h : c' ∈ s.inFlight.filter fun c' => c'.number ≠ c.number) :
    c' ∈ s.inFlight ∧ c'.number ≠ c.number := by
  obtain ⟨hmem, hne⟩ := List.mem_filter.mp h
  exact ⟨hmem, of_decide_eq_true hne⟩

/-- A call ends that leaves the page index and the tokens alone. -/
theorem pageInv_finish {t : State} {c : Call} (hinv : PageInv s) (hc : c ∈ s.inFlight)
    (hin : t.inFlight = s.inFlight.filter fun c' => c'.number ≠ c.number)
    (hnext : t.nextNumber = s.nextNumber) (hlast : t.lastSearch = s.lastSearch)
    (hquery : t.currentQuery = s.currentQuery)
    (htokens : t.view.pageTokens = s.view.pageTokens)
    (hindex : t.view.pageIndex = s.view.pageIndex)
    (hsearching : t.searching = (s.searching && c.page.isSome))
    (hdirection : t.pageLoadingDirection =
      if c.page.isSome then none else s.pageLoadingDirection)
    (hturns : t.failedTurns = s.failedTurns)
    (hsettled : t.searching = false →
      (∀ c' ∈ t.inFlight, c'.page.isSome = true → c'.number < t.lastSearch) → Settled t) :
    PageInv t := by
  have hmem : ∀ c' ∈ t.inFlight, c' ∈ s.inFlight ∧ c'.number ≠ c.number := by
    rw [hin]
    exact fun c' hc' => mem_finish hc'
  have htoken : t.view.token = s.view.token := by rw [View.token, htokens, hindex, View.token]
  constructor
  case numbers => exact fun c' h' c'' h'' => hinv.numbers c' (hmem c' h').1 c'' (hmem c'' h'').1
  case bound => rw [hnext]; exact fun c' h' => hinv.bound c' (hmem c' h').1
  case last => rw [hlast, hnext]; exact hinv.last
  case index => rw [htokens, hindex]; exact hinv.index
  case search =>
    intro c' h' hp
    obtain ⟨hc', hne⟩ := hmem c' h'
    obtain ⟨hnum, hq, hs⟩ := hinv.search c' hc' hp
    rw [hlast, hquery, hsearching, hs, Bool.true_and]
    refine ⟨hnum, hq, ?_⟩
    cases hcp : c.page with
    | none => exact absurd (hnum.trans (hinv.search c hc hcp).1.symm) hne
    | some p => rfl
  case searching =>
    intro h
    obtain ⟨hs, hcp⟩ := Bool.and_eq_true_iff.mp (hsearching.symm.trans h)
    obtain ⟨⟨c', hc', hp⟩, hview⟩ := hinv.searching hs
    rw [htokens, hindex]
    refine ⟨⟨c', ?_, hp⟩, hview⟩
    rw [hin]
    refine List.mem_filter.mpr ⟨hc', decide_eq_true fun heq => ?_⟩
    rw [← hinv.numbers c' hc' c hc heq, hp] at hcp
    cases hcp
  case turning =>
    intro c' h' hp
    obtain ⟨hc', hne⟩ := hmem c' h'
    obtain ⟨hd, hnum⟩ := hinv.turning c' hc' hp
    rw [hdirection, hlast]
    refine ⟨?_, hnum⟩
    split
    · next hcp => exact absurd (congrArg Call.number (hinv.oneTurn c' hc' c hc hp hcp)) hne
    · exact hd
  case oneTurn => exact fun c' h' c'' h'' => hinv.oneTurn c' (hmem c' h').1 c'' (hmem c'' h'').1
  case current =>
    intro c' h' p hp hlt
    rw [hlast] at hlt
    obtain ⟨hs, hq, ht⟩ := hinv.current c' (hmem c' h').1 p hp hlt
    rw [hsearching, hs, hquery, htoken]
    exact ⟨rfl, hq, ht⟩
  case settled => exact hsettled
  case turns => rw [hturns]; exact hinv.turns

theorem pageInv_ok {c : Call} {data : Page} (hinv : PageInv s) (hc : c ∈ s.inFlight)
    (hin : c.page.isSome = true → c.Superseded s → s.searching = true) :
    PageInv (s.respond c (.ok data)) := by
  refine pageInv_finish hinv hc rfl rfl rfl rfl rfl rfl rfl rfl rfl fun ht _ => .inl ?_
  refine ⟨data, ?_, rfl, rfl⟩
  show (s.currentQuery, s.view.token, data) ∈ (c.query, c.page.bind PageTurn.token, data) :: _
  cases hp : c.page with
  | none =>
    obtain ⟨-, hq, hs⟩ := hinv.search c hc hp
    obtain ⟨-, htokens, hindex⟩ := hinv.searching hs
    have htoken : s.view.token = none := by simp [View.token, htokens, hindex]
    rw [hq, htoken]
    exact List.mem_cons_self
  | some p =>
    have hpage : c.page.isSome = true := by rw [hp]; rfl
    have hs : s.searching = false := by
      simpa [State.respond, State.finish, State.succeed, hp] using ht
    have hlt : s.lastSearch < c.number := by
      refine Nat.lt_of_le_of_ne (Nat.le_of_not_lt fun hlt => ?_) (hinv.turning c hc hpage).2.symm
      rw [hin hpage ⟨hpage, hlt⟩] at hs
      cases hs
    obtain ⟨-, hq, htoken⟩ := hinv.current c hc p hp hlt
    rw [hq, ← htoken]
    exact List.mem_cons_self

theorem pageInv_fail {c : Call} {text : String} (hinv : PageInv s) (hc : c ∈ s.inFlight)
    (hin : c.page.isSome = true → c.Superseded s) : PageInv ((s.fail c text).finish c) := by
  cases hp : c.page with
  | none =>
    obtain ⟨-, -, hs⟩ := hinv.search c hc hp
    obtain ⟨-, htokens, hindex⟩ := hinv.searching hs
    have hview : ((s.fail c text).finish c).view = resetPagination := by
      simp [State.finish, State.fail, hp]
    refine pageInv_finish hinv hc rfl rfl rfl rfl ?_ ?_ rfl rfl ?_
      fun _ _ => .inr (.inl ⟨?_, hview⟩)
    · rw [hview, htokens]; rfl
    · rw [hview, hindex]; rfl
    · simp [State.finish, State.fail, hp]
    · simp [State.finish, State.fail, hp]
  | some p =>
    have hpage : c.page.isSome = true := by rw [hp]; rfl
    have hlt := (hin hpage).2
    have hview : ((s.fail c text).finish c).view = s.view := by
      simp [State.finish, State.fail, hp]
    refine pageInv_finish hinv hc rfl rfl rfl rfl ?_ ?_ rfl rfl ?_ fun ht _ => ?_
    · rw [hview]
    · rw [hview]
    · simp [State.finish, State.fail, Nat.lt_asymm hlt]
    · have hs : s.searching = false := by simpa [State.finish, State.fail, hp] using ht
      -- the failed call was the only page turn
      have hsettled := hinv.settled hs fun c' hc' hp' => by
        rw [hinv.oneTurn c' hc' c hc hp' hpage]
        exact hlt
      have hfailed : ((s.fail c text).finish c).searchFailed = s.searchFailed := by
        simp [State.finish, State.fail, hp]
      rw [Settled, Matches, hview, hfailed]
      exact hsettled

theorem pageInv_step {t : State} {a : Action} (hinv : PageInv s) (ha : InTurn s a)
    (h : s.step a = some t) : PageInv t := by
  cases a with
  | search query =>
    obtain ⟨hs, -, rfl⟩ := State.handleSearch_eq_some h
    exact pageInv_search hinv hs
  | next =>
    obtain ⟨token, hshown, hd, rfl⟩ := State.handleNext_eq_some h
    have hindex := hinv.index
    have hlen : (s.view.pageTokens.take (s.view.pageIndex + 1)).length = s.view.pageIndex + 1 := by
      rw [List.length_take]
      omega
    have htoken : View.token { s.view with
        pageTokens := s.view.pageTokens.take (s.view.pageIndex + 1) ++ [some token]
        pageIndex := s.view.pageIndex + 1 } = some token := by
      simp only [View.token]
      rw [List.getElem?_append_right (Nat.le_of_eq hlen), hlen, Nat.sub_self]
      rfl
    have hturn := pageInv_turn { s.view with
        pageTokens := s.view.pageTokens.take (s.view.pageIndex + 1) ++ [some token]
        pageIndex := s.view.pageIndex + 1 } .next hinv (State.shown_searching hshown) hd
      (by simp [hlen])
    rwa [htoken] at hturn
  | prev =>
    obtain ⟨hpos, hshown, hd, rfl⟩ := State.handlePrev_eq_some h
    exact pageInv_turn _ .prev hinv (State.shown_searching hshown) hd
      (Nat.lt_of_le_of_lt (Nat.sub_le _ _) hinv.index)
  | respond number o =>
    obtain ⟨c, hfind, rfl⟩ := Option.map_eq_some_iff.mp h
    have hc := List.mem_of_find?_eq_some hfind
    have hnum : c.number = number := by simpa using List.find?_some hfind
    have hturn := ha c hc hnum
    cases o with
    | ok data => exact pageInv_ok hinv hc hturn
    | httpError status => exact pageInv_fail hinv hc hturn
    | networkError => exact pageInv_fail hinv hc hturn

theorem pageInv_initial : PageInv .initial := by
  constructor <;> simp [State.initial, resetPagination, Settled]

end PaginationLemmas

open PaginationLemmas

/-! ## Runs -/

/-- In every run whose page turns are answered in turn, what is shown matches the
query, the page index and the tokens. -/
theorem pagination_matches {s : State} (h : Reach searchPanel InTurn s) : MatchesShown s := by
  have hinv : PageInv s := by
    refine h.invariant ?_ fun _ _ _ _ hi ha hs => pageInv_step hi ha hs
    rintro _ rfl
    exact pageInv_initial
  constructor
  case settled =>
    intro hempty
    have hs : s.searching = false := by
      by_contra hs
      obtain ⟨⟨c, hc, -⟩, -⟩ := hinv.searching (eq_true_of_ne_false hs)
      rw [hempty] at hc
      exact List.not_mem_nil hc
    refine hinv.settled hs fun c hc => ?_
    rw [hempty] at hc
    exact absurd hc List.not_mem_nil
  case turns =>
    rw [hinv.turns]
    exact fun t ht => absurd ht List.not_mem_nil

def text (s : String) : JsString := JsString.ofString s

def song (title : String) : SearchResult := ⟨text title, text title, text "channel", []⟩

/-- A page of one song, with the token of the next one. -/
def onePage (title token : String) : Page := ⟨[song title], some (text token), none⟩

/-- The next page, a new search while it is loading, and both answers. -/
theorem pagination_matches_searched : ∃ s, Reach searchPanel InTurn s ∧
    s.inFlight = [] ∧ s.currentQuery = text "b" ∧ s.view.results = [song "third"] ∧
      MatchesShown s := by
  obtain ⟨s, hs, hp⟩ := Reach.of_guardedRun (S := searchPanel) (C := InTurn)
    (p := fun s => s.inFlight = [] ∧ s.currentQuery = text "b" ∧
      s.view.results = [song "third"])
    [.search (text "a"), .respond 1 (.ok (onePage "first" "x")), .next, .search (text "b"),
      .respond 2 (.ok (onePage "second" "y")), .respond 3 (.ok (onePage "third" "z"))]
    (show searchPanel.init .initial from rfl) (by decide +kernel)
  obtain ⟨hempty, hquery, hresults⟩ := of_decide_eq_true hp
  exact ⟨s, hs, hempty, hquery, hresults, pagination_matches hs⟩

/-- The next page fails: the first page's results are left at the index and the
token of the second one. -/
theorem failed_turn_advances : ∃ s, Reachable searchPanel s ∧ s.inFlight = [] ∧
    s.view = ⟨[song "first"], some (text "x"), [none, some (text "x")], 1⟩ ∧
    s.responses = [(text "a", none, onePage "first" "x")] ∧ ¬ MatchesShown s := by
  obtain ⟨s, hs, hp⟩ := Reachable.of_run (S := searchPanel)
    (p := fun s => s.inFlight = [] ∧
      s.view = ⟨[song "first"], some (text "x"), [none, some (text "x")], 1⟩ ∧
      s.responses = [(text "a", none, onePage "first" "x")] ∧ s.searchFailed = false)
    [.search (text "a"), .respond 1 (.ok (onePage "first" "x")), .next, .respond 2 .networkError]
    (show searchPanel.init .initial from rfl) (by decide +kernel)
  obtain ⟨hempty, hview, hresponses, hfailed⟩ := of_decide_eq_true hp
  refine ⟨s, hs, hempty, hview, hresponses, fun h => ?_⟩
  rcases h.settled hempty with ⟨data, hmem, -⟩ | ⟨hfail, -⟩ | ⟨-, hreset⟩
  · rw [hresponses, hview] at hmem
    have htoken := (Prod.mk.inj (Prod.mk.inj (List.mem_singleton.mp hmem)).2).1
    cases htoken
  · rw [hfailed] at hfail
    cases hfail
  · rw [hview] at hreset
    cases hreset

/-- The next page is answered after a new search: its results are left under the
new query. -/
theorem late_turn_overwrites : ∃ s, Reachable searchPanel s ∧ s.inFlight = [] ∧
    s.currentQuery = text "b" ∧ s.view.results = [song "second"] ∧
    s.responses = [(text "a", some (text "x"), onePage "second" "y"),
      (text "b", none, onePage "third" "z"), (text "a", none, onePage "first" "x")] ∧
    ¬ MatchesShown s := by
  obtain ⟨s, hs, hp⟩ := Reachable.of_run (S := searchPanel)
    (p := fun s => s.inFlight = [] ∧ s.currentQuery = text "b" ∧
      s.view = ⟨[song "second"], some (text "y"), [none], 0⟩ ∧
      s.responses = [(text "a", some (text "x"), onePage "second" "y"),
        (text "b", none, onePage "third" "z"), (text "a", none, onePage "first" "x")] ∧
      s.searchFailed = false)
    [.search (text "a"), .respond 1 (.ok (onePage "first" "x")), .next, .search (text "b"),
      .respond 3 (.ok (onePage "third" "z")), .respond 2 (.ok (onePage "second" "y"))]
    (show searchPanel.init .initial from rfl) (by decide +kernel)
  obtain ⟨hempty, hquery, hview, hresponses, hfailed⟩ := of_decide_eq_true hp
  refine ⟨s, hs, hempty, hquery, by rw [hview], hresponses, fun h => ?_⟩
  rcases h.settled hempty with ⟨data, hmem, hresults, -⟩ | ⟨hfail, -⟩ | ⟨-, hreset⟩
  · have htoken : s.view.token = none := by rw [hview]; rfl
    rw [hresponses, hquery, htoken] at hmem
    rw [hview] at hresults
    simp only [List.mem_cons, Prod.mk.injEq, List.not_mem_nil, or_false, reduceCtorEq, false_and,
      and_false, false_or, true_and] at hmem
    rcases hmem with rfl | ⟨hab, -⟩
    · exact absurd hresults (by decide +kernel)
    · exact absurd hab (by decide +kernel)
  · rw [hfailed] at hfail
    cases hfail
  · rw [hview] at hreset
    cases hreset

end RadioJockey.Pagination
