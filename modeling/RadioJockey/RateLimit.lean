import Mathlib.Data.List.DropRight
import Mathlib.Data.Rat.Floor
import RadioJockey.Connect
import RadioJockey.Lib.TokenBucket
import RadioJockey.Lib.Transition

/-!
# Rate limits (`connect/ratelimit.go`, `connect/interceptor.go`)

A client is told apart by the last entry of `X-Forwarded-For`, which the proxy
appends. Its token bucket is made when it is first seen, and thrown away by a
sweep after `maxIdle` without a request. `rate.Limiter` is taken as the ideal
bucket of `TokenBucket`.

* `clientKey_forwarded`: the key is the peer address, whatever the client puts
  in front of it.
* `own_budget`: in every run, the answers to the requests of a peer are those of
  one bucket that is made at its first request and fed with its requests alone.
  A purged bucket was full, as `burst ≤ rps * maxIdle`, and so is its successor.
-/

namespace RadioJockey.RateLimit

open Transition TokenBucket

/-- Seconds, for instants and for durations. -/
abbrev Time := ℚ

/-! ## `ratelimit.go` -/

structure IPLimiterEntry where
  limiter : Limiter Time
  lastSeen : Time

structure IPRateLimiter where
  limiters : String → Option IPLimiterEntry
  rps : ℚ
  burst : ℤ

def newIPRateLimiter (rps : ℚ) (burst : ℤ) : IPRateLimiter := ⟨fun _ => none, rps, burst⟩

namespace IPRateLimiter

/-- The locked section, at one instant. -/
def allow (r : IPRateLimiter) (key : String) (now : Time) : Bool × IPRateLimiter :=
  let limiter := ((r.limiters key).map IPLimiterEntry.limiter).getD (newLimiter r.rps r.burst now)
  let a := limiter.allow now
  (a.1, { r with limiters := Function.update r.limiters key (some ⟨a.2, now⟩) })

/-- One tick of `startCleanup`. -/
def cleanup (r : IPRateLimiter) (maxIdle now : Time) : IPRateLimiter :=
  { r with limiters := fun key => (r.limiters key).filter fun e => ¬ now - e.lastSeen > maxIdle }

end IPRateLimiter

/-- `header` is the first `X-Forwarded-For` line; an absent one reads as `""`. -/
structure Request where
  procedure : Procedure
  header : String
  peerAddr : String

/-- `net.SplitHostPort`. The port starts after the last colon. -/
def splitHostPort (hostport : String) : Option (String × String) :=
  let cs := hostport.toList
  let port := cs.rtakeWhile (· != ':')
  let host := cs.take (cs.length - port.length - 1)
  if ':' ∉ cs then none
  else if host.head? = some '[' then
    let inner := host.tail.dropLast
    if host.tail.getLast? = some ']' ∧ '[' ∉ inner ++ port ∧ ']' ∉ inner ++ port then
      some (String.ofList inner, String.ofList port)
    else none
  else if ':' ∈ host ∨ '[' ∈ cs ∨ ']' ∈ cs then none
  else some (String.ofList host, String.ofList port)

example : splitHostPort "[::1]:8080" = some ("::1", "8080") := by decide +kernel

/-- `strings.Split(s, ",")`, which has at least one part. -/
def splitComma (s : String) : List String := (s.toList.splitOn ',').map String.ofList

def clientKey (req : Request) : String :=
  if req.header ≠ "" then
    trimSpace ((splitComma req.header).getLastD "")
  else
    match splitHostPort req.peerAddr with
    | none => req.peerAddr
    | some (host, _) => host

/-! ## `interceptor.go`, `server.go` -/

def rateLimitedProcedures : List Procedure := [.createSession, .addTrack, .removeTrack, .skipTrack]

/-- `none` lets the request through. -/
def rateLimitInterceptor (r : IPRateLimiter) (req : Request) (now : Time) :
    Option Code × IPRateLimiter :=
  if req.procedure ∈ rateLimitedProcedures then
    let a := r.allow (clientKey req) now
    (if a.1 then none else some .resourceExhausted, a.2)
  else (none, r)

/-- What `CreateServer` hands to `startCleanup`. -/
def rateLimitMaxIdle : Time := 30 * 60

/-! ## The proxy -/

/-- The address of a client as the proxy sees it. -/
structure Peer where
  addr : String
  nonempty : addr ≠ ""
  plain : ∀ c ∈ addr.toList, c ≠ ',' ∧ isSpace c = false
  deriving DecidableEq

/-- The line that the proxy delivers when the client sent `text`, or no such
line. -/
def forwarded (p : Peer) : Option String → String
  | none => p.addr
  | some text => text ++ ", " ++ p.addr

theorem trimSpace_space_plain {cs : List Char} (h : ∀ c ∈ cs, isSpace c = false) :
    trimSpace (String.ofList (' ' :: cs)) = String.ofList cs := by
  have hspace : isSpace ' ' = true := by decide
  have hplain := trimSpace_plain h
  rw [trimSpace, String.toList_ofList] at hplain ⊢
  rw [List.dropWhile_cons_of_pos hspace, hplain]

theorem clientKey_of_header {req : Request} (h : req.header ≠ "") :
    clientKey req = trimSpace ((splitComma req.header).getLastD "") := if_pos h

/-- What the client sent is cut off. -/
theorem clientKey_forwarded (proc : Procedure) (p : Peer) (text : Option String) (addr : String) :
    clientKey ⟨proc, forwarded p text, addr⟩ = p.addr := by
  have hcomma : ',' ∉ p.addr.toList := fun h => (p.plain _ h).1 rfl
  have hspace : ∀ c ∈ p.addr.toList, isSpace c = false := fun c h => (p.plain c h).2
  cases text with
  | none =>
    rw [clientKey_of_header p.nonempty]
    simp only [forwarded, splitComma, List.splitOn_eq_singleton hcomma]
    exact (trimSpace_plain hspace).trans String.ofList_toList
  | some text =>
    have hline : (forwarded p (some text)).toList =
        text.toList ++ ',' :: ' ' :: p.addr.toList := by
      simp [forwarded]
    have hne : forwarded p (some text) ≠ "" := fun h => by
      rw [h] at hline
      simp at hline
    have hlast : ',' ∉ ' ' :: p.addr.toList := by simpa using hcomma
    rw [clientKey_of_header hne]
    simp only [splitComma, hline, List.splitOn_append_cons_self, List.splitOn_eq_singleton hlast,
      List.map_append, List.map_cons, List.map_nil, List.getLastD_concat]
    exact (trimSpace_space_plain hspace).trans String.ofList_toList

/-! ## Runs -/

/-- A request as the proxy passed it on, and the answer of the interceptor. -/
structure Answered where
  procedure : Procedure
  peer : Peer
  time : Time
  err : Option Code
  deriving DecidableEq

/-- `answered` is oldest first. -/
structure State where
  limiter : IPRateLimiter
  now : Time
  answered : List Answered

/-- Who asks, and when. The direct peer of the connection is the proxy at
`proxyAddr`. -/
inductive Action
  | request (proc : Procedure) (p : Peer) (text : Option String) (proxyAddr : String) (now : Time)
  | cleanup (now : Time)

namespace State

def step (maxIdle : Time) (s : State) : Action → Option State
  | .request proc p text proxyAddr now =>
    if s.now ≤ now then
      let r := rateLimitInterceptor s.limiter ⟨proc, forwarded p text, proxyAddr⟩ now
      some ⟨r.2, now, s.answered ++ [⟨proc, p, now, r.1⟩]⟩
    else none
  | .cleanup now =>
    if s.now ≤ now then some ⟨s.limiter.cleanup maxIdle now, now, s.answered⟩ else none

/-- The rate-limited requests of a peer. -/
def limited (s : State) (p : Peer) : List Answered :=
  s.answered.filter fun a => a.procedure ∈ rateLimitedProcedures ∧ a.peer = p

def times (s : State) (p : Peer) : List Time := (s.limited p).map Answered.time

def decisions (s : State) (p : Peer) : List Bool := (s.limited p).map fun a => a.err = none

end State

def limiterSystem (rps : ℚ) (burst : ℤ) (maxIdle : Time) : System State Action where
  init s := s.limiter = newIPRateLimiter rps burst ∧ s.answered = []
  step := State.step maxIdle

/-! ## What a peer sees -/

/-- The bucket `b` is what a peer's requests made of one bucket, and `e` is what
the limiter holds for it. From `now` on, they answer alike. -/
structure Transparent (rps burst now : ℚ) (e : Option IPLimiterEntry) (b : Option (Limiter ℚ)) :
    Prop where
  same : ∀ u, now ≤ u → Limiter.SameFrom u
    ((e.map IPLimiterEntry.limiter).getD (newLimiter rps burst u))
    (b.getD (newLimiter rps burst u))
  params : ∀ c, b = some c → c.limit = rps ∧ c.burst = burst ∧ 0 ≤ c.tokens
  /-- An entry is made at the first request, which is when the bucket is. -/
  known : b = none → e = none
  seen : ∀ c, b = some c → c.last ≤ now ∧ ∀ x, e = some x → c.last ≤ x.lastSeen

namespace Transparent

variable {rps burst now t : ℚ} {e : Option IPLimiterEntry} {b : Option (Limiter ℚ)}

theorem later (h : Transparent rps burst now e b) (ht : now ≤ t) : Transparent rps burst t e b where
  same u hu := h.same u (ht.trans hu)
  params := h.params
  known := h.known
  seen c hc := ⟨(h.seen c hc).1.trans ht, (h.seen c hc).2⟩

theorem new : Transparent rps burst now none none where
  same _ _ := ⟨rfl, rfl, rfl⟩
  params := nofun
  known _ := rfl
  seen := nofun

/-- Both give the same answer, and are alike afterwards. -/
theorem request (h : Transparent rps burst now e b) (ht : now ≤ t) (hrps : 0 ≤ rps)
    (hburst : 0 ≤ burst) :
    let a := ((e.map IPLimiterEntry.limiter).getD (newLimiter rps burst t)).allow t
    let a' := (b.getD (newLimiter rps burst t)).allow t
    a.1 = a'.1 ∧ Transparent rps burst t (some ⟨a.2, t⟩) (some a'.2) := by
  intro a a'
  obtain ⟨hanswer, hsame⟩ := (h.same t ht).allow
  have hcurrent : (b.getD (newLimiter rps burst t)).limit = rps ∧
      (b.getD (newLimiter rps burst t)).burst = burst ∧
      0 ≤ (b.getD (newLimiter rps burst t)).tokens ∧
      (b.getD (newLimiter rps burst t)).last ≤ t := by
    cases hb : b with
    | none => exact ⟨rfl, rfl, hburst, le_rfl⟩
    | some c =>
      obtain ⟨hlimit, hburst', htokens⟩ := h.params c hb
      exact ⟨hlimit, hburst', htokens, (h.seen c hb).1.trans ht⟩
  obtain ⟨hlimit, hburst', htokens, hlast⟩ := hcurrent
  obtain ⟨hl, hb⟩ := allow_params (b.getD (newLimiter rps burst t)) t
  have hlast' := allow_last_le hlast
  refine ⟨hanswer, ?_, ?_, nofun, ?_⟩
  · intro u hu
    exact hsame.mono (hrps.trans_eq (hl.trans hlimit).symm) hu
  · rintro c ⟨⟩
    exact ⟨hl.trans hlimit, hb.trans hburst', allow_tokens_nonneg htokens⟩
  · rintro c ⟨⟩
    exact ⟨hlast', fun x hx => by cases hx; exact hlast'⟩

/-- A bucket that is purged is full. -/
theorem cleanup (h : Transparent rps burst now e b) (ht : now ≤ t) (hrps : 0 ≤ rps)
    {maxIdle : ℚ} (hidle : burst ≤ rps * maxIdle) :
    Transparent rps burst t (e.filter fun x => ¬ t - x.lastSeen > maxIdle) b := by
  cases he : e with
  | none =>
    rw [he] at h
    exact h.later ht
  | some x =>
    by_cases hx : t - x.lastSeen > maxIdle
    · have hpurged : (some x).filter (fun x => ¬ t - x.lastSeen > maxIdle) = none :=
        Option.filter_some_neg (decide_eq_false (not_not.mpr hx))
      obtain ⟨c, hc⟩ : ∃ c, b = some c :=
        Option.ne_none_iff_exists'.mp fun hb => nomatch (h.known hb).symm.trans he
      obtain ⟨hlimit, hburst, htokens⟩ := h.params c hc
      obtain ⟨hlast, hseen⟩ := h.seen c hc
      rw [hpurged]
      refine ⟨fun u hu => ?_, h.params, fun _ => rfl, fun c hc => ⟨(h.seen c hc).1.trans ht, nofun⟩⟩
      have hfull : c.level u = c.burst := by
        refine level_of_idle htokens ?_
        have hlong : maxIdle ≤ u - c.last := by linarith [hseen x he]
        calc c.burst ≤ rps * maxIdle := hburst ▸ hidle
          _ ≤ rps * (u - c.last) := mul_le_mul_of_nonneg_left hlong hrps
          _ = (u - c.last) * c.limit := by rw [hlimit, mul_comm]
      rw [hc]
      exact sameFrom_new hlimit hburst hfull
    · have hkept : (some x).filter (fun x => ¬ t - x.lastSeen > maxIdle) = some x :=
        Option.filter_some_pos (decide_eq_true hx)
      rw [hkept]
      rw [he] at h
      exact h.later ht

end Transparent

/-! ## Runs of the limiter -/

/-- A request that is not limited passes, and nothing is looked up. -/
theorem rateLimitInterceptor_free {proc : Procedure} (h : proc ∉ rateLimitedProcedures)
    (r : IPRateLimiter) (header addr : String) (now : Time) :
    rateLimitInterceptor r ⟨proc, header, addr⟩ now = (none, r) := if_neg h

/-- A limited request asks the bucket of its peer. -/
theorem rateLimitInterceptor_limited {proc : Procedure} (h : proc ∈ rateLimitedProcedures)
    (r : IPRateLimiter) (p : Peer) (text : Option String) (addr : String) (now : Time) :
    rateLimitInterceptor r ⟨proc, forwarded p text, addr⟩ now =
      (if (r.allow p.addr now).1 then none else some .resourceExhausted,
        (r.allow p.addr now).2) := by
  rw [rateLimitInterceptor, if_pos h, clientKey_forwarded]

theorem Peer.addr_injective {p q : Peer} (h : p.addr = q.addr) : p = q := by
  cases p
  cases q
  cases h
  rfl

namespace State

theorem limited_own (s : State) (r : IPRateLimiter) (t : Time) {a : Answered}
    (h : a.procedure ∈ rateLimitedProcedures) :
    State.limited ⟨r, t, s.answered ++ [a]⟩ a.peer = s.limited a.peer ++ [a] := by
  rw [limited, List.filter_append, List.filter_singleton, decide_eq_true ⟨h, rfl⟩]
  rfl

theorem limited_other (s : State) (r : IPRateLimiter) (t : Time) {a : Answered} {q : Peer}
    (h : a.procedure ∈ rateLimitedProcedures → a.peer ≠ q) :
    State.limited ⟨r, t, s.answered ++ [a]⟩ q = s.limited q := by
  rw [limited, List.filter_append, List.filter_singleton,
    decide_eq_false fun ⟨hproc, hpeer⟩ => h hproc hpeer]
  exact List.append_nil _

end State

variable {rps : ℚ} {burst : ℤ} {maxIdle : Time}

/-- Bucket by bucket, the limiter answers as one bucket for each peer would. -/
structure LimiterInv (rps : ℚ) (burst : ℤ) (s : State) : Prop where
  limits : s.limiter.rps = rps ∧ s.limiter.burst = burst
  own : ∀ p : Peer, Transparent rps burst s.now (s.limiter.limiters p.addr)
    (feed rps burst (s.times p)).2
  answers : ∀ p, s.decisions p = (feed rps burst (s.times p)).1

theorem limiterInv_init {s : State} (h : (limiterSystem rps burst maxIdle).init s) :
    LimiterInv rps burst s := by
  obtain ⟨hlimiter, hanswered⟩ := h
  have hnone : ∀ p, s.limited p = [] := fun p => by rw [State.limited, hanswered]; rfl
  refine ⟨by rw [hlimiter]; exact ⟨rfl, rfl⟩, fun p => ?_, fun p => ?_⟩
  · rw [State.times, hnone, hlimiter]
    exact .new
  · rw [State.decisions, State.times, hnone]
    rfl

theorem limiterInv_cleanup {s : State} {t : Time} (hinv : LimiterInv rps burst s)
    (hrps : 0 ≤ rps) (hidle : burst ≤ rps * maxIdle) (ht : s.now ≤ t) :
    LimiterInv rps burst ⟨s.limiter.cleanup maxIdle t, t, s.answered⟩ where
  limits := hinv.limits
  own p := (hinv.own p).cleanup ht hrps hidle
  answers := hinv.answers

/-- A request that is not limited. -/
theorem limiterInv_free {s : State} {t : Time} (hinv : LimiterInv rps burst s) (ht : s.now ≤ t)
    {a : Answered} (ha : a.procedure ∉ rateLimitedProcedures) :
    LimiterInv rps burst ⟨s.limiter, t, s.answered ++ [a]⟩ := by
  have hsame := fun q => s.limited_other s.limiter t (a := a) (q := q) fun h => absurd h ha
  refine ⟨hinv.limits, fun q => ?_, fun q => ?_⟩
  · rw [State.times, hsame]
    exact (hinv.own q).later ht
  · rw [State.decisions, State.times, hsame]
    exact hinv.answers q

/-- A limited request, of which only the bucket of its peer takes notice. -/
theorem limiterInv_limited {s : State} {a : Answered} (hinv : LimiterInv rps burst s)
    (hrps : 0 ≤ rps) (hburst : (0 : ℚ) ≤ burst) (ht : s.now ≤ a.time)
    (hproc : a.procedure ∈ rateLimitedProcedures)
    (herr : decide (a.err = none) = (s.limiter.allow a.peer.addr a.time).1) :
    LimiterInv rps burst
      ⟨(s.limiter.allow a.peer.addr a.time).2, a.time, s.answered ++ [a]⟩ := by
  obtain ⟨rfl, rfl⟩ := hinv.limits
  obtain ⟨hanswer, hown⟩ := (hinv.own a.peer).request ht hrps hburst
  refine ⟨⟨rfl, rfl⟩, fun q => ?_, fun q => ?_⟩
  all_goals
    rcases eq_or_ne a.peer q with rfl | hne
  · rw [State.times, State.limited_own _ _ _ hproc, List.map_append, List.map_singleton,
      feed_concat]
    show Transparent _ _ a.time (Function.update s.limiter.limiters a.peer.addr _ a.peer.addr) _
    rw [Function.update_self]
    exact hown
  · rw [State.times, State.limited_other _ _ _ fun _ => hne]
    show Transparent _ _ a.time (Function.update s.limiter.limiters a.peer.addr _ q.addr) _
    rw [Function.update_of_ne fun h => hne (Peer.addr_injective h).symm]
    exact (hinv.own q).later ht
  · rw [State.decisions, State.times, State.limited_own _ _ _ hproc, List.map_append,
      List.map_append, List.map_singleton, List.map_singleton, feed_concat, herr]
    exact congrArg₂ (fun l d => l ++ [d]) (hinv.answers a.peer) hanswer
  · rw [State.decisions, State.times, State.limited_other _ _ _ fun _ => hne]
    exact hinv.answers q

theorem limiterInv_step (hrps : 0 ≤ rps) (hburst : (0 : ℚ) ≤ burst)
    (hidle : burst ≤ rps * maxIdle) {s t : State} {a : Action}
    (hinv : LimiterInv rps burst s) (h : s.step maxIdle a = some t) : LimiterInv rps burst t := by
  cases a with
  | request proc p text proxyAddr now =>
    obtain ⟨ht, rfl⟩ := Option.ite_some_none_eq_some.mp h
    by_cases hproc : proc ∈ rateLimitedProcedures
    · rw [rateLimitInterceptor_limited hproc]
      refine limiterInv_limited (a := ⟨proc, p, now, _⟩) hinv hrps hburst ht hproc ?_
      cases (s.limiter.allow p.addr now).1 <;> rfl
    · rw [rateLimitInterceptor_free hproc]
      exact limiterInv_free hinv ht hproc
  | cleanup now =>
    obtain ⟨ht, rfl⟩ := Option.ite_some_none_eq_some.mp h
    exact limiterInv_cleanup hinv hrps hidle ht

/-- Without room for one token everything is denied, and it does not matter
which bucket denies it. -/
structure Closed (s : State) : Prop where
  burst : (s.limiter.burst : ℚ) < 1
  buckets : ∀ key e, s.limiter.limiters key = some e → e.limiter.burst < 1
  denied : ∀ a ∈ s.answered, a.procedure ∈ rateLimitedProcedures → a.err ≠ none

theorem closed_init (hburst : (burst : ℚ) < 1) {s : State}
    (h : (limiterSystem rps burst maxIdle).init s) : Closed s := by
  obtain ⟨hlimiter, hanswered⟩ := h
  refine ⟨hlimiter ▸ hburst, fun key e he => ?_, fun a ha => ?_⟩
  · rw [hlimiter] at he
    cases he
  · rw [hanswered] at ha
    cases ha

/-- The bucket that a request asks is no larger than the others. -/
theorem allow_closed {s : State} (hinv : Closed s) (key : String) (now : Time) :
    (s.limiter.allow key now).1 = false ∧ ∀ k e,
      (s.limiter.allow key now).2.limiters k = some e → e.limiter.burst < 1 := by
  have hcurrent : (((s.limiter.limiters key).map IPLimiterEntry.limiter).getD
      (newLimiter s.limiter.rps s.limiter.burst now)).burst < 1 := by
    cases he : s.limiter.limiters key with
    | none => exact hinv.burst
    | some e => exact hinv.buckets key e he
  have hdeny := allow_of_burst_lt hcurrent now
  refine ⟨congrArg Prod.fst hdeny, fun k e he => ?_⟩
  rcases eq_or_ne k key with rfl | hne
  · rw [IPRateLimiter.allow, hdeny] at he
    simp only [Function.update_self, Option.some.injEq] at he
    exact he ▸ hcurrent
  · exact hinv.buckets k e ((Function.update_of_ne hne ..).symm.trans he)

theorem closed_step {s t : State} {a : Action} (hinv : Closed s) (h : s.step maxIdle a = some t) :
    Closed t := by
  cases a with
  | request proc p text proxyAddr now =>
    obtain ⟨-, rfl⟩ := Option.ite_some_none_eq_some.mp h
    by_cases hproc : proc ∈ rateLimitedProcedures
    · obtain ⟨hdeny, hbuckets⟩ := allow_closed hinv p.addr now
      rw [rateLimitInterceptor_limited hproc, hdeny]
      refine ⟨hinv.burst, hbuckets, fun a ha => ?_⟩
      rcases List.mem_append.mp ha with ha | ha
      · exact hinv.denied a ha
      · rw [List.mem_singleton.mp ha]
        exact fun _ => nofun
    · rw [rateLimitInterceptor_free hproc]
      refine ⟨hinv.burst, hinv.buckets, fun a ha => ?_⟩
      rcases List.mem_append.mp ha with ha | ha
      · exact hinv.denied a ha
      · rw [List.mem_singleton.mp ha]
        exact fun h => absurd h hproc
  | cleanup now =>
    obtain ⟨-, rfl⟩ := Option.ite_some_none_eq_some.mp h
    exact ⟨hinv.burst, fun key e he => hinv.buckets key e (Option.eq_some_of_filter_eq_some he),
      hinv.denied⟩

theorem decisions_closed {s : State} (hinv : Closed s) (hburst : (burst : ℚ) < 1) (p : Peer) :
    s.decisions p = (feed rps burst (s.times p)).1 := by
  have hdenied : ∀ d ∈ s.decisions p, d = false := by
    intro d hd
    obtain ⟨a, ha, rfl⟩ := List.mem_map.mp hd
    obtain ⟨ha, hlimited⟩ := List.mem_filter.mp ha
    exact decide_eq_false (hinv.denied a ha (of_decide_eq_true hlimited).1)
  rw [List.eq_replicate_of_mem hdenied, List.eq_replicate_of_mem (feed_of_burst_lt hburst _),
    feed_length, State.decisions, State.times, List.length_map, List.length_map]

/-! ## Main result -/

/-- The answers to a peer depend on the times of its own requests only, and so
neither on the requests of others, nor on what it sends in the header, nor on
the sweeps. -/
theorem own_budget (hmax : 0 ≤ maxIdle) (hidle : (burst : ℚ) ≤ rps * maxIdle) {s : State}
    (h : Reachable (limiterSystem rps burst maxIdle) s) (p : Peer) :
    s.decisions p = (feed rps burst (s.times p)).1 := by
  rcases le_or_gt (1 : ℚ) burst with hone | hone
  · have hburst : (0 : ℚ) ≤ burst := zero_le_one.trans hone
    have hrps : 0 ≤ rps := by
      by_contra hneg
      -- nothing flows in
      have := mul_nonpos_of_nonpos_of_nonneg (not_le.mp hneg).le hmax
      linarith
    exact (h.invariant (I := LimiterInv rps burst) (fun _ => limiterInv_init)
      fun _ _ _ _ hinv _ hs => limiterInv_step hrps hburst hidle hinv hs).answers p
  · exact decisions_closed (h.invariant (I := Closed) (fun _ => closed_init hone)
      fun _ _ _ _ hinv _ hs => closed_step hinv hs) hone p

def peerOne : Peer := ⟨"10.0.0.1", by decide, by simp [isSpace]⟩

def peerTwo : Peer := ⟨"10.0.0.2", by decide, by simp [isSpace]⟩

/-- A bucket for one token. The second peer uses the name of the first. The
second request of the first comes too soon, and its third one comes after its
entry was purged. -/
theorem own_budget_purged :
    ∃ s : State, s.decisions peerOne = [true, false, true] ∧
      s.decisions peerOne = (feed (1 / 1800) ((1 : ℤ) : ℚ) (s.times peerOne)).1 := by
  obtain ⟨s, hs, hdecisions⟩ := Reachable.of_run (S := limiterSystem (1 / 1800) 1 rateLimitMaxIdle)
    (p := fun s => s.decisions peerOne = [true, false, true])
    [.request .skipTrack peerOne none "172.18.0.2:4711" 0,
      .request .addTrack peerTwo (some "10.0.0.1") "172.18.0.2:4711" 1,
      .request .skipTrack peerOne (some "a,") "172.18.0.2:4711" 2,
      .cleanup 1803,
      .request .skipTrack peerOne none "172.18.0.2:4711" 1804]
    (show (limiterSystem (1 / 1800) 1 rateLimitMaxIdle).init
      ⟨newIPRateLimiter (1 / 1800) 1, 0, []⟩ from ⟨rfl, rfl⟩)
    (by decide +kernel)
  exact ⟨s, of_decide_eq_true hdecisions, own_budget (by norm_num [rateLimitMaxIdle])
    (by norm_num [rateLimitMaxIdle]) hs peerOne⟩

end RadioJockey.RateLimit
