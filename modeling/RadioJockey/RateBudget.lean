import Mathlib.Data.Set.Card
import RadioJockey.RateLimit

/-!
# Bounds for the rate limiter (`connect/ratelimit.go`, `connect/server.go`)

The sweeps forget the buckets of idle clients, so that the table of buckets does
not grow with the clients that were ever seen.

1. `passed_le`: in every run, with any bucket size and any `maxIdle`, the
   requests of a peer that pass between two instants are at most the bucket and
   what flows in between them, at the rate `rps` or at that at which sweeps
   refill a bucket, whichever is higher.
2. `entries_recent`: as long as the sweeps come in time, each bucket in the
   table belongs to a client that was seen in the last `maxIdle + interval`.
-/

namespace RadioJockey.RateLimit

open Transition TokenBucket

namespace State

/-- The times of the limited requests of a peer that passed. -/
def passedTimes (s : State) (p : Peer) : List Time :=
  ((s.limited p).filter fun a => a.err = none).map Answered.time

/-- How many of them passed from `a` to `b`. -/
def passed (s : State) (p : Peer) (a b : Time) : Nat :=
  (s.passedTimes p).countP fun t => a ≤ t ∧ t ≤ b

end State

/-- The rate at which tokens come back at most: a sweep may fill a bucket that
was idle for `maxIdle`. -/
def refillRate (rps : ℚ) (burst : ℤ) (maxIdle : Time) : ℚ := max rps (burst / maxIdle)

/-- `tokens` bounds what the client can spend at `now`, with the bucket that the
limiter holds for it or with a new one. `ts` are the times at which it has
spent. -/
structure Budget (rps burst rate now : ℚ) (e : Option IPLimiterEntry) (ts : List Time)
    (tokens : ℚ) : Prop where
  nonneg : 0 ≤ tokens
  le_burst : tokens ≤ burst
  params : ∀ x, e = some x → x.limiter.limit = rps ∧ x.limiter.burst = burst
  level : ∀ x, e = some x → x.limiter.level now ≤ tokens
  new : e = none → tokens = burst
  /-- A bucket that is purged must not have more than that. -/
  idle : ∀ x, e = some x → min burst (rate * (now - x.lastSeen)) ≤ tokens
  past : ∀ t ∈ ts, t ≤ now
  since : ∀ a ≤ now, (ts.countP fun t => a ≤ t) + tokens ≤ burst + rate * (now - a)
  window : ∀ a b, a ≤ b → (ts.countP fun t => a ≤ t ∧ t ≤ b) ≤ burst + rate * (b - a)

namespace Budget

variable {rps burst rate now t tokens : ℚ} {e : Option IPLimiterEntry} {ts : List Time}

theorem init (hburst : 0 ≤ burst) (hrate : 0 ≤ rate) : Budget rps burst rate now none [] burst where
  nonneg := hburst
  le_burst := le_rfl
  params _ h := nomatch h
  level _ h := nomatch h
  new _ := rfl
  idle _ h := nomatch h
  past _ h := nomatch h
  since a ha := by
    have := mul_nonneg hrate (sub_nonneg.mpr ha)
    simpa using this
  window a b hab := by
    have := mul_nonneg hrate (sub_nonneg.mpr hab)
    simpa using add_nonneg hburst this

/-- Tokens flow in. -/
theorem later (h : Budget rps burst rate now e ts tokens) (ht : now ≤ t) (hrps : 0 ≤ rps)
    (hrate : rps ≤ rate) :
    Budget rps burst rate t e ts (min burst (tokens + rate * (t - now))) := by
  have hinflow : 0 ≤ rate * (t - now) := mul_nonneg (hrps.trans hrate) (sub_nonneg.mpr ht)
  have hburst : 0 ≤ burst := h.nonneg.trans h.le_burst
  refine ⟨le_min hburst (add_nonneg h.nonneg hinflow), min_le_left _ _, h.params, ?_, ?_, ?_,
    fun u hu => (h.past u hu).trans ht, ?_, h.window⟩
  · intro x hx
    obtain ⟨hlimit, hb⟩ := h.params x hx
    rw [level_later (hrps.trans_eq hlimit.symm) ht, hlimit, hb]
    refine min_le_min_left _ (add_le_add (h.level x hx) ?_)
    rw [mul_comm]
    exact mul_le_mul_of_nonneg_right hrate (sub_nonneg.mpr ht)
  · intro he
    rw [h.new he]
    exact min_eq_left (le_add_of_nonneg_right hinflow)
  · intro x hx
    have hidle := h.idle x hx
    have hsplit : rate * (t - x.lastSeen) = rate * (now - x.lastSeen) + rate * (t - now) := by ring
    rw [hsplit]
    rcases min_le_iff.mp hidle with hfull | hpart
    · exact (min_le_left _ _).trans (le_min le_rfl (hfull.trans (le_add_of_nonneg_right hinflow)))
    · exact min_le_min_left _ (add_le_add_left hpart _)
  · intro a ha
    rcases le_or_gt a now with hnow | hnow
    · have hsince := h.since a hnow
      have hle := min_le_right burst (tokens + rate * (t - now))
      linarith
    · -- nothing was spent since
      have hnone : (ts.countP fun u => decide (a ≤ u)) = 0 :=
        List.countP_eq_zero.mpr fun u hu hau =>
          absurd ((of_decide_eq_true hau).trans (h.past u hu)) (not_le.mpr hnow)
      rw [hnone, Nat.cast_zero, zero_add]
      exact (min_le_left _ _).trans
        (le_add_of_nonneg_right (mul_nonneg (hrps.trans hrate) (sub_nonneg.mpr ha)))

/-- What is purged has been idle for so long that the budget is full. -/
theorem cleanup (h : Budget rps burst rate now e ts tokens) {maxIdle : ℚ} (hrate : 0 ≤ rate)
    (hidle : burst ≤ rate * maxIdle) :
    Budget rps burst rate now (e.filter fun x => ¬ now - x.lastSeen > maxIdle) ts tokens := by
  have hkept : ∀ x, e.filter (fun x => ¬ now - x.lastSeen > maxIdle) = some x → e = some x :=
    fun x hx => Option.eq_some_of_filter_eq_some hx
  refine ⟨h.nonneg, h.le_burst, fun x hx => h.params x (hkept x hx),
    fun x hx => h.level x (hkept x hx), fun hnone => ?_, fun x hx => h.idle x (hkept x hx), h.past,
    h.since, h.window⟩
  cases he : e with
  | none => exact h.new he
  | some x =>
    rw [he, Option.filter_eq_none_iff] at hnone
    have hlong : maxIdle < now - x.lastSeen := by simpa [lt_sub_iff_add_lt] using hnone x rfl
    have hfull : burst ≤ rate * (now - x.lastSeen) :=
      hidle.trans (mul_le_mul_of_nonneg_left hlong.le hrate)
    have := h.idle x he
    rw [min_eq_left hfull] at this
    exact le_antisymm h.le_burst this

/-- The bucket that is asked has at most the budget. -/
theorem current (h : Budget rps burst rate now e ts tokens) :
    let b := (e.map IPLimiterEntry.limiter).getD (newLimiter rps burst now)
    b.limit = rps ∧ b.burst = burst ∧ b.level now ≤ tokens := by
  cases he : e with
  | none => exact ⟨rfl, rfl, (level_new rps burst now).trans_le (h.new he).ge⟩
  | some x => exact ⟨(h.params x he).1, (h.params x he).2, h.level x he⟩

/-- A request that is denied changes nothing but the time of the last one. -/
theorem deny (h : Budget rps burst rate now e ts tokens) {b : Limiter Time}
    (hb : b.limit = rps ∧ b.burst = burst ∧ b.level now ≤ tokens) :
    Budget rps burst rate now (some ⟨b, now⟩) ts tokens where
  nonneg := h.nonneg
  le_burst := h.le_burst
  params x hx := by
    cases hx
    exact ⟨hb.1, hb.2.1⟩
  level x hx := by
    cases hx
    exact hb.2.2
  new he := nomatch he
  idle x hx := by
    cases hx
    rw [sub_self, mul_zero]
    exact (min_le_right _ _).trans h.nonneg
  past := h.past
  since := h.since
  window := h.window

/-- A request that passes costs one token. -/
theorem pass (h : Budget rps burst rate now e ts tokens) (hrate : 0 ≤ rate) {b : Limiter Time}
    (hone : 1 ≤ tokens) (hb : b.limit = rps ∧ b.burst = burst ∧ b.level now ≤ tokens - 1) :
    Budget rps burst rate now (some ⟨b, now⟩) (ts ++ [now]) (tokens - 1) := by
  refine ⟨sub_nonneg.mpr hone, (sub_le_self _ zero_le_one).trans h.le_burst, ?_, ?_, nofun, ?_, ?_,
    ?_, ?_⟩
  · rintro x ⟨⟩
    exact ⟨hb.1, hb.2.1⟩
  · rintro x ⟨⟩
    exact hb.2.2
  · rintro x ⟨⟩
    rw [sub_self, mul_zero]
    exact (min_le_right _ _).trans (sub_nonneg.mpr hone)
  · intro u hu
    rcases List.mem_append.mp hu with hu | hu
    · exact h.past u hu
    · exact (List.mem_singleton.mp hu).le
  · intro a ha
    have hsince := h.since a ha
    rw [List.countP_append, List.countP_singleton, if_pos (decide_eq_true ha), Nat.cast_add,
      Nat.cast_one]
    linarith
  · intro a b hab
    rw [List.countP_append, List.countP_singleton]
    by_cases hin : a ≤ now ∧ now ≤ b
    · -- what passed in the window passed since its start
      have hle : (ts.countP fun u => decide (a ≤ u ∧ u ≤ b)) ≤ ts.countP fun u => decide (a ≤ u) :=
        List.countP_mono_left fun u _ hu => decide_eq_true (of_decide_eq_true hu).1
      have hle' : ((ts.countP fun u => decide (a ≤ u ∧ u ≤ b) : ℕ) : ℚ) ≤
          (ts.countP fun u => decide (a ≤ u) : ℕ) := Nat.cast_le.mpr hle
      have hsince := h.since a hin.1
      have hflow : rate * (now - a) ≤ rate * (b - a) :=
        mul_le_mul_of_nonneg_left (sub_le_sub_right hin.2 a) hrate
      rw [if_pos (decide_eq_true hin), Nat.cast_add, Nat.cast_one]
      linarith
    · rw [if_neg (by simpa using hin), add_zero]
      exact h.window a b hab

theorem request (h : Budget rps burst rate now e ts tokens) (hrate : 0 ≤ rate) :
    let a := ((e.map IPLimiterEntry.limiter).getD (newLimiter rps burst now)).allow now
    ∃ tokens', Budget rps burst rate now (some ⟨a.2, now⟩) (if a.1 then ts ++ [now] else ts)
      tokens' := by
  intro a
  obtain ⟨hlimit, hburst, hlevel⟩ := h.current
  rcases le_or_gt 1 (((e.map IPLimiterEntry.limiter).getD (newLimiter rps burst now)).level now)
    with hone | hless
  · obtain ⟨hpass, hrest⟩ := allow_of_level_le hone
    obtain ⟨hl, hb⟩ := allow_params
      ((e.map IPLimiterEntry.limiter).getD (newLimiter rps burst now)) now
    refine ⟨tokens - 1, ?_⟩
    rw [if_pos hpass]
    exact h.pass hrate (hone.trans hlevel) ⟨hl.trans hlimit, hb.trans hburst,
      hrest.trans_le (sub_le_sub_right hlevel 1)⟩
  · have ha : a = (false, _) := allow_of_level_lt hless
    refine ⟨tokens, ?_⟩
    rw [ha, if_neg Bool.false_ne_true]
    exact h.deny ⟨hlimit, hburst, hlevel⟩

end Budget

/-! ## Runs -/

/-- Every peer has a budget. -/
def BudgetInv (rps : ℚ) (burst : ℤ) (rate : ℚ) (s : State) : Prop :=
  (s.limiter.rps = rps ∧ s.limiter.burst = burst) ∧ ∀ p : Peer, ∃ tokens,
    Budget rps burst rate s.now (s.limiter.limiters p.addr) (s.passedTimes p) tokens

namespace RateBudgetLemmas

variable {rps rate : ℚ} {burst : ℤ} {maxIdle : Time} {s t : State}

theorem passedTimes_own (r : IPRateLimiter) {a : Answered}
    (h : a.procedure ∈ rateLimitedProcedures) :
    State.passedTimes ⟨r, a.time, s.answered ++ [a]⟩ a.peer =
      if a.err = none then s.passedTimes a.peer ++ [a.time] else s.passedTimes a.peer := by
  rw [State.passedTimes, State.limited_own s r a.time h, List.filter_append, List.filter_singleton]
  by_cases herr : a.err = none
  · rw [decide_eq_true herr, if_pos herr, List.map_append]
    rfl
  · rw [decide_eq_false herr, if_neg herr, List.map_append]
    exact List.append_nil _

theorem passedTimes_other (r : IPRateLimiter) {a : Answered} {q : Peer}
    (h : a.procedure ∈ rateLimitedProcedures → a.peer ≠ q) :
    State.passedTimes ⟨r, a.time, s.answered ++ [a]⟩ q = s.passedTimes q := by
  rw [State.passedTimes, State.limited_other s r a.time h]
  rfl

theorem budgetInv_init (hburst : (0 : ℚ) ≤ burst) (hrate : 0 ≤ rate)
    (h : (limiterSystem rps burst maxIdle).init s) : BudgetInv rps burst rate s := by
  obtain ⟨hlimiter, hanswered⟩ := h
  rw [BudgetInv, hlimiter]
  refine ⟨⟨rfl, rfl⟩, fun p => ⟨burst, ?_⟩⟩
  have hnone : s.passedTimes p = [] := by
    rw [State.passedTimes, State.limited, hanswered]
    rfl
  rw [hnone]
  exact .init hburst hrate

/-- The limited requests of a peer touch its own bucket only. -/
theorem budgetInv_limited {a : Answered} (hinv : BudgetInv rps burst rate s) (hrps : 0 ≤ rps)
    (hrate : rps ≤ rate) (ht : s.now ≤ a.time) (hproc : a.procedure ∈ rateLimitedProcedures)
    (herr : (a.err = none) = ((s.limiter.allow a.peer.addr a.time).1 = true)) :
    BudgetInv rps burst rate
      ⟨(s.limiter.allow a.peer.addr a.time).2, a.time, s.answered ++ [a]⟩ := by
  obtain ⟨⟨rfl, rfl⟩, hbudget⟩ := hinv
  refine ⟨⟨rfl, rfl⟩, fun q => ?_⟩
  obtain ⟨tokens, hq⟩ := hbudget q
  have hlater := hq.later ht hrps hrate
  dsimp only
  rcases eq_or_ne a.peer q with rfl | hne
  · obtain ⟨tokens', hrequest⟩ := hlater.request (hrps.trans hrate)
    refine ⟨tokens', ?_⟩
    simp only [passedTimes_own _ hproc, herr]
    show Budget _ _ _ a.time (Function.update s.limiter.limiters a.peer.addr _ a.peer.addr) _ _
    rw [Function.update_self]
    exact hrequest
  · refine ⟨min s.limiter.burst (tokens + rate * (a.time - s.now)), ?_⟩
    rw [passedTimes_other _ fun _ => hne]
    show Budget _ _ _ a.time (Function.update s.limiter.limiters a.peer.addr _ q.addr) _ _
    rw [Function.update_of_ne fun h => hne (Peer.addr_injective h).symm]
    exact hlater

theorem budgetInv_step (hinv : BudgetInv rps burst rate s) (hrps : 0 ≤ rps) (hrate : rps ≤ rate)
    (hidle : burst ≤ rate * maxIdle) {a : Action} (h : s.step maxIdle a = some t) :
    BudgetInv rps burst rate t := by
  cases a with
  | request proc p text proxyAddr now =>
    obtain ⟨ht, rfl⟩ := Option.ite_some_none_eq_some.mp h
    by_cases hproc : proc ∈ rateLimitedProcedures
    · rw [rateLimitInterceptor_limited hproc]
      refine budgetInv_limited (a := ⟨proc, p, now, _⟩) hinv hrps hrate ht hproc ?_
      cases (s.limiter.allow p.addr now).1 <;> simp
    · rw [rateLimitInterceptor_free hproc]
      refine ⟨hinv.1, fun q => ?_⟩
      obtain ⟨tokens, hq⟩ := hinv.2 q
      refine ⟨min burst (tokens + rate * (now - s.now)), ?_⟩
      rw [passedTimes_other (a := ⟨proc, p, now, none⟩) _ fun h => absurd h hproc]
      exact hq.later ht hrps hrate
  | cleanup now =>
    obtain ⟨ht, rfl⟩ := Option.ite_some_none_eq_some.mp h
    refine ⟨hinv.1, fun q => ?_⟩
    obtain ⟨tokens, hq⟩ := hinv.2 q
    exact ⟨_, (hq.later ht hrps hrate).cleanup (hrps.trans hrate) hidle⟩

theorem le_refillRate_mul (hmax : 0 < maxIdle) :
    (burst : ℚ) ≤ refillRate rps burst maxIdle * maxIdle := by
  calc (burst : ℚ) = burst / maxIdle * maxIdle := (div_mul_cancel₀ _ hmax.ne').symm
    _ ≤ refillRate rps burst maxIdle * maxIdle :=
      mul_le_mul_of_nonneg_right (le_max_right _ _) hmax.le

end RateBudgetLemmas

open RateBudgetLemmas

/-- For every window, in every run, whoever else sends what in between. -/
theorem passed_le {rps : ℚ} {burst : ℤ} {maxIdle : Time} (hrps : 0 ≤ rps)
    (hburst : (0 : ℚ) ≤ burst) (hmax : 0 < maxIdle) {s : State}
    (h : Reachable (limiterSystem rps burst maxIdle) s) (p : Peer) {a b : Time} (hab : a ≤ b) :
    (s.passed p a b : ℚ) ≤ burst + refillRate rps burst maxIdle * (b - a) := by
  have hrate : rps ≤ refillRate rps burst maxIdle := le_max_left _ _
  have hinv := h.invariant (I := BudgetInv rps burst (refillRate rps burst maxIdle))
    (fun _ hs => budgetInv_init hburst (hrps.trans hrate) hs)
    fun _ _ _ _ hi _ hs => budgetInv_step hi hrps hrate (le_refillRate_mul hmax) hs
  obtain ⟨tokens, hbudget⟩ := hinv.2 p
  exact hbudget.window a b hab

/-- Nothing flows in, but a sweep fills the bucket for one token again. -/
theorem passed_le_swept : ∃ s : State, s.passed peerOne 0 12 = 2 ∧
    (s.passed peerOne 0 12 : ℚ) ≤ (1 : ℤ) + refillRate 0 1 10 * (12 - 0) := by
  obtain ⟨s, hs, hpassed⟩ := Reachable.of_run (S := limiterSystem 0 1 10)
    (p := fun s => s.passed peerOne 0 12 = 2)
    [.request .skipTrack peerOne none "172.18.0.2:4711" 0,
      .request .addTrack peerOne (some "10.0.0.2") "172.18.0.2:4711" 1,
      .cleanup 12,
      .request .skipTrack peerOne none "172.18.0.2:4711" 12]
    (show (limiterSystem 0 1 10).init ⟨newIPRateLimiter 0 1, 0, []⟩ from ⟨rfl, rfl⟩)
    (by decide +kernel)
  exact ⟨s, of_decide_eq_true hpassed, passed_le le_rfl (by norm_num) (by norm_num) hs peerOne
    (by norm_num)⟩

/-! ## The table of buckets -/

/-- The state of the limiter, and the time of the last sweep, or of the start of
the ticker. -/
structure Ticking where
  state : State
  swept : Time

/-- The sweeps come in time: nothing happens later than `interval` after the last
one. -/
def Ticking.step (maxIdle interval : Time) (s : Ticking) : Action → Option Ticking
  | .request proc p text proxyAddr now =>
    if now ≤ s.swept + interval then
      (s.state.step maxIdle (.request proc p text proxyAddr now)).map fun t => ⟨t, s.swept⟩
    else none
  | .cleanup now =>
    if now ≤ s.swept + interval then
      (s.state.step maxIdle (.cleanup now)).map fun t => ⟨t, now⟩
    else none

def tickingSystem (rps : ℚ) (burst : ℤ) (maxIdle interval : Time) : System Ticking Action where
  init s := (limiterSystem rps burst maxIdle).init s.state ∧ s.swept = s.state.now
  step := Ticking.step maxIdle interval

/-- What `CreateServer` hands to `startCleanup`. -/
def rateLimitCleanupInterval : Time := 5 * 60

/-- The clients that have a bucket. -/
def State.keys (s : State) : Set String := {key | s.limiter.limiters key ≠ none}

/-- The requests since `since` that asked a bucket. -/
def State.recent (s : State) (since : Time) : List Answered :=
  s.answered.filter fun a => a.procedure ∈ rateLimitedProcedures ∧ since ≤ a.time

namespace RateBudgetLemmas

variable {rps : ℚ} {burst : ℤ} {maxIdle interval : Time}

/-- A bucket is as old as some request, and was not too old at the last sweep. -/
structure TableInv (maxIdle interval : Time) (s : Ticking) : Prop where
  swept : s.swept ≤ s.state.now ∧ s.state.now ≤ s.swept + interval
  seen : ∀ key e, s.state.limiter.limiters key = some e → ∃ a ∈ s.state.answered,
    a.procedure ∈ rateLimitedProcedures ∧ a.peer.addr = key ∧ a.time = e.lastSeen
  kept : ∀ key e, s.state.limiter.limiters key = some e → s.swept - e.lastSeen ≤ maxIdle

theorem tableInv_init (hinterval : 0 ≤ interval) {s : Ticking}
    (h : (tickingSystem rps burst maxIdle interval).init s) : TableInv maxIdle interval s := by
  obtain ⟨⟨hlimiter, -⟩, hswept⟩ := h
  have hnone : ∀ key e, s.state.limiter.limiters key ≠ some e := by
    intro key e
    rw [hlimiter]
    exact nofun
  refine ⟨⟨hswept.le, ?_⟩, fun key e he => absurd he (hnone key e),
    fun key e he => absurd he (hnone key e)⟩
  rw [hswept]
  exact le_add_of_nonneg_right hinterval

/-- The bucket that is asked is new, the others stay. -/
theorem tableInv_limited {s : Ticking} {a : Answered} (hinv : TableInv maxIdle interval s)
    (hmax : 0 ≤ maxIdle) (ht : s.state.now ≤ a.time) (hin : a.time ≤ s.swept + interval)
    (hproc : a.procedure ∈ rateLimitedProcedures) :
    TableInv maxIdle interval
      ⟨⟨(s.state.limiter.allow a.peer.addr a.time).2, a.time, s.state.answered ++ [a]⟩,
        s.swept⟩ := by
  have hswept := hinv.swept.1.trans ht
  have hentry : ∀ key e, (s.state.limiter.allow a.peer.addr a.time).2.limiters key = some e →
      (key = a.peer.addr ∧ e.lastSeen = a.time) ∨ s.state.limiter.limiters key = some e := by
    intro key e he
    rcases eq_or_ne key a.peer.addr with rfl | hne
    · rw [IPRateLimiter.allow] at he
      simp only [Function.update_self, Option.some.injEq] at he
      exact .inl ⟨rfl, he ▸ rfl⟩
    · exact .inr ((Function.update_of_ne hne ..).symm.trans he)
  refine ⟨⟨hswept, hin⟩, fun key e he => ?_, fun key e he => ?_⟩
  · rcases hentry key e he with ⟨rfl, hlast⟩ | hold
    · exact ⟨a, List.mem_append_right _ List.mem_cons_self, hproc, rfl, hlast.symm⟩
    · obtain ⟨b, hb, hrest⟩ := hinv.seen key e hold
      exact ⟨b, List.mem_append_left _ hb, hrest⟩
  · rcases hentry key e he with ⟨-, hlast⟩ | hold
    · rw [hlast]
      exact (sub_nonpos.mpr hswept).trans hmax
    · exact hinv.kept key e hold

theorem tableInv_step {s t : Ticking} (hinv : TableInv maxIdle interval s) (hmax : 0 ≤ maxIdle)
    (hinterval : 0 ≤ interval) {a : Action} (h : s.step maxIdle interval a = some t) :
    TableInv maxIdle interval t := by
  cases a with
  | request proc p text proxyAddr now =>
    obtain ⟨hin, h⟩ := Option.ite_none_right_eq_some.mp h
    obtain ⟨u, hu, rfl⟩ := Option.map_eq_some_iff.mp h
    obtain ⟨ht, rfl⟩ := Option.ite_some_none_eq_some.mp hu
    by_cases hproc : proc ∈ rateLimitedProcedures
    · rw [rateLimitInterceptor_limited hproc]
      exact tableInv_limited (a := ⟨proc, p, now, _⟩) hinv hmax ht hin hproc
    · rw [rateLimitInterceptor_free hproc]
      refine ⟨⟨hinv.swept.1.trans ht, hin⟩, fun key e he => ?_, hinv.kept⟩
      obtain ⟨b, hb, hrest⟩ := hinv.seen key e he
      exact ⟨b, List.mem_append_left _ hb, hrest⟩
  | cleanup now =>
    obtain ⟨hin, h⟩ := Option.ite_none_right_eq_some.mp h
    obtain ⟨u, hu, rfl⟩ := Option.map_eq_some_iff.mp h
    obtain ⟨ht, rfl⟩ := Option.ite_some_none_eq_some.mp hu
    refine ⟨⟨le_rfl, le_add_of_nonneg_right hinterval⟩,
      fun key e he => hinv.seen key e (Option.eq_some_of_filter_eq_some he), fun key e he => ?_⟩
    simpa using (Option.filter_eq_some_iff.mp he).2

/-- The requests that the table is made of. -/
theorem keys_subset {s : Ticking} (hinv : TableInv maxIdle interval s) :
    s.state.keys ⊆ ((s.state.recent (s.state.now - (maxIdle + interval))).map
      fun a => a.peer.addr).toFinset := by
  intro key hkey
  obtain ⟨e, he⟩ := Option.ne_none_iff_exists'.mp hkey
  obtain ⟨a, ha, hproc, haddr, htime⟩ := hinv.seen key e he
  have hrecent : s.state.now - (maxIdle + interval) ≤ a.time := by
    have := hinv.kept key e he
    have := hinv.swept.2
    linarith
  rw [Finset.mem_coe, List.mem_toFinset, List.mem_map]
  exact ⟨a, List.mem_filter.mpr ⟨ha, decide_eq_true ⟨hproc, hrecent⟩⟩, haddr⟩

end RateBudgetLemmas

/-- In every run whose sweeps come in time, the table has only the clients of the
last `maxIdle + interval`, and no more buckets than these have sent requests. -/
theorem entries_recent {rps : ℚ} {burst : ℤ} {maxIdle interval : Time} (hmax : 0 ≤ maxIdle)
    (hinterval : 0 ≤ interval) {s : Ticking}
    (h : Reachable (tickingSystem rps burst maxIdle interval) s) :
    (∀ key ∈ s.state.keys, ∃ a ∈ s.state.recent (s.state.now - (maxIdle + interval)),
        a.peer.addr = key) ∧
      s.state.keys.ncard ≤ (s.state.recent (s.state.now - (maxIdle + interval))).length := by
  have hinv := h.invariant (I := TableInv maxIdle interval)
    (fun _ hs => tableInv_init hinterval hs)
    fun _ _ _ _ hi _ hs => tableInv_step hi hmax hinterval hs
  have hsubset := keys_subset hinv
  refine ⟨fun key hkey => ?_, ?_⟩
  · have := hsubset hkey
    rwa [Finset.mem_coe, List.mem_toFinset, List.mem_map] at this
  · calc s.state.keys.ncard
        ≤ (_ : Finset String).card := by
          rw [← Set.ncard_coe_finset]
          exact Set.ncard_le_ncard hsubset (Finset.finite_toSet _)
      _ ≤ _ := List.toFinset_card_le _
      _ = _ := List.length_map _

/-- A client that keeps asking keeps its bucket, and the other one is forgotten
at the first sweep after half an hour. -/
theorem entries_recent_gone : ∃ s : Ticking, s.state.limiter.limiters "10.0.0.1" = none ∧
    s.state.keys.ncard ≤
      (s.state.recent (s.state.now - (rateLimitMaxIdle + rateLimitCleanupInterval))).length := by
  obtain ⟨s, hs, hgone⟩ := Reachable.of_run
    (S := tickingSystem 1 5 rateLimitMaxIdle rateLimitCleanupInterval)
    (p := fun s => (s.state.limiter.limiters "10.0.0.1").isNone)
    [.request .skipTrack peerOne none "172.18.0.2:4711" 10,
      .cleanup 300,
      .request .addTrack peerTwo none "172.18.0.2:4711" 500,
      .cleanup 600, .cleanup 900, .cleanup 1200, .cleanup 1500, .cleanup 1800, .cleanup 2100]
    (show (tickingSystem 1 5 rateLimitMaxIdle rateLimitCleanupInterval).init
      ⟨⟨newIPRateLimiter 1 5, 0, []⟩, 0⟩ from ⟨⟨rfl, rfl⟩, rfl⟩)
    (by decide +kernel)
  have hmax : 0 ≤ rateLimitMaxIdle := by norm_num [rateLimitMaxIdle]
  have hinterval : 0 ≤ rateLimitCleanupInterval := by norm_num [rateLimitCleanupInterval]
  exact ⟨s, Option.isNone_iff_eq_none.mp hgone, (entries_recent hmax hinterval hs).2⟩

end RadioJockey.RateLimit
