import Mathlib.Algebra.Order.Field.Basic
import Mathlib.Data.List.Induction
import Mathlib.Tactic.Linarith
import Mathlib.Tactic.Ring

/-!
# Token buckets

An ideal token bucket over any ordered field: it holds at most `burst` tokens,
`limit` tokens flow in per unit of time, and `allow` takes one token out or
fails and changes nothing. A new bucket is full.

* `level b t`: the tokens in `b` at the time `t`.
* `SameFrom t b c`: from `t` on, `b` and `c` cannot be told apart.
* `level_of_idle`: a bucket that was left alone for long enough is full, so it
  cannot be told apart from a new one (`sameFrom_new`).
* `feed limit burst ts`: what a bucket that is made at the first of the times
  `ts` answers at these times, and what becomes of it.
-/

namespace TokenBucket

universe u

/-- `tokens` is the content at the time `last`. -/
structure Limiter (K : Type u) where
  limit : K
  burst : K
  tokens : K
  last : K
  deriving DecidableEq

variable {K : Type u} [Field K] [LinearOrder K]

def newLimiter (limit burst now : K) : Limiter K := ⟨limit, burst, burst, now⟩

namespace Limiter

def level (b : Limiter K) (t : K) : K := min b.burst (b.tokens + (t - b.last) * b.limit)

/-- One token, if there is one. -/
def allow (b : Limiter K) (t : K) : Bool × Limiter K :=
  if 1 ≤ b.level t then (true, { b with tokens := b.level t - 1, last := t }) else (false, b)

/-- `b` and `c` answer alike from the time `t` on. -/
structure SameFrom (t : K) (b c : Limiter K) : Prop where
  limit : b.limit = c.limit
  burst : b.burst = c.burst
  level : b.level t = c.level t

end Limiter

open Limiter

/-- The answers of one bucket, made at the first of the times, and the bucket
after the last one. -/
def feed (limit burst : K) (ts : List K) : List Bool × Option (Limiter K) :=
  ts.foldl (fun r t =>
    let a := (r.2.getD (newLimiter limit burst t)).allow t
    (r.1 ++ [a.1], some a.2)) ([], none)

theorem feed_concat (limit burst : K) (ts : List K) (t : K) :
    feed limit burst (ts ++ [t]) =
      ((feed limit burst ts).1 ++
          [(((feed limit burst ts).2.getD (newLimiter limit burst t)).allow t).1],
        some (((feed limit burst ts).2.getD (newLimiter limit burst t)).allow t).2) := by
  rw [feed, List.foldl_append]
  rfl

theorem feed_length (limit burst : K) (ts : List K) :
    (feed limit burst ts).1.length = ts.length := by
  induction ts using List.reverseRecOn with
  | nil => rfl
  | append_singleton ts t ih =>
    rw [feed_concat, List.length_append, List.length_append, ih]
    rfl

theorem allow_params (b : Limiter K) (t : K) :
    (b.allow t).2.limit = b.limit ∧ (b.allow t).2.burst = b.burst := by
  unfold allow
  split <;> exact ⟨rfl, rfl⟩

theorem allow_last_le {b : Limiter K} {t : K} (h : b.last ≤ t) : (b.allow t).2.last ≤ t := by
  unfold Limiter.allow
  split
  · exact le_rfl
  · exact h

theorem level_le_burst (b : Limiter K) (t : K) : b.level t ≤ b.burst := min_le_left _ _

theorem level_new (limit burst t : K) : (newLimiter limit burst t).level t = burst := by
  simp [newLimiter, level]

/-- Two such buckets answer alike, and still cannot be told apart afterwards. -/
theorem Limiter.SameFrom.allow {b c : Limiter K} {t : K} (h : SameFrom t b c) :
    (b.allow t).1 = (c.allow t).1 ∧ SameFrom t (b.allow t).2 (c.allow t).2 := by
  unfold Limiter.allow
  rw [h.level]
  split
  · refine ⟨rfl, h.limit, h.burst, ?_⟩
    simp only [Limiter.level, h.burst, sub_self, zero_mul, add_zero]
  · exact ⟨rfl, h⟩

theorem sameFrom_new {b : Limiter K} {limit burst t : K} (hlimit : b.limit = limit)
    (hburst : b.burst = burst) (hfull : b.level t = b.burst) :
    SameFrom t (newLimiter limit burst t) b where
  limit := hlimit.symm
  burst := hburst.symm
  level := by rw [level_new, hfull, hburst]

theorem allow_of_level_lt {b : Limiter K} {t : K} (h : b.level t < 1) : b.allow t = (false, b) :=
  if_neg (not_le.mpr h)

/-- A bucket for less than one token always fails. -/
theorem allow_of_burst_lt {b : Limiter K} (h : b.burst < 1) (t : K) : b.allow t = (false, b) :=
  allow_of_level_lt (lt_of_le_of_lt (level_le_burst b t) h)

theorem feed_burst {limit burst : K} (ts : List K) {b : Limiter K}
    (h : (feed limit burst ts).2 = some b) : b.limit = limit ∧ b.burst = burst := by
  induction ts using List.reverseRecOn generalizing b with
  | nil => cases h
  | append_singleton ts t ih =>
    rw [feed_concat] at h
    cases h
    obtain ⟨hlimit, hburst⟩ :=
      allow_params ((feed limit burst ts).2.getD (newLimiter limit burst t)) t
    rw [hlimit, hburst]
    cases hb : (feed limit burst ts).2 with
    | none => exact ⟨rfl, rfl⟩
    | some c => exact ih hb

/-- A bucket for less than one token never allows anything. -/
theorem feed_of_burst_lt {limit burst : K} (h : burst < 1) (ts : List K) :
    ∀ d ∈ (feed limit burst ts).1, d = false := by
  induction ts using List.reverseRecOn with
  | nil => exact fun _ hd => nomatch hd
  | append_singleton ts t ih =>
    have hcurrent : ((feed limit burst ts).2.getD (newLimiter limit burst t)).burst < 1 := by
      cases hb : (feed limit burst ts).2 with
      | none => exact h
      | some b => exact (feed_burst ts hb).2.symm ▸ h
    rw [feed_concat, allow_of_burst_lt hcurrent]
    intro d hd
    rcases List.mem_append.mp hd with hd | hd
    · exact ih d hd
    · exact List.mem_singleton.mp hd

variable [IsStrictOrderedRing K]

/-! ## The level over time -/

/-- The level later on depends on the level now. -/
theorem level_later {b : Limiter K} {t u : K} (hlimit : 0 ≤ b.limit) (htu : t ≤ u) :
    b.level u = min b.burst (b.level t + (u - t) * b.limit) := by
  have hinflow : 0 ≤ (u - t) * b.limit := mul_nonneg (sub_nonneg.mpr htu) hlimit
  calc b.level u
      = min b.burst (b.tokens + (t - b.last) * b.limit + (u - t) * b.limit) := by
        rw [level]
        congr 1
        ring
    _ = min b.burst (b.level t + (u - t) * b.limit) := by
        rw [level, ← min_add_add_right, ← min_assoc, min_eq_left (le_add_of_nonneg_right hinflow)]

/-- A bucket is full after the time in which an empty one fills up. -/
theorem level_of_idle {b : Limiter K} {t : K} (htokens : 0 ≤ b.tokens)
    (hidle : b.burst ≤ (t - b.last) * b.limit) : b.level t = b.burst := by
  refine min_eq_left ?_
  linarith

/-! ## Buckets that cannot be told apart -/

theorem Limiter.SameFrom.mono {b c : Limiter K} {t u : K} (h : SameFrom t b c)
    (hlimit : 0 ≤ c.limit) (htu : t ≤ u) : SameFrom u b c where
  limit := h.limit
  burst := h.burst
  level := by
    have hlimit' : 0 ≤ b.limit := h.limit ▸ hlimit
    rw [level_later hlimit' htu, level_later hlimit htu, h.level, h.burst, h.limit]

/-! ## What a bucket keeps -/

/-- Exactly one token is taken. -/
theorem allow_of_level_le {b : Limiter K} {t : K} (h : 1 ≤ b.level t) :
    (b.allow t).1 = true ∧ (b.allow t).2.level t = b.level t - 1 := by
  have hle : b.level t - 1 ≤ b.burst := (sub_le_self _ zero_le_one).trans (level_le_burst b t)
  rw [Limiter.allow, if_pos h]
  refine ⟨rfl, ?_⟩
  rw [Limiter.level, sub_self, zero_mul, add_zero]
  exact min_eq_right hle

theorem allow_tokens_nonneg {b : Limiter K} {t : K} (h : 0 ≤ b.tokens) :
    0 ≤ (b.allow t).2.tokens := by
  unfold Limiter.allow
  split
  · next hlevel => exact sub_nonneg.mpr hlevel
  · exact h

end TokenBucket
