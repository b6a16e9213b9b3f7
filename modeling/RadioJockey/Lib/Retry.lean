import Mathlib.Data.List.Basic

/-!
# Retrying a function

`Do` of retry-go calls a function until it returns nil or an error that is
marked as unrecoverable, until the attempts are used up, or until the context
ends while it waits. The function is a step on a state: what it captures, and
what the outside world will answer it.

* `Run attempts f s`: what may come of it from the state `s`. Its fields are what
  is documented of `Do`, for any length of the waits and any end of the context.
* `Run.rule`: what failed calls keep holds before the last call.
* `doRetry`, `Run.ofDoRetry`: the loop of the package, and that it makes such a
  run.
-/

namespace Retry

universe u v

variable {ε : Type u} {σ : Type v}

/-- What a call of the function returns. -/
inductive Attempt (ε : Type u)
  | ok
  | failed (err : ε)
  | unrecoverable (err : ε)
  deriving DecidableEq

/-- The error without its mark. -/
def Attempt.error? : Attempt ε → Option ε
  | .ok => none
  | .failed err | .unrecoverable err => some err

/-- What `Do` returns: nil, the error of the context, or the errors of the
attempts. -/
inductive Returned (ε : Type u)
  | ok
  | context
  | errors (log : List (Option ε))
  deriving DecidableEq

/-- The state before the call number `n`, from 0. -/
def stateAt (f : σ → Attempt ε × σ) (s : σ) : Nat → σ
  | 0 => s
  | n + 1 => (f (stateAt f s n)).2

def attemptAt (f : σ → Attempt ε × σ) (s : σ) (n : Nat) : Attempt ε := (f (stateAt f s n)).1

/-- Each attempt's error at its index, and nil in the slots of the others. -/
def errorLog (attempts : Nat) (f : σ → Attempt ε × σ) (s : σ) (calls : Nat) : List (Option ε) :=
  (List.range calls).map (fun n => (attemptAt f s n).error?) ++
    List.replicate (attempts - calls) none

/-- What may be returned after so many calls. -/
def Returns (attempts : Nat) (f : σ → Attempt ε × σ) (s : σ) (calls : Nat) : Returned ε → Prop
  | .ok => ∃ n, calls = n + 1 ∧ attemptAt f s n = .ok
  | .context => ∀ n, calls = n + 1 → ∃ err, attemptAt f s n = .failed err
  | .errors log => log = errorLog attempts f s calls ∧ ∃ n, calls = n + 1 ∧
    ((∃ err, attemptAt f s n = .unrecoverable err) ∨
      calls = attempts ∧ ∃ err, attemptAt f s n = .failed err)

/-- A call of `Do`. Only a failed call that is not the last one is followed by
another. -/
structure Run (attempts : Nat) (f : σ → Attempt ε × σ) (s : σ) where
  calls : Nat
  returned : Returned ε
  calls_le : calls ≤ attempts
  retried : ∀ n, n + 1 < calls → ∃ err, attemptAt f s n = .failed err
  returns : Returns attempts f s calls returned

namespace Run

variable {attempts : Nat} {f : σ → Attempt ε × σ} {s : σ}

/-- The state after the last call. -/
def final (run : Run attempts f s) : σ := stateAt f s run.calls

/-- What the last call returned, if there was one. -/
def last (run : Run attempts f s) : Option (Attempt ε) :=
  match run.calls with
  | 0 => none
  | n + 1 => some (attemptAt f s n)

theorem last_eq {run : Run attempts f s} {n : Nat} (h : run.calls = n + 1) :
    run.last = some (attemptAt f s n) := by
  rw [last, h]

theorem last_eq_some {run : Run attempts f s} {a : Attempt ε} (h : run.last = some a) :
    ∃ n, run.calls = n + 1 ∧ attemptAt f s n = a := by
  unfold last at h
  split at h
  · cases h
  · next n hn => exact ⟨n, hn, Option.some.inj h⟩

/-- Before every call, what failed calls keep. -/
theorem stateAt_invariant (run : Run attempts f s) {I : σ → Prop} (hinit : I s)
    (hfailed : ∀ t err, I t → (f t).1 = .failed err → I (f t).2) :
    ∀ n, n < run.calls → I (stateAt f s n)
  | 0, _ => hinit
  | n + 1, h => by
    obtain ⟨err, herr⟩ := run.retried n h
    exact hfailed _ err (stateAt_invariant run hinit hfailed n (Nat.lt_of_succ_lt h)) herr

/-- The run ends where it began, or after a last call, before which everything
holds that failed calls keep. -/
theorem rule (run : Run attempts f s) {I : σ → Prop} (hinit : I s)
    (hfailed : ∀ t err, I t → (f t).1 = .failed err → I (f t).2) :
    (run.last = none ∧ run.final = s) ∨
      ∃ n, I (stateAt f s n) ∧ run.last = some (attemptAt f s n) ∧
        run.final = (f (stateAt f s n)).2 := by
  cases hc : run.calls with
  | zero => exact .inl ⟨by rw [last, hc], by rw [final, hc, stateAt]⟩
  | succ n =>
    have hn : n < run.calls := hc ▸ Nat.lt_succ_self n
    exact .inr ⟨n, run.stateAt_invariant hinit hfailed n hn, last_eq hc,
      by rw [final, hc, stateAt]⟩

end Run

/-! ## The loop of the package -/

/-- The loop with `left` attempts to go and the errors so far, newest first.
`ended n` says that the context ends in the wait after the call number `n`. -/
def doRetryFrom (f : σ → Attempt ε × σ) (ended : Nat → Bool) :
    Nat → σ → List (Option ε) → Nat × Returned ε
  | 0, _, log => (log.length, .errors log.reverse)
  | left + 1, s, log =>
    let calls := log.length + 1
    let errors err := Returned.errors ((some err :: log).reverse ++ List.replicate left none)
    match f s with
    | (.ok, _) => (calls, .ok)
    | (.unrecoverable err, _) => (calls, errors err)
    | (.failed err, t) =>
      if left = 0 then (calls, errors err)
      else if ended log.length then (calls, .context)
      else doRetryFrom f ended left t (some err :: log)

/-- `cancelled` says that the context has ended before the first call. -/
def doRetry (attempts : Nat) (f : σ → Attempt ε × σ) (s : σ) (cancelled : Bool)
    (ended : Nat → Bool) : Nat × Returned ε :=
  if cancelled then (0, .context) else doRetryFrom f ended attempts s []

namespace Run

variable {f : σ → Attempt ε × σ} {s : σ}

/-- What is documented of a call of `Do`, of its number of calls and its result. -/
structure Documented (attempts : Nat) (f : σ → Attempt ε × σ) (s : σ) (r : Nat × Returned ε) :
    Prop where
  calls_le : r.1 ≤ attempts
  retried : ∀ n, n + 1 < r.1 → ∃ err, attemptAt f s n = .failed err
  returns : Returns attempts f s r.1 r.2

/-- The errors of the first calls, newest first. -/
def pastErrors (f : σ → Attempt ε × σ) (s : σ) (n : Nat) : List (Option ε) :=
  ((List.range n).map fun m => (attemptAt f s m).error?).reverse

theorem pastErrors_succ (f : σ → Attempt ε × σ) (s : σ) (n : Nat) :
    pastErrors f s (n + 1) = (attemptAt f s n).error? :: pastErrors f s n := by
  simp [pastErrors, List.range_succ]

theorem length_pastErrors (f : σ → Attempt ε × σ) (s : σ) (n : Nat) :
    (pastErrors f s n).length = n := by
  simp [pastErrors]

theorem reverse_pastErrors (f : σ → Attempt ε × σ) (s : σ) (n left : Nat) :
    (pastErrors f s n).reverse ++ List.replicate left none = errorLog (n + left) f s n := by
  rw [pastErrors, List.reverse_reverse, errorLog, Nat.add_sub_cancel_left]

theorem documented_doRetryFrom (ended : Nat → Bool) : ∀ (left n : Nat), 0 < left →
    (∀ m, m < n → ∃ err, attemptAt f s m = .failed err) →
      Documented (n + left) f s
        (doRetryFrom f ended left (stateAt f s n) (pastErrors f s n))
  | 0, _, h, _ => absurd h (Nat.lt_irrefl 0)
  | left + 1, n, _, hfailed => by
    have hretried : ∀ k, k + 1 < n + 1 → ∃ err, attemptAt f s k = .failed err :=
      fun k hk => hfailed k (Nat.lt_of_succ_lt_succ hk)
    have hle : n + 1 ≤ n + (left + 1) := by omega
    have hlog : ∀ err, (attemptAt f s n).error? = some err →
        (some err :: pastErrors f s n).reverse ++ List.replicate left none =
          errorLog (n + (left + 1)) f s (n + 1) := by
      intro err herr
      rw [← herr, ← pastErrors_succ, reverse_pastErrors, Nat.add_right_comm, Nat.add_assoc]
    rw [doRetryFrom, length_pastErrors]
    cases hf : f (stateAt f s n) with
    | mk a t =>
      have ha : attemptAt f s n = a := by rw [attemptAt, hf]
      cases a with
      | ok => exact ⟨hle, hretried, n, rfl, ha⟩
      | unrecoverable err =>
        exact ⟨hle, hretried, hlog err (by rw [ha]; rfl), n, rfl, .inl ⟨err, ha⟩⟩
      | failed err =>
        dsimp only
        split
        · next hleft =>
          subst hleft
          exact ⟨hle, hretried, hlog err (by rw [ha]; rfl), n, rfl, .inr ⟨rfl, err, ha⟩⟩
        · next hleft =>
          split
          · refine ⟨hle, hretried, fun m hm => ?_⟩
            obtain rfl := Nat.succ.inj hm
            exact ⟨err, ha⟩
          · have ht : stateAt f s (n + 1) = t := by rw [stateAt, hf]
            have herrors : pastErrors f s (n + 1) = some err :: pastErrors f s n := by
              rw [pastErrors_succ, ha]
              rfl
            have hall : ∀ m, m < n + 1 → ∃ err, attemptAt f s m = .failed err := by
              intro m hm
              rcases Nat.lt_succ_iff_lt_or_eq.mp hm with hm | rfl
              · exact hfailed m hm
              · exact ⟨err, ha⟩
            have hrec := documented_doRetryFrom ended left (n + 1) (Nat.pos_of_ne_zero hleft) hall
            rwa [ht, herrors, Nat.add_right_comm, Nat.add_assoc] at hrec

/-- The loop makes a run, for every end of the context. -/
theorem documented_doRetry {attempts : Nat} (h : 0 < attempts) (cancelled : Bool)
    (ended : Nat → Bool) : Documented attempts f s (doRetry attempts f s cancelled ended) := by
  unfold doRetry
  split
  · exact ⟨Nat.zero_le _, fun _ hn => absurd hn (Nat.not_lt_zero _), fun _ hn => by cases hn⟩
  · have hloop := documented_doRetryFrom (f := f) (s := s) ended attempts 0 h
      fun m hm => absurd hm (Nat.not_lt_zero m)
    rwa [Nat.zero_add] at hloop

def ofDoRetry (f : σ → Attempt ε × σ) (s : σ) {attempts : Nat} (h : 0 < attempts)
    (cancelled : Bool) (ended : Nat → Bool) : Run attempts f s where
  calls := (doRetry attempts f s cancelled ended).1
  returned := (doRetry attempts f s cancelled ended).2
  calls_le := (documented_doRetry h cancelled ended).calls_le
  retried := (documented_doRetry h cancelled ended).retried
  returns := (documented_doRetry h cancelled ended).returns

end Run

end Retry
