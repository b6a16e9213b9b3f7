import RadioJockey.Lib.Retry

/-!
# Retrying with a backoff (`util/retry.go`)

`RetryWithBackoff` calls `retry.Do` with ten attempts. The slice of errors that
`Do` may return hides them from `errors.Is`, so the last error in it is returned
instead.

* `retryWithBackoff_spec`: nil after a success, the context's error after a
  failed attempt or none, and otherwise the error of the last attempt.
-/

namespace RadioJockey

open Retry

def retryAttempts : Nat := 10

/-- What `RetryWithBackoff` may return besides nil. `log` is the slice itself,
when there is no error in it. -/
inductive RetryError (ε : Type)
  | context
  | last (err : ε)
  | log (errs : List (Option ε))
  deriving DecidableEq

variable {ε : Type}

/-- The loop from the end of the slice. -/
def lastError (log : List (Option ε)) : Option ε := log.reverse.findSome? id

def retryWithBackoff : Returned ε → Option (RetryError ε)
  | .ok => none
  | .context => some .context
  | .errors log =>
    match lastError log with
    | some err => some (.last err)
    | none => some (.log log)

example : lastError [some 1, some 2, none, none] = some 2 := by decide

section

variable {σ : Type} {attempts : Nat} {f : σ → Attempt ε × σ} {s : σ}

theorem lastError_errorLog {n : Nat} {err : ε} (h : (attemptAt f s n).error? = some err) :
    lastError (errorLog attempts f s (n + 1)) = some err := by
  have hempty : (List.replicate (attempts - (n + 1)) (none : Option ε)).findSome? id = none := by
    simp
  rw [lastError, errorLog, List.reverse_append, List.reverse_replicate, List.findSome?_append,
    hempty, List.range_succ, List.map_append, List.reverse_append]
  simp [h]

theorem retryWithBackoff_spec (run : Run attempts f s) :
    (run.last = some .ok ∧ retryWithBackoff run.returned = none) ∨
      ((∀ a, run.last = some a → ∃ err, a = .failed err) ∧
        retryWithBackoff run.returned = some .context) ∨
      ∃ a err, run.last = some a ∧ a.error? = some err ∧
        retryWithBackoff run.returned = some (.last err) := by
  have hreturns := run.returns
  cases hr : run.returned with
  | ok =>
    rw [hr] at hreturns
    obtain ⟨n, hn, hok⟩ := hreturns
    exact .inl ⟨by rw [Run.last_eq hn, hok], rfl⟩
  | context =>
    rw [hr] at hreturns
    refine .inr (.inl ⟨fun a ha => ?_, rfl⟩)
    obtain ⟨n, hn, rfl⟩ := Run.last_eq_some ha
    exact hreturns n hn
  | errors log =>
    rw [hr] at hreturns
    obtain ⟨rfl, n, hn, herr⟩ := hreturns
    obtain ⟨err, herr⟩ : ∃ err, (attemptAt f s n).error? = some err := by
      rcases herr with ⟨err, herr⟩ | ⟨-, err, herr⟩
      · exact ⟨err, by rw [herr]; rfl⟩
      · exact ⟨err, by rw [herr]; rfl⟩
    refine .inr (.inr ⟨_, err, Run.last_eq hn, herr, ?_⟩)
    rw [retryWithBackoff, hn, lastError_errorLog herr]

theorem retryWithBackoff_eq_none {run : Run attempts f s} :
    retryWithBackoff run.returned = none ↔ run.last = some .ok := by
  obtain ⟨hlast, hr⟩ | ⟨hlast, hr⟩ | ⟨a, err, hlast, herr, hr⟩ := retryWithBackoff_spec run
  · exact iff_of_true hr hlast
  · refine iff_of_false (by rw [hr]; nofun) fun hok => ?_
    obtain ⟨err, herr⟩ := hlast .ok hok
    cases herr
  · refine iff_of_false (by rw [hr]; nofun) fun hok => ?_
    rw [hok] at hlast
    cases hlast
    cases herr

/-- An unrecoverable error is returned. -/
theorem retryWithBackoff_of_unrecoverable {run : Run attempts f s} {err : ε}
    (h : run.last = some (.unrecoverable err)) :
    retryWithBackoff run.returned = some (.last err) := by
  obtain ⟨hlast, -⟩ | ⟨hlast, -⟩ | ⟨a, err', hlast, herr, hr⟩ := retryWithBackoff_spec run
  · cases h.symm.trans hlast
  · obtain ⟨err', herr⟩ := hlast _ h
    cases herr
  · cases h.symm.trans hlast
    cases herr
    exact hr

end

end RadioJockey
