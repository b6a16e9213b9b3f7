import Mathlib.Data.List.Infix
import RadioJockey.Connect
import RadioJockey.Retries

/-!
# Running yt-dlp (`music/youtube.go`)

yt-dlp is run once to look up the id of a video and once to download it, each
time with retries. `classifyYtdlpError` reads the reason of a failure out of
what yt-dlp writes, and `withRetry` does not retry what will not get better.

* `stageLaw`: what the retries do with any sequence of outcomes.
* `withRetry_is`: the error that they return is of the kind of the last one.
* `value_of_success`: without an error, the value is the one of the last call.
-/

namespace RadioJockey

open Retry

/-- The errors that `music` declares. -/
inductive Sentinel
  | errInvalidURL
  | errVideoUnavailable
  | errUnexpectedYtdlpOutput
  deriving DecidableEq

/-- `wrap` is `fmt.Errorf` with a `%w`, and `text` is what it formats besides.
`other` has nothing in its chain that is looked for. -/
inductive MusicError
  | sentinel (s : Sentinel)
  | exitError (stderr : String)
  | context
  | other
  | wrap (text : String) (err : MusicError)
  deriving DecidableEq

namespace MusicError

/-- `errors.Is`. -/
def is (target : Sentinel) : MusicError → Bool
  | .sentinel s => s = target
  | .wrap _ err => err.is target
  | _ => false

/-- `errors.As` with an `*exec.ExitError`. -/
def exitError? : MusicError → Option String
  | .exitError stderr => some stderr
  | .wrap _ err => err.exitError?
  | _ => none

/-- A chain ends in one sentinel at most. -/
theorem is_unique {err : MusicError} {a b : Sentinel} (ha : err.is a = true)
    (hb : err.is b = true) : a = b := by
  induction err with
  | sentinel s =>
    rw [is, decide_eq_true_iff] at ha hb
    exact ha.symm.trans hb
  | exitError stderr => cases ha
  | context => cases ha
  | other => cases ha
  | wrap text err ih => exact ih ha hb

/-- What `rpcErrorToCode` makes of it. No error of the database is in a chain. -/
def toRpcError (err : MusicError) : RpcError :=
  if err.is .errInvalidURL then .errInvalidURL
  else if err.is .errVideoUnavailable then .errVideoUnavailable
  else .other

end MusicError

/-! ## One run -/

/-- Why `cmd.Output()` returns an error. -/
inductive CmdError
  | exit (stderr : String)
  | other

def CmdError.toError : CmdError → MusicError
  | .exit stderr => .exitError stderr
  | .other => .other

/-- What yt-dlp prints, or that running it has failed. -/
abbrev Output := Except CmdError String

/-- `strings.Contains`. -/
def contains (s substr : String) : Bool := decide (substr.toList <:+: s.toList)

def classifyYtdlpError (err : MusicError) : MusicError :=
  match err.exitError? with
  | some stderr =>
    if contains stderr "Unsupported URL" || contains stderr "is not a valid URL" then
      .wrap stderr (.sentinel .errInvalidURL)
    else if contains stderr "Video unavailable" then
      .wrap stderr (.sentinel .errVideoUnavailable)
    else .wrap stderr err
  | none => err

/-- The id, which is empty with an error. -/
def peekSourceID : Output → String × Option MusicError
  | .error err => ("", some (classifyYtdlpError err.toError))
  | .ok out =>
    let id := trimSpace out
    if id = "" then
      ("", some (.wrap "empty id from yt-dlp" (.sentinel .errUnexpectedYtdlpOutput)))
    else (id, none)

structure YtdlpResult where
  sourceID : String
  duration : Int
  filePath : String
  deriving DecidableEq

def YtdlpResult.zero : YtdlpResult := ⟨"", 0, ""⟩

/-- `strings.Split` at line ends. -/
def splitLines (s : String) : List String := (s.toList.splitOn '\n').map String.ofList

/-- `parseFloat` is `strconv.ParseFloat` and the conversion to `int64`. -/
def ytdlp (parseFloat : String → Option Int) : Output → YtdlpResult × Option MusicError
  | .error err => (.zero, some (classifyYtdlpError err.toError))
  | .ok out =>
    match splitLines (trimSpace out) with
    | [id, duration, filePath] =>
      match parseFloat (trimSpace duration) with
      | none => (.zero, some (.wrap duration .other))
      | some d => (⟨trimSpace id, d, trimSpace filePath⟩, none)
    | _ => (.zero, some (.wrap out (.sentinel .errUnexpectedYtdlpOutput)))

example : ytdlp (fun _ => some 212) (.ok "v\n212\n/music/youtube/v.opus\n") =
    (⟨"v", 212, "/music/youtube/v.opus"⟩, none) := by decide

/-! ## With retries -/

variable {α : Type}

/-- How often the operation was called, and the variable that it assigns. -/
structure Captured (α : Type) where
  calls : Nat
  value : α

def captured (zero : α) : Captured α := ⟨0, zero⟩

/-- What the function that `withRetry` retries returns for an error. -/
def toAttempt : Option MusicError → Attempt MusicError
  | none => .ok
  | some err =>
    if err.is .errInvalidURL || err.is .errVideoUnavailable then .unrecoverable err
    else .failed err

/-- `op n` is what the call number `n` of the operation returns. -/
def attemptOp (op : Nat → α × Option MusicError) (s : Captured α) :
    Attempt MusicError × Captured α :=
  (toAttempt (op s.calls).2, ⟨s.calls + 1, (op s.calls).1⟩)

/-- What comes of retrying the operation. -/
abbrev OpRun (op : Nat → α × Option MusicError) (zero : α) :=
  Run retryAttempts (attemptOp op) (captured zero)

def RetryError.toError : RetryError MusicError → MusicError
  | .context => .context
  | .last err => err
  | .log _ => .other

def withRetry {op : Nat → α × Option MusicError} {zero : α} (run : OpRun op zero) :
    Option MusicError :=
  (retryWithBackoff run.returned).map RetryError.toError

section

variable {op : Nat → α × Option MusicError} {zero : α}

/-- The operation was called, and the last call returned this error. -/
def LastError (run : OpRun op zero) (err : MusicError) : Prop :=
  ∃ n, run.calls = n + 1 ∧ (op n).2 = some err

/-- The last call of the operation returned an error of this kind. -/
def LastIs (run : OpRun op zero) (target : Sentinel) : Prop :=
  ∃ err, LastError run err ∧ err.is target = true

/-- At most ten calls, none after a success or an error of the two kinds that
are not retried, and nil exactly when the last call succeeded. -/
structure StageLaw (run : OpRun op zero) : Prop where
  calls_le : run.calls ≤ 10
  stops : ∀ n, n + 1 < run.calls → ∃ err, (op n).2 = some err ∧
    err.is .errInvalidURL = false ∧ err.is .errVideoUnavailable = false
  nil_iff : withRetry run = none ↔ ∃ n, run.calls = n + 1 ∧ (op n).2 = none

theorem toAttempt_eq_ok {err : Option MusicError} : toAttempt err = .ok ↔ err = none := by
  unfold toAttempt
  split
  · exact iff_of_true rfl rfl
  · split <;> exact iff_of_false (fun h => by cases h) (fun h => by cases h)

theorem toAttempt_eq_failed {err : Option MusicError} {e : MusicError}
    (h : toAttempt err = .failed e) :
    err = some e ∧ e.is .errInvalidURL = false ∧ e.is .errVideoUnavailable = false := by
  unfold toAttempt at h
  split at h
  · cases h
  · split at h
    · cases h
    · next hkind =>
      cases h
      rw [Bool.or_eq_true, not_or] at hkind
      exact ⟨rfl, Bool.eq_false_iff.mpr hkind.1, Bool.eq_false_iff.mpr hkind.2⟩

theorem toAttempt_error (err : MusicError) : (toAttempt (some err)).error? = some err := by
  rw [toAttempt]
  split <;> rfl

theorem stateAt_calls (op : Nat → α × Option MusicError) (zero : α) (n : Nat) :
    (stateAt (attemptOp op) (captured zero) n).calls = n := by
  induction n with
  | zero => rfl
  | succ n ih => rw [stateAt, attemptOp, ih]

theorem attemptAt_eq (op : Nat → α × Option MusicError) (zero : α) (n : Nat) :
    attemptAt (attemptOp op) (captured zero) n = toAttempt (op n).2 := by
  rw [attemptAt, attemptOp, stateAt_calls]

theorem final_value {run : OpRun op zero} {n : Nat} (h : run.calls = n + 1) :
    run.final.value = (op n).1 := by
  rw [Run.final, h, stateAt, attemptOp, stateAt_calls]

theorem withRetry_eq_none {run : OpRun op zero} :
    withRetry run = none ↔ ∃ n, run.calls = n + 1 ∧ (op n).2 = none := by
  rw [withRetry, Option.map_eq_none_iff, retryWithBackoff_eq_none]
  constructor
  · intro h
    obtain ⟨n, hn, hok⟩ := Run.last_eq_some h
    exact ⟨n, hn, toAttempt_eq_ok.mp (attemptAt_eq op zero n ▸ hok)⟩
  · rintro ⟨n, hn, hok⟩
    rw [Run.last_eq hn, attemptAt_eq, toAttempt_eq_ok.mpr hok]

/-- After nil the variable has what the last call returned. -/
theorem value_of_success {run : OpRun op zero} (h : withRetry run = none) :
    ∃ n, run.calls = n + 1 ∧ op n = (run.final.value, none) := by
  obtain ⟨n, hn, hnone⟩ := withRetry_eq_none.mp h
  exact ⟨n, hn, by rw [final_value hn, ← hnone]⟩

theorem stageLaw (run : OpRun op zero) : StageLaw run where
  calls_le := run.calls_le
  stops n hn := by
    obtain ⟨err, herr⟩ := run.retried n hn
    rw [attemptAt_eq] at herr
    exact ⟨err, toAttempt_eq_failed herr⟩
  nil_iff := withRetry_eq_none

/-- Of the two kinds that are not retried, what is returned is of the kind of the
last call's error. -/
theorem withRetry_is {run : OpRun op zero} {err : MusicError} (h : withRetry run = some err)
    {target : Sentinel} (ht : target = .errInvalidURL ∨ target = .errVideoUnavailable) :
    err.is target = true ↔ LastIs run target := by
  rw [withRetry] at h
  constructor
  · intro hkind
    obtain ⟨-, hr⟩ | ⟨-, hr⟩ | ⟨a, e, hlast, he, hr⟩ := retryWithBackoff_spec run
    · rw [hr] at h
      cases h
    · rw [hr] at h
      cases h
      cases hkind
    · rw [hr] at h
      cases h
      obtain ⟨n, hn, rfl⟩ := Run.last_eq_some hlast
      refine ⟨e, ⟨n, hn, ?_⟩, hkind⟩
      rw [attemptAt_eq] at he
      cases hop : (op n).2 with
      | none =>
        rw [hop] at he
        cases he
      | some e' => rwa [hop, toAttempt_error] at he
  · rintro ⟨e, ⟨n, hn, he⟩, hkind⟩
    have hunrecoverable : attemptAt (attemptOp op) (captured zero) n = .unrecoverable e := by
      rw [attemptAt_eq, he, toAttempt]
      rcases ht with rfl | rfl <;> simp [hkind]
    have hr : retryWithBackoff run.returned = some (.last e) :=
      retryWithBackoff_of_unrecoverable (by rw [Run.last_eq hn, hunrecoverable])
    rw [hr] at h
    cases h
    exact hkind

end

end RadioJockey
