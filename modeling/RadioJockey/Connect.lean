import Mathlib.Data.List.DropRight
import RadioJockey.SessionQueue

/-!
# Procedures, interceptors and error codes (`connect/interceptor.go`, `connect/rpc.go`)

The interceptors see a request before its handler does. `stripInterceptor`
trims every string field; `authInterceptor` is in `AdminTokens.lean`, with the key
it verifies with.
-/

namespace RadioJockey

/-- The codes of package `connect` that the handlers use. -/
inductive Code
  | notFound
  | alreadyExists
  | resourceExhausted
  | failedPrecondition
  | invalidArgument
  | unauthenticated
  | deadlineExceeded
  | internal
  deriving DecidableEq, Repr

/-- What `errors.Is` tells apart in `rpcErrorToCode`. -/
inductive RpcError
  | session (err : SessionError)
  | errInvalidURL
  | errVideoUnavailable
  | errNoRows
  | other
  deriving DecidableEq, Repr

def rpcErrorToCode : RpcError → Code
  | .session .sessionNotFoundError => .notFound
  | .session .alreadyExistsError => .alreadyExists
  | .session .tooManySessionsError => .resourceExhausted
  | .session .fullQueueError => .resourceExhausted
  | .session .emptyQueueError => .failedPrecondition
  | .session .badIndexError => .invalidArgument
  | .errInvalidURL => .invalidArgument
  | .errVideoUnavailable => .notFound
  | .errNoRows => .notFound
  | .session .contextError => .internal
  | .other => .internal

/-- The RPCs of `RadioService`. -/
inductive Procedure
  | ping
  | requestNonce
  | respondNonce
  | createSession
  | getSession
  | deleteSessionAuth
  | addTrack
  | removeTrack
  | skipTrack
  | listQueue
  | listSessions
  | listSessionArchives
  | getSessionArchive
  | deleteSessionArchive
  deriving DecidableEq, Repr

def authenticatedProcedures : List Procedure := [.deleteSessionAuth, .deleteSessionArchive]

/-! ## Strings -/

/-- `unicode.IsSpace`. -/
def isSpace (c : Char) : Bool :=
  c.val.toNat ∈ [0x09, 0x0a, 0x0b, 0x0c, 0x0d, 0x20, 0x85, 0xa0, 0x1680, 0x2028, 0x2029, 0x202f,
    0x205f, 0x3000] || 0x2000 ≤ c.val.toNat && c.val.toNat ≤ 0x200a

/-- `strings.TrimSpace`, which `stripStrings` puts on every string field. -/
def trimSpace (s : String) : String :=
  String.ofList ((s.toList.dropWhile isSpace).rdropWhile isSpace)

/-- `strings.TrimPrefix`. -/
def trimPrefix (s pre : String) : String :=
  if pre.toList.isPrefixOf s.toList then String.ofList (s.toList.drop pre.length) else s

example : trimSpace "\t the station\n" = "the station" := by decide

example : trimPrefix "Bearer v4.public" "Bearer " = "v4.public" := by decide

theorem trimPrefix_append (pre s : String) : trimPrefix (pre ++ s) pre = s := by
  rw [trimPrefix, String.toList_append, if_pos (List.isPrefixOf_iff_prefix.mpr
    (List.prefix_append _ _)), ← String.length_toList, List.drop_left, String.ofList_toList]

theorem dropWhile_plain {cs : List Char} (h : ∀ c ∈ cs, isSpace c = false) :
    cs.dropWhile isSpace = cs := by
  cases cs with
  | nil => rfl
  | cons c cs => exact List.dropWhile_cons_of_neg (by simp [h c List.mem_cons_self])

theorem rdropWhile_plain {cs : List Char} (h : ∀ c ∈ cs, isSpace c = false) :
    cs.rdropWhile isSpace = cs :=
  List.rdropWhile_eq_self_iff.mpr fun hne => by simp [h _ (List.getLast_mem hne)]

theorem trimSpace_plain {cs : List Char} (h : ∀ c ∈ cs, isSpace c = false) :
    trimSpace (String.ofList cs) = String.ofList cs := by
  rw [trimSpace, String.toList_ofList, dropWhile_plain h, rdropWhile_plain h]

/-- A line that was printed. -/
theorem trimSpace_line {cs : List Char} (h : ∀ c ∈ cs, isSpace c = false) :
    trimSpace (String.ofList cs ++ "\n") = String.ofList cs := by
  have hspace : isSpace '\n' = true := by decide
  rw [trimSpace, String.toList_append, String.toList_ofList]
  cases cs with
  | nil => rfl
  | cons c cs =>
    have hc : ¬ isSpace c = true := by simp [h c List.mem_cons_self]
    show String.ofList (((c :: cs ++ ['\n']).dropWhile isSpace).rdropWhile isSpace) = _
    rw [List.cons_append, List.dropWhile_cons_of_neg hc, ← List.cons_append,
      List.rdropWhile_concat_pos _ _ _ hspace, rdropWhile_plain h]

end RadioJockey
