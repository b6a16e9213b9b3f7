import Mathlib.Data.List.Infix
import RadioJockey.Lib.HttpGrammar
import RadioJockey.Retries

/-!
# Connecting to Icecast (`icecast.go`)

`icecastConnection` dials, writes its request (`Handshake`), and looks for `200`
in what one read returns. `connectWithRetry` calls it until a call succeeds, and
keeps the connection of the last call in a captured variable.

1. `connectWithRetry_closes`: whatever the attempts meet, and whenever the
   retries end, every connection but the returned one is closed once.
2. `error_accepted`: a response with another code and a `200` in a header is
   taken for a success.
3. `accepts_iff`: for every response and every split of its bytes, only success
   is accepted if and only if the first read has the whole code of a 200, and no
   `200` after the code of any other.
-/

namespace RadioJockey.IcecastConnection

open HttpGrammar Retry

def icecastResponseBufferSize : Nat := 512

/-- `icecastRejected` is formatted with the response. -/
inductive ConnectError
  | dial
  | write
  | read
  | icecastRejected (resp : Bytes)
  deriving DecidableEq

/-- What a call meets. A read that fails may have run into its deadline, and
`reads` is what has arrived when the read returns. -/
inductive Io
  | dialFails
  | writeFails
  | readFails
  | reads (arrived : Bytes)

/-- A connection that was opened, by which call, and how often it was closed. -/
structure Conn where
  attempt : Nat
  closes : Nat
  deriving DecidableEq

/-- A connection is known by its place among those that were opened. -/
abbrev ConnRef := Nat

def close (conns : List Conn) (conn : ConnRef) : List Conn :=
  conns.modify conn fun c => { c with closes := c.closes + 1 }

/-- `strings.Contains(resp, "200")`. -/
def containsSuccess (resp : Bytes) : Bool := decide (bytes "200" <:+: resp)

def icecastConnection (attempt : Nat) (io : Io) (conns : List Conn) :
    Except ConnectError ConnRef × List Conn :=
  let conn := conns.length
  let opened := conns ++ [{ attempt, closes := 0 }]
  match io with
  | .dialFails => (.error .dial, conns)
  | .writeFails => (.error .write, close opened conn)
  | .readFails => (.error .read, close opened conn)
  | .reads arrived =>
    let resp := arrived.take icecastResponseBufferSize
    if containsSuccess resp then (.ok conn, opened)
    else (.error (.icecastRejected resp), close opened conn)

/-- What the retried function captures. -/
structure Connecting where
  attempt : Nat
  conns : List Conn
  conn : Option ConnRef

def connecting : Connecting := ⟨0, [], none⟩

def attemptConnection (io : Nat → Io) (s : Connecting) : Attempt ConnectError × Connecting :=
  match icecastConnection s.attempt (io s.attempt) s.conns with
  | (.ok conn, conns) => (.ok, ⟨s.attempt + 1, conns, some conn⟩)
  | (.error err, conns) => (.failed err, ⟨s.attempt + 1, conns, none⟩)

def connectWithRetry {io : Nat → Io}
    (run : Run retryAttempts (attemptConnection io) connecting) :
    Option ConnRef × Option (RetryError ConnectError) :=
  (run.final.conn, retryWithBackoff run.returned)

/-! ## What is closed -/

def AllClosed (conns : List Conn) : Prop := ∀ c ∈ conns, c.closes = 1

/-- Of the opened connections the one at `conn`, of the call `attempt`, is open,
and every other one was closed once. -/
def OneOpen (conns : List Conn) (conn : ConnRef) (attempt : Nat) : Prop :=
  conns[conn]? = some { attempt, closes := 0 } ∧
    ∀ other c, conns[other]? = some c → other ≠ conn → c.closes = 1

theorem close_opened (conns : List Conn) (c : Conn) :
    close (conns ++ [c]) conns.length = conns ++ [{ c with closes := c.closes + 1 }] := by
  simp [close, List.modify_eq_set_getElem?]

theorem AllClosed.append {conns : List Conn} (h : AllClosed conns) {c : Conn}
    (hc : c.closes = 1) : AllClosed (conns ++ [c]) := by
  intro d hd
  rcases List.mem_append.mp hd with hd | hd
  · exact h d hd
  · rw [List.mem_singleton.mp hd, hc]

theorem AllClosed.oneOpen {conns : List Conn} (h : AllClosed conns) (attempt : Nat) :
    OneOpen (conns ++ [{ attempt, closes := 0 }]) conns.length attempt := by
  refine ⟨List.getElem?_concat_length, fun other c hc hother => h c ?_⟩
  have hlt : other < conns.length := by
    have := (List.getElem?_eq_some_iff.mp hc).1
    rw [List.length_append, List.length_singleton] at this
    exact Nat.lt_of_le_of_ne (Nat.le_of_lt_succ this) hother
  rw [List.getElem?_append_left hlt] at hc
  exact List.mem_of_getElem? hc

/-- A call opens at most one connection, and closes it if it fails. -/
theorem icecastConnection_spec (attempt : Nat) (io : Io) {conns : List Conn}
    (h : AllClosed conns) :
    (∃ err after, icecastConnection attempt io conns = (.error err, after) ∧ AllClosed after) ∨
      icecastConnection attempt io conns =
        (.ok conns.length, conns ++ [{ attempt, closes := 0 }]) := by
  have hclosed : AllClosed (close (conns ++ [{ attempt, closes := 0 }]) conns.length) := by
    rw [close_opened]
    exact h.append rfl
  cases io with
  | dialFails => exact .inl ⟨_, _, rfl, h⟩
  | writeFails => exact .inl ⟨_, _, rfl, hclosed⟩
  | readFails => exact .inl ⟨_, _, rfl, hclosed⟩
  | reads arrived =>
    simp only [icecastConnection]
    split
    · exact .inr rfl
    · exact .inl ⟨_, _, rfl, hclosed⟩

theorem attemptConnection_attempt (io : Nat → Io) (s : Connecting) :
    (attemptConnection io s).2.attempt = s.attempt + 1 := by
  unfold attemptConnection
  split <;> rfl

theorem stateAt_attempt (io : Nat → Io) (n : Nat) :
    (stateAt (attemptConnection io) connecting n).attempt = n := by
  induction n with
  | zero => rfl
  | succ n ih => rw [stateAt, attemptConnection_attempt, ih]

/-- A call that fails leaves every connection closed, and one that succeeds leaves
its own one open. -/
theorem attemptConnection_spec (io : Nat → Io) {s : Connecting} (h : AllClosed s.conns) :
    (∃ err, (attemptConnection io s).1 = .failed err ∧
        (attemptConnection io s).2.conn = none ∧ AllClosed (attemptConnection io s).2.conns) ∨
      ((attemptConnection io s).1 = .ok ∧ ∃ conn, (attemptConnection io s).2.conn = some conn ∧
        OneOpen (attemptConnection io s).2.conns conn s.attempt) := by
  obtain ⟨err, after, heq, hafter⟩ | heq := icecastConnection_spec s.attempt (io s.attempt) h
  · exact .inl ⟨err, by rw [attemptConnection, heq], by rw [attemptConnection, heq],
      by rwa [attemptConnection, heq]⟩
  · refine .inr ⟨by rw [attemptConnection, heq], s.conns.length, by rw [attemptConnection, heq],
      ?_⟩
    rw [attemptConnection, heq]
    exact h.oneOpen s.attempt

theorem allClosed_failed (io : Nat → Io) {s : Connecting} {err : ConnectError}
    (h : AllClosed s.conns) (herr : (attemptConnection io s).1 = .failed err) :
    AllClosed (attemptConnection io s).2.conns := by
  obtain ⟨-, -, -, hclosed⟩ | ⟨hok, -⟩ := attemptConnection_spec io h
  · exact hclosed
  · cases hok.symm.trans herr

/-- What is open when the retries end. -/
theorem final_conns {io : Nat → Io}
    (run : Run retryAttempts (attemptConnection io) connecting) :
    (run.last ≠ some .ok ∧ run.final.conn = none ∧ AllClosed run.final.conns) ∨
      ∃ n conn, run.last = some .ok ∧ run.final.conn = some conn ∧
        attemptAt (attemptConnection io) connecting n = .ok ∧
          OneOpen run.final.conns conn n := by
  have hinit : AllClosed connecting.conns := fun c hc => absurd hc List.not_mem_nil
  obtain ⟨hlast, hfinal⟩ | ⟨n, hn, hlast, hfinal⟩ := run.rule (I := fun t => AllClosed t.conns)
    hinit (fun t err ht herr => allClosed_failed io ht herr)
  · rw [hlast, hfinal]
    exact .inl ⟨(Option.some_ne_none _).symm, rfl, hinit⟩
  · rw [hlast, hfinal]
    obtain ⟨err, herr, hconn, hclosed⟩ | ⟨hok, conn, hconn, hopen⟩ := attemptConnection_spec io hn
    · refine .inl ⟨?_, hconn, hclosed⟩
      rw [attemptAt, herr, Ne, Option.some_inj]
      intro h
      cases h
    · rw [stateAt_attempt] at hopen
      exact .inr ⟨n, conn, congrArg some hok, hconn, hok, hopen⟩

/-- For every sequence of outcomes, and however the retries end: a connection
that a failed call opened has been closed once. After nil the returned one is the
one that is open, and after an error none is. -/
theorem connectWithRetry_closes (io : Nat → Io)
    (run : Run retryAttempts (attemptConnection io) connecting) :
    (∀ c ∈ run.final.conns,
      (∃ err, attemptAt (attemptConnection io) connecting c.attempt = .failed err) →
        c.closes = 1) ∧
      ((connectWithRetry run).2 = none → ∃ conn attempt, (connectWithRetry run).1 = some conn ∧
        attemptAt (attemptConnection io) connecting attempt = .ok ∧
          OneOpen run.final.conns conn attempt) ∧
      ((connectWithRetry run).2 ≠ none → (connectWithRetry run).1 = none ∧
        AllClosed run.final.conns) := by
  have hnil : (connectWithRetry run).2 = none ↔ run.last = some .ok := retryWithBackoff_eq_none
  obtain ⟨hlast, hconn, hclosed⟩ | ⟨n, conn, hlast, hconn, hok, hopen⟩ := final_conns run
  · exact ⟨fun c hc _ => hclosed c hc, fun h => absurd (hnil.mp h) hlast,
      fun _ => ⟨hconn, hclosed⟩⟩
  · refine ⟨fun c hc hfailed => ?_, fun _ => ⟨conn, n, hconn, hok, hopen⟩,
      fun h => absurd (hnil.mpr hlast) h⟩
    -- the open connection is not one of a failed call
    obtain ⟨err, herr⟩ := hfailed
    obtain ⟨other, hother⟩ := List.mem_iff_getElem?.mp hc
    by_cases heq : other = conn
    · subst heq
      cases hopen.1.symm.trans hother
      cases herr.symm.trans hok
    · exact hopen.2 other c hother heq

/-! ## What is accepted -/

/-- The bytes of a response as they arrive, in pieces of any length. -/
structure Delivery (response : Bytes) where
  arrivals : List Bytes
  flatten_eq : arrivals.flatten = response
  nonempty : ∀ arrived ∈ arrivals, arrived ≠ []

namespace Delivery

variable {response : Bytes}

/-- What has arrived when the only read returns. -/
def first (d : Delivery response) : Bytes := d.arrivals.headD []

def firstRead (d : Delivery response) : Bytes := d.first.take icecastResponseBufferSize

theorem firstRead_prefix (d : Delivery response) : d.firstRead <+: response := by
  have hfirst : d.first <+: d.arrivals.flatten := by
    unfold first
    cases d.arrivals with
    | nil => exact List.prefix_refl []
    | cons arrived later => exact List.prefix_append arrived later.flatten
  rw [d.flatten_eq] at hfirst
  exact (List.take_prefix _ _).trans hfirst

end Delivery

/-- With a 200 the connection is returned open, and with any other code the
response is rejected and the connection is closed. -/
def AcceptsExactlySuccess (r : Response) (d : Delivery r.render) : Prop :=
  ∀ attempt conns,
    if r.code = bytes "200" then
      icecastConnection attempt (.reads d.first) conns =
        (.ok conns.length, conns ++ [{ attempt, closes := 0 }])
    else
      ∃ resp, icecastConnection attempt (.reads d.first) conns =
        (.error (.icecastRejected resp), conns ++ [{ attempt, closes := 1 }])

theorem icecastConnection_reads (attempt : Nat) (arrived : Bytes) (conns : List Conn) :
    icecastConnection attempt (.reads arrived) conns =
      if containsSuccess (arrived.take icecastResponseBufferSize) then
        (.ok conns.length, conns ++ [{ attempt, closes := 0 }])
      else
        (.error (.icecastRejected (arrived.take icecastResponseBufferSize)),
          conns ++ [{ attempt, closes := 1 }]) := by
  rw [icecastConnection, close_opened]

theorem acceptsExactlySuccess_iff {r : Response} {d : Delivery r.render} :
    AcceptsExactlySuccess r d ↔ (containsSuccess d.firstRead = true ↔ r.code = bytes "200") := by
  have hread : d.first.take icecastResponseBufferSize = d.firstRead := rfl
  unfold AcceptsExactlySuccess
  simp only [icecastConnection_reads, hread]
  constructor
  · intro h
    have hempty := h 0 []
    by_cases hcode : r.code = bytes "200" <;> by_cases hsuccess : containsSuccess d.firstRead <;>
      simp_all
  · intro h attempt conns
    by_cases hcode : r.code = bytes "200"
    · rw [if_pos hcode, if_pos (h.mpr hcode)]
    · rw [if_neg hcode, if_neg (mt h.mp hcode)]
      exact ⟨_, rfl⟩

/-- The eleven bytes before the last digit of the code have no `200` in them. -/
theorem success_notInfix_line (major minor c₁ c₂ : UInt8) :
    ¬ bytes "200" <:+: [72, 84, 84, 80, 47, major, 46, minor, sp, c₁, c₂] := by
  have hbytes : bytes "200" = [50, 48, 48] := by decide
  simp [hbytes, sp, List.infix_cons_iff, List.prefix_cons_iff]

/-- The twelve bytes up to the code have a `200` in them only in the code. -/
theorem success_infix_line {major minor c₁ c₂ c₃ : UInt8} {rest : Bytes}
    (hrest : rest = [] ∨ ∃ tail, rest = sp :: tail) :
    bytes "200" <:+: [72, 84, 84, 80, 47, major, 46, minor, sp, c₁, c₂, c₃] ++ rest ↔
      bytes "200" = [c₁, c₂, c₃] ∨ bytes "200" <:+: rest := by
  have hbytes : bytes "200" = [50, 48, 48] := by decide
  obtain rfl | ⟨tail, rfl⟩ := hrest <;>
    simp [hbytes, sp, List.infix_cons_iff, List.prefix_cons_iff]

/-- What a `200` in the first bytes of a response means. -/
theorem success_infix_prefix (r : Response) {read : Bytes} (h : read <+: r.render) :
    bytes "200" <:+: read ↔
      (r.code = bytes "200" ∧ 12 ≤ read.length) ∨ bytes "200" <:+: read.drop 12 := by
  obtain ⟨major, minor, hrender⟩ := r.render_eq
  obtain ⟨c₁, c₂, c₃, hcode⟩ := eq_of_isStatusCode r.code_digits
  have hline : r.render =
      [72, 84, 84, 80, 47, major, 46, minor, sp, c₁, c₂, c₃] ++ r.afterCode := by
    rw [hrender, hcode]
    rfl
  rw [hline] at h
  rw [hcode]
  rcases Nat.lt_or_ge read.length 12 with hlt | hge
  · have hshort : read <+: [72, 84, 84, 80, 47, major, 46, minor, sp, c₁, c₂] := by
      refine List.prefix_of_prefix_length_le h ⟨c₃ :: r.afterCode, rfl⟩ ?_
      exact Nat.le_of_lt_succ hlt
    have hno : ¬ bytes "200" <:+: read := fun hin =>
      success_notInfix_line major minor c₁ c₂ (hin.trans hshort.isInfix)
    rw [List.drop_eq_nil_of_le (Nat.le_of_lt hlt)]
    refine iff_of_false hno ?_
    rintro (⟨-, hle⟩ | hin)
    · exact absurd hlt (Nat.not_lt.mpr hle)
    · cases List.infix_nil.mp hin
  · obtain ⟨rest, rfl⟩ : [72, 84, 84, 80, 47, major, 46, minor, sp, c₁, c₂, c₃] <+: read :=
      List.prefix_of_prefix_length_le (List.prefix_append _ _) h hge
    have hrest : rest = [] ∨ ∃ tail, rest = sp :: tail := by
      rw [List.prefix_append_right_inj, Response.afterCode, List.cons_append,
        List.prefix_cons_iff] at h
      obtain rfl | ⟨tail, rfl, -⟩ := h
      · exact .inl rfl
      · exact .inr ⟨tail, rfl⟩
    rw [success_infix_line hrest, and_iff_left hge, eq_comm]
    rfl

/-- A 200 is accepted if and only if the first read returns the whole code, and
any other code is rejected if and only if no `200` follows it in the first read. -/
theorem accepts_iff (r : Response) (d : Delivery r.render) :
    AcceptsExactlySuccess r d ↔
      if r.code = bytes "200" then 12 ≤ d.firstRead.length
      else ¬ bytes "200" <:+: d.firstRead.drop 12 := by
  rw [acceptsExactlySuccess_iff, containsSuccess, decide_eq_true_iff,
    success_infix_prefix r d.firstRead_prefix]
  by_cases hcode : r.code = bytes "200"
  · rw [if_pos hcode, iff_true_right hcode, and_iff_right hcode, or_iff_left_of_imp]
    intro hin
    have hlength := hin.length_le
    rw [List.length_drop] at hlength
    have hsuccess : (bytes "200").length = 3 := by decide
    omega
  · simp [hcode]

/-- A 503 with a number in a header. -/
def unavailable : Response where
  version := bytes "HTTP/1.1"
  code := bytes "503"
  reason := bytes "Service Unavailable"
  headers := [bytes "Retry-After: 1200"]
  body := []
  version_digits := isVersion_one_one
  code_digits := by decide

/-- The 503 arrives in one piece, and its connection is returned. -/
theorem error_accepted : ∃ (r : Response) (d : Delivery r.render), r.code = bytes "503" ∧
    icecastConnection 0 (.reads d.first) [] = (.ok 0, [{ attempt := 0, closes := 0 }]) ∧
      ¬ AcceptsExactlySuccess r d := by
  have hread : containsSuccess (unavailable.render.take icecastResponseBufferSize) = true := by
    decide +kernel
  have haccepted : icecastConnection 0 (.reads unavailable.render) [] =
      (.ok 0, [{ attempt := 0, closes := 0 }]) := by
    rw [icecastConnection_reads, if_pos hread]
    rfl
  have hcode : unavailable.code ≠ bytes "200" := by decide
  exact ⟨unavailable, ⟨[unavailable.render], by simp, by simp [Response.render]⟩, rfl, haccepted,
    fun h => hcode ((acceptsExactlySuccess_iff.mp h).mp hread)⟩

end RadioJockey.IcecastConnection
