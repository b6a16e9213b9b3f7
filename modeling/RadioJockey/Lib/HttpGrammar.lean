import Mathlib.Data.List.DropRight

/-!
# HTTP/1.1 messages as bytes

The message syntax of a request without a body: a request line of three parts
with one space between them, header lines, and an empty line, each ended by
CRLF. `parseRequest` returns the first request of its input and the bytes after
it.

* `parseRequest_render`: a request that is written out is read back, and what
  follows it is left as it is.
* The parts of a `Request` carry the proofs that they are what the grammar
  allows, so what is read is well formed by its type.
* `Response.render`: a response with a status line, any header lines and any
  body. `Response.render_eq`: its first bytes are the version and the code.
-/

namespace HttpGrammar

abbrev Bytes := List UInt8

/-- The UTF-8 bytes of a string. -/
def bytes (s : String) : Bytes := s.toList.flatMap String.utf8EncodeChar

def cr : UInt8 := 13

def lf : UInt8 := 10

def sp : UInt8 := 32

def htab : UInt8 := 9

def colon : UInt8 := 58

/-- `VCHAR` or `obs-text`: neither a space nor a control byte. -/
def visible (b : UInt8) : Bool := 33 ≤ b && b != 127

/-- A `VCHAR` that is not one of the delimiters of the grammar: double quote,
parentheses, comma, slash, colon to at sign, brackets, backslash and braces. -/
def tokenByte (b : UInt8) : Bool :=
  visible b && b < 128 && !([34, 40, 41, 44, 47, 58, 59, 60, 61, 62, 63, 64, 91, 92, 93, 123,
    125] : Bytes).contains b

def fieldByte (b : UInt8) : Bool := visible b || b == sp || b == htab

def isOws (b : UInt8) : Bool := b == sp || b == htab

def isToken (l : Bytes) : Bool := !l.isEmpty && l.all tokenByte

/-- Any visible bytes, where a URI would allow fewer. -/
def isTarget (l : Bytes) : Bool := !l.isEmpty && l.all visible

def isDigit (b : UInt8) : Bool := 48 ≤ b && b ≤ 57

/-- `HTTP/` and two digits with a dot between them. -/
def isVersion : Bytes → Bool
  | [h, t, t', p, slash, major, dot, minor] =>
    [h, t, t', p, slash] == [72, 84, 84, 80, 47] && isDigit major && dot == 46 && isDigit minor
  | _ => false

/-- Drops the optional whitespace around a field value. -/
def trimOws (l : Bytes) : Bytes := (l.dropWhile isOws).rdropWhile isOws

structure Header where
  name : Bytes
  value : Bytes
  name_token : isToken name = true
  value_field : value.all fieldByte = true
  value_trimmed : trimOws value = value
  deriving DecidableEq

structure Request where
  method : Bytes
  target : Bytes
  version : Bytes
  headers : List Header
  method_token : isToken method = true
  target_visible : isTarget target = true
  version_digits : isVersion version = true
  deriving DecidableEq

/-! ## Characters and their bytes -/

theorem bytes_append (s t : String) : bytes (s ++ t) = bytes s ++ bytes t := by
  simp [bytes]

/-- The character is neither a space nor an ASCII control character. -/
def visibleChar (c : Char) : Bool := 32 < c.val.toNat && c.val.toNat != 127

theorem visible_ofNat : ∀ n < 256, visible (UInt8.ofNat n) = (32 < n && n != 127 : Bool) := by
  decide +kernel

/-- The bytes of a longer encoding. -/
theorem visible_ofNat_high {n : Nat} (hlo : 128 ≤ n) (hhi : n < 256) :
    visible (UInt8.ofNat n) = true := by
  rw [visible_ofNat n hhi]
  simp only [Bool.and_eq_true, decide_eq_true_eq, bne_iff_ne]
  omega

theorem visible_utf8EncodeChar (c : Char) :
    (String.utf8EncodeChar c).all visible = visibleChar c := by
  have hlong (h : ¬ c.val.toNat ≤ 127) : visibleChar c = true := by
    simp only [visibleChar, Bool.and_eq_true, decide_eq_true_eq, bne_iff_ne]
    omega
  have hhigh (n k base : Nat) (hlo : 128 ≤ base) (hk : 0 < k) (hhi : base + k ≤ 256) :
      visible (UInt8.ofNat (n % k + base)) = true := by
    have := Nat.mod_lt n hk
    exact visible_ofNat_high (by omega) (by omega)
  unfold String.utf8EncodeChar
  dsimp only
  split
  · next h =>
    rw [List.all_cons, List.all_nil, Bool.and_true, visible_ofNat _ (by omega)]
    rfl
  · next h =>
    rw [hlong h]
    split
    · simp (disch := decide) only [List.all_cons, List.all_nil, hhigh, Bool.and_self]
    · split
      · simp (disch := decide) only [List.all_cons, List.all_nil, hhigh, Bool.and_self]
      · simp (disch := decide) only [List.all_cons, List.all_nil, hhigh, Bool.and_self]

theorem visible_bytes (s : String) : (bytes s).all visible = s.toList.all visibleChar := by
  unfold bytes
  induction s.toList with
  | nil => rfl
  | cons c l ih =>
    rw [List.flatMap_cons, List.all_append, ih, visible_utf8EncodeChar, List.all_cons]

/-! ## Writing -/

def Header.render (h : Header) : Bytes := h.name ++ colon :: sp :: h.value

def renderHeaders : List Header → Bytes
  | [] => [cr, lf]
  | h :: hs => h.render ++ cr :: lf :: renderHeaders hs

def Request.requestLine (r : Request) : Bytes := r.method ++ sp :: (r.target ++ sp :: r.version)

def Request.render (r : Request) : Bytes :=
  r.requestLine ++ cr :: lf :: renderHeaders r.headers

/-! ## Reading -/

/-- The bytes before the first CRLF, and those after it. -/
def takeLine : Bytes → Option (Bytes × Bytes)
  | [] => none
  | [_] => none
  | b :: c :: rest =>
    if b = cr ∧ c = lf then some ([], rest)
    else (takeLine (c :: rest)).map fun p => (b :: p.1, p.2)

theorem trimOws_idem (l : Bytes) : trimOws (trimOws l) = trimOws l := by
  unfold trimOws
  have hdrop : ((l.dropWhile isOws).rdropWhile isOws).dropWhile isOws =
      (l.dropWhile isOws).rdropWhile isOws := by
    rw [List.dropWhile_eq_self_iff]
    intro hl
    have hpre : (l.dropWhile isOws).rdropWhile isOws <+: l.dropWhile isOws :=
      List.rdropWhile_prefix ..
    have hself := List.dropWhile_eq_self_iff.mp (List.dropWhile_idempotent (p := isOws) (l := l))
    rw [hpre.getElem hl]
    exact hself _
  rw [hdrop, List.rdropWhile_idempotent]

theorem not_ows_of_visible {b : UInt8} (h : visible b = true) : isOws b = false := by
  rw [isOws, Bool.or_eq_false_iff, beq_eq_false_iff_ne, beq_eq_false_iff_ne]
  constructor
  · rintro rfl
    exact absurd h (by decide)
  · rintro rfl
    exact absurd h (by decide)

/-- A value that begins and ends with a visible byte has nothing to be trimmed. -/
theorem trimOws_eq_self {b : UInt8} {l : Bytes} (hhead : visible b = true)
    (hlast : visible ((b :: l).getLast (List.cons_ne_nil b l)) = true) :
    trimOws (b :: l) = b :: l := by
  have hdrop : (b :: l).dropWhile isOws = b :: l := by
    rw [List.dropWhile_cons_of_neg (by rw [not_ows_of_visible hhead]; decide)]
  rw [trimOws, hdrop, List.rdropWhile_eq_self_iff]
  intro _
  rw [not_ows_of_visible hlast]
  decide

def parseHeader (l : Bytes) : Option Header :=
  let name := l.takeWhile (· != colon)
  let value := ((l.dropWhile (· != colon)).drop 1)
  if h : isToken name = true ∧ (trimOws value).all fieldByte = true then
    if l.contains colon then some ⟨name, trimOws value, h.1, h.2, trimOws_idem value⟩ else none
  else none

/-- The header lines up to the empty line. Each has at least its CRLF, so there
are fewer of them than bytes. -/
def parseHeaders : Nat → Bytes → Option (List Header × Bytes)
  | 0, _ => none
  | n + 1, bs =>
    match takeLine bs with
    | none => none
    | some ([], rest) => some ([], rest)
    | some (l, rest) =>
      match parseHeader l, parseHeaders n rest with
      | some h, some (hs, rest) => some (h :: hs, rest)
      | _, _ => none

def parseRequest (bs : Bytes) : Option (Request × Bytes) :=
  match takeLine bs with
  | none => none
  | some (l, rest) =>
    match l.splitOn sp, parseHeaders rest.length rest with
    | [method, target, version], some (headers, rest) =>
      if h : isToken method = true ∧ isTarget target = true ∧ isVersion version = true then
        some (⟨method, target, version, headers, h.1, h.2.1, h.2.2⟩, rest)
      else none
    | _, _ => none

/-! ## The round trip -/

theorem fieldByte_of_visible {b : UInt8} (h : visible b = true) : fieldByte b = true := by
  simp [fieldByte, h]

theorem not_mem_of_all {p : UInt8 → Bool} {l : Bytes} {b : UInt8} (h : l.all p = true)
    (hb : p b = false) : b ∉ l := by
  intro hmem
  have := List.all_eq_true.mp h b hmem
  rw [hb] at this
  cases this

theorem all_of_isToken {l : Bytes} (h : isToken l = true) : l.all tokenByte = true :=
  (Bool.and_eq_true_iff.mp h).2

theorem all_of_isTarget {l : Bytes} (h : isTarget l = true) : l.all visible = true :=
  (Bool.and_eq_true_iff.mp h).2

theorem visible_of_isVersion {l : Bytes} (h : isVersion l = true) : l.all visible = true := by
  unfold isVersion at h
  split at h
  · next a b c d e major dot minor =>
    simp only [Bool.and_eq_true, beq_iff_eq, List.cons.injEq, isDigit, decide_eq_true_eq] at h
    obtain ⟨⟨⟨⟨rfl, rfl, rfl, rfl, rfl, -⟩, h1, h2⟩, rfl⟩, h3, h4⟩ := h
    have hdigit : ∀ b : UInt8, 48 ≤ b → b ≤ 57 → visible b = true := by
      intro b hlo hhi
      simp only [visible, Bool.and_eq_true, bne_iff_ne, decide_eq_true_eq]
      refine ⟨UInt8.le_trans (by decide) hlo, ?_⟩
      rintro rfl
      exact absurd hhi (by decide)
    simp only [List.all_cons, hdigit major h1 h2, hdigit minor h3 h4]
    decide
  · cases h

theorem takeLine_cons {b : UInt8} (l : Bytes) (hb : b ≠ cr) :
    takeLine (b :: l) = (takeLine l).map fun p => (b :: p.1, p.2) := by
  cases l with
  | nil => rfl
  | cons c rest =>
    rw [takeLine, if_neg fun h => hb h.1]

theorem takeLine_append {l : Bytes} (rest : Bytes) (h : cr ∉ l) :
    takeLine (l ++ cr :: lf :: rest) = some (l, rest) := by
  induction l with
  | nil => rfl
  | cons b l ih =>
    rw [List.mem_cons, not_or] at h
    rw [List.cons_append, takeLine_cons _ (Ne.symm h.1), ih h.2]
    rfl

theorem Header.cr_notMem (h : Header) : cr ∉ h.render := by
  have hname := not_mem_of_all (b := cr) (all_of_isToken h.name_token) (by decide)
  have hvalue := not_mem_of_all (b := cr) h.value_field (by decide)
  simp only [Header.render, List.mem_append, List.mem_cons, not_or]
  exact ⟨hname, by decide, by decide, hvalue⟩

theorem Header.render_ne_nil (h : Header) : h.render ≠ [] := by
  simp [Header.render]

theorem parseHeader_render (h : Header) : parseHeader h.render = some h := by
  have hname : ∀ b ∈ h.name, (b != colon) = true := by
    intro b hb
    rw [bne_iff_ne]
    rintro rfl
    exact not_mem_of_all (all_of_isToken h.name_token) (by decide) hb
  have htake : h.render.takeWhile (· != colon) = h.name := by
    simp [Header.render, List.takeWhile_append_of_pos hname]
  have hdrop : (h.render.dropWhile (· != colon)).drop 1 = sp :: h.value := by
    simp [Header.render, List.dropWhile_append_of_pos hname]
  have htrim : trimOws (sp :: h.value) = h.value := h.value_trimmed
  have hcolon : h.render.contains colon = true := by simp [Header.render]
  unfold parseHeader
  simp only [htake, hdrop, htrim, hcolon, if_true]
  rw [dif_pos ⟨h.name_token, h.value_field⟩]

/-- Induction on the header lines; `n` is what is left of the bound on them. -/
theorem parseHeaders_render (hs : List Header) (rest : Bytes) :
    ∀ n, hs.length < n → parseHeaders n (renderHeaders hs ++ rest) = some (hs, rest) := by
  induction hs with
  | nil =>
    intro n hn
    cases n with
    | zero => cases hn
    | succ n => rfl
  | cons h hs ih =>
    intro n hn
    cases n with
    | zero => cases hn
    | succ n =>
      obtain ⟨b, l, hl⟩ := List.exists_cons_of_ne_nil h.render_ne_nil
      have hline : takeLine (renderHeaders (h :: hs) ++ rest) =
          some (b :: l, renderHeaders hs ++ rest) := by
        rw [renderHeaders, List.append_assoc, List.cons_append, List.cons_append, ← hl]
        exact takeLine_append _ h.cr_notMem
      have hheader : parseHeader (b :: l) = some h := hl ▸ parseHeader_render h
      simp only [parseHeaders, hline, hheader, ih n (Nat.lt_of_succ_lt_succ hn)]

theorem length_renderHeaders (hs : List Header) : hs.length < (renderHeaders hs).length := by
  induction hs with
  | nil => decide
  | cons h hs ih =>
    simp only [renderHeaders, List.length_append, List.length_cons]
    omega

/-- A byte that is not visible is in no part of a request line. -/
theorem Request.notMem_parts (r : Request) {b : UInt8} (hb : visible b = false) :
    b ∉ r.method ∧ b ∉ r.target ∧ b ∉ r.version := by
  have htoken : tokenByte b = false := by simp [tokenByte, hb]
  exact ⟨not_mem_of_all (all_of_isToken r.method_token) htoken,
    not_mem_of_all (all_of_isTarget r.target_visible) hb,
    not_mem_of_all (visible_of_isVersion r.version_digits) hb⟩

theorem splitOn_requestLine (r : Request) :
    r.requestLine.splitOn sp = [r.method, r.target, r.version] := by
  obtain ⟨hmethod, htarget, hversion⟩ := r.notMem_parts (b := sp) (by decide)
  rw [Request.requestLine, List.splitOn_append_cons_self_of_not_mem hmethod,
    List.splitOn_append_cons_self_of_not_mem htarget, List.splitOn_eq_singleton hversion]

theorem Request.cr_notMem (r : Request) : cr ∉ r.requestLine := by
  obtain ⟨hmethod, htarget, hversion⟩ := r.notMem_parts (b := cr) (by decide)
  simp only [Request.requestLine, List.mem_append, List.mem_cons, not_or]
  exact ⟨hmethod, by decide, htarget, by decide, hversion⟩

/-- What is written out is read back, up to the bytes that follow it. -/
theorem parseRequest_render (r : Request) (rest : Bytes) :
    parseRequest (r.render ++ rest) = some (r, rest) := by
  have hline : takeLine (r.render ++ rest) =
      some (r.requestLine, renderHeaders r.headers ++ rest) := by
    rw [Request.render, List.append_assoc, List.cons_append, List.cons_append]
    exact takeLine_append _ r.cr_notMem
  have hheaders := parseHeaders_render r.headers rest (renderHeaders r.headers ++ rest).length (by
    have := length_renderHeaders r.headers
    rw [List.length_append]
    omega)
  unfold parseRequest
  simp only [hline, splitOn_requestLine, hheaders]
  rw [dif_pos ⟨r.method_token, r.target_visible, r.version_digits⟩]

/-! ## Responses -/

def isStatusCode (l : Bytes) : Bool := l.length == 3 && l.all isDigit

/-- What follows the code is not looked into. -/
structure Response where
  version : Bytes
  code : Bytes
  reason : Bytes
  headers : List Bytes
  body : Bytes
  version_digits : isVersion version = true
  code_digits : isStatusCode code = true

namespace Response

/-- The reason, the header lines and the body. -/
def afterCode (r : Response) : Bytes :=
  sp :: r.reason ++ cr :: lf :: (r.headers.flatMap (fun h => h ++ [cr, lf]) ++ cr :: lf :: r.body)

def render (r : Response) : Bytes := r.version ++ sp :: (r.code ++ r.afterCode)

end Response

theorem eq_of_isVersion {l : Bytes} (h : isVersion l = true) :
    ∃ major minor, l = [72, 84, 84, 80, 47, major, 46, minor] := by
  unfold isVersion at h
  split at h
  · next a b c d e major dot minor =>
    simp only [Bool.and_eq_true, beq_iff_eq, List.cons.injEq] at h
    obtain ⟨⟨⟨⟨rfl, rfl, rfl, rfl, rfl, -⟩, -⟩, rfl⟩, -⟩ := h
    exact ⟨major, minor, rfl⟩
  · cases h

theorem isVersion_one_one : isVersion (bytes "HTTP/1.1") = true := by decide

theorem eq_of_isStatusCode {l : Bytes} (h : isStatusCode l = true) :
    ∃ c₁ c₂ c₃, l = [c₁, c₂, c₃] := by
  rw [isStatusCode, Bool.and_eq_true, beq_iff_eq] at h
  exact List.length_eq_three.mp h.1

theorem Response.render_eq (r : Response) : ∃ major minor,
    r.render = [72, 84, 84, 80, 47, major, 46, minor, sp] ++ (r.code ++ r.afterCode) := by
  obtain ⟨major, minor, hversion⟩ := eq_of_isVersion r.version_digits
  exact ⟨major, minor, by rw [render, hversion]; rfl⟩

end HttpGrammar
