import Mathlib.Data.List.Basic

/-!
# URLs as `net/url` reads them

The host name of a URL reference (Go 1.25), on characters: the parts between
their ASCII delimiters are the same as on the bytes of UTF-8. Of a parsed URL
only the host is kept; `none` is any error.

* `cut_eq_iff`, `cutLast_eq_iff`: what is found around the first and the last
  delimiter.
* `Reference`: the references with an authority, part by part; the parts carry
  the proofs that each is what the parser takes it for.
* `hostname_eq_some_iff`: a host name without a colon is read from exactly the
  references whose host part stands for it.
-/

namespace NetURL

abbrev Bytes := List UInt8

universe u

section Cut

variable {α : Type u} [DecidableEq α]

/-- `strings.Cut`. There is no second part if there is no `sep`. -/
def cut (sep : α) : List α → List α × Option (List α)
  | [] => ([], none)
  | c :: cs => if c = sep then ([], some cs) else ((c :: (cut sep cs).1), (cut sep cs).2)

/-- The parts before and after `strings.LastIndex`. -/
def cutLast (sep : α) (s : List α) : Option (List α) × List α :=
  ((cut sep s.reverse).2.map List.reverse, (cut sep s.reverse).1.reverse)

theorem cut_eq_iff {sep : α} {s before : List α} {after : Option (List α)} :
    cut sep s = (before, after) ↔ sep ∉ before ∧ s = before ++ after.elim [] (sep :: ·) := by
  induction s generalizing before with
  | nil => cases before <;> cases after <;> simp [cut]
  | cons c cs ih =>
    rw [cut]
    split
    · next hc =>
      subst hc
      cases before with
      | nil => cases after <;> simp [eq_comm]
      | cons b bs => simp +contextual [eq_comm]
    · next hc =>
      cases before with
      | nil => cases after <;> simp [hc]
      | cons b bs =>
        have ih : ((cut sep cs).1 = bs ∧ (cut sep cs).2 = after) ↔
            sep ∉ bs ∧ cs = bs ++ after.elim [] (sep :: ·) := Prod.ext_iff.symm.trans ih
        rw [Prod.mk.injEq, List.cons.injEq, and_assoc, ih, List.cons_append, List.cons.injEq,
          List.mem_cons, not_or]
        constructor
        · rintro ⟨rfl, hbs, hcs⟩
          exact ⟨⟨Ne.symm hc, hbs⟩, rfl, hcs⟩
        · rintro ⟨⟨-, hbs⟩, rfl, hcs⟩
          exact ⟨rfl, hbs, hcs⟩

theorem cutLast_eq_iff {sep : α} {s after : List α} {before : Option (List α)} :
    cutLast sep s = (before, after) ↔ sep ∉ after ∧ s = before.elim [] (· ++ [sep]) ++ after := by
  have hcut : cutLast sep s = (before, after) ↔
      cut sep s.reverse = (after.reverse, before.map List.reverse) := by
    rw [cutLast, Prod.mk.injEq, Prod.ext_iff, List.reverse_eq_iff, and_comm]
    refine and_congr_right fun _ => ?_
    cases (cut sep s.reverse).2 <;> cases before <;> simp [List.reverse_eq_iff]
  rw [hcut, cut_eq_iff, List.mem_reverse]
  refine and_congr_right fun _ => ?_
  rw [List.reverse_eq_iff]
  cases before <;> simp

end Cut

/-! ## The parser -/

def isControl (c : Char) : Bool := c.toNat < 0x20 || c.toNat == 0x7f

def isSchemeChar (c : Char) : Bool := c.isAlphanum || ['+', '-', '.'].contains c

/-- A letter first. -/
def isScheme : List Char → Bool
  | [] => false
  | c :: cs => c.isAlpha && cs.all isSchemeChar

/-- `getScheme`: the scheme, `[]` if there is none, and what follows it. -/
def getScheme (raw : List Char) : Option (List Char × List Char) :=
  match cut ':' raw with
  | ([], some _) => none
  | (scheme, some rest) => if isScheme scheme then some (scheme, rest) else some ([], raw)
  | (_, none) => some ([], raw)

/-- `!shouldEscape` in a host, for an ASCII character. -/
def isHostChar (c : Char) : Bool := c.isAlphanum || "!$&'()*+,;=:[]<>\"-_.~".toList.contains c

/-- `validUserinfo`. -/
def isUserinfoChar (c : Char) : Bool := c.isAlphanum || "-._:~!$&'()*+,;=%@".toList.contains c

def isHex (c : Char) : Bool :=
  c.isDigit || (0x61 ≤ c.toNat && c.toNat ≤ 0x66) || (0x41 ≤ c.toNat && c.toNat ≤ 0x46)

def unhex (c : Char) : Nat :=
  if c.isDigit then c.toNat - 0x30 else if c.isLower then c.toNat - 0x57 else c.toNat - 0x37

/-- Every `%` is followed by two hexadecimal digits: `unescape` of a path, a
fragment, a user name or a password. -/
def validEscapes : List Char → Bool
  | [] => true
  | '%' :: a :: b :: cs => isHex a && isHex b && validEscapes cs
  | c :: cs => c != '%' && validEscapes cs

/-- `unescape` in a host or a zone; `allowed` are the bytes that may be escaped. -/
def unescape (allowed : UInt8 → Bool) : List Char → Option Bytes
  | [] => some []
  | '%' :: a :: b :: cs =>
    let v := UInt8.ofNat (unhex a * 16 + unhex b)
    if isHex a && isHex b && allowed v then (unescape allowed cs).map (v :: ·) else none
  | c :: cs =>
    if c.toNat < 0x80 && !isHostChar c then none
    else (unescape allowed cs).map (String.utf8EncodeChar c ++ ·)

def percent : UInt8 := 0x25

def colon : UInt8 := 0x3a

/-- A host may escape what is not ASCII, and the percent sign. -/
def hostAllowed (v : UInt8) : Bool := 0x80 ≤ v || v == percent

/-- A zone may escape what may also stand there, a space and the percent sign. -/
def zoneAllowed (v : UInt8) : Bool :=
  v == percent || v == 0x20 || (v < 0x80 && isHostChar (Char.ofNat v.toNat))

/-- `validOptionalPort`. -/
def validOptionalPort : List Char → Bool
  | [] => true
  | c :: cs => c == ':' && cs.all Char.isDigit

/-- The parts before the first `%25`, and from it on. -/
def cutZone : List Char → List Char × List Char
  | [] => ([], [])
  | '%' :: '2' :: '5' :: cs => ([], '%' :: '2' :: '5' :: cs)
  | c :: cs => (c :: (cutZone cs).1, (cutZone cs).2)

section Parser

-- `netip.ParseAddr` accepts the text, and not as an IPv4 address
variable (ipLiteral : Bytes → Bool)

/-- `parseHost`. -/
def parseHost (host : List Char) : Option Bytes :=
  if '[' ∈ host then
    match cutLast ']' host with
    | (none, _) => none
    | (some before, colonPort) =>
      if validOptionalPort colonPort then do
        let zoned := cutZone (cutLast '[' before).2
        let hostPart ← unescape hostAllowed zoned.1
        let zonePart ← unescape zoneAllowed zoned.2
        let port ← unescape hostAllowed colonPort
        if ipLiteral (hostPart ++ zonePart) then
          some (0x5b :: (hostPart ++ zonePart) ++ 0x5d :: port)
        else none
      else none
  else
    match cutLast ':' host with
    | (some _, port) => if port.all Char.isDigit then unescape hostAllowed host else none
    | (none, _) => unescape hostAllowed host

/-- `validUserinfo` and `unescape`, which takes the two sides of a colon apart. -/
def validUserinfo (userinfo : List Char) : Bool :=
  userinfo.all isUserinfoChar && validEscapes (cut ':' userinfo).1 &&
    ((cut ':' userinfo).2.map validEscapes).getD true

/-- `parseAuthority`, without the user. -/
def parseAuthority (authority : List Char) : Option Bytes :=
  match cutLast '@' authority with
  | (none, host) => parseHost ipLiteral host
  | (some userinfo, host) => if validUserinfo userinfo then parseHost ipLiteral host else none

/-- `setPath`, for a URL with the host `host`. -/
def setPath (path : List Char) (host : Bytes) : Option Bytes :=
  if validEscapes path then some host else none

/-- From the authority on. -/
def parseHierarchy (s : List Char) : Option Bytes :=
  (parseAuthority ipLiteral (cut '/' s).1).bind
    (setPath ((cut '/' s).2.elim [] ('/' :: ·)))

/-- From the path on, without the query. -/
def parseRest (scheme rest : List Char) : Option Bytes :=
  match rest with
  | '/' :: '/' :: s =>
    if scheme = [] ∧ s.head? = some '/' then setPath rest [] else parseHierarchy ipLiteral s
  | '/' :: _ => setPath rest []
  | _ =>
    -- an opaque reference, or a relative one
    if scheme ≠ [] then some []
    else if ':' ∈ (cut '/' rest).1 then none
    else setPath rest []

/-- `parse`. -/
def parseReference (raw : List Char) : Option Bytes :=
  if raw.any isControl then none
  else if raw = ['*'] then some []
  else (getScheme raw).bind fun (scheme, rest) => parseRest ipLiteral scheme (cut '?' rest).1

/-- `Parse`. -/
def parse (raw : List Char) : Option Bytes :=
  (parseReference ipLiteral (cut '#' raw).1).bind fun host =>
    if validEscapes ((cut '#' raw).2.getD []) then some host else none

end Parser

def isDigitByte (b : UInt8) : Bool := 0x30 ≤ b && b ≤ 0x39

/-- `splitHostPort`, without the port. -/
def stripPort (host : Bytes) : Bytes :=
  match cutLast colon host with
  | (some before, port) => if port.all isDigitByte then before else host
  | (none, _) => host

def stripBrackets (host : Bytes) : Bytes :=
  if host.head? = some 0x5b ∧ host.getLast? = some 0x5d then host.tail.dropLast else host

/-- `Hostname`, of the host of a URL. -/
def hostnameOf (host : Bytes) : Bytes := stripBrackets (stripPort host)

/-- `Parse`, and then `Hostname`. -/
def hostname (ipLiteral : Bytes → Bool) (raw : List Char) : Option Bytes :=
  (parse ipLiteral raw).map hostnameOf

/-- No other character stands before a fragment. -/
def isReferenceChar (c : Char) : Bool := !isControl c && c != '#'

/-- `[scheme:]//[userinfo@]host[:port][/path][?query][#fragment]`. What is not
said about a part is left to the next ones: a host that can be unescaped has no
delimiter in it. -/
structure Reference where
  scheme : Option (List Char)
  userinfo : Option (List Char)
  host : List Char
  port : Option (List Char)
  path : Option (List Char)
  query : Option (List Char)
  fragment : Option (List Char)
  scheme_ok : ∀ s ∈ scheme, isScheme s = true
  userinfo_ok : ∀ u ∈ userinfo, validUserinfo u = true
  host_ok : ':' ∉ host ∧ '[' ∉ host ∧ (unescape hostAllowed host).isSome
  port_ok : ∀ p ∈ port, p.all Char.isDigit = true
  path_ok : ∀ p ∈ path, p.all isReferenceChar = true ∧ '?' ∉ p ∧ validEscapes p = true
  query_ok : ∀ q ∈ query, q.all isReferenceChar = true
  fragment_ok : ∀ f ∈ fragment, validEscapes f = true

namespace Reference

variable (r : Reference)

def hostPort : List Char := r.host ++ r.port.elim [] (':' :: ·)

def authority : List Char := r.userinfo.elim [] (· ++ ['@']) ++ r.hostPort

def text : List Char :=
  r.scheme.elim [] (· ++ [':']) ++ '/' :: '/' :: (r.authority ++ r.path.elim [] ('/' :: ·)) ++
    r.query.elim [] ('?' :: ·) ++ r.fragment.elim [] ('#' :: ·)

end Reference

namespace NetURLLemmas

/-! ## Characters and bytes -/

theorem notMem_of_all {p : Char → Bool} {c : Char} (hc : p c = false) {s : List Char}
    (hs : s.all p = true) : c ∉ s := fun hmem =>
  Bool.false_ne_true (hc.symm.trans (List.all_eq_true.mp hs c hmem))

theorem utf8EncodeChar_ascii {c : Char} (h : c.toNat < 0x80) :
    String.utf8EncodeChar c = [UInt8.ofNat c.toNat] := by
  have hle : c.val.toNat ≤ 0x7f := Nat.le_of_lt_succ h
  rw [String.utf8EncodeChar, if_pos hle]
  rfl

/-- Every byte of a longer encoding has its highest bit set. -/
theorem le_of_mem_utf8EncodeChar {c : Char} (h : 0x80 ≤ c.toNat) {b : UInt8}
    (hb : b ∈ String.utf8EncodeChar c) : 0x80 ≤ b := by
  have hlow : ¬ c.val.toNat ≤ 0x7f := Nat.not_le.mpr h
  have hhigh (n k base : Nat) (hbase : 0x80 ≤ base) (hk : 0 < k) (htop : base + k ≤ 256) :
      decide (0x80 ≤ UInt8.ofNat (n % k + base)) = true := by
    have := Nat.mod_lt n hk
    have hnat : (UInt8.ofNat (n % k + base)).toNat = n % k + base :=
      UInt8.toNat_ofNat_of_lt' (by simp only [UInt8.size]; omega)
    rw [decide_eq_true_eq, UInt8.le_iff_toNat_le, hnat]
    exact Nat.le_trans hbase (Nat.le_add_left _ _)
  have hall : (String.utf8EncodeChar c).all (fun b => decide (0x80 ≤ b)) = true := by
    rw [String.utf8EncodeChar, if_neg hlow]
    split
    · simp (disch := decide) only [List.all_cons, List.all_nil, hhigh, Bool.and_self]
    · split <;> simp (disch := decide) only [List.all_cons, List.all_nil, hhigh, Bool.and_self]
  exact of_decide_eq_true (List.all_eq_true.mp hall b hb)

/-! ## Unescaping -/

variable {allowed : UInt8 → Bool}

/-- A character that is not escaped, and not the start of an escape. -/
theorem unescape_cons {c : Char} (hc : c ≠ '%') (s : List Char) :
    unescape allowed (c :: s) = if c.toNat < 0x80 && !isHostChar c then none
      else (unescape allowed s).map (String.utf8EncodeChar c ++ ·) := by
  rw [unescape]
  rintro _ _ _ rfl
  exact absurd rfl hc

theorem unescape_percent_append {c : Char} (hc : isHex c = false) {s : List Char}
    (hs : ∀ x y t, s ≠ x :: y :: t) (b : List Char) :
    unescape allowed ('%' :: (s ++ c :: b)) = none := by
  match s, b with
  | [], [] => rfl
  | [], d :: b =>
    rw [List.nil_append, unescape, hc]
    rfl
  | [x], b =>
    rw [List.singleton_append, unescape, hc, Bool.and_false, Bool.false_and]
    rfl
  | x :: y :: t, _ => exact absurd rfl (hs x y t)

/-- A character that is no hexadecimal digit ends an escape. -/
theorem unescape_append {c : Char} (hc : isHex c = false) (a b : List Char) :
    unescape allowed (a ++ c :: b) = (unescape allowed a).bind fun x =>
      (unescape allowed (c :: b)).map (x ++ ·) := by
  fun_induction unescape allowed a with
  | case1 => simp
  | case2 x y s v hok ih =>
    rw [List.cons_append, List.cons_append, List.cons_append, unescape, if_pos hok, ih]
    cases unescape allowed s <;> cases unescape allowed (c :: b) <;> simp [v]
  | case3 x y s v hbad =>
    rw [List.cons_append, List.cons_append, List.cons_append, unescape, if_neg hbad]
    rfl
  | case4 d s hshort hbad =>
    rcases eq_or_ne d '%' with rfl | hd
    · exact unescape_percent_append hc (fun x y t => hshort x y t rfl) b
    · rw [List.cons_append, unescape_cons hd, if_pos hbad]
      rfl
  | case5 d s hshort hok ih =>
    have hd : d ≠ '%' := by
      rintro rfl
      exact hok rfl
    rw [List.cons_append, unescape_cons hd, if_neg hok, ih]
    cases unescape allowed s <;> cases unescape allowed (c :: b) <;> simp

/-- An ASCII byte that was not escaped was there before. -/
theorem exists_of_mem_unescape {s : List Char} {h : Bytes} (hs : unescape hostAllowed s = some h)
    {b : UInt8} (hb : b ∈ h) (hascii : b < 0x80) :
    b = percent ∨ ∃ c ∈ s, c.toNat < 0x80 ∧ b = UInt8.ofNat c.toNat := by
  revert h
  fun_induction unescape hostAllowed s with
  | case1 =>
    intro h hs hb
    cases hs
    cases hb
  | case2 x y s v hok =>
    rename_i ih
    intro h hs hb
    obtain ⟨h', hh', rfl⟩ := Option.map_eq_some_iff.mp hs
    rcases List.mem_cons.mp hb with rfl | hb
    · -- an escape stands for `%` or for a byte that is not ASCII
      have hallowed : hostAllowed v = true := (Bool.and_eq_true_iff.mp hok).2
      rcases Bool.or_eq_true_iff.mp hallowed with hhigh | hpercent
      · exact absurd hascii (UInt8.not_lt.mpr (of_decide_eq_true hhigh))
      · exact .inl (beq_iff_eq.mp hpercent)
    · rcases ih hh' hb with hp | ⟨c, hc, hrest⟩
      · exact .inl hp
      · exact .inr ⟨c, by simp [hc], hrest⟩
  | case3 x y s v => exact fun hs => nomatch hs
  | case4 d s hshort hbad => exact fun hs => nomatch hs
  | case5 d s hshort hok ih =>
    intro h hs hb
    obtain ⟨h', hh', rfl⟩ := Option.map_eq_some_iff.mp hs
    rcases List.mem_append.mp hb with hb | hb
    · rcases Nat.lt_or_ge d.toNat 0x80 with hd | hd
      · rw [utf8EncodeChar_ascii hd, List.mem_singleton] at hb
        exact .inr ⟨d, List.mem_cons_self, hd, hb⟩
      · exact absurd hascii (UInt8.not_lt.mpr (le_of_mem_utf8EncodeChar hd hb))
    · rcases ih hh' hb with hp | ⟨c, hc, hrest⟩
      · exact .inl hp
      · exact .inr ⟨c, List.mem_cons_of_mem d hc, hrest⟩

/-- No other character can stand in a host. -/
def isHostText (c : Char) : Bool := 0x80 ≤ c.toNat || isHostChar c || c == '%' || isHex c

theorem isHostText_of_unescape {s : List Char} {h : Bytes} (hs : unescape allowed s = some h) :
    ∀ c ∈ s, isHostText c = true := by
  revert h
  fun_induction unescape allowed s with
  | case1 => exact fun _ c hc => nomatch hc
  | case2 x y s v hok =>
    rename_i ih
    intro h hs
    obtain ⟨h', hh', rfl⟩ := Option.map_eq_some_iff.mp hs
    rw [Bool.and_eq_true, Bool.and_eq_true] at hok
    simp only [List.forall_mem_cons]
    exact ⟨by simp [isHostText], by simp [isHostText, hok.1.1], by simp [isHostText, hok.1.2],
      ih hh'⟩
  | case3 x y s v => exact fun hs => nomatch hs
  | case4 d s hshort hbad => exact fun hs => nomatch hs
  | case5 d s hshort hok ih =>
    intro h hs
    obtain ⟨h', hh', rfl⟩ := Option.map_eq_some_iff.mp hs
    refine List.forall_mem_cons.mpr ⟨?_, ih hh'⟩
    rcases Nat.lt_or_ge d.toNat 0x80 with hd | hd
    · have hchar : isHostChar d = true := by simpa [hd] using hok
      simp [isHostText, hchar]
    · simp [isHostText, hd]

def toByte (c : Char) : UInt8 := UInt8.ofNat c.toNat

theorem toByte_inj {c d : Char} (hc : c.toNat < 0x80) (hd : d.toNat < 0x80)
    (h : toByte c = toByte d) : c = d := by
  have hnat := congrArg UInt8.toNat h
  simp only [toByte, UInt8.toNat_ofNat'] at hnat
  exact Char.toNat_inj.mp (by omega)

/-- A delimiter that may stand in a host is there after unescaping if it was
before. -/
theorem mem_unescape_iff {d : Char} (hascii : d.toNat < 0x80) (hhost : isHostChar d = true)
    (hhex : isHex d = false) (hne : toByte d ≠ percent) {s : List Char} {h : Bytes}
    (hs : unescape hostAllowed s = some h) : toByte d ∈ h ↔ d ∈ s := by
  constructor
  · intro hmem
    have hlow : toByte d < 0x80 := by
      rw [UInt8.lt_iff_toNat_lt, toByte, UInt8.toNat_ofNat']
      exact Nat.lt_of_le_of_lt (Nat.mod_le _ _) hascii
    rcases exists_of_mem_unescape hs hmem hlow with hp | ⟨c, hc, hcascii, heq⟩
    · exact absurd hp hne
    · exact toByte_inj hascii hcascii heq ▸ hc
  · intro hmem
    obtain ⟨a, b, rfl⟩ := List.append_of_mem hmem
    have hpercent : d ≠ '%' := fun he => hne (by rw [he]; rfl)
    rw [unescape_append hhex, unescape_cons hpercent, utf8EncodeChar_ascii hascii] at hs
    obtain ⟨x, -, hs⟩ := Option.bind_eq_some_iff.mp hs
    obtain ⟨y, hy, rfl⟩ := Option.map_eq_some_iff.mp hs
    rw [if_neg (by simp [hhost])] at hy
    obtain ⟨z, -, rfl⟩ := Option.map_eq_some_iff.mp hy
    exact List.mem_append_right x List.mem_cons_self

theorem colon_mem_unescape {s : List Char} {h : Bytes} (hs : unescape hostAllowed s = some h) :
    colon ∈ h ↔ ':' ∈ s :=
  mem_unescape_iff (d := ':') (by decide) (by decide) (by decide) (by decide) hs

theorem bracket_mem_unescape {s : List Char} {h : Bytes} (hs : unescape hostAllowed s = some h) :
    0x5b ∈ h ↔ '[' ∈ s :=
  mem_unescape_iff (d := '[') (by decide) (by decide) (by decide) (by decide) hs

/-! ## Ports -/

theorem isDigit_bounds {c : Char} (h : c.isDigit = true) : 0x30 ≤ c.toNat ∧ c.toNat ≤ 0x39 := by
  rw [Char.isDigit, Bool.and_eq_true, decide_eq_true_eq, decide_eq_true_eq] at h
  exact h

theorem unescape_digits {p : List Char} (h : p.all Char.isDigit = true) :
    unescape allowed p = some (p.map toByte) := by
  induction p with
  | nil => rfl
  | cons c p ih =>
    rw [List.all_cons, Bool.and_eq_true] at h
    obtain ⟨hlo, hhi⟩ := isDigit_bounds h.1
    have hne : c ≠ '%' := by
      rintro rfl
      exact absurd hlo (by decide)
    have hchar : isHostChar c = true := by simp [isHostChar, Char.isAlphanum, h.1]
    rw [unescape_cons hne, if_neg (by simp [hchar]), ih h.2,
      utf8EncodeChar_ascii (Nat.lt_of_le_of_lt hhi (by decide))]
    rfl

theorem isDigitByte_toByte {c : Char} (h : c.isDigit = true) : isDigitByte (toByte c) = true := by
  obtain ⟨hlo, hhi⟩ := isDigit_bounds h
  have hnat : (toByte c).toNat = c.toNat :=
    (UInt8.toNat_ofNat' ..).trans (Nat.mod_eq_of_lt (by omega))
  rw [isDigitByte, Bool.and_eq_true, decide_eq_true_eq, decide_eq_true_eq, UInt8.le_iff_toNat_le,
    UInt8.le_iff_toNat_le, hnat]
  exact ⟨hlo, hhi⟩

/-- The bytes of a port with its colon. -/
def portBytes (port : Option (List Char)) : Bytes := port.elim [] fun p => colon :: p.map toByte

theorem unescape_portBytes {port : Option (List Char)}
    (hport : ∀ p ∈ port, p.all Char.isDigit = true) :
    unescape hostAllowed (port.elim [] (':' :: ·)) = some (portBytes port) := by
  cases port with
  | none => rfl
  | some p =>
    rw [Option.elim_some, unescape_cons (by decide), unescape_digits (hport p rfl)]
    rfl

theorem unescape_hostPort {host : List Char} {port : Option (List Char)}
    (hport : ∀ p ∈ port, p.all Char.isDigit = true) :
    unescape hostAllowed (host ++ port.elim [] (':' :: ·)) =
      (unescape hostAllowed host).map (· ++ portBytes port) := by
  cases port with
  | none => simp [portBytes]
  | some p =>
    have hp : unescape hostAllowed (':' :: p) = some (portBytes (some p)) :=
      unescape_portBytes hport
    rw [Option.elim_some, unescape_append (by decide), hp]
    cases unescape hostAllowed host <;> rfl

theorem stripPort_port (h : Bytes) {p : List Char} (hp : p.all Char.isDigit = true) :
    stripPort (h ++ colon :: p.map toByte) = h := by
  have hdigits : ∀ b ∈ p.map toByte, isDigitByte b = true := by
    intro b hb
    obtain ⟨c, hc, rfl⟩ := List.mem_map.mp hb
    exact isDigitByte_toByte (List.all_eq_true.mp hp c hc)
  have hcolon : colon ∉ p.map toByte := fun hmem => absurd (hdigits _ hmem) (by decide)
  have hcut : cutLast colon (h ++ colon :: p.map toByte) = (some h, p.map toByte) :=
    cutLast_eq_iff.mpr ⟨hcolon, by simp⟩
  rw [stripPort, hcut]
  exact if_pos (List.all_eq_true.mpr hdigits)

theorem validOptionalPort_iff {s : List Char} : validOptionalPort s = true ↔
    ∃ port : Option (List Char), (∀ p ∈ port, p.all Char.isDigit = true) ∧
      s = port.elim [] (':' :: ·) := by
  cases s with
  | nil => exact iff_of_true rfl ⟨none, by simp, rfl⟩
  | cons c cs =>
    rw [validOptionalPort, Bool.and_eq_true, beq_iff_eq]
    constructor
    · rintro ⟨rfl, hcs⟩
      exact ⟨some cs, by simpa using hcs, rfl⟩
    · rintro ⟨port, hport, hs⟩
      cases port with
      | none => cases hs
      | some p =>
        cases hs
        exact ⟨rfl, hport _ rfl⟩

/-! ## Hosts -/

/-- A host name without a bracket is read back. It may have a colon where a port
follows. -/
theorem hostnameOf_append {h : Bytes} (hbracket : 0x5b ∉ h) {port : Option (List Char)}
    (hport : ∀ p ∈ port, p.all Char.isDigit = true) (hcolon : port = none → colon ∉ h) :
    hostnameOf (h ++ portBytes port) = h := by
  have hstrip : stripPort (h ++ portBytes port) = h := by
    cases port with
    | none =>
      have hcut : cutLast colon h = (none, h) := cutLast_eq_iff.mpr ⟨hcolon rfl, rfl⟩
      rw [portBytes, Option.elim_none, List.append_nil, stripPort, hcut]
    | some p => exact stripPort_port h (hport p rfl)
  have hhead : h.head? ≠ some 0x5b := fun he => hbracket (List.mem_of_mem_head? he)
  rw [hostnameOf, hstrip, stripBrackets, if_neg fun he => hhead he.1]

theorem stripBrackets_brackets (a : Bytes) : stripBrackets (0x5b :: a ++ [0x5d]) = a := by
  rw [stripBrackets, if_pos ⟨rfl, List.getLast?_concat⟩, List.cons_append, List.tail_cons,
    List.dropLast_concat]

/-- The last colon is between the brackets, so what follows it is no port. -/
theorem stripPort_brackets {a : Bytes} (h : colon ∈ a) :
    stripPort (0x5b :: a ++ [0x5d]) = 0x5b :: a ++ [0x5d] := by
  rcases hcut : cutLast colon a with ⟨before, after⟩
  obtain ⟨hafter, ha⟩ := cutLast_eq_iff.mp hcut
  cases before with
  | none =>
    obtain rfl : a = after := ha
    exact absurd h hafter
  | some before =>
    have hcut' :
        cutLast colon (0x5b :: a ++ [0x5d]) = (some (0x5b :: before), after ++ [0x5d]) := by
      refine cutLast_eq_iff.mpr ⟨?_, by simp [ha]⟩
      rw [List.mem_append, not_or]
      exact ⟨hafter, by decide⟩
    have hdigits : ¬ (after ++ [0x5d]).all isDigitByte = true := fun hall =>
      absurd (List.all_eq_true.mp hall 0x5d (by simp)) (by decide)
    rw [stripPort, hcut']
    exact if_neg hdigits

/-- What is in the brackets, if there is a colon in it. -/
theorem hostnameOf_brackets {a : Bytes} (hcolon : colon ∈ a) {port : Option (List Char)}
    (hport : ∀ p ∈ port, p.all Char.isDigit = true) :
    hostnameOf (0x5b :: a ++ 0x5d :: portBytes port) = a := by
  have hstrip : stripPort (0x5b :: a ++ 0x5d :: portBytes port) = 0x5b :: a ++ [0x5d] := by
    cases port with
    | none => exact stripPort_brackets hcolon
    | some p =>
      rw [← stripPort_port (0x5b :: a ++ [0x5d]) (hport p rfl), List.append_assoc]
      rfl
  rw [hostnameOf, hstrip, stripBrackets_brackets]

variable {ipLiteral : Bytes → Bool}

theorem colon_mem_of_ipLiteral (hip : ∀ b, ipLiteral b = true → colon ∈ b) {host : List Char}
    (hbracket : '[' ∈ host) {H : Bytes} (hH : parseHost ipLiteral host = some H) :
    colon ∈ hostnameOf H := by
  rw [parseHost, if_pos hbracket] at hH
  split at hH
  · cases hH
  · next before colonPort _ =>
    split at hH
    · next hport =>
      obtain ⟨port, hdigits, rfl⟩ := validOptionalPort_iff.mp hport
      have hbytes : unescape hostAllowed (port.elim [] (':' :: ·)) = some (portBytes port) :=
        unescape_portBytes hdigits
      obtain ⟨hostPart, -, hH⟩ := Option.bind_eq_some_iff.mp hH
      obtain ⟨zonePart, -, hH⟩ := Option.bind_eq_some_iff.mp hH
      obtain ⟨port', hport', hH⟩ := Option.bind_eq_some_iff.mp hH
      obtain ⟨hliteral, hH⟩ := Option.ite_none_right_eq_some.mp hH
      cases hH
      cases hbytes.symm.trans hport'
      have hcolon := hip _ hliteral
      rwa [hostnameOf_brackets hcolon hdigits]
    · cases hH

theorem parseHost_plain {host : List Char} {port : Option (List Char)} (hbracket : '[' ∉ host)
    (hport : ∀ p ∈ port, p.all Char.isDigit = true) (hcolon : port = none → ':' ∉ host) :
    parseHost ipLiteral (host ++ port.elim [] (':' :: ·)) =
      (unescape hostAllowed host).map (· ++ portBytes port) := by
  cases port with
  | none =>
    have hcut : cutLast ':' host = (none, host) := cutLast_eq_iff.mpr ⟨hcolon rfl, rfl⟩
    rw [Option.elim_none, List.append_nil, parseHost, if_neg hbracket, hcut]
    simp [portBytes]
  | some p =>
    have hdigits := hport p rfl
    have hcut : cutLast ':' (host ++ ':' :: p) = (some host, p) :=
      cutLast_eq_iff.mpr ⟨notMem_of_all (by decide) hdigits, by simp⟩
    have hbracket' : '[' ∉ host ++ ':' :: p := by
      rw [List.mem_append, List.mem_cons, not_or, not_or]
      exact ⟨hbracket, by decide, notMem_of_all (by decide) hdigits⟩
    rw [Option.elim_some, parseHost, if_neg hbracket', hcut, ← unescape_hostPort hport]
    exact if_pos hdigits

/-- A host name without a colon is not that of an IP literal. -/
theorem parseHost_iff (hip : ∀ b, ipLiteral b = true → colon ∈ b) {s : List Char} {h : Bytes}
    (hcolon : colon ∉ h) :
    (parseHost ipLiteral s).map hostnameOf = some h ↔
      ∃ (host : List Char) (port : Option (List Char)), s = host ++ port.elim [] (':' :: ·) ∧
        (':' ∉ host ∧ '[' ∉ host ∧ unescape hostAllowed host = some h) ∧
        ∀ p ∈ port, p.all Char.isDigit = true := by
  constructor
  · intro hs
    obtain ⟨H, hH, rfl⟩ := Option.map_eq_some_iff.mp hs
    have hbracket : '[' ∉ s := fun hmem => hcolon (colon_mem_of_ipLiteral hip hmem hH)
    -- what stands behind the last colon is the port
    obtain ⟨host, port, rfl, hport, hnone⟩ : ∃ (host : List Char) (port : Option (List Char)),
        s = host ++ port.elim [] (':' :: ·) ∧ (∀ p ∈ port, p.all Char.isDigit = true) ∧
          (port = none → ':' ∉ host) := by
      rw [parseHost, if_neg hbracket] at hH
      rcases hcut : cutLast ':' s with ⟨before, after⟩
      obtain ⟨hafter, hs⟩ := cutLast_eq_iff.mp hcut
      rw [hcut] at hH
      cases before with
      | none => exact ⟨after, none, by simpa using hs, by simp, fun _ => hafter⟩
      | some host =>
        obtain ⟨hdigits, -⟩ := Option.ite_none_right_eq_some.mp hH
        exact ⟨host, some after, by simpa using hs, by simpa using hdigits, by simp⟩
    have hbracket' : '[' ∉ host := fun hmem => hbracket (List.mem_append_left _ hmem)
    rw [parseHost_plain hbracket' hport hnone] at hH
    obtain ⟨h, hhost, rfl⟩ := Option.map_eq_some_iff.mp hH
    rw [hostnameOf_append (mt (bracket_mem_unescape hhost).mp hbracket') hport
      fun hp => mt (colon_mem_unescape hhost).mp (hnone hp)] at hcolon ⊢
    exact ⟨host, port, rfl, ⟨mt (colon_mem_unescape hhost).mpr hcolon, hbracket', hhost⟩, hport⟩
  · rintro ⟨host, port, rfl, ⟨hcolon', hbracket, hhost⟩, hport⟩
    rw [parseHost_plain hbracket hport fun _ => hcolon', hhost]
    exact congrArg some (hostnameOf_append (mt (bracket_mem_unescape hhost).mp hbracket) hport
      fun _ => hcolon)

/-! ## Authorities -/

theorem parseAuthority_iff {s : List Char} {h : Bytes} :
    (parseAuthority ipLiteral s).map hostnameOf = some h ↔
      ∃ (userinfo : Option (List Char)) (hostPort : List Char),
        s = userinfo.elim [] (· ++ ['@']) ++ hostPort ∧ '@' ∉ hostPort ∧
          (∀ u ∈ userinfo, validUserinfo u = true) ∧
          (parseHost ipLiteral hostPort).map hostnameOf = some h := by
  constructor
  · intro hs
    -- the host begins behind the last `@`
    rcases hcut : cutLast '@' s with ⟨userinfo, hostPort⟩
    obtain ⟨hat, rfl⟩ := cutLast_eq_iff.mp hcut
    rw [parseAuthority, hcut] at hs
    refine ⟨userinfo, hostPort, rfl, hat, ?_⟩
    cases userinfo with
    | none => exact ⟨by simp, hs⟩
    | some u =>
      dsimp only at hs
      split at hs
      · next hu => exact ⟨by simpa using hu, hs⟩
      · cases hs
  · rintro ⟨userinfo, hostPort, rfl, hat, hvalid, hs⟩
    have hcut : cutLast '@' (userinfo.elim [] (· ++ ['@']) ++ hostPort) = (userinfo, hostPort) :=
      cutLast_eq_iff.mpr ⟨hat, rfl⟩
    rw [parseAuthority, hcut]
    cases userinfo with
    | none => exact hs
    | some u =>
      dsimp only
      rwa [if_pos (hvalid u rfl)]

/-! ## From the authority on -/

theorem validEscapes_path (path : Option (List Char)) :
    validEscapes (path.elim [] ('/' :: ·)) = true ↔ ∀ p ∈ path, validEscapes p = true := by
  cases path with
  | none => exact iff_of_true rfl (by simp)
  | some p =>
    have hp : validEscapes ('/' :: p) = validEscapes p := by
      rw [validEscapes]
      · rfl
      · simp
    simp [hp]

/-- The host of a URL whose path can be unescaped. -/
theorem map_setPath {path : List Char} {o : Option Bytes} {h : Bytes} :
    (o.bind (setPath path)).map hostnameOf = some h ↔
      validEscapes path = true ∧ o.map hostnameOf = some h := by
  cases o with
  | none => simp
  | some host => by_cases hp : validEscapes path = true <;> simp [setPath, hp]

theorem parseHierarchy_iff {s : List Char} {h : Bytes} :
    (parseHierarchy ipLiteral s).map hostnameOf = some h ↔
      ∃ (authority : List Char) (path : Option (List Char)),
        s = authority ++ path.elim [] ('/' :: ·) ∧ '/' ∉ authority ∧
          (∀ p ∈ path, validEscapes p = true) ∧
          (parseAuthority ipLiteral authority).map hostnameOf = some h := by
  rw [parseHierarchy, map_setPath, validEscapes_path]
  constructor
  · rintro ⟨hpath, hauthority⟩
    obtain ⟨hslash, hs⟩ := cut_eq_iff.mp (Prod.ext rfl rfl : cut '/' s = ((cut '/' s).1, _))
    exact ⟨_, _, hs, hslash, hpath, hauthority⟩
  · rintro ⟨authority, path, hs, hslash, hpath, hauthority⟩
    rw [cut_eq_iff.mpr ⟨hslash, hs⟩]
    exact ⟨hpath, hauthority⟩

theorem parseHierarchy_slash (s : List Char) {h : Bytes} (hne : h ≠ []) :
    (parseHierarchy ipLiteral ('/' :: s)).map hostnameOf ≠ some h := by
  rw [parseHierarchy, Ne, map_setPath]
  rintro ⟨-, hauthority⟩
  exact hne (Option.some.inj hauthority).symm

theorem map_setPath_nil {path : List Char} {h : Bytes} (hne : h ≠ []) :
    (setPath path []).map hostnameOf ≠ some h := by
  rw [setPath]
  split
  · exact fun he => hne (Option.some.inj he).symm
  · exact nofun

/-- Only a reference with an authority has a host. -/
theorem parseRest_iff {scheme rest : List Char} {h : Bytes} (hne : h ≠ []) :
    (parseRest ipLiteral scheme rest).map hostnameOf = some h ↔
      ∃ s, rest = '/' :: '/' :: s ∧ (parseHierarchy ipLiteral s).map hostnameOf = some h := by
  rw [parseRest.eq_def]
  split
  · next s =>
    simp only [List.cons.injEq, true_and, exists_eq_left']
    split
    · next htriple =>
      -- three slashes without a scheme: the host is empty either way
      obtain ⟨s, rfl⟩ : ∃ s', s = '/' :: s' := List.head?_eq_some_iff.mp htriple.2
      exact iff_of_false (map_setPath_nil hne) (parseHierarchy_slash s hne)
    · rfl
  · next s hs =>
    refine iff_of_false (map_setPath_nil hne) ?_
    rintro ⟨t, ht, -⟩
    exact hs t (List.cons.inj ht).2
  · next hslash hslash' =>
    refine iff_of_false ?_ ?_
    · split
      · exact fun he => hne (Option.some.inj he).symm
      · split
        · exact nofun
        · exact map_setPath_nil hne
    · rintro ⟨t, rfl, -⟩
      exact hslash t rfl

/-! ## The scheme -/

theorem all_of_isScheme {s : List Char} (h : isScheme s = true) :
    s ≠ [] ∧ s.all isSchemeChar = true := by
  cases s with
  | nil => cases h
  | cons c cs =>
    rw [isScheme, Bool.and_eq_true] at h
    refine ⟨List.cons_ne_nil _ _, ?_⟩
    rw [List.all_cons, h.2, Bool.and_true, isSchemeChar, Char.isAlphanum, h.1]
    rfl

/-- What follows the scheme, where it begins with a slash. -/
theorem getScheme_iff {raw scheme s : List Char} :
    getScheme raw = some (scheme, '/' :: s) ↔ ∃ o : Option (List Char), scheme = o.getD [] ∧
      raw = o.elim [] (· ++ [':']) ++ '/' :: s ∧ ∀ t ∈ o, isScheme t = true := by
  constructor
  · intro h
    rcases hcut : cut ':' raw with ⟨before, after⟩
    obtain ⟨-, hraw⟩ := cut_eq_iff.mp hcut
    rw [getScheme, hcut] at h
    have hplain (h : some ([], raw) = some (scheme, '/' :: s)) : ∃ o : Option (List Char),
        scheme = o.getD [] ∧ raw = o.elim [] (· ++ [':']) ++ '/' :: s ∧
          ∀ t ∈ o, isScheme t = true := by
      obtain ⟨rfl, rfl⟩ := Prod.mk.inj (Option.some.inj h)
      exact ⟨none, rfl, rfl, by simp⟩
    cases after with
    | none => cases before <;> exact hplain h
    | some rest =>
      cases before with
      | nil => cases h
      | cons c cs =>
        dsimp only at h
        split at h
        · next hscheme =>
          obtain ⟨rfl, rfl⟩ := Prod.mk.inj (Option.some.inj h)
          exact ⟨some (c :: cs), rfl, by simpa using hraw, by simpa using hscheme⟩
        · exact hplain h
  · rintro ⟨o, rfl, rfl, ho⟩
    cases o with
    | none =>
      -- whatever stands before a colon begins with the slash
      show getScheme ('/' :: s) = some ([], '/' :: s)
      have hslash : ∀ t, isScheme ('/' :: t) = false := fun t => rfl
      rw [getScheme, cut, if_neg (by decide)]
      cases (cut ':' s).2 with
      | none => rfl
      | some rest =>
        dsimp only
        rw [hslash, if_neg Bool.false_ne_true]
    | some t =>
      obtain ⟨hne, hall⟩ := all_of_isScheme (ho t rfl)
      have hcut : cut ':' (t ++ [':'] ++ '/' :: s) = (t, some ('/' :: s)) :=
        cut_eq_iff.mpr ⟨notMem_of_all (by decide) hall, by simp⟩
      obtain ⟨c, cs, rfl⟩ := List.exists_cons_of_ne_nil hne
      rw [Option.elim_some, getScheme, hcut]
      exact if_pos (ho _ rfl)

theorem parseReference_iff {raw : List Char} {h : Bytes} (hne : h ≠ []) :
    (parseReference ipLiteral raw).map hostnameOf = some h ↔ raw.any isControl = false ∧
      ∃ (scheme : Option (List Char)) (s : List Char) (query : Option (List Char)),
        raw = scheme.elim [] (· ++ [':']) ++ '/' :: '/' :: s ++ query.elim [] ('?' :: ·) ∧
          '?' ∉ s ∧ (∀ t ∈ scheme, isScheme t = true) ∧
          (parseHierarchy ipLiteral s).map hostnameOf = some h := by
  rw [parseReference]
  constructor
  · intro hmap
    split at hmap
    · cases hmap
    next hcontrol =>
    split at hmap
    · exact absurd (Option.some.inj hmap).symm hne
    obtain ⟨H, hH, hmap⟩ := Option.map_eq_some_iff.mp hmap
    obtain ⟨⟨scheme, rest⟩, hscheme, hH⟩ := Option.bind_eq_some_iff.mp hH
    obtain ⟨s, hs, hierarchy⟩ :=
      (parseRest_iff hne).mp (Option.map_eq_some_iff.mpr ⟨H, hH, hmap⟩)
    obtain ⟨hquery, hrest⟩ := cut_eq_iff.mp (Prod.ext hs rfl : cut '?' rest = ('/' :: '/' :: s, _))
    rw [hrest] at hscheme
    obtain ⟨o, -, hraw, ho⟩ := getScheme_iff.mp hscheme
    refine ⟨by simpa using hcontrol, o, s, (cut '?' rest).2, by simpa using hraw, ?_, ho, hierarchy⟩
    exact fun hmem => hquery (List.mem_cons_of_mem _ (List.mem_cons_of_mem _ hmem))
  · rintro ⟨hcontrol, scheme, s, query, hraw, hquery, hscheme, hierarchy⟩
    -- the one text without a slash that `parse` takes
    have hstar : raw ≠ ['*'] := by
      rintro rfl
      have hslash : '/' ∈ (['*'] : List Char) := by
        rw [hraw]
        simp
      exact absurd hslash (by decide)
    have hget : getScheme raw =
        some (scheme.getD [], '/' :: ('/' :: s ++ query.elim [] ('?' :: ·))) :=
      getScheme_iff.mpr ⟨scheme, rfl, by simpa using hraw, hscheme⟩
    have hcut : cut '?' ('/' :: ('/' :: s ++ query.elim [] ('?' :: ·))) =
        ('/' :: '/' :: s, query) := by
      refine cut_eq_iff.mpr ⟨?_, rfl⟩
      simpa using hquery
    rw [hcontrol, if_neg Bool.false_ne_true, if_neg hstar, hget, Option.bind_some]
    dsimp only
    rw [hcut]
    exact (parseRest_iff hne).mpr ⟨s, rfl, hierarchy⟩

/-! ## The parts and the text -/

/-- The characters of a scheme, a user, a host and a port are none of the
delimiters that come after them. -/
def isAuthorityChar (c : Char) : Bool := isReferenceChar c && c != '/' && c != '?'

theorem isAuthorityChar_of_class {c : Char}
    (h : isSchemeChar c = true ∨ isUserinfoChar c = true ∨ isHostText c = true) :
    isAuthorityChar c = true := by
  rcases Nat.lt_or_ge c.toNat 0x80 with hc | hc
  · have hascii : ∀ n < 0x80, (isSchemeChar (Char.ofNat n) || isUserinfoChar (Char.ofNat n) ||
        isHostText (Char.ofNat n)) = true → isAuthorityChar (Char.ofNat n) = true := by
      decide +kernel
    have := hascii c.toNat hc
    rw [Char.ofNat_toNat] at this
    exact this (by simpa [or_assoc] using h)
  · have hne : ∀ d : Char, d.toNat < 0x80 → c ≠ d := by
      rintro d hd rfl
      exact absurd hd (Nat.not_lt.mpr hc)
    have hcontrol : isControl c = false := by
      simp only [isControl, Bool.or_eq_false_iff, decide_eq_false_iff_not, beq_eq_false_iff_ne]
      omega
    simp [isAuthorityChar, isReferenceChar, hcontrol, hne '#' (by decide), hne '/' (by decide),
      hne '?' (by decide)]

theorem all_elim_cons {p : Char → Bool} {c : Char} (hc : p c = true) (o : Option (List Char)) :
    (o.elim [] (c :: ·)).all p = true ↔ ∀ s ∈ o, s.all p = true := by
  cases o <;> simp [hc]

theorem all_elim_concat {p : Char → Bool} {c : Char} (hc : p c = true) (o : Option (List Char)) :
    (o.elim [] (· ++ [c])).all p = true ↔ ∀ s ∈ o, s.all p = true := by
  cases o <;> simp [hc]

theorem all_isReferenceChar {s : List Char} :
    s.all isReferenceChar = true ↔ '#' ∉ s ∧ s.any isControl = false := by
  induction s with
  | nil => simp
  | cons c s ih =>
    rw [List.all_cons, Bool.and_eq_true, ih, isReferenceChar, List.any_cons, List.mem_cons]
    simp only [Bool.and_eq_true, Bool.not_eq_true', bne_iff_ne, not_or, Bool.or_eq_false_iff,
      ne_comm (a := c)]
    tauto

theorem all_mono {p q : Char → Bool} (hpq : ∀ c, p c = true → q c = true) {s : List Char}
    (h : s.all p = true) : s.all q = true :=
  List.all_eq_true.mpr fun c hc => hpq c (List.all_eq_true.mp h c hc)

theorem isReferenceChar_of_authority {c : Char} (h : isAuthorityChar c = true) :
    isReferenceChar c = true := by
  rw [isAuthorityChar, Bool.and_eq_true, Bool.and_eq_true] at h
  exact h.1.1

theorem isHostText_of_digit {c : Char} (h : c.isDigit = true) : isHostText c = true := by
  simp [isHostText, isHostChar, Char.isAlphanum, h]

variable (r : Reference)

theorem hostPort_text : r.hostPort.all isHostText = true := by
  obtain ⟨h, hhost⟩ := Option.isSome_iff_exists.mp r.host_ok.2.2
  rw [Reference.hostPort, List.all_append, Bool.and_eq_true, all_elim_cons (by decide)]
  exact ⟨List.all_eq_true.mpr (isHostText_of_unescape hhost),
    fun p hp => all_mono (fun _ => isHostText_of_digit) (r.port_ok p hp)⟩

theorem authority_text : r.authority.all isAuthorityChar = true := by
  rw [Reference.authority, List.all_append, Bool.and_eq_true, all_elim_concat (by decide)]
  refine ⟨fun u hu => ?_, ?_⟩
  · have hvalid := r.userinfo_ok u hu
    rw [validUserinfo, Bool.and_eq_true, Bool.and_eq_true] at hvalid
    exact all_mono (fun _ hc => isAuthorityChar_of_class (.inr (.inl hc))) hvalid.1.1
  · exact all_mono (fun _ hc => isAuthorityChar_of_class (.inr (.inr hc))) (hostPort_text r)

/-- The text of a reference up to its fragment. -/
def beforeFragment : List Char :=
  r.scheme.elim [] (· ++ [':']) ++ '/' :: '/' :: (r.authority ++ r.path.elim [] ('/' :: ·)) ++
    r.query.elim [] ('?' :: ·)

theorem beforeFragment_text : (beforeFragment r).all isReferenceChar = true := by
  have hscheme : (r.scheme.elim [] (· ++ [':'])).all isReferenceChar = true := by
    refine (all_elim_concat (by decide) _).mpr fun t ht => ?_
    exact all_mono (fun _ hc => isReferenceChar_of_authority (isAuthorityChar_of_class (.inl hc)))
      (all_of_isScheme (r.scheme_ok t ht)).2
  have hauthority := all_mono (fun _ => isReferenceChar_of_authority) (authority_text r)
  have hpath : (r.path.elim [] ('/' :: ·)).all isReferenceChar = true :=
    (all_elim_cons (by decide) _).mpr fun p hp => (r.path_ok p hp).1
  have hquery : (r.query.elim [] ('?' :: ·)).all isReferenceChar = true :=
    (all_elim_cons (by decide) _).mpr r.query_ok
  rw [beforeFragment, List.all_append, List.all_append, List.all_cons, List.all_cons,
    List.all_append, hscheme, hauthority, hpath, hquery]
  decide

/-- A scheme begins with a letter. -/
theorem text_head : ∃ c cs, r.text = c :: cs ∧ (c.isAlpha = true ∨ c = '/') := by
  cases hs : r.scheme with
  | none => exact ⟨'/', _, by rw [Reference.text, hs]; rfl, .inr rfl⟩
  | some t =>
    have hscheme := r.scheme_ok t hs
    cases t with
    | nil => cases hscheme
    | cons c cs =>
      rw [isScheme, Bool.and_eq_true] at hscheme
      exact ⟨c, _, by rw [Reference.text, hs]; rfl, .inl hscheme.1⟩

/-- The parser takes the text apart again. -/
theorem hostname_text (hip : ∀ b, ipLiteral b = true → colon ∈ b) {h : Bytes} (hne : h ≠ [])
    (hhost : unescape hostAllowed r.host = some h) : hostname ipLiteral r.text = some h := by
  obtain ⟨hhash, hcontrol⟩ := all_isReferenceChar.mp (beforeFragment_text r)
  have hcut : cut '#' r.text = (beforeFragment r, r.fragment) := cut_eq_iff.mpr ⟨hhash, rfl⟩
  have hcolon : colon ∉ h := mt (colon_mem_unescape hhost).mp r.host_ok.1
  have hhostPort : (parseHost ipLiteral r.hostPort).map hostnameOf = some h :=
    (parseHost_iff hip hcolon).mpr
      ⟨r.host, r.port, rfl, ⟨r.host_ok.1, r.host_ok.2.1, hhost⟩, r.port_ok⟩
  have hauthority : (parseAuthority ipLiteral r.authority).map hostnameOf = some h :=
    parseAuthority_iff.mpr ⟨r.userinfo, r.hostPort, rfl,
      notMem_of_all (by decide) (hostPort_text r), r.userinfo_ok, hhostPort⟩
  have hhierarchy : (parseHierarchy ipLiteral (r.authority ++ r.path.elim [] ('/' :: ·))).map
      hostnameOf = some h :=
    parseHierarchy_iff.mpr ⟨r.authority, r.path, rfl, notMem_of_all (by decide) (authority_text r),
      fun p hp => (r.path_ok p hp).2.2, hauthority⟩
  have hquestion : '?' ∉ r.authority ++ r.path.elim [] ('/' :: ·) := by
    rw [List.mem_append, not_or]
    refine ⟨notMem_of_all (by decide) (authority_text r), ?_⟩
    cases hp : r.path with
    | none => simp
    | some p => simpa using (r.path_ok p hp).2.1
  have hfragment : validEscapes (r.fragment.getD []) = true := by
    cases hf : r.fragment with
    | none => rfl
    | some f => exact r.fragment_ok f hf
  rw [hostname, parse, hcut]
  refine map_setPath.mpr ⟨hfragment, ?_⟩
  exact (parseReference_iff hne).mpr
    ⟨hcontrol, r.scheme, _, r.query, rfl, hquestion, r.scheme_ok, hhierarchy⟩

/-- What has a host name has the parts. -/
theorem exists_reference (hip : ∀ b, ipLiteral b = true → colon ∈ b) {raw : List Char} {h : Bytes}
    (hne : h ≠ []) (hcolon : colon ∉ h) (hraw : hostname ipLiteral raw = some h) :
    ∃ r : Reference, r.text = raw ∧ unescape hostAllowed r.host = some h := by
  -- each parser takes one part off the text
  rcases hcut : cut '#' raw with ⟨before, fragment⟩
  obtain ⟨hhash, rfl⟩ := cut_eq_iff.mp hcut
  rw [hostname, parse, hcut] at hraw
  obtain ⟨hfragment, hparse⟩ := map_setPath.mp hraw
  obtain ⟨hcontrol, scheme, s, query, rfl, hquery, hscheme, hhierarchy⟩ :=
    (parseReference_iff hne).mp hparse
  obtain ⟨authority, path, rfl, -, hpath, hauthority⟩ := parseHierarchy_iff.mp hhierarchy
  obtain ⟨userinfo, hostPort, rfl, -, huserinfo, hhostPort⟩ := parseAuthority_iff.mp hauthority
  obtain ⟨host, port, rfl, ⟨hcolon', hbracket, hhost⟩, hport⟩ :=
    (parseHost_iff hip hcolon).mp hhostPort
  have htext := all_isReferenceChar.mpr ⟨hhash, hcontrol⟩
  simp only [List.all_append, List.all_cons, Bool.and_eq_true] at htext
  obtain ⟨⟨-, -, -, -, hpathText⟩, hqueryText⟩ := htext
  refine ⟨⟨scheme, userinfo, host, port, path, query, fragment, hscheme, huserinfo,
    ⟨hcolon', hbracket, by rw [hhost]; rfl⟩, hport, ?_, ?_, ?_⟩, rfl, hhost⟩
  · rintro p rfl
    exact ⟨(all_elim_cons (by decide) _).mp hpathText p rfl,
      fun hmem => hquery (List.mem_append_right _ (List.mem_cons_of_mem _ hmem)), hpath p rfl⟩
  · exact (all_elim_cons (by decide) _).mp hqueryText
  · rintro f rfl
    exact hfragment

end NetURLLemmas

open NetURLLemmas

/-- The references with a host name that is not an IP literal. -/
theorem hostname_eq_some_iff {ipLiteral : Bytes → Bool}
    (hip : ∀ b, ipLiteral b = true → colon ∈ b) {raw : List Char} {h : Bytes} (hne : h ≠ [])
    (hcolon : colon ∉ h) : hostname ipLiteral raw = some h ↔
      ∃ r : Reference, r.text = raw ∧ unescape hostAllowed r.host = some h := by
  constructor
  · exact exists_reference hip hne hcolon
  · rintro ⟨r, rfl, hhost⟩
    exact hostname_text r hip hne hhost

end NetURL
