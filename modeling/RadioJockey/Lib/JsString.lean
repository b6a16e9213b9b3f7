import Mathlib.Data.List.DropRight

/-!
# Strings of JavaScript

A string is a list of UTF-16 code units. Surrogates need not come in pairs.

* `JsString.ofString`: a Lean string in UTF-16.
* `trim`, `fromCodePoint`, `parseDigits`: `String.prototype.trim`,
  `String.fromCodePoint` and `parseInt` on digits.
* `toLowerCase`, `replaceRuns`, `stripEnds`: lower case, and `replace` with the
  patterns `/[…]+/g` and `/^…+|…+$/g`.
-/

abbrev CodeUnit := UInt16

abbrev JsString := List CodeUnit

namespace JsString

def maxCodePoint : Nat := 0x10FFFF

/-- `String.fromCodePoint`: `none` is the `RangeError`. -/
def fromCodePoint (code : Nat) : Option JsString :=
  if maxCodePoint < code then none
  else if code < 0x10000 then some [.ofNat code]
  else some [.ofNat (0xD800 + (code - 0x10000) / 0x400), .ofNat (0xDC00 + (code - 0x10000) % 0x400)]

def ofString (s : String) : JsString :=
  s.toList.flatMap fun c => (fromCodePoint c.toNat).getD []

/-- The white space and line terminators that `trim` strips. -/
def isWhiteSpace (c : CodeUnit) : Bool :=
  c.toNat ∈ [0x09, 0x0a, 0x0b, 0x0c, 0x0d, 0x20, 0xa0, 0x1680, 0x2028, 0x2029, 0x202f, 0x205f,
    0x3000, 0xfeff] || 0x2000 ≤ c.toNat && c.toNat ≤ 0x200a

def trim (s : JsString) : JsString := (s.dropWhile isWhiteSpace).rdropWhile isWhiteSpace

def isDigit (c : CodeUnit) : Bool := 0x30 ≤ c.toNat && c.toNat ≤ 0x39

def isHexDigit (c : CodeUnit) : Bool :=
  isDigit c || 0x41 ≤ c.toNat && c.toNat ≤ 0x46 || 0x61 ≤ c.toNat && c.toNat ≤ 0x66

/-- `[a-zA-Z0-9]`. -/
def isAlphanumeric (c : CodeUnit) : Bool :=
  isDigit c || 0x41 ≤ c.toNat && c.toNat ≤ 0x5a || 0x61 ≤ c.toNat && c.toNat ≤ 0x7a

def lowerAscii (c : CodeUnit) : CodeUnit :=
  if 0x41 ≤ c.toNat ∧ c.toNat ≤ 0x5a then c + 0x20 else c

def lowerFrom (other : JsString → CodeUnit → JsString → JsString) : JsString → JsString → JsString
  | _, [] => []
  | before, c :: cs =>
    (if c.toNat < 0x80 then [lowerAscii c] else other before c cs) ++
      lowerFrom other (c :: before) cs

/-- `toLowerCase`. `other` is what stands for a unit beyond ASCII, between the
units before it, the nearest first, and those after it. -/
def toLowerCase (other : JsString → CodeUnit → JsString → JsString) (s : JsString) : JsString :=
  lowerFrom other [] s

/-- `inRun` says that a run has been replaced that the text continues. -/
def replaceRunsFrom (p : CodeUnit → Bool) (replacement : JsString) : Bool → JsString → JsString
  | _, [] => []
  | inRun, c :: cs =>
    if p c then
      (if inRun then [] else replacement) ++ replaceRunsFrom p replacement true cs
    else c :: replaceRunsFrom p replacement false cs

/-- Every longest run of units with `p` is replaced. -/
def replaceRuns (p : CodeUnit → Bool) (replacement s : JsString) : JsString :=
  replaceRunsFrom p replacement false s

def stripEnds (p : CodeUnit → Bool) (s : JsString) : JsString := (s.dropWhile p).rdropWhile p

/-- What a digit stands for in `parseInt`. -/
def digitValue (c : CodeUnit) : Nat :=
  if isDigit c then c.toNat - 0x30
  else if c.toNat ≤ 0x5a then c.toNat - 0x41 + 10
  else c.toNat - 0x61 + 10

/-- `parseInt` on a string of digits. Beyond 2^53 the number that JavaScript
returns is rounded, and stays beyond. -/
def parseDigits (radix : Nat) (digits : JsString) : Nat :=
  digits.foldl (fun n c => n * radix + digitValue c) 0

example : parseDigits 16 (ofString "1F3b5") = 0x1F3B5 := by decide

example : fromCodePoint 0x1F3B5 = some [0xD83C, 0xDFB5] := by decide

example : trim (ofString " \tsome song\n") = ofString "some song" := by decide

end JsString
