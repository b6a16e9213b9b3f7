import Mathlib.Data.Fintype.Basic
import Mathlib.Data.List.Basic

/-!
# Base64 without padding

`RawURLEncoding` of `encoding/base64`, on characters. Three bytes are written as
four digits of six bits, and one or two bytes at the end as two or three digits.
The last of these digits has four or two bits to spare: the encoder writes zeros
there, and the decoder does not look at them. Line breaks are skipped.

* `decode_eq_some_iff`: the texts that stand for given bytes.
* `decode_encode`: what is encoded is read back.
-/

namespace Base64Url

abbrev Bytes := List UInt8

abbrev Digit := Fin 64

def alphabet : List Char :=
  "ABCDEFGHIJKLMNOPQRSTUVWXYZabcdefghijklmnopqrstuvwxyz0123456789-_".toList

def digitChar (d : Digit) : Char := alphabet.getD d '_'

/-- The digit that a character stands for. -/
def digitValue (c : Char) : Option Digit := (List.finRange 64).find? fun d => digitChar d = c

/-! ## The encoder -/

def digit (n : Nat) : Digit := Fin.ofNat 64 n

def byte (n : Nat) : UInt8 := UInt8.ofNat n

/-- How many numbers fit into the spare bits at the end. -/
def spare : Bytes → Nat
  | [] => 1
  | [_] => 16
  | [_, _] => 4
  | _ :: _ :: _ :: rest => spare rest

/-- The digits of the bytes, with `low` in the spare bits. -/
def digits (low : Nat) : Bytes → List Digit
  | [] => []
  | [a] => [digit (a.toNat / 4), digit (a.toNat % 4 * 16 + low)]
  | [a, b] =>
    [digit (a.toNat / 4), digit (a.toNat % 4 * 16 + b.toNat / 16), digit (b.toNat % 16 * 4 + low)]
  | a :: b :: c :: rest =>
    digit (a.toNat / 4) :: digit (a.toNat % 4 * 16 + b.toNat / 16) ::
      digit (b.toNat % 16 * 4 + c.toNat / 64) :: digit (c.toNat % 64) :: digits low rest

def spelling (low : Nat) (b : Bytes) : List Char := (digits low b).map digitChar

/-- `EncodeToString`. -/
def encode (b : Bytes) : List Char := spelling 0 b

example : encode [77, 97, 110, 255] = "TWFu_w".toList := by decide +kernel

/-! ## The decoder -/

def isNewline (c : Char) : Bool := c = '\r' || c = '\n'

def decodeDigits : List Digit → Option Bytes
  | [] => some []
  | [_] => none
  | [a, b] => some [byte (a * 4 + b / 16)]
  | [a, b, c] => some [byte (a * 4 + b / 16), byte (b % 16 * 16 + c / 4)]
  | a :: b :: c :: d :: rest =>
    (decodeDigits rest).map fun bytes =>
      byte (a * 4 + b / 16) :: byte (b % 16 * 16 + c / 4) :: byte (c % 4 * 64 + d) :: bytes

/-- `DecodeString`. -/
def decode (s : List Char) : Option Bytes :=
  ((s.filter fun c => !isNewline c).mapM digitValue).bind decodeDigits

example : decode "TW\nFu_x\r\n".toList = some [77, 97, 110, 255] := by decide +kernel

/-- The texts that stand for the bytes. -/
def Spells (b : Bytes) (s : List Char) : Prop :=
  ∃ low < spare b, s.filter (fun c => !isNewline c) = spelling low b

/-! ## Digits and characters -/

theorem digitValue_digitChar : ∀ d : Digit, digitValue (digitChar d) = some d := by
  decide +kernel

theorem digitChar_not_newline : ∀ d : Digit, isNewline (digitChar d) = false := by
  decide +kernel

theorem digitChar_of_digitValue {c : Char} {d : Digit} (h : digitValue c = some d) :
    digitChar d = c := by
  have hfound := List.find?_some h
  exact of_decide_eq_true hfound

theorem mapM_digitValue_iff {s : List Char} {ds : List Digit} :
    s.mapM digitValue = some ds ↔ s = ds.map digitChar := by
  induction s generalizing ds with
  | nil => cases ds <;> simp
  | cons c s ih =>
    rw [List.mapM_cons]
    constructor
    · intro h
      obtain ⟨d, hd, h⟩ := Option.bind_eq_some_iff.mp h
      obtain ⟨ds', hds, h⟩ := Option.bind_eq_some_iff.mp h
      cases h
      rw [List.map_cons, digitChar_of_digitValue hd, ← ih.mp hds]
    · intro h
      cases ds with
      | nil => cases h
      | cons d ds =>
        obtain ⟨rfl, rfl⟩ := List.cons.inj h
        rw [digitValue_digitChar, ih.mpr rfl]
        rfl

/-! ## Bytes and digits -/

theorem val_digit {n : Nat} (h : n < 64) : (digit n).val = n := Nat.mod_eq_of_lt h

theorem digit_eq {n : Nat} {d : Digit} (h : d.val = n) : d = digit n := by
  subst h
  exact Fin.ext (val_digit d.isLt).symm

theorem byte_eq {n : Nat} {a : UInt8} (h : n = a.toNat) : byte n = a := by
  rw [h, byte, UInt8.ofNat_toNat]

theorem toNat_byte {n : Nat} (h : n < 256) : (byte n).toNat = n :=
  (UInt8.toNat_ofNat' ..).trans (Nat.mod_eq_of_lt h)

theorem decodeDigits_digits {low : Nat} {b : Bytes} (hlow : low < spare b) :
    decodeDigits (digits low b) = some b := by
  induction b using spare.induct with
  | case1 => rfl
  | case2 a =>
    have ha := a.toNat_lt
    have hlow : low < 16 := hlow
    rw [digits, decodeDigits, val_digit (by omega), val_digit (by omega),
      byte_eq (a := a) (by omega)]
  | case3 a b =>
    have ha := a.toNat_lt
    have hb := b.toNat_lt
    have hlow : low < 4 := hlow
    rw [digits, decodeDigits, val_digit (by omega), val_digit (by omega), val_digit (by omega),
      byte_eq (a := a) (by omega), byte_eq (a := b) (by omega)]
  | case4 a b c rest ih =>
    have ha := a.toNat_lt
    have hb := b.toNat_lt
    have hc := c.toNat_lt
    rw [digits, decodeDigits, ih hlow, val_digit (by omega), val_digit (by omega),
      val_digit (by omega), val_digit (by omega), Option.map_some, byte_eq (a := a) (by omega),
      byte_eq (a := b) (by omega), byte_eq (a := c) (by omega)]

theorem digits_of_decodeDigits {ds : List Digit} {b : Bytes} (h : decodeDigits ds = some b) :
    ∃ low < spare b, ds = digits low b := by
  induction ds using decodeDigits.induct generalizing b with
  | case1 =>
    cases h
    exact ⟨0, Nat.one_pos, rfl⟩
  | case2 => cases h
  | case3 x y =>
    cases h
    have hx := x.isLt
    have hy := y.isLt
    refine ⟨y % 16, Nat.mod_lt _ (by decide), ?_⟩
    rw [digits, toNat_byte (by omega), ← digit_eq (d := x) (by omega),
      ← digit_eq (d := y) (by omega)]
  | case4 x y z =>
    cases h
    have hx := x.isLt
    have hy := y.isLt
    have hz := z.isLt
    refine ⟨z % 4, Nat.mod_lt _ (by decide), ?_⟩
    rw [digits, toNat_byte (by omega), toNat_byte (by omega), ← digit_eq (d := x) (by omega),
      ← digit_eq (d := y) (by omega), ← digit_eq (d := z) (by omega)]
  | case5 x y z w rest ih =>
    obtain ⟨bytes, hbytes, rfl⟩ := Option.map_eq_some_iff.mp h
    obtain ⟨low, hlow, hrest⟩ := ih hbytes
    have hx := x.isLt
    have hy := y.isLt
    have hz := z.isLt
    have hw := w.isLt
    refine ⟨low, hlow, ?_⟩
    rw [digits, toNat_byte (by omega), toNat_byte (by omega), toNat_byte (by omega),
      ← digit_eq (d := x) (by omega), ← digit_eq (d := y) (by omega),
      ← digit_eq (d := z) (by omega), ← digit_eq (d := w) (by omega), ← hrest]

theorem decode_eq_some_iff {s : List Char} {b : Bytes} :
    decode s = some b ↔ Spells b s := by
  rw [decode]
  constructor
  · intro h
    obtain ⟨ds, hds, hb⟩ := Option.bind_eq_some_iff.mp h
    obtain ⟨low, hlow, rfl⟩ := digits_of_decodeDigits hb
    exact ⟨low, hlow, mapM_digitValue_iff.mp hds⟩
  · rintro ⟨low, hlow, hs⟩
    rw [hs, spelling, mapM_digitValue_iff.mpr rfl]
    exact decodeDigits_digits hlow

theorem filter_spelling (low : Nat) (b : Bytes) :
    (spelling low b).filter (fun c => !isNewline c) = spelling low b := by
  refine List.filter_eq_self.mpr fun c hc => ?_
  obtain ⟨d, -, rfl⟩ := List.mem_map.mp hc
  rw [digitChar_not_newline, Bool.not_false]

theorem spare_pos (b : Bytes) : 0 < spare b := by
  induction b using spare.induct with
  | case1 => exact Nat.one_pos
  | case2 a => exact Nat.succ_pos 15
  | case3 a b => exact Nat.succ_pos 3
  | case4 a b c rest ih => exact ih

theorem spells_encode (b : Bytes) : Spells b (encode b) :=
  ⟨0, spare_pos b, filter_spelling 0 b⟩

theorem decode_encode (b : Bytes) : decode (encode b) = some b :=
  decode_eq_some_iff.mpr (spells_encode b)

/-- The characters in such a text. -/
theorem char_of_spells {b : Bytes} {s : List Char} (h : Spells b s) {c : Char} (hc : c ∈ s) :
    isNewline c = true ∨ ∃ d, digitChar d = c := by
  obtain ⟨low, -, hs⟩ := h
  cases hline : isNewline c with
  | true => exact .inl rfl
  | false =>
    have hmem : c ∈ spelling low b := by
      rw [← hs, List.mem_filter, hline]
      exact ⟨hc, rfl⟩
    obtain ⟨d, -, hd⟩ := List.mem_map.mp hmem
    exact .inr ⟨d, hd⟩

end Base64Url
