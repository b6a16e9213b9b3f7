import Mathlib.Data.List.Forall2

/-!
# Strings as runes

A Go string is any string of bytes. Its runes are the characters that it
encodes, and `U+FFFD` for each byte that begins no encoded character.

* `runes_encode`, `encode_runes`: encoding and decoding are inverse to each
  other, where nothing had to be replaced.
* `toLower_eq_iff`: the strings that have a given ASCII string as their lower
  case.
-/

namespace Runes

abbrev Bytes := List UInt8

def encode (s : List Char) : Bytes := s.flatMap String.utf8EncodeChar

/-- `utf8.DecodeRune`; `none` if no encoded character begins here. -/
def decodeRune (bs : Bytes) : Option Char := bs.toByteArray.utf8DecodeChar? 0

def replacement : Char := '\uFFFD'

def runes : Bytes → List Char
  | [] => []
  | b :: bs =>
    match decodeRune (b :: bs) with
    | none => replacement :: runes bs
    | some c => c :: runes ((b :: bs).drop c.utf8Size)
termination_by bs => bs.length
decreasing_by
  · exact Nat.lt_add_one _
  · rw [List.length_drop]
    exact Nat.sub_lt (Nat.succ_pos _) c.utf8Size_pos

/-- `unicode.ToLower`. Two characters that are not ASCII have an ASCII letter as
their lower case; `other` is the lower case of the rest. -/
def toLowerRune (other : Char → Char) (c : Char) : Char :=
  if c.toNat < 0x80 then c.toLower
  else if c = '\u0130' then 'i'
  else if c = '\u212A' then 'k'
  else other c

/-- `strings.ToLower`. -/
def toLower (other : Char → Char) (bs : Bytes) : List Char :=
  (runes bs).map (toLowerRune other)

/-- `c` has the lower case `d`. -/
def Folds (c d : Char) : Prop := c.toLower = d ∨ c = '\u0130' ∧ d = 'i' ∨ c = '\u212A' ∧ d = 'k'

instance (c d : Char) : Decidable (Folds c d) := inferInstanceAs (Decidable (_ ∨ _))

theorem decodeRune_append (c : Char) (bs : Bytes) :
    decodeRune (String.utf8EncodeChar c ++ bs) = some c := by
  rw [decodeRune, List.toByteArray_append]
  exact ByteArray.utf8DecodeChar?_utf8EncodeChar_append

theorem eq_append_of_decodeRune {bs : Bytes} {c : Char} (h : decodeRune bs = some c) :
    ∃ rest, bs = String.utf8EncodeChar c ++ rest := by
  obtain ⟨rest, hrest⟩ := ByteArray.exists_of_utf8DecodeChar?_eq_some h
  refine ⟨rest.data.toList, ?_⟩
  have hdata := congrArg (fun b => b.data.toList) hrest
  simpa using hdata

theorem runes_of_decodeRune {bs : Bytes} {c : Char} (h : decodeRune bs = some c) :
    runes bs = c :: runes (bs.drop c.utf8Size) := by
  cases bs with
  | nil => cases h
  | cons b bs => rw [runes, h]

theorem runes_encode (s : List Char) : runes (encode s) = s := by
  induction s with
  | nil => rw [encode, List.flatMap_nil, runes]
  | cons c s ih =>
    have hdrop : (String.utf8EncodeChar c ++ encode s).drop c.utf8Size = encode s :=
      List.drop_left' (String.length_utf8EncodeChar c)
    rw [encode, List.flatMap_cons, runes_of_decodeRune (decodeRune_append c _)]
    exact congrArg (c :: ·) ((congrArg runes hdrop).trans ih)

theorem encode_runes (bs : Bytes) (h : replacement ∉ runes bs) : encode (runes bs) = bs := by
  fun_induction runes bs with
  | case1 => rfl
  | case2 b bs hnone ih => exact absurd List.mem_cons_self h
  | case3 b bs c hsome ih =>
    obtain ⟨rest, hrest⟩ := eq_append_of_decodeRune hsome
    have hdrop : (b :: bs).drop c.utf8Size = rest := by
      rw [hrest]
      exact List.drop_left' (String.length_utf8EncodeChar c)
    have htail := ih (List.not_mem_of_not_mem_cons h)
    rw [hdrop] at htail ⊢
    rw [encode, List.flatMap_cons, hrest]
    exact congrArg (String.utf8EncodeChar c ++ ·) htail

/-! ## Lower case -/

variable {other : Char → Char}

theorem toLower_of_high {c : Char} (h : 0x80 ≤ c.toNat) : c.toLower = c := by
  have hupper : ¬ (c.val ≥ 'A'.val ∧ c.val ≤ 'Z'.val) := fun hle =>
    absurd (Nat.le_trans h (UInt32.le_iff_toNat_le.mp hle.2)) (by decide)
  exact dif_neg hupper

theorem toLowerRune_eq_iff (hother : ∀ c, 0x80 ≤ c.toNat → 0x80 ≤ (other c).toNat) {c d : Char}
    (hd : d.toNat < 0x80) : toLowerRune other c = d ↔ Folds c d := by
  have hhigh : ∀ e : Char, 0x80 ≤ e.toNat → e ≠ d := by
    rintro e he rfl
    exact absurd hd (Nat.not_lt.mpr he)
  rw [toLowerRune, Folds]
  split
  · next hc =>
    have hne : ∀ e : Char, 0x80 ≤ e.toNat → c ≠ e := by
      rintro e he rfl
      exact absurd hc (Nat.not_lt.mpr he)
    simp [hne '\u0130' (by decide), hne '\u212A' (by decide)]
  · next hc =>
    have hc := Nat.le_of_not_lt hc
    rw [toLower_of_high hc]
    split
    · next h => simp [h, hhigh '\u0130' (by decide), eq_comm]
    · next h =>
      split
      · next h' => simp [h', hhigh '\u212A' (by decide), eq_comm]
      · next h' => simp [h, h', hhigh c hc, hhigh (other c) (hother c hc)]

/-- The lower case of a string of bytes is a given ASCII string. -/
theorem toLower_eq_iff (hother : ∀ c, 0x80 ≤ c.toNat → 0x80 ≤ (other c).toNat) {bs : Bytes}
    {name : List Char} (hname : ∀ d ∈ name, d.toNat < 0x80) :
    toLower other bs = name ↔ ∃ s, bs = encode s ∧ List.Forall₂ Folds s name := by
  have hmap : ∀ s : List Char, s.map (toLowerRune other) = name ↔ List.Forall₂ Folds s name := by
    intro s
    rw [← List.forall₂_eq_eq_eq, List.forall₂_map_left_iff]
    induction name generalizing s with
    | nil => simp
    | cons d name ih =>
      rw [List.forall_mem_cons] at hname
      cases s with
      | nil => simp
      | cons c s =>
        rw [List.forall₂_cons, List.forall₂_cons, toLowerRune_eq_iff hother hname.1, ih hname.2]
  constructor
  · intro h
    have hvalid : replacement ∉ runes bs := by
      intro hmem
      have hlower : toLowerRune other replacement ∈ name := h ▸ List.mem_map_of_mem hmem
      exact absurd (hname _ hlower) (Nat.not_lt.mpr (hother replacement (by decide)))
    exact ⟨runes bs, (encode_runes bs hvalid).symm, (hmap _).mp h⟩
  · rintro ⟨s, rfl, hs⟩
    rw [toLower, runes_encode]
    exact (hmap s).mpr hs

end Runes
