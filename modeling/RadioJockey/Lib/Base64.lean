import Mathlib.Data.List.Basic

/-!
# Base64 with padding

The standard alphabet: three bytes are one number of 24 bits, written as four
digits of six bits. One or two bytes at the end are filled up with zeros, and
the digits of the filling are written as `=`.
-/

namespace Base64

/-- `A` to `Z`, `a` to `z`, `0` to `9`, `+`, `/`. -/
def digit (n : Nat) : UInt8 :=
  if n < 26 then UInt8.ofNat (65 + n)
  else if n < 52 then UInt8.ofNat (97 + (n - 26))
  else if n < 62 then UInt8.ofNat (48 + (n - 52))
  else if n = 62 then 43 else 47

def pad : UInt8 := 61

/-- The digits of a number of 24 bits. -/
def digits (n : Nat) : List UInt8 :=
  [digit ((n >>> 18) % 64), digit ((n >>> 12) % 64), digit ((n >>> 6) % 64), digit (n % 64)]

def encode : List UInt8 → List UInt8
  | [] => []
  | [a] => (digits (a.toNat <<< 16)).take 2 ++ [pad, pad]
  | [a, b] => (digits (a.toNat <<< 16 + b.toNat <<< 8)).take 3 ++ [pad]
  | a :: b :: c :: rest => digits (a.toNat <<< 16 + b.toNat <<< 8 + c.toNat) ++ encode rest

example : encode [77, 97, 110, 77] = [84, 87, 70, 117, 84, 81, 61, 61] := by decide

/-- What holds of the 64 digits and of `=` holds of everything written. -/
theorem encode_all {p : UInt8 → Bool} (hdigit : ∀ n < 64, p (digit n) = true)
    (hpad : p pad = true) (l : List UInt8) : (encode l).all p = true := by
  have hd (n : Nat) : p (digit (n % 64)) = true := hdigit _ (Nat.mod_lt _ (by decide))
  induction l using encode.induct with
  | case1 => rfl
  | case2 a => simp [encode, digits, hd, hpad]
  | case3 a b => simp [encode, digits, hd, hpad]
  | case4 a b c rest ih => simp [encode, digits, hd, ih]

theorem encode_ne_nil {l : List UInt8} (h : l ≠ []) : encode l ≠ [] := by
  match l, h with
  | [a], _ => simp [encode]
  | [a, b], _ => simp [encode]
  | a :: b :: c :: rest, _ => simp [encode, digits]

end Base64
