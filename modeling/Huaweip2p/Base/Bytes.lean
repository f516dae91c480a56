import Mathlib.Tactic

/-!
# Characters and strings

A `std::string` is a list of bytes. Strings compare byte by byte as unsigned values, which is the
order of `List UInt8`; a `char` converted to `int` is signed on the target.
-/

namespace Huaweip2p

/-- `std::string`. -/
abbrev Str := List UInt8

/-- A character literal. -/
def chr (c : Char) : UInt8 := UInt8.ofNat c.toNat

/-- A string literal. -/
def lit (s : String) : Str := s.toList.map chr

/-- The conversion of a `char` to `int`. -/
def charToInt (c : UInt8) : ℤ := c.toInt8.toInt

/-- The conversion of an `int` to `char`. -/
def intToChar (n : ℤ) : UInt8 := (Int8.ofInt n).toUInt8

theorem charToInt_intToChar {n : ℤ} (h₁ : -128 ≤ n) (h₂ : n < 128) :
    charToInt (intToChar n) = n := by
  show (Int8.ofInt n).toInt = n
  rw [Int8.toInt_ofInt]
  exact Int.bmod_eq_of_le h₁ h₂

theorem charToInt_bounds (c : UInt8) : -128 ≤ charToInt c ∧ charToInt c < 128 :=
  ⟨Int8.le_toInt _, Int8.toInt_lt _⟩

/-- `string::compare`, as far as its sign goes. -/
def strCompare (a b : Str) : ℤ :=
  match compare a b with
  | .lt => -1
  | .eq => 0
  | .gt => 1

theorem strCompare_eq_zero {a b : Str} : strCompare a b = 0 ↔ a = b := by
  rw [← Std.LawfulEqOrd.compare_eq_iff_eq (a := a), strCompare]
  cases compare a b <;> simp

end Huaweip2p
