import Mathlib.Tactic

/-!
# The first decimal digits

A decimal string that is cut after `r` characters is the decimal string of another number.

* `leading r n`: the number that the first `r` decimal digits of `n` make;
* `take_toDigits`: the string that is left is that of `leading r n`;
* `take_toDigits_inj`: so two strings are cut to the same exactly when these numbers are equal;
* `leading_eq_self`, `le_of_leading_eq`: numbers of at most `r` digits are not cut.
-/

namespace Decimal

/-- The number that the first `r` decimal digits of `n` make. -/
def leading (r n : ℕ) : ℕ := n / 10 ^ ((Nat.toDigits 10 n).length - r)

variable {r n m : ℕ}

theorem leading_eq_self (hr : 0 < r) (h : n < 10 ^ r) : leading r n = n := by
  have hlen := (Nat.length_toDigits_le_iff (b := 10) (by decide) hr).2 h
  rw [leading, Nat.sub_eq_zero_of_le hlen, pow_zero, Nat.div_one]

/-- The induction takes the last digit off. -/
theorem take_toDigits (hr : 0 < r) : (Nat.toDigits 10 n).take r = Nat.toDigits 10 (leading r n) := by
  induction n using Nat.strong_induction_on with
  | _ n ih =>
    by_cases h : n < 10 ^ r
    · rw [leading_eq_self hr h]
      exact List.take_of_length_le ((Nat.length_toDigits_le_iff (by decide) hr).2 h)
    · have hten : 10 ≤ n := (Nat.le_self_pow hr.ne' 10).trans (Nat.not_lt.1 h)
      have hdigits := Nat.toDigits_of_base_le (b := 10) (by decide) hten
      have hlen : r ≤ (Nat.toDigits 10 (n / 10)).length := by
        have hlong : ¬ (Nat.toDigits 10 n).length ≤ r :=
          fun hle => h ((Nat.length_toDigits_le_iff (by decide) hr).1 hle)
        rw [hdigits, List.length_append, List.length_singleton] at hlong
        omega
      have hleading : leading r n = leading r (n / 10) := by
        rw [leading, leading, hdigits, List.length_append, List.length_singleton,
          Nat.succ_sub hlen, pow_succ', Nat.div_div_eq_div_mul]
      rw [hleading, ← ih (n / 10) (Nat.div_lt_self (by omega) (by decide)), hdigits,
        List.take_append_of_le_length hlen]

theorem toDigits_injective : Function.Injective (Nat.toDigits 10) := by
  intro m n h
  have hread := congrArg (fun digits => Nat.ofDigitChars 10 digits 0) h
  simpa only [Nat.ofDigitChars_ten_toDigits] using hread

theorem take_toDigits_inj (hr : 0 < r) :
    (Nat.toDigits 10 m).take r = (Nat.toDigits 10 n).take r ↔ leading r m = leading r n := by
  rw [take_toDigits hr, take_toDigits hr, toDigits_injective.eq_iff]

/-- A number that is cut to the same as a smaller one has more than `r` digits. -/
theorem le_of_leading_eq (hr : 0 < r) (hlt : m < n) (h : leading r m = leading r n) :
    10 ^ r ≤ n := by
  by_contra hn
  rw [leading_eq_self hr (by omega), leading_eq_self hr (by omega)] at h
  exact hlt.ne h

end Decimal
