/-
  Binary floating point numbers of 64 bits, as far as a quotient of whole numbers goes through them.

  1. **Rounding** (`mantissa`, `exponent`): of the numbers with 53 binary digits the one nearest to the
     quotient, and of two the one with the even mantissa.  The exponent is that of the leading digit, but
     not below the smallest one.
  2. **The whole part** (`whole`): what is left of the rounded quotient without its fraction.  It is that of
     the quotient itself, or one more where the fraction is so close to one that the rounding reaches it.
  3. **The crux** (`lt_whole_iff`): when the whole part passes a bound.  For small bounds that is exactly when
     the quotient does; from a bound on whose digits leave no room for the fraction, it is a little earlier.
-/
import Mathlib.Data.Nat.Log
import Mathlib.Tactic.Ring
import Mathlib.Tactic.Linarith

namespace Binary64

variable {num den bound n m : Nat}

/-! ## Rounding -/

/-- The whole number nearest to a quotient, and of two the even one. -/
def nearest (num den : Nat) : Nat :=
  if 2 * (num % den) < den ∨ (2 * (num % den) = den ∧ num / den % 2 = 0) then num / den else num / den + 1

/-- The power of two that a quotient reaches without reaching the next one. -/
def scale (num den : Nat) : Int := if den ≤ num then Nat.log2 (num / den) else -(Nat.log2 ((den - 1) / num) + 1)

/-- The weight of the last digit, as a power of two. -/
def exponent (num den : Nat) : Int := max (scale num den - 52) (-1074)

/-- The digits of a quotient. -/
def mantissa (num den : Nat) : Nat :=
  nearest (num * 2 ^ (-exponent num den).toNat) (den * 2 ^ (exponent num den).toNat)

/-- The whole part of a rounded quotient. -/
def whole (num den : Nat) : Nat :=
  mantissa num den * 2 ^ (exponent num den).toNat / 2 ^ (-exponent num den).toNat

/-- The quotient is rounded to a number that has no digits left for it. -/
def overflows (num den : Nat) : Bool := 2 ^ 1024 ≤ whole num den

/-- The quotient is rounded to one. -/
def isOne (num den : Nat) : Bool :=
  mantissa num den * 2 ^ (exponent num den).toNat = 2 ^ (-exponent num den).toNat

/-- A rounding is up only from the middle on. -/
theorem nearest_cases (num den : Nat) : nearest num den = num / den ∧ 2 * (num % den) ≤ den ∨
    nearest num den = num / den + 1 ∧ den ≤ 2 * (num % den) := by
  rw [nearest]
  split
  · next hdown => exact Or.inl ⟨rfl, by omega⟩
  · next hup => exact Or.inr ⟨rfl, by omega⟩

/-- An even number is reached from the middle before it on. -/
theorem le_nearest_iff (hden : 0 < den) (heven : m % 2 = 0) : m ≤ nearest num den ↔ 2 * (m * den) ≤ 2 * num + den := by
  have hnum : num / den * den + num % den = num := Nat.div_add_mod' num den
  have hrest : num % den < den := Nat.mod_lt num hden
  rcases Nat.lt_trichotomy m (num / den + 1) with hlow | hnext | hhigh
  · have hle : m * den ≤ num / den * den := Nat.mul_le_mul_right den (by omega)
    have hfloor : m ≤ nearest num den := by
      rcases nearest_cases num den with ⟨hsame, -⟩ | ⟨hsame, -⟩ <;> omega
    exact iff_of_true hfloor (by omega)
  · have hproduct : m * den = num / den * den + den := by
      rw [hnext]
      exact Nat.succ_mul (num / den) den
    -- the quotient without its fraction is odd, so that the middle is rounded up
    rw [nearest]
    split
    · omega
    · omega
  · have hle : (num / den + 2) * den ≤ m * den := Nat.mul_le_mul_right den (by omega)
    have hproduct : (num / den + 2) * den = num / den * den + 2 * den := Nat.add_mul (num / den) 2 den
    have hceiling : nearest num den < m := by
      rcases nearest_cases num den with ⟨hsame, -⟩ | ⟨hsame, -⟩ <;> omega
    exact iff_of_false (by omega) (by omega)

/-! ## The whole part -/

/-- How many binary digits are left for the fraction. -/
def places (num den : Nat) : Nat := (-exponent num den).toNat

/-- Where a quotient has digits for a fraction, its whole part is that of its digits. -/
theorem whole_of_fraction (h : exponent num den ≤ 0) :
    whole num den = nearest (num * 2 ^ places num den) den / 2 ^ places num den := by
  have hzero : (exponent num den).toNat = 0 := by omega
  rw [whole, mantissa, hzero, places, pow_zero, Nat.mul_one, Nat.mul_one]

/-- A number is reached by the whole part from half a digit before it on. -/
theorem le_whole_iff (hden : 0 < den) (h : exponent num den < 0) :
    n ≤ whole num den ↔ 2 * (n * 2 ^ places num den * den) ≤ 2 * (num * 2 ^ places num den) + den := by
  have heven : n * 2 ^ places num den % 2 = 0 := by
    obtain ⟨k, hk⟩ : ∃ k, places num den = k + 1 := ⟨places num den - 1, by rw [places]; omega⟩
    rw [hk, pow_succ, ← Nat.mul_assoc]
    exact Nat.mul_mod_left _ 2
  rw [whole_of_fraction h.le, Nat.le_div_iff_mul_le (Nat.two_pow_pos _)]
  exact le_nearest_iff hden heven

/-- A quotient that reaches one, and has room for a fraction. -/
theorem exponent_of_le (hle : den ≤ num) (hsmall : num / den < 2 ^ 52) :
    exponent num den = (Nat.log2 (num / den) : Int) - 52 ∧ Nat.log2 (num / den) < 52 := by
  have hlog : Nat.log2 (num / den) < 52 := by
    by_cases hzero : num / den = 0
    · rw [hzero]
      decide
    · exact (Nat.log2_lt hzero).mpr hsmall
  refine ⟨?_, hlog⟩
  rw [exponent, scale, if_pos hle]
  omega

/-- A quotient that does not reach one. -/
theorem exponent_of_lt (hlt : num < den) : exponent num den ≤ -53 := by
  rw [exponent, scale, if_neg (Nat.not_le.mpr hlt)]
  omega

/-- A quotient with room for a fraction has digits for one. -/
theorem exponent_neg (hsmall : num / den < 2 ^ 52) : exponent num den < 0 := by
  by_cases hle : den ≤ num
  · obtain ⟨hexponent, hlog⟩ := exponent_of_le hle hsmall
    omega
  · have := exponent_of_lt (Nat.not_le.mp hle)
    omega

/-- How far before the next whole number a quotient already counts for it. -/
def slack (den bound : Nat) : Nat := den / 2 ^ (53 - Nat.log2 bound)

/-- The slack is a part of the unit. -/
theorem slack_le : slack den bound ≤ den := Nat.div_le_self den _

/-- The fraction reaches the next whole number if it is within half a digit of it. -/
theorem succ_le_whole_iff (hden : 0 < den) (hroom : den < 2 ^ 53) (hsmall : num / den < 2 ^ 52) :
    num / den + 1 ≤ whole num den ↔ (num / den + 1) * den - slack den (num / den) ≤ num := by
  have hnum : num / den * den + num % den = num := Nat.div_add_mod' num den
  have hrest : num % den < den := Nat.mod_lt num hden
  have hnext : (num / den + 1) * den = num / den * den + den := Nat.succ_mul (num / den) den
  have hneg : exponent num den < 0 := exponent_neg hsmall
  -- what is missing to the next whole number, against half a digit
  have hdigit : num / den + 1 ≤ whole num den ↔ (den - num % den) * 2 ^ (places num den + 1) ≤ den := by
    rw [le_whole_iff hden hneg, pow_succ]
    generalize 2 ^ places num den = p
    have hmissing : (den - num % den) * p + num * p = (num / den + 1) * den * p := by
      rw [← Nat.add_mul]
      congr 1
      omega
    have hdouble : (den - num % den) * (p * 2) = 2 * ((den - num % den) * p) := by ring
    have horder : (num / den + 1) * p * den = (num / den + 1) * den * p := by ring
    rw [hdouble, horder]
    omega
  have hslack : (den - num % den) * 2 ^ (places num den + 1) ≤ den ↔ den - num % den ≤ slack den (num / den) := by
    rw [← Nat.le_div_iff_mul_le (Nat.two_pow_pos _), slack]
    by_cases hle : den ≤ num
    · obtain ⟨hexponent, hlog⟩ := exponent_of_le hle hsmall
      rw [show places num den + 1 = 53 - Nat.log2 (num / den) by rw [places]; omega]
    · -- nothing is so close to one that it is rounded up
      have hlt : num < den := Nat.not_le.mp hle
      have hplaces : 53 ≤ places num den + 1 := by
        have := exponent_of_lt hlt
        rw [places]
        omega
      have hpower : 2 ^ 53 ≤ 2 ^ (places num den + 1) := Nat.pow_le_pow_right (by decide) hplaces
      rw [Nat.div_eq_of_lt (lt_of_lt_of_le hroom hpower), Nat.div_eq_of_lt hlt, show Nat.log2 0 = 0 by decide,
        Nat.div_eq_of_lt hroom]
  rw [hdigit, hslack]
  omega

/-- **When the whole part passes a bound**: at the next whole number, or within the slack before it. -/
theorem lt_whole_iff (hden : 0 < den) (hroom : den < 2 ^ 53) (hsmall : num / den < 2 ^ 52) :
    bound < whole num den ↔ (bound + 1) * den - slack den bound ≤ num := by
  have hneg : exponent num den < 0 := exponent_neg hsmall
  have hslack : slack den bound ≤ den := slack_le
  have hnext : (bound + 1) * den = bound * den + den := Nat.succ_mul bound den
  have hpositive : 0 < 2 ^ places num den := Nat.two_pow_pos _
  rcases Nat.lt_trichotomy (num / den) bound with hbelow | hat | habove
  · -- the rounding does not get over a whole number
    have hnum : num < bound * den := (Nat.div_lt_iff_lt_mul hden).mp hbelow
    refine iff_of_false ?_ (by omega)
    rw [Nat.lt_iff_add_one_le, le_whole_iff hden hneg, Nat.mul_right_comm, hnext, Nat.add_mul]
    have hproduct : num * 2 ^ places num den ≤ bound * den * 2 ^ places num den :=
      Nat.mul_le_mul_right _ hnum.le
    have hone : den ≤ den * 2 ^ places num den := Nat.le_mul_of_pos_right den hpositive
    omega
  · rw [← hat]
    exact succ_le_whole_iff hden hroom hsmall
  · have hnum : (bound + 1) * den ≤ num := (Nat.le_div_iff_mul_le hden).mp habove
    refine iff_of_true ?_ (by omega)
    rw [Nat.lt_iff_add_one_le, le_whole_iff hden hneg, Nat.mul_right_comm]
    have hproduct : (bound + 1) * den * 2 ^ places num den ≤ num * 2 ^ places num den :=
      Nat.mul_le_mul_right _ hnum
    omega

end Binary64
