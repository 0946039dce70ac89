import LineCalc.Digits
/-
  Rounding to 53 bits

  A magnitude is `mantissa * 2 ^ exponent` in units of `2 ^ (-1074)`, the
  smallest positive number of the format. The mantissa has at most 53 bits, and
  it has exactly 53 unless the exponent is zero, so each magnitude has one
  representation. The exponent ends at 2045.

  `Magnitude.round` takes a quotient of natural numbers, in the same unit, to
  the nearest magnitude. A quotient halfway between two goes to the one with
  the even mantissa, and one that is too large has no magnitude.
-/

namespace LineCalc

/-- The size of a finite number, in units of `2 ^ (-1074)`. -/
structure Magnitude where
  mantissa : Nat
  exponent : Nat
  mantissa_lt : mantissa < 2 ^ 53
  exponent_le : exponent ≤ 2045
  full : exponent = 0 ∨ 2 ^ 52 ≤ mantissa
  deriving DecidableEq, Repr

namespace Magnitude

/-- The number of units. -/
def units (m : Magnitude) : Nat := m.mantissa * 2 ^ m.exponent

/-- The number of units in one. -/
def unitsPerOne : Nat := 2 ^ 1074

theorem unitsPerOne_pos : 0 < unitsPerOne := by
  unfold unitsPerOne
  exact Nat.two_pow_pos 1074

theorem least_exponent_le : 0 ≤ 2045 := Nat.zero_le 2045

/-- Nothing. -/
def zero : Magnitude := ⟨0, 0, by decide, least_exponent_le, .inl rfl⟩

/-- The integer nearest to a quotient; a half goes to the even neighbour. -/
def roundHalfEven (num den : Nat) : Nat :=
  if 2 * (num % den) < den then num / den
  else if den < 2 * (num % den) then num / den + 1
  else num / den + num / den % 2

/-- The exponent that leaves 53 bits of a quotient before its point, or zero if
it has fewer. -/
def roundExponent (num den : Nat) : Nat := (num / den).log2 - 52

/-- The rounded mantissa at that exponent, which may have reached 54 bits. -/
def roundMantissa (num den : Nat) : Nat :=
  roundHalfEven num (den * 2 ^ roundExponent num den)

theorem roundHalfEven_le (num den : Nat) : roundHalfEven num den ≤ num / den + 1 := by
  unfold roundHalfEven
  have := Nat.mod_lt (num / den) (show 0 < 2 by decide)
  split
  · omega
  · split <;> omega

theorem le_roundHalfEven (num den : Nat) : num / den ≤ roundHalfEven num den := by
  unfold roundHalfEven
  split
  · omega
  · split <;> omega

/-- At the rounding exponent a quotient has at most 53 bits before its point. -/
theorem quotient_lt (num den : Nat) : num / den < 2 ^ (53 + roundExponent num den) := by
  have hlog : (num / den).log2 + 1 ≤ 53 + roundExponent num den := by
    unfold roundExponent; omega
  exact Nat.lt_of_lt_of_le Nat.lt_log2_self (Nat.pow_le_pow_right (by decide) hlog)

/-- Where the exponent is not zero a quotient has 53 bits before its point. -/
theorem le_quotient {num den : Nat} (he : roundExponent num den ≠ 0) :
    2 ^ (52 + roundExponent num den) ≤ num / den := by
  have hlog : (num / den).log2 = 52 + roundExponent num den := by
    unfold roundExponent at he ⊢; omega
  have hne : num / den ≠ 0 := by
    intro h0
    rw [h0, Nat.log2_zero] at hlog
    omega
  rw [← hlog]
  exact Nat.log2_self_le hne

theorem roundMantissa_le (num den : Nat) : roundMantissa num den ≤ 2 ^ 53 := by
  have hdiv : num / (den * 2 ^ roundExponent num den) < 2 ^ 53 := by
    rw [← Nat.div_div_eq_div_mul, Nat.div_lt_iff_lt_mul (Nat.two_pow_pos _), ← Nat.pow_add]
    exact quotient_lt num den
  exact Nat.le_trans (roundHalfEven_le _ _) hdiv

/-- Where the exponent is not zero the rounded mantissa has 53 bits. -/
theorem roundMantissa_full (num den : Nat) :
    roundExponent num den = 0 ∨ 2 ^ 52 ≤ roundMantissa num den := by
  by_cases he : roundExponent num den = 0
  · exact .inl he
  refine .inr ?_
  have hdiv : 2 ^ 52 ≤ num / (den * 2 ^ roundExponent num den) := by
    rw [← Nat.div_div_eq_div_mul, Nat.le_div_iff_mul_le (Nat.two_pow_pos _), ← Nat.pow_add]
    exact le_quotient he
  exact Nat.le_trans hdiv (le_roundHalfEven _ _)

/-- The magnitude nearest to a quotient of units, if it is not too large. A
mantissa that reached 54 bits is a power of two, one exponent further on. -/
def round (num den : Nat) : Option Magnitude :=
  if hm : roundMantissa num den < 2 ^ 53 then
    if he : roundExponent num den ≤ 2045 then
      some ⟨roundMantissa num den, roundExponent num den, hm, he, roundMantissa_full num den⟩
    else none
  else if he : roundExponent num den + 1 ≤ 2045 then
    some ⟨2 ^ 52, roundExponent num den + 1, by decide, he, .inr (Nat.le_refl _)⟩
  else none

theorem roundHalfEven_mul (q : Nat) {den : Nat} (h : 0 < den) :
    roundHalfEven (q * den) den = q := by
  simp [roundHalfEven, h, Nat.mul_div_left]

theorem roundExponent_units (m : Magnitude) : roundExponent m.units 1 = m.exponent := by
  have hlt : m.mantissa * 2 ^ m.exponent < 2 ^ (53 + m.exponent) := by
    rw [Nat.pow_add]
    exact Nat.mul_lt_mul_of_pos_right m.mantissa_lt (Nat.two_pow_pos _)
  rw [roundExponent, Nat.div_one, units]
  rcases m.full with he | hm
  · rw [he, Nat.pow_zero, Nat.mul_one]
    have := m.mantissa_lt
    by_cases h0 : m.mantissa = 0
    · simp [h0]
    · have := (Nat.log2_lt h0).2 m.mantissa_lt
      omega
  · have hle : 2 ^ (52 + m.exponent) ≤ m.mantissa * 2 ^ m.exponent := by
      rw [Nat.pow_add]
      exact Nat.mul_le_mul_right _ hm
    have h0 : m.mantissa * 2 ^ m.exponent ≠ 0 := by
      have := Nat.two_pow_pos (52 + m.exponent)
      omega
    have h1 := (Nat.le_log2 h0).2 hle
    have h2 := (Nat.log2_lt h0).2 hlt
    omega

theorem round_units (m : Magnitude) : round m.units 1 = some m := by
  have hm : roundMantissa m.units 1 = m.mantissa := by
    rw [roundMantissa, roundExponent_units, Nat.one_mul, units,
      roundHalfEven_mul _ (Nat.two_pow_pos _)]
  have he := roundExponent_units m
  simp only [round, hm, he, m.mantissa_lt, m.exponent_le, dif_pos]

end Magnitude

end LineCalc
