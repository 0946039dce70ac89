import LineCalc.Binary64.Basic
import LineCalc.Proofs.Rounding
/-
  Nearest: what a rational rounds to

  A finite number stands for a rational, both zeros for the same one. `Binary64.IsNearest`
  says what rounding to nearest asks for: no finite number is nearer, the last bit is zero
  if another number is as near, and the rational is not beyond the point from which it
  would round to infinity. A rational has one nearest number, up to the sign of a zero.

  What is proved:
    1. `Binary64.isNearest_finite_iff` — a number with the sign of a rational is nearest
       to it exactly if its size is the nearest magnitude;
    2. `Binary64.IsNearest.eq` — of each sign there is only one nearest number.
-/

namespace LineCalc

namespace Magnitude

theorem halfway_div (e k : Nat) :
    (halfway (e + k) : ℚ) / (2 ^ k : Nat) = 2 ^ (54 + e) - 2 ^ e := by
  have hfactor : ((2 ^ 54 - 1 : Nat) : ℚ) = 2 ^ 54 - 1 := by norm_num
  rw [div_eq_iff (by positivity), halfway, Nat.cast_mul, hfactor, pow_add]
  push_cast
  ring

/-- What is too large in ones: halfway between the largest number and the next power of two. -/
theorem tooLarge_div : (tooLarge : ℚ) / unitsPerOne = 2 ^ 1024 - 2 ^ 970 := by
  rw [tooLarge, unitsPerOne]
  exact halfway_div 970 1074

end Magnitude

/-! ## Signed numbers -/

/-- A rational behind a sign. -/
def withSign (negative : Bool) (q : ℚ) : ℚ := if negative then -q else q

@[simp] theorem withSign_false (q : ℚ) : withSign false q = q := rfl

@[simp] theorem withSign_true (q : ℚ) : withSign true q = -q := rfl

theorem withSign_zero (negative : Bool) : withSign negative 0 = 0 := by
  cases negative <;> simp

theorem abs_withSign (negative : Bool) (q : ℚ) : |withSign negative q| = |q| := by
  cases negative with
  | false => rfl
  | true => exact abs_neg q

theorem withSign_sub (negative : Bool) (p q : ℚ) :
    withSign negative p - withSign negative q = withSign negative (p - q) := by
  cases negative with
  | false => rfl
  | true => exact (neg_sub' p q).symm

namespace Binary64

/-- The exact value of a finite number. -/
def toRat : Binary64 → ℚ
  | finite negative size => withSign negative (size.units / Magnitude.unitsPerOne)
  | infinite _ => 0
  | nan => 0

/-- Whether a number has a minus sign. -/
def isNegative : Binary64 → Bool
  | finite negative _ => negative
  | infinite negative => negative
  | nan => false

/-- What a rational rounds to: a finite number that no other is nearer than, whose last bit
is zero if another one is as near. A rational beyond the halfway point behind the largest
number rounds to none. -/
structure IsNearest (x : Binary64) (q : ℚ) : Prop where
  isFinite : x.isFinite
  least : ∀ y : Binary64, y.isFinite → |x.toRat - q| ≤ |y.toRat - q|
  even : ∀ y : Binary64, y.isFinite → y.toRat ≠ x.toRat → |x.toRat - q| = |y.toRat - q| →
    x.bits.toNat % 2 = 0
  small : |q| < 2 ^ 1024 - 2 ^ 970

theorem eq_finite_of_isFinite {x : Binary64} (h : x.isFinite) :
    ∃ size, x = finite x.isNegative size := by
  cases x with
  | finite negative size => exact ⟨size, rfl⟩
  | infinite negative => cases h
  | nan => cases h

theorem bits_mod_two (negative : Bool) (size : Magnitude) :
    (finite negative size).bits.toNat % 2 = size.mantissa % 2 := by
  have hbits := toNat_bits negative size
  have hsign := signBit_cases negative
  omega

section
variable {negative : Bool} {size other : Magnitude} {u : ℚ}

theorem abs_toRat_sub (negative : Bool) (size : Magnitude) (u : ℚ) :
    |(finite negative size).toRat - withSign negative (u / Magnitude.unitsPerOne)| =
      |(size.units : ℚ) - u| / Magnitude.unitsPerOne := by
  rw [toRat, withSign_sub, abs_withSign, ← sub_div, abs_div,
    abs_of_pos Magnitude.unitsPerOne_cast_pos]

/-- Numbers of two signs are as far apart as their units together. -/
theorem abs_toRat_sub_of_ne (negative : Bool) (size : Magnitude) (hu : 0 ≤ u) :
    |(finite (!negative) size).toRat - withSign negative (u / Magnitude.unitsPerOne)| =
      (size.units + u) / Magnitude.unitsPerOne := by
  have hpos := Magnitude.unitsPerOne_cast_pos
  have hopposite : (finite (!negative) size).toRat - withSign negative (u / Magnitude.unitsPerOne) =
      withSign (!negative) ((size.units + u) / Magnitude.unitsPerOne) := by
    rw [toRat, add_div]
    cases negative with
    | false => exact (neg_add' _ _).symm
    | true => exact sub_neg_eq_add _ _
  rw [hopposite, abs_withSign,
    abs_of_nonneg (div_nonneg (add_nonneg (Nat.cast_nonneg _) hu) hpos.le)]

theorem le_abs_toRat_sub (negative sign : Bool) (size : Magnitude) (hu : 0 ≤ u) :
    |(size.units : ℚ) - u| / Magnitude.unitsPerOne ≤
      |(finite sign size).toRat - withSign negative (u / Magnitude.unitsPerOne)| := by
  by_cases hsign : sign = negative
  · rw [hsign, abs_toRat_sub]
  · obtain rfl : sign = !negative := Bool.eq_not.mpr hsign
    rw [abs_toRat_sub_of_ne _ _ hu]
    apply div_le_div_of_nonneg_right _ Magnitude.unitsPerOne_cast_pos.le
    have hunits : (0 : ℚ) ≤ size.units := Nat.cast_nonneg _
    rw [abs_le]
    constructor <;> linarith

theorem toRat_finite_inj :
    (finite negative size).toRat = (finite negative other).toRat ↔ size = other := by
  constructor
  · intro h
    have hdistance := abs_toRat_sub negative size other.units
    rw [← toRat, h, sub_self, abs_zero, eq_comm, div_eq_zero_iff] at hdistance
    have hunits := hdistance.resolve_right Magnitude.unitsPerOne_cast_pos.ne'
    exact Magnitude.units_injective (by exact_mod_cast sub_eq_zero.mp (abs_eq_zero.mp hunits))
  · intro h
    rw [h]

theorem abs_lt_iff_lt_tooLarge (hu : 0 ≤ u) :
    |withSign negative (u / Magnitude.unitsPerOne)| < 2 ^ 1024 - 2 ^ 970 ↔
      u < Magnitude.tooLarge := by
  rw [abs_withSign, abs_of_nonneg (div_nonneg hu Magnitude.unitsPerOne_cast_pos.le),
    ← Magnitude.tooLarge_div, div_lt_div_iff_of_pos_right Magnitude.unitsPerOne_cast_pos]

/-- A number with the sign of a rational is the nearest exactly if its size is. -/
theorem isNearest_finite_iff (hu : 0 ≤ u) :
    (finite negative size).IsNearest (withSign negative (u / Magnitude.unitsPerOne)) ↔
      size.IsNearest u := by
  have hpos := Magnitude.unitsPerOne_cast_pos
  constructor
  · intro h
    refine ⟨?_, ?_, (abs_lt_iff_lt_tooLarge hu).mp h.small⟩
    · intro n
      have hleast := h.least (finite negative n) rfl
      rwa [abs_toRat_sub, abs_toRat_sub, div_le_div_iff_of_pos_right hpos] at hleast
    · intro n hne heq
      rw [← bits_mod_two negative size]
      apply h.even (finite negative n) rfl
      · rwa [Ne, toRat_finite_inj]
      · rw [abs_toRat_sub, abs_toRat_sub, heq]
  · intro h
    refine ⟨rfl, ?_, ?_, (abs_lt_iff_lt_tooLarge hu).mpr h.small⟩
    · intro y hy
      obtain ⟨n, hn⟩ := eq_finite_of_isFinite hy
      rw [hn, abs_toRat_sub]
      exact le_trans (div_le_div_of_nonneg_right (h.least n) hpos.le) (le_abs_toRat_sub _ _ n hu)
    · intro y hy hne heq
      obtain ⟨n, hn⟩ := eq_finite_of_isFinite hy
      rw [bits_mod_two]
      rw [hn, abs_toRat_sub] at heq
      by_cases hsize : n = size
      · -- A tie between the two signs of one size is at zero.
        have hsign : y.isNegative = !negative := by
          rw [Bool.eq_not]
          intro hsame
          rw [hsame, hsize] at hn
          exact hne (by rw [hn])
        rw [hsign, hsize, abs_toRat_sub_of_ne _ _ hu, div_left_inj' hpos.ne'] at heq
        have hnothing := h.least .zero
        rw [heq] at hnothing
        rw [Magnitude.eq_zero_of_add_le hu hnothing]
        rfl
      · apply h.even n hsize
        apply le_antisymm (h.least n)
        rw [← div_le_div_iff_of_pos_right hpos, heq]
        exact le_abs_toRat_sub _ _ n hu

end

/-- Numbers of equal value and parity are nearest to the same rationals. -/
theorem IsNearest.congr {x y : Binary64} {q : ℚ} (h : x.IsNearest q) (hfinite : y.isFinite)
    (hvalue : y.toRat = x.toRat) (hparity : y.bits.toNat % 2 = x.bits.toNat % 2) :
    y.IsNearest q where
  isFinite := hfinite
  least z hz := by
    rw [hvalue]
    exact h.least z hz
  even z hz := by
    rw [hvalue, hparity]
    exact h.even z hz
  small := h.small

theorem IsNearest.size {sign negative : Bool} {size : Magnitude} {u : ℚ} (hu : 0 ≤ u)
    (h : IsNearest (.finite sign size) (withSign negative (u / Magnitude.unitsPerOne))) :
    size.IsNearest u := by
  by_cases hsign : sign = negative
  · rw [hsign] at h
    exact (isNearest_finite_iff hu).mp h
  · -- With the other sign it is a zero, and the zero with the sign of the rational is as near.
    obtain rfl : sign = !negative := Bool.eq_not.mpr hsign
    have hpos := Magnitude.unitsPerOne_cast_pos
    have hleast := h.least (.finite negative .zero) rfl
    rw [abs_toRat_sub_of_ne _ _ hu, abs_toRat_sub, div_le_div_iff_of_pos_right hpos] at hleast
    obtain rfl := Magnitude.eq_zero_of_add_le hu hleast
    have hvalue : toRat (.finite negative .zero) = toRat (.finite (!negative) .zero) := by
      rw [toRat, toRat, Magnitude.units_zero, Nat.cast_zero, zero_div, withSign_zero,
        withSign_zero]
    refine (isNearest_finite_iff hu).mp (h.congr rfl hvalue ?_)
    rw [bits_mod_two, bits_mod_two]

theorem exists_withSign (q : ℚ) :
    ∃ negative u, 0 ≤ u ∧ q = withSign negative (u / Magnitude.unitsPerOne) := by
  have hpos := Magnitude.unitsPerOne_cast_pos
  refine ⟨decide (q < 0), |q| * Magnitude.unitsPerOne, mul_nonneg (abs_nonneg q) hpos.le, ?_⟩
  rw [mul_div_cancel_right₀ _ hpos.ne']
  by_cases hq : q < 0
  · rw [decide_eq_true hq, withSign_true, abs_of_neg hq, neg_neg]
  · rw [decide_eq_false hq, withSign_false, abs_of_nonneg (not_lt.mp hq)]

theorem IsNearest.eq {x y : Binary64} {q : ℚ} (hx : x.IsNearest q) (hy : y.IsNearest q)
    (h : x.isNegative = y.isNegative) : x = y := by
  obtain ⟨m, hm⟩ := eq_finite_of_isFinite hx.isFinite
  obtain ⟨n, hn⟩ := eq_finite_of_isFinite hy.isFinite
  obtain ⟨negative, u, hu, rfl⟩ := exists_withSign q
  rw [hm] at hx
  rw [hn] at hy
  rw [hm, hn, h, (hx.size hu).eq hu (hy.size hu)]

end Binary64

end LineCalc
