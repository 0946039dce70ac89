import LineCalc.Proofs.Nearest
/-
  Arithmetic: an operation on finite numbers is its exact result, rounded once

  A sum of finite numbers is a sum of units, a product and a quotient of them are one
  fraction of units. Each is rounded with the sign of its operands, which decides the
  sign of a result that is or becomes zero. `Binary64.IsRounded` is what the format asks
  for: the nearest number with that sign, or infinity from where there is none.

  What is proved:
    1. `Binary64.isRounded_add`, `Binary64.isRounded_sub`, `Binary64.isRounded_mul`,
       `Binary64.isRounded_div` — each operation on finite numbers;
    2. `Binary64.IsRounded.isFinite_iff` — which of their results are finite;
    3. `Binary64.isFinite_of_add`, `Binary64.isFinite_of_sub`, `Binary64.isFinite_of_mul`,
       `Binary64.isFinite_of_div` — of other operands only a quotient is finite.
-/

namespace LineCalc

theorem withSign_natAbs (n : Int) : withSign (decide (n < 0)) (n.natAbs : ℚ) = n := by
  by_cases hn : n < 0
  · rw [decide_eq_true hn, withSign_true, Nat.cast_natAbs, abs_of_neg hn, Int.cast_neg, neg_neg]
  · rw [decide_eq_false hn, withSign_false, Nat.cast_natAbs, abs_of_nonneg (by omega)]

theorem withSign_not (negative : Bool) (q : ℚ) : withSign (!negative) q = -withSign negative q := by
  cases negative with
  | false => rfl
  | true => exact (neg_neg q).symm

theorem withSign_mul (s t : Bool) (a b : ℚ) :
    withSign s a * withSign t b = withSign (s != t) (a * b) := by
  cases s <;> cases t <;> simp

theorem withSign_div (s t : Bool) (a b : ℚ) :
    withSign s a / withSign t b = withSign (s != t) (a / b) := by
  cases s <;> cases t <;> simp [neg_div, div_neg]

theorem withSign_div_right (negative : Bool) (a b : ℚ) :
    withSign negative a / b = withSign negative (a / b) := by
  cases negative <;> simp [neg_div]

namespace Binary64

/-- What a rational rounds to with a sign: the nearest number, or an infinite one from the
halfway point behind the largest number on. -/
structure IsRounded (r : Binary64) (negative : Bool) (q : ℚ) : Prop where
  isNegative : r.isNegative = negative
  nearest : |q| < 2 ^ 1024 - 2 ^ 970 → r.IsNearest q
  tooLarge : 2 ^ 1024 - 2 ^ 970 ≤ |q| → r = infinite negative

theorem IsRounded.isFinite_iff {r : Binary64} {negative : Bool} {q : ℚ}
    (h : r.IsRounded negative q) : r.isFinite ↔ |q| < 2 ^ 1024 - 2 ^ 970 := by
  constructor
  · intro hfinite
    by_contra hlarge
    rw [h.tooLarge (not_lt.mp hlarge)] at hfinite
    cases hfinite
  · exact fun hsmall => (h.nearest hsmall).isFinite

/-- A fraction of units that is rounded behind a sign. -/
theorem isRounded_ofRounded {num den : Nat} (negative : Bool) (hden : 0 < den) :
    (ofRounded negative (Magnitude.round num den)).IsRounded negative
      (withSign negative (num / den / Magnitude.unitsPerOne)) := by
  have hquotient : (0 : ℚ) ≤ num / den := div_nonneg (Nat.cast_nonneg num) (Nat.cast_nonneg den)
  have hsmall : |withSign negative ((num : ℚ) / den / Magnitude.unitsPerOne)| <
      2 ^ 1024 - 2 ^ 970 ↔ (Magnitude.round num den).isSome := by
    rw [abs_lt_iff_lt_tooLarge hquotient, Magnitude.isSome_round_iff hden]
  refine ⟨?_, ?_, ?_⟩
  · cases Magnitude.round num den <;> rfl
  · intro h
    obtain ⟨size, hround⟩ := Option.isSome_iff_exists.mp (hsmall.mp h)
    rw [hround]
    exact (isNearest_finite_iff hquotient).mpr ((Magnitude.round_eq_some_iff hden).mp hround)
  · intro h
    have hnone : Magnitude.round num den = none := by
      rw [← Option.not_isSome_iff_eq_none, ← hsmall]
      exact not_lt.mpr h
    rw [hnone]
    rfl

/-! ## Sums -/

/-- The sign of a sum: an exact zero has that of its parts only if both have it. -/
def signOfSum (both : Bool) (sum : ℚ) : Bool := if sum = 0 then both else sum < 0

theorem toRat_eq_signed (negative : Bool) (size : Magnitude) :
    (finite negative size).toRat = signed negative size.units / Magnitude.unitsPerOne := by
  cases negative with
  | false => rfl
  | true => rw [toRat, signed, if_pos rfl, withSign_true, Int.cast_neg, neg_div, Int.cast_natCast]

theorem isRounded_ofSum (both : Bool) (n : Int) :
    (ofSum both n).IsRounded (signOfSum both (n / Magnitude.unitsPerOne))
      (n / Magnitude.unitsPerOne) := by
  have hpos := Magnitude.unitsPerOne_cast_pos
  by_cases hn : n = 0
  · have hzero : (zero both).IsNearest (withSign both (0 / Magnitude.unitsPerOne)) :=
      (isNearest_finite_iff (le_refl 0)).mpr (by
        have hself := Magnitude.isNearest_units_iff.mpr (Eq.refl Magnitude.zero)
        rwa [Magnitude.units_zero, Nat.cast_zero] at hself)
    rw [zero_div, withSign_zero] at hzero
    rw [hn, Int.cast_zero, zero_div, signOfSum, if_pos rfl, ofSum, if_pos rfl]
    exact ⟨rfl, fun _ => hzero, fun hlarge => absurd hzero.small (not_lt.mpr hlarge)⟩
  · have hvalue : withSign (decide (n < 0))
        ((n.natAbs : ℚ) / (1 : Nat) / Magnitude.unitsPerOne) = n / Magnitude.unitsPerOne := by
      rw [Nat.cast_one, div_one, ← withSign_div_right, withSign_natAbs]
    have hsign : signOfSum both (n / Magnitude.unitsPerOne) = decide (n < 0) := by
      rw [signOfSum, if_neg (div_ne_zero (by exact_mod_cast hn) hpos.ne'), decide_eq_decide,
        div_lt_iff₀ hpos, zero_mul, Int.cast_lt_zero]
    rw [hsign, ← hvalue, ofSum, if_neg hn]
    exact isRounded_ofRounded _ Nat.one_pos

variable {x y : Binary64}

theorem exists_finite (h : x.isFinite) : ∃ negative size, x = finite negative size :=
  ⟨x.isNegative, eq_finite_of_isFinite h⟩

theorem isRounded_add (hx : x.isFinite) (hy : y.isFinite) :
    (x.add y).IsRounded (signOfSum (x.isNegative && y.isNegative) (x.toRat + y.toRat))
      (x.toRat + y.toRat) := by
  obtain ⟨s, size, rfl⟩ := exists_finite hx
  obtain ⟨t, other, rfl⟩ := exists_finite hy
  rw [toRat_eq_signed, toRat_eq_signed, ← add_div, ← Int.cast_add]
  exact isRounded_ofSum (s && t) _

theorem isFinite_neg (y : Binary64) : y.neg.isFinite = y.isFinite := by
  cases y <;> rfl

theorem toRat_neg (y : Binary64) : y.neg.toRat = -y.toRat := by
  cases y with
  | finite negative size => rw [neg, toRat, toRat, withSign_not]
  | infinite negative => exact neg_zero.symm
  | nan => exact neg_zero.symm

theorem isNegative_neg (hy : y.isFinite) : y.neg.isNegative = !y.isNegative := by
  cases y with
  | finite negative size => rfl
  | infinite negative => cases hy
  | nan => cases hy

theorem isRounded_sub (hx : x.isFinite) (hy : y.isFinite) :
    (x.sub y).IsRounded (signOfSum (x.isNegative && !y.isNegative) (x.toRat - y.toRat))
      (x.toRat - y.toRat) := by
  have hsum := isRounded_add hx ((isFinite_neg y).trans hy)
  rwa [toRat_neg, isNegative_neg hy, ← sub_eq_add_neg] at hsum

/-! ## Products and quotients -/

theorem isRounded_mul (hx : x.isFinite) (hy : y.isFinite) :
    (x.mul y).IsRounded (x.isNegative != y.isNegative) (x.toRat * y.toRat) := by
  obtain ⟨s, size, rfl⟩ := exists_finite hx
  obtain ⟨t, other, rfl⟩ := exists_finite hy
  have hvalue : (finite s size).toRat * (finite t other).toRat = withSign (s != t)
      (((size.units * other.units : Nat) : ℚ) / Magnitude.unitsPerOne / Magnitude.unitsPerOne) := by
    rw [toRat, toRat, withSign_mul, div_mul_div_comm, div_div, Nat.cast_mul]
  have hmul : (finite s size).mul (finite t other) =
      ofRounded (s != t) (Magnitude.round (size.units * other.units) Magnitude.unitsPerOne) := rfl
  rw [hmul, hvalue]
  exact isRounded_ofRounded _ Magnitude.unitsPerOne_pos

/-- The quotient of two finite numbers, the divisor no zero. -/
theorem isRounded_div (hx : x.isFinite) (hy : y.isFinite) (hzero : y.isZero = false) :
    (x.div y).IsRounded (x.isNegative != y.isNegative) (x.toRat / y.toRat) := by
  obtain ⟨s, size, rfl⟩ := exists_finite hx
  obtain ⟨t, other, rfl⟩ := exists_finite hy
  have hmantissa : other.mantissa ≠ 0 := of_decide_eq_false hzero
  have hunits : 0 < other.units :=
    Nat.mul_pos (Nat.pos_of_ne_zero hmantissa) (Nat.two_pow_pos _)
  have hdiv : (finite s size).div (finite t other) =
      ofRounded (s != t) (Magnitude.round (size.units * Magnitude.unitsPerOne) other.units) :=
    if_neg hmantissa
  have hvalue : (finite s size).toRat / (finite t other).toRat = withSign (s != t)
      (((size.units * Magnitude.unitsPerOne : Nat) : ℚ) / other.units / Magnitude.unitsPerOne) := by
    have hpos := Magnitude.unitsPerOne_cast_pos
    rw [toRat, toRat, withSign_div, div_div_div_cancel_right₀ hpos.ne', Nat.cast_mul,
      div_right_comm, mul_div_cancel_right₀ _ hpos.ne']
  rw [hdiv, hvalue]
  exact isRounded_ofRounded _ hunits

/-! ## Operands that are not finite -/

theorem isFinite_of_add (h : (x.add y).isFinite) : x.isFinite ∧ y.isFinite := by
  cases x with
  | nan => cases h
  | finite s size =>
    cases y with
    | finite t other => exact ⟨rfl, rfl⟩
    | infinite t => cases h
    | nan => cases h
  | infinite s =>
    cases y with
    | finite t other => cases h
    | infinite t => cases s <;> cases t <;> cases h
    | nan => cases h

theorem isFinite_of_sub (h : (x.sub y).isFinite) : x.isFinite ∧ y.isFinite := by
  obtain ⟨hx, hy⟩ := isFinite_of_add h
  exact ⟨hx, (isFinite_neg y).symm.trans hy⟩

theorem isFinite_of_mul (h : (x.mul y).isFinite) : x.isFinite ∧ y.isFinite := by
  cases x with
  | nan => cases h
  | finite s size =>
    cases y with
    | finite t other => exact ⟨rfl, rfl⟩
    | infinite t =>
      simp only [mul] at h
      split at h <;> cases h
    | nan => cases h
  | infinite s =>
    cases y with
    | finite t other =>
      simp only [mul] at h
      split at h <;> cases h
    | infinite t => cases h
    | nan => cases h

/-- A finite quotient has a finite dividend. Its divisor may be infinite. -/
theorem isFinite_of_div (h : (x.div y).isFinite) :
    x.isFinite ∧ (y.isFinite ∨ ∃ t, y = infinite t) := by
  cases x with
  | nan => cases h
  | finite s size =>
    cases y with
    | finite t other => exact ⟨rfl, .inl rfl⟩
    | infinite t => exact ⟨rfl, .inr ⟨t, rfl⟩⟩
    | nan => cases h
  | infinite s =>
    cases y with
    | finite t other => cases h
    | infinite t => cases h
    | nan => cases h

end Binary64

end LineCalc
