import LineCalc.Proofs.Exactness
import LineCalc.Proofs.Reals
/-
  Quotients: a division of two integers is answered by a real

  Both integers are converted first, which rounds those of more than 53 bits. The
  divisor is then at least one in size and the dividend at most `2 ^ 63`, for both are
  numbers themselves, so the quotient is far from too large and is rounded once. Up to
  `2 ^ 53` nothing is rounded before the division, and a quotient that is an integer is
  not rounded at all.

  What is proved:
    1. `Binary64.exists_toRat_eq` — the integers up to `2 ^ 53` are numbers;
    2. `Binary64.IsNearest.abs_le`, `Binary64.IsNearest.le_abs` — rounding is monotone;
    3. `Binary64.isNearest_ofInt`, `Binary64.abs_ofInt_le`, `Binary64.one_le_abs_ofInt` —
       what a 64-bit integer is converted to;
    4. `Operator.quotient_of_integers` — the answer of the operator.
-/

namespace LineCalc

/-! ## Exact numbers -/

namespace Magnitude

theorem exists_units {k e : Nat} (hk : k < 2 ^ 53) (he : e ≤ 2045) :
    ∃ m : Magnitude, m.units = k * 2 ^ e := by
  induction e generalizing k with
  | zero => exact ⟨⟨k, 0, hk, he, .inl rfl⟩, rfl⟩
  | succ e ih =>
    by_cases hfull : 2 ^ 52 ≤ k
    · exact ⟨⟨k, e + 1, hk, he, .inr hfull⟩, rfl⟩
    · -- The first bit is a zero, so there is room for one more behind the last.
      obtain ⟨m, hm⟩ := ih (k := k * 2) (by omega) (by omega)
      exact ⟨m, by rw [hm, Nat.pow_succ', Nat.mul_assoc]⟩

theorem exists_units_two_pow {k a : Nat} (hk : k = 2 ^ (52 + a)) (ha : a ≤ 971) :
    ∃ m : Magnitude, m.units = k * unitsPerOne := by
  obtain ⟨m, hm⟩ := exists_units (k := 2 ^ 52) (e := a + 1074) (by decide) (by omega)
  refine ⟨m, ?_⟩
  rw [hm, hk, unitsPerOne, Nat.pow_add 2 a, Nat.pow_add 2 52, Nat.mul_assoc]

theorem exists_units_ones {k : Nat} (hk : k ≤ 2 ^ 53) :
    ∃ m : Magnitude, m.units = k * unitsPerOne := by
  rcases Nat.lt_or_eq_of_le hk with hlt | heq
  · rw [unitsPerOne]
    exact exists_units (e := 1074) hlt (by decide)
  · exact exists_units_two_pow (a := 1) heq (by decide)

end Magnitude

namespace Binary64

theorem exists_toRat_eq {n : Int} (h : |n| ≤ 2 ^ 53) :
    ∃ x : Binary64, x.isFinite ∧ x.toRat = n := by
  obtain ⟨size, hsize⟩ := Magnitude.exists_units_ones (k := n.natAbs) (by
    rw [Int.abs_eq_natAbs] at h
    omega)
  refine ⟨finite (decide (n < 0)) size, rfl, ?_⟩
  rw [toRat, hsize, Nat.cast_mul, mul_div_cancel_right₀ _ Magnitude.unitsPerOne_cast_pos.ne',
    withSign_natAbs]

theorem IsNearest.toRat_eq {x y : Binary64} {q : ℚ} (h : x.IsNearest q) (hfinite : y.isFinite)
    (hvalue : y.toRat = q) : x.toRat = q := by
  have hleast := h.least y hfinite
  rw [hvalue, sub_self, abs_zero, abs_nonpos_iff] at hleast
  exact sub_eq_zero.mp hleast

theorem IsNearest.toRat_eq_intCast {x : Binary64} {n : Int} (h : x.IsNearest n)
    (hn : |n| ≤ 2 ^ 53) : x.toRat = n := by
  obtain ⟨y, hfinite, hvalue⟩ := exists_toRat_eq hn
  exact h.toRat_eq hfinite hvalue

/-- Of a number and its opposite one is as far from a rational as their sizes are apart. -/
theorem exists_abs_sub_eq {y : Binary64} (hy : y.isFinite) (q : ℚ) :
    ∃ z : Binary64, z.isFinite ∧ |z.toRat - q| = |(|y.toRat| - |q|)| := by
  have hsame : |y.toRat| = y.toRat ∨ |y.toRat| = y.neg.toRat := by
    rw [toRat_neg]
    exact abs_choice y.toRat
  have hopposite : -|y.toRat| = y.toRat ∨ -|y.toRat| = y.neg.toRat := by
    rw [toRat_neg, neg_eq_iff_eq_neg, neg_inj]
    exact (abs_choice y.toRat).symm
  have hneg : y.neg.isFinite := (isFinite_neg y).trans hy
  rcases le_total 0 q with hq | hq
  · rw [abs_of_nonneg hq]
    rcases hsame with h | h
    · exact ⟨y, hy, by rw [h]⟩
    · exact ⟨y.neg, hneg, by rw [h]⟩
  · rw [abs_of_nonpos hq, ← abs_neg (|y.toRat| - -q), neg_sub, sub_eq_add_neg, add_comm,
      ← sub_eq_add_neg]
    rcases hopposite with h | h
    · exact ⟨y, hy, by rw [h]⟩
    · exact ⟨y.neg, hneg, by rw [h]⟩

/-- A rational that is no larger than a number does not round to a larger one. -/
theorem IsNearest.abs_le {x y : Binary64} {q : ℚ} (h : x.IsNearest q) (hy : y.isFinite)
    (hq : |q| ≤ |y.toRat|) : |x.toRat| ≤ |y.toRat| := by
  obtain ⟨z, hz, hdistance⟩ := exists_abs_sub_eq hy q
  rw [abs_of_nonneg (sub_nonneg.mpr hq)] at hdistance
  have hnear : |x.toRat| - |q| ≤ |y.toRat| - |q| :=
    calc |x.toRat| - |q| ≤ |x.toRat - q| := abs_sub_abs_le_abs_sub _ _
      _ ≤ |z.toRat - q| := h.least z hz
      _ = |y.toRat| - |q| := hdistance
  exact (sub_le_sub_iff_right _).mp hnear

theorem IsNearest.le_abs {x y : Binary64} {q : ℚ} (h : x.IsNearest q) (hy : y.isFinite)
    (hq : |y.toRat| ≤ |q|) : |y.toRat| ≤ |x.toRat| := by
  obtain ⟨z, hz, hdistance⟩ := exists_abs_sub_eq hy q
  rw [abs_of_nonpos (sub_nonpos.mpr hq), neg_sub] at hdistance
  have hnear : |q| - |x.toRat| ≤ |q| - |y.toRat| :=
    calc |q| - |x.toRat| ≤ |q - x.toRat| := abs_sub_abs_le_abs_sub _ _
      _ = |x.toRat - q| := abs_sub_comm _ _
      _ ≤ |z.toRat - q| := h.least z hz
      _ = |q| - |y.toRat| := hdistance
  exact (sub_le_sub_iff_left _).mp hnear

/-! ## Converted integers -/

theorem isRounded_ofInt (n : Int) : (ofInt n).IsRounded (decide (n < 0)) n := by
  have hvalue : withSign (decide (n < 0))
      (((n.natAbs * Magnitude.unitsPerOne : Nat) : ℚ) / (1 : Nat) / Magnitude.unitsPerOne) = n := by
    rw [Nat.cast_one, div_one, Nat.cast_mul,
      mul_div_cancel_right₀ _ Magnitude.unitsPerOne_cast_pos.ne', withSign_natAbs]
  rw [← hvalue]
  exact isRounded_ofRounded _ Nat.one_pos

theorem two_pow_lt_largest {k : Nat} (h : k ≤ 970) : (2 : ℚ) ^ k < 2 ^ 1024 - 2 ^ 970 := by
  rw [lt_sub_iff_add_lt]
  calc (2 : ℚ) ^ k + 2 ^ 970 ≤ 2 ^ 970 + 2 ^ 970 :=
        add_le_add_left (pow_le_pow_right₀ one_le_two h) _
    _ = 2 ^ (970 + 1) := by rw [← mul_two, ← pow_succ]
    _ < 2 ^ 1024 := pow_lt_pow_right₀ one_lt_two (by decide)

theorem abs_le_of_inRange {n : Int} (h : InRange n) : |(n : ℚ)| ≤ 2 ^ 63 := by
  have hsize : |n| ≤ 2 ^ 63 := abs_le.mpr ⟨h.1, h.2.le⟩
  exact_mod_cast hsize

/-- A 64-bit integer is converted to the nearest number. -/
theorem isNearest_ofInt {n : Int} (h : InRange n) : (ofInt n).IsNearest n :=
  (isRounded_ofInt n).nearest
    (lt_of_le_of_lt (abs_le_of_inRange h) (two_pow_lt_largest (by decide)))

theorem abs_ofInt_le {n : Int} (h : InRange n) : |(ofInt n).toRat| ≤ 2 ^ 63 := by
  obtain ⟨top, htop⟩ : ∃ m : Magnitude, m.units = 2 ^ 63 * Magnitude.unitsPerOne :=
    Magnitude.exists_units_two_pow (a := 11) rfl (by decide)
  have hvalue : |(finite false top).toRat| = 2 ^ 63 := by
    rw [toRat, withSign_false, htop, Nat.cast_mul,
      mul_div_cancel_right₀ _ Magnitude.unitsPerOne_cast_pos.ne', Nat.abs_cast]
    norm_num
  rw [← hvalue]
  apply (isNearest_ofInt h).abs_le rfl
  rw [hvalue]
  exact abs_le_of_inRange h

theorem one_le_abs_ofInt {n : Int} (h : InRange n) (hne : n ≠ 0) : 1 ≤ |(ofInt n).toRat| := by
  obtain ⟨one, hfinite, hone⟩ := exists_toRat_eq (n := 1) (by decide)
  have hvalue : |one.toRat| = 1 := by rw [hone, Int.cast_one, abs_one]
  rw [← hvalue]
  apply (isNearest_ofInt h).le_abs hfinite
  rw [hvalue]
  exact_mod_cast Int.one_le_abs hne

end Binary64

/-! ## Quotients of integers -/

/-- A division of two integers, the divisor not zero, is answered by one real, wherever the
operator stands. It is the number nearest to the quotient of the numbers that are nearest
to the integers, with a minus sign if just one of them is negative. Where neither integer
is beyond `2 ^ 53` in size these are the integers themselves, and a quotient that is an
integer is exact. -/
theorem Operator.quotient_of_integers (a b : Int64) (hb : b ≠ 0) :
    ∃ q : Binary64,
      (∀ position, div.apply (.integer a) (.integer b) position = .ok (.real q)) ∧
      (Value.integer a).asReal.IsNearest a.toInt ∧
      (Value.integer b).asReal.IsNearest b.toInt ∧
      q.isNegative = (decide (a.toInt < 0) != decide (b.toInt < 0)) ∧
      q.IsNearest ((Value.integer a).asReal.toRat / (Value.integer b).asReal.toRat) ∧
      (|a.toInt| ≤ 2 ^ 53 → |b.toInt| ≤ 2 ^ 53 →
        q.IsNearest ((a.toInt : ℚ) / b.toInt) ∧
          (b.toInt ∣ a.toInt → q.toRat = (a.toInt : ℚ) / b.toInt)) := by
  have hne : b.toInt ≠ 0 := fun h => hb (Int64.toInt_inj.mp h)
  have hdividend := Binary64.isNearest_ofInt (inRange_toInt a)
  have hdivisor := Binary64.isNearest_ofInt (inRange_toInt b)
  have hzero : (Value.integer b).isZero = false := decide_eq_false hb
  have hrounded := Binary64.isRounded_div hdividend.isFinite hdivisor.isFinite
    ((Value.integer b).isZero_asReal.trans hzero)
  rw [(Binary64.isRounded_ofInt _).isNegative, (Binary64.isRounded_ofInt _).isNegative] at hrounded
  -- The dividend is at most `2 ^ 63` in size and the divisor at least one.
  have hsmall : |(Binary64.ofInt a.toInt).toRat / (Binary64.ofInt b.toInt).toRat| ≤ 2 ^ 63 := by
    rw [abs_div]
    exact le_trans
      (div_le_self (abs_nonneg _) (Binary64.one_le_abs_ofInt (inRange_toInt b) hne))
      (Binary64.abs_ofInt_le (inRange_toInt a))
  have hquotient := hrounded.nearest
    (lt_of_le_of_lt hsmall (Binary64.two_pow_lt_largest (by decide)))
  refine ⟨_, ?_, hdividend, hdivisor, hrounded.isNegative, hquotient, ?_⟩
  · intro position
    have hdivide : div.apply (.integer a) (.integer b) position = _ :=
      Value.divide_of_not_isZero hzero position
    rw [hdivide]
    exact if_pos hquotient.isFinite
  · intro ha hb'
    rw [hdividend.toRat_eq_intCast ha, hdivisor.toRat_eq_intCast hb'] at hquotient
    refine ⟨hquotient, ?_⟩
    rintro ⟨c, hc⟩
    have hexact : (a.toInt : ℚ) / b.toInt = (c : Int) := by
      rw [hc, Int.cast_mul, mul_div_cancel_left₀ _ (by exact_mod_cast hne)]
    have hbound : |c| ≤ 2 ^ 53 :=
      calc |c| ≤ |b.toInt| * |c| := le_mul_of_one_le_left (abs_nonneg c) (Int.one_le_abs hne)
        _ = |a.toInt| := by rw [hc, abs_mul]
        _ ≤ 2 ^ 53 := ha
    rw [hexact] at hquotient ⊢
    exact hquotient.toRat_eq_intCast hbound

/-- The first integer of 54 bits, negative, is converted and divided without rounding. -/
theorem Operator.quotient_of_integers_of_power :
    (1024 : Int64) ≠ 0 ∧ |(-9007199254740992 : Int64).toInt| ≤ 2 ^ 53 ∧
      |(1024 : Int64).toInt| ≤ 2 ^ 53 ∧
      (1024 : Int64).toInt ∣ (-9007199254740992 : Int64).toInt ∧
      ∃ q : Binary64,
        (∀ position, div.apply (.integer (-9007199254740992)) (.integer 1024) position =
          .ok (.real q)) ∧
        q.isNegative ∧ q.toRat = -8796093022208 := by
  have hne : (1024 : Int64) ≠ 0 := by decide
  have hdividend : |(-9007199254740992 : Int64).toInt| ≤ 2 ^ 53 := by decide
  have hdivisor : |(1024 : Int64).toInt| ≤ 2 ^ 53 := by decide
  have hdvd : (1024 : Int64).toInt ∣ (-9007199254740992 : Int64).toInt := by decide
  obtain ⟨q, hanswer, -, -, hsign, -, hsmall⟩ :=
    quotient_of_integers (-9007199254740992) 1024 hne
  have htoInt : (-9007199254740992 : Int64).toInt = -9007199254740992 := by decide
  have htoInt' : (1024 : Int64).toInt = 1024 := by decide
  refine ⟨hne, hdividend, hdivisor, hdvd, q, hanswer, hsign, ?_⟩
  rw [(hsmall hdividend hdivisor).2 hdvd, htoInt, htoInt']
  norm_num

end LineCalc
