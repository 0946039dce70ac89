import Mathlib
import LineCalc.Binary64.Round
/-
  Rounding: a quotient goes to the magnitude that is nearest to it

  A quotient of units is compared with the magnitudes as rationals. In steps at the
  exponent of its rounding it is less than one half away from the rounded mantissa, or
  one half and then that mantissa is even. Every other magnitude is a whole number of
  steps as well, or it is below all magnitudes with that exponent, so it is farther off,
  or just as far off and odd. `Magnitude.IsNearest` says what is asked for without saying
  how rounding is done.

  What is proved:
    1. `Magnitude.isSome_round_iff` — only a quotient from `Magnitude.tooLarge` on rounds
       to nothing;
    2. `Magnitude.round_eq_some_iff` — any other one rounds to the nearest magnitude, the
       even one of two, and no other magnitude is the nearest;
    3. `Magnitude.IsNearest.between` — what rounds to one magnitude is an interval.
-/

namespace LineCalc.Magnitude

/-! ## The nearest integer -/

theorem natCast_div_eq (num : Nat) {den : Nat} (hden : 0 < den) :
    (num : ℚ) / den = (num / den : Nat) + ((num % den : Nat) : ℚ) / den := by
  have hne : (den : ℚ) ≠ 0 := by exact_mod_cast hden.ne'
  field_simp
  exact_mod_cast (Nat.div_add_mod num den).symm

/-- The rounded quotient is less than one half off, or it is one half off and even. -/
theorem abs_roundHalfEven_sub (num : Nat) {den : Nat} (hden : 0 < den) :
    |(roundHalfEven num den : ℚ) - num / den| < 1 / 2 ∨
      |(roundHalfEven num den : ℚ) - num / den| = 1 / 2 ∧ roundHalfEven num den % 2 = 0 := by
  have hpos : (0 : ℚ) < den := by exact_mod_cast hden
  have hrest : (0 : ℚ) ≤ ((num % den : Nat) : ℚ) / den := by positivity
  have hlt : ((num % den : Nat) : ℚ) / den < 1 := by
    rw [div_lt_one hpos]
    exact_mod_cast Nat.mod_lt num hden
  rw [natCast_div_eq num hden]
  unfold roundHalfEven
  -- The remainder is below one half of the divisor, above it, or just that half.
  split
  case isTrue hlow =>
    left
    have hhalf : ((num % den : Nat) : ℚ) / den < 1 / 2 := by
      rw [div_lt_div_iff₀ hpos two_pos]
      exact_mod_cast (by omega : num % den * 2 < 1 * den)
    rw [abs_lt]
    constructor <;> linarith
  case isFalse hlow =>
    split
    case isTrue hhigh =>
      left
      have hhalf : 1 / 2 < ((num % den : Nat) : ℚ) / den := by
        rw [div_lt_div_iff₀ two_pos hpos]
        exact_mod_cast (by omega : 1 * den < num % den * 2)
      rw [abs_lt]
      push_cast
      constructor <;> linarith
    case isFalse hhigh =>
      right
      have hhalf : ((num % den : Nat) : ℚ) / den = 1 / 2 := by
        rw [div_eq_div_iff hpos.ne' two_ne_zero]
        exact_mod_cast (by omega : num % den * 2 = 1 * den)
      refine ⟨?_, by omega⟩
      rw [hhalf]
      rcases Nat.mod_two_eq_zero_or_one (num / den) with h | h <;> rw [h, abs_eq one_half_pos.le]
      · right; push_cast; ring
      · left; push_cast; ring

/-- Any other integer is farther off than one that is so near, or it is just as far off and
odd, and the near one is even. -/
theorem nearer_or_tie {k j : Nat} {y : ℚ}
    (hk : |(k : ℚ) - y| < 1 / 2 ∨ |(k : ℚ) - y| = 1 / 2 ∧ k % 2 = 0) (hne : j ≠ k) :
    |(k : ℚ) - y| < |(j : ℚ) - y| ∨
      |(k : ℚ) - y| = |(j : ℚ) - y| ∧ k % 2 = 0 ∧ j % 2 = 1 := by
  have hapart : (1 : ℚ) ≤ |(j : ℚ) - k| := by
    exact_mod_cast Int.one_le_abs (sub_ne_zero.mpr (Nat.cast_injective.ne hne : (j : ℤ) ≠ k))
  have htriangle : |(j : ℚ) - k| ≤ |(j : ℚ) - y| + |(k : ℚ) - y| := by
    rw [abs_sub_comm (k : ℚ) y]
    exact abs_sub_le _ _ _
  rcases hk with hk | ⟨hk, heven⟩
  · left
    linarith
  · rcases lt_or_eq_of_le (by linarith : |(k : ℚ) - y| ≤ |(j : ℚ) - y|) with hlt | heq
    · exact .inl hlt
    · refine .inr ⟨heq, heven, ?_⟩
      have hnext : |(j : ℤ) - k| ≤ 1 := by
        exact_mod_cast (by linarith : |(j : ℚ) - k| ≤ 1)
      rw [abs_le] at hnext
      omega

/-! ## The nearest magnitude -/

theorem units_injective {m n : Magnitude} (h : m.units = n.units) : m = n := by
  have hround := round_units m
  rw [h, round_units n] at hround
  exact (Option.some.inj hround).symm

theorem units_of_round {num den : Nat} {m : Magnitude} (h : round num den = some m) :
    m.units = roundMantissa num den * 2 ^ roundExponent num den ∧
      (roundMantissa num den % 2 = 0 → m.mantissa % 2 = 0) := by
  unfold round at h
  split at h
  · split at h
    · cases h
      exact ⟨rfl, id⟩
    · cases h
  case isFalse hfull =>
    split at h
    · cases h
      have hmantissa : roundMantissa num den = 2 ^ 53 :=
        Nat.le_antisymm (roundMantissa_le num den) (by omega)
      refine ⟨?_, fun _ => (by decide : (2 : Nat) ^ 52 % 2 = 0)⟩
      show 2 ^ 52 * 2 ^ (roundExponent num den + 1) = _
      rw [hmantissa, ← Nat.pow_add, ← Nat.pow_add]
      congr 1
      omega
    · cases h

/-- A magnitude is a whole number of steps at an exponent, an odd one only if this is its
mantissa, or it is below all magnitudes with that exponent. -/
theorem steps_or_below (n : Magnitude) (e : Nat) :
    (∃ j, n.units = j * 2 ^ e ∧ (j % 2 = 1 → n.mantissa % 2 = 1)) ∨
      (e ≠ 0 ∧ n.units < 2 ^ 52 * 2 ^ e) := by
  rcases Nat.lt_or_ge n.exponent e with hlt | hle
  · right
    obtain ⟨more, rfl⟩ : ∃ more, e = n.exponent + 1 + more := ⟨e - (n.exponent + 1), by omega⟩
    refine ⟨by omega, ?_⟩
    calc n.units < 2 ^ 53 * 2 ^ n.exponent :=
          Nat.mul_lt_mul_of_pos_right n.mantissa_lt (Nat.two_pow_pos _)
      _ ≤ 2 ^ 52 * 2 ^ (n.exponent + 1 + more) := by
          rw [← Nat.pow_add, ← Nat.pow_add]
          exact Nat.pow_le_pow_right (by decide) (by omega)
  · left
    obtain ⟨more, hmore⟩ := Nat.exists_eq_add_of_le hle
    refine ⟨n.mantissa * 2 ^ more, ?_, ?_⟩
    · rw [units, hmore, Nat.add_comm, Nat.pow_add, Nat.mul_assoc]
    · intro hodd
      rw [← Nat.odd_iff, Nat.odd_mul] at hodd
      exact Nat.odd_iff.mp hodd.1

theorem le_div_of_roundExponent {num den : Nat} (he : roundExponent num den ≠ 0) :
    ((2 ^ 52 * 2 ^ roundExponent num den : Nat) : ℚ) ≤ num / den := by
  have hquotient := le_quotient he
  rw [Nat.pow_add] at hquotient
  exact le_trans (by exact_mod_cast hquotient) Nat.cast_div_le

theorem abs_roundMantissa_sub (num : Nat) {den : Nat} (hden : 0 < den) :
    |(roundMantissa num den : ℚ) - num / (den * 2 ^ roundExponent num den : Nat)| < 1 / 2 ∨
      |(roundMantissa num den : ℚ) - num / (den * 2 ^ roundExponent num den : Nat)| = 1 / 2 ∧
        roundMantissa num den % 2 = 0 :=
  abs_roundHalfEven_sub num (Nat.mul_pos hden (Nat.two_pow_pos _))

theorem abs_steps_sub (num den j e : Nat) :
    |((j * 2 ^ e : Nat) : ℚ) - num / den| =
      |(j : ℚ) - num / (den * 2 ^ e : Nat)| * (2 ^ e : Nat) := by
  have hstep : (0 : ℚ) < (2 ^ e : Nat) := by exact_mod_cast Nat.two_pow_pos e
  have hsteps : ((j * 2 ^ e : Nat) : ℚ) - num / den =
      ((j : ℚ) - num / (den * 2 ^ e : Nat)) * (2 ^ e : Nat) := by
    rw [sub_mul, Nat.cast_mul, Nat.cast_mul, ← div_div, div_mul_cancel₀ _ hstep.ne']
  rw [hsteps, abs_mul, abs_of_pos hstep]

/-- Any other number of steps is farther from the quotient than the rounded mantissa, or it
is just as far and odd, and the rounded mantissa is even. -/
theorem steps_nearer_or_tie {num den j : Nat} (hden : 0 < den)
    (hne : j ≠ roundMantissa num den) :
    let step := 2 ^ roundExponent num den
    |((roundMantissa num den * step : Nat) : ℚ) - num / den| <
        |((j * step : Nat) : ℚ) - num / den| ∨
      |((roundMantissa num den * step : Nat) : ℚ) - num / den| =
          |((j * step : Nat) : ℚ) - num / den| ∧
        roundMantissa num den % 2 = 0 ∧ j % 2 = 1 := by
  intro step
  have hstep : (0 : ℚ) < step := by exact_mod_cast Nat.two_pow_pos _
  rw [abs_steps_sub, abs_steps_sub]
  rcases nearer_or_tie (abs_roundMantissa_sub num hden) hne with hlt | ⟨heq, hparity⟩
  · exact .inl (mul_lt_mul_of_pos_right hlt hstep)
  · exact .inr ⟨congrArg (· * (step : ℚ)) heq, hparity⟩

theorem abs_sub_lt_abs_sub {x y u : ℚ} (hxy : x < y) (hyu : y ≤ u) : |y - u| < |x - u| := by
  rw [abs_sub_comm x, abs_sub_comm y, abs_of_nonneg (by linarith), abs_of_pos (by linarith)]
  linarith

theorem nearer_or_tie_of_round {num den : Nat} {m n : Magnitude} (hden : 0 < den)
    (h : round num den = some m) (hne : n ≠ m) :
    |(m.units : ℚ) - num / den| < |(n.units : ℚ) - num / den| ∨
      |(m.units : ℚ) - num / den| = |(n.units : ℚ) - num / den| ∧
        m.mantissa % 2 = 0 ∧ n.mantissa % 2 = 1 := by
  obtain ⟨hunits, heven⟩ := units_of_round h
  rcases n.steps_or_below (roundExponent num den) with ⟨j, hj, hodd⟩ | ⟨hexponent, hlow⟩
  · have hjne : j ≠ roundMantissa num den := by
      rintro rfl
      exact hne (units_injective (hj.trans hunits.symm))
    rw [hunits, hj]
    exact (steps_nearer_or_tie hden hjne).imp id fun ⟨heq, hk, hjodd⟩ =>
      ⟨heq, heven hk, hodd hjodd⟩
  · -- The least full mantissa at this exponent is between the two.
    left
    have hfull : |(m.units : ℚ) - num / den| ≤
        |((2 ^ 52 * 2 ^ roundExponent num den : Nat) : ℚ) - num / den| := by
      rw [hunits]
      by_cases heq : 2 ^ 52 = roundMantissa num den
      · rw [heq]
      · exact (steps_nearer_or_tie hden heq).elim le_of_lt fun htie => htie.1.le
    exact lt_of_le_of_lt hfull
      (abs_sub_lt_abs_sub (by exact_mod_cast hlow) (le_div_of_roundExponent hexponent))

/-! ## What is too large -/

/-- The units halfway between the largest magnitude with an exponent, one more than `e`,
and the smallest with the next exponent. -/
def halfway (e : Nat) : Nat := (2 ^ 54 - 1) * 2 ^ e

/-- The least number of units that is too large. -/
def tooLarge : Nat := halfway 2044

theorem roundMantissa_lt_iff {num den : Nat} (hden : 0 < den) :
    roundMantissa num den < 2 ^ 53 ↔
      (num : ℚ) / (den * 2 ^ roundExponent num den : Nat) < 2 ^ 53 - 1 / 2 := by
  have hle := roundMantissa_le num den
  have hcases := abs_roundMantissa_sub num hden
  generalize (num : ℚ) / (den * 2 ^ roundExponent num den : Nat) = y at *
  generalize roundMantissa num den = k at *
  constructor
  · intro hlt
    rcases hcases with hnear | ⟨htie, heven⟩
    · have hk : (k : ℚ) + 1 ≤ 2 ^ 53 := by exact_mod_cast hlt
      have := (abs_lt.mp hnear).1
      linarith
    · have hk : (k : ℚ) + 2 ≤ 2 ^ 53 := by exact_mod_cast (by omega : k + 2 ≤ 2 ^ 53)
      have := (abs_le.mp htie.le).1
      linarith
  · intro hlt
    apply lt_of_le_of_ne hle
    rintro rfl
    have hnear : |((2 ^ 53 : Nat) : ℚ) - y| ≤ 1 / 2 := hcases.elim le_of_lt fun h => h.1.le
    have := (abs_le.mp hnear).2
    push_cast at this
    linarith

theorem lt_halfway_iff {num den : Nat} (hden : 0 < den) (e : Nat) :
    (num : ℚ) / den < halfway e ↔
      roundExponent num den < e + 1 ∨
        roundExponent num den = e + 1 ∧ roundMantissa num den < 2 ^ 53 := by
  have hpos : (0 : ℚ) < den := by exact_mod_cast hden
  -- Only at the exponent itself does the mantissa decide.
  rcases lt_trichotomy (roundExponent num den) (e + 1) with hlt | heq | hgt
  · have hquotient : num / den < halfway e := by
      calc num / den < 2 ^ (53 + roundExponent num den) := quotient_lt num den
        _ ≤ 2 ^ (53 + e) := Nat.pow_le_pow_right (by decide) (by omega)
        _ = 2 ^ 53 * 2 ^ e := Nat.pow_add 2 53 e
        _ ≤ halfway e := Nat.mul_le_mul_right _ (by decide)
    refine iff_of_true ?_ (.inl hlt)
    rw [div_lt_iff₀ hpos]
    exact_mod_cast (Nat.div_lt_iff_lt_mul hden).mp hquotient
  · simp only [heq, lt_irrefl, false_or, true_and]
    have hstep : (0 : ℚ) < (2 ^ (e + 1) : Nat) := by exact_mod_cast Nat.two_pow_pos _
    have hhalf : (2 ^ 53 - 1 / 2) * ((2 ^ (e + 1) : Nat) : ℚ) = halfway e := by
      rw [halfway, Nat.pow_succ]
      push_cast
      ring
    rw [roundMantissa_lt_iff hden, heq, Nat.cast_mul, ← div_div, div_lt_iff₀ hstep, hhalf]
  · refine iff_of_false (not_lt.mpr ?_) (by omega)
    have hle : halfway e ≤ 2 ^ 52 * 2 ^ roundExponent num den := by
      calc halfway e ≤ 2 ^ 54 * 2 ^ e := Nat.mul_le_mul_right _ (by decide)
        _ = 2 ^ (54 + e) := (Nat.pow_add 2 54 e).symm
        _ ≤ 2 ^ (52 + roundExponent num den) := Nat.pow_le_pow_right (by decide) (by omega)
        _ = 2 ^ 52 * 2 ^ roundExponent num den := Nat.pow_add 2 52 _
    exact le_trans (by exact_mod_cast hle) (le_div_of_roundExponent (by omega))

theorem isSome_round_iff {num den : Nat} (hden : 0 < den) :
    (round num den).isSome ↔ (num : ℚ) / den < tooLarge := by
  rw [tooLarge, lt_halfway_iff hden]
  unfold round
  split
  · split
    · simp only [Option.isSome_some, true_iff]
      omega
    · simp only [Option.isSome_none, Bool.false_eq_true, false_iff]
      omega
  · split
    · simp only [Option.isSome_some, true_iff]
      omega
    · simp only [Option.isSome_none, Bool.false_eq_true, false_iff]
      omega

/-! ## Rounding -/

/-- What a rational number of units rounds to: no magnitude is nearer, the last bit is zero
if another one is as near, and it is not too large. -/
structure IsNearest (m : Magnitude) (u : ℚ) : Prop where
  least : ∀ n : Magnitude, |(m.units : ℚ) - u| ≤ |(n.units : ℚ) - u|
  even : ∀ n : Magnitude, n ≠ m → |(m.units : ℚ) - u| = |(n.units : ℚ) - u| → m.mantissa % 2 = 0
  small : u < tooLarge

theorem isNearest_of_round {num den : Nat} {m : Magnitude} (hden : 0 < den)
    (h : round num den = some m) : m.IsNearest (num / den) where
  least n := by
    by_cases hne : n = m
    · rw [hne]
    · exact (nearer_or_tie_of_round hden h hne).elim le_of_lt fun htie => htie.1.le
  even n hne heq := by
    rcases nearer_or_tie_of_round hden h hne with hlt | htie
    · exact absurd heq hlt.ne
    · exact htie.2.1
  small := (isSome_round_iff hden).mp (by rw [h]; rfl)

/-- Rounding takes a quotient to the nearest magnitude, and to no other. -/
theorem round_eq_some_iff {num den : Nat} {m : Magnitude} (hden : 0 < den) :
    round num den = some m ↔ m.IsNearest (num / den) := by
  refine ⟨isNearest_of_round hden, ?_⟩
  intro h
  obtain ⟨n, hn⟩ := Option.isSome_iff_exists.mp ((isSome_round_iff hden).mpr h.small)
  have hmn : m = n := by
    by_contra hne
    rcases nearer_or_tie_of_round hden hn hne with hlt | ⟨heq, -, hodd⟩
    · exact absurd (h.least n) (not_le.mpr hlt)
    · have heven := h.even n (Ne.symm hne) heq.symm
      omega
  rw [hmn, hn]

theorem unitsPerOne_cast_pos : (0 : ℚ) < unitsPerOne := by
  exact_mod_cast unitsPerOne_pos

theorem units_zero : zero.units = 0 := Nat.zero_mul _

theorem isNearest_units_iff {m n : Magnitude} : m.IsNearest n.units ↔ m = n := by
  constructor
  · intro h
    have hzero := h.least n
    rw [sub_self, abs_zero] at hzero
    have heq : (m.units : ℚ) = n.units := sub_eq_zero.mp (abs_nonpos_iff.mp hzero)
    exact units_injective (by exact_mod_cast heq)
  · rintro rfl
    have h := isNearest_of_round Nat.one_pos (round_units m)
    rwa [Nat.cast_one, div_one] at h

theorem abs_sub_le_of_between {a b low u high : ℚ} (hl : |a - low| ≤ |b - low|)
    (hh : |a - high| ≤ |b - high|) (hlu : low ≤ u) (huh : u ≤ high) : |a - u| ≤ |b - u| := by
  rw [← sq_le_sq] at hl hh ⊢
  rcases le_total a b with hab | hba
  · nlinarith [mul_nonneg (sub_nonneg.mpr hab) (sub_nonneg.mpr huh)]
  · nlinarith [mul_nonneg (sub_nonneg.mpr hba) (sub_nonneg.mpr hlu)]

theorem eq_of_abs_sub_eq {a b low u high : ℚ} (hab : a ≠ b) (hl : |a - low| ≤ |b - low|)
    (hh : |a - high| ≤ |b - high|) (hlu : low ≤ u) (huh : u ≤ high) (heq : |a - u| = |b - u|) :
    u = low ∨ u = high := by
  rw [← sq_le_sq] at hl hh
  rw [← sq_eq_sq_iff_abs_eq_abs] at heq
  rcases lt_or_gt_of_ne hab with hlt | hgt
  · right
    by_contra hne
    nlinarith [mul_pos (sub_pos.mpr hlt) (sub_pos.mpr (lt_of_le_of_ne huh hne))]
  · left
    by_contra hne
    nlinarith [mul_pos (sub_pos.mpr hgt) (sub_pos.mpr (lt_of_le_of_ne hlu (Ne.symm hne)))]

/-- What lies between two rationals with the same nearest magnitude has it as well. -/
theorem IsNearest.between {m : Magnitude} {low u high : ℚ} (hl : m.IsNearest low)
    (hh : m.IsNearest high) (hlu : low ≤ u) (huh : u ≤ high) : m.IsNearest u where
  least n := abs_sub_le_of_between (hl.least n) (hh.least n) hlu huh
  even n hne heq := by
    have hunits : (m.units : ℚ) ≠ n.units := by
      intro h
      exact hne (units_injective (by exact_mod_cast h.symm))
    rcases eq_of_abs_sub_eq hunits (hl.least n) (hh.least n) hlu huh heq with rfl | rfl
    · exact hl.even n hne heq
    · exact hh.even n hne heq
  small := lt_of_le_of_lt huh hh.small

theorem IsNearest.eq {m n : Magnitude} {u : ℚ} (hu : 0 ≤ u) (hm : m.IsNearest u)
    (hn : n.IsNearest u) : m = n := by
  have hquotient : u = (u.num.toNat : ℚ) / u.den := by
    have hnum : ((u.num.toNat : ℤ) : ℚ) = u.num := by
      rw [Int.toNat_of_nonneg (Rat.num_nonneg.mpr hu)]
    rw [← Int.cast_natCast, hnum, Rat.num_div_den]
  rw [hquotient] at hm hn
  have hround := (round_eq_some_iff u.den_pos).mpr hm
  rw [(round_eq_some_iff u.den_pos).mpr hn] at hround
  exact (Option.some.inj hround).symm

/-- A magnitude that is no farther with the other sign than nothing is, is nothing. -/
theorem eq_zero_of_add_le {m : Magnitude} {u : ℚ} (hu : 0 ≤ u)
    (h : (m.units : ℚ) + u ≤ |(zero.units : ℚ) - u|) : m = zero := by
  rw [units_zero, Nat.cast_zero, zero_sub, abs_neg, abs_of_nonneg hu] at h
  have hunits : (m.units : ℚ) = 0 := le_antisymm (by linarith) (Nat.cast_nonneg _)
  exact units_injective (by rw [units_zero]; exact_mod_cast hunits)

end LineCalc.Magnitude
