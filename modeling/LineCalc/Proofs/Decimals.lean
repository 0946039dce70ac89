import LineCalc.Binary64.Decimal
import LineCalc.Proofs.Rounding
/-
  Decimals: the decimal that a magnitude is printed as

  A decimal fraction is rounded like any other quotient, so it reads back as a magnitude
  exactly if the magnitude is the nearest one. The two decimals with so many places next
  to a magnitude are on both sides of it, and what rounds to it is an interval. So if any
  decimal with so many places reads back, one of these two does, and trying one number
  of places after the other finds the fewest. With 1074 places every magnitude is exact.

  What is proved:
    1. `Magnitude.round_decimal` — the printed decimal reads back;
    2. `Magnitude.places_decimal` — no decimal with fewer places does;
    3. `Magnitude.decimal_of_units_eq` — a whole magnitude is printed exactly.
-/

namespace LineCalc

namespace Decimal

/-- The exact value of a decimal fraction. -/
def toRat (d : Decimal) : ℚ := d.digits / 10 ^ d.places

/-- A decimal fraction reads back as the magnitude that is nearest to it. -/
theorem round_eq_some_iff {d : Decimal} {m : Magnitude} :
    d.round = some m ↔ m.IsNearest (d.toRat * Magnitude.unitsPerOne) := by
  have hvalue : d.toRat * Magnitude.unitsPerOne =
      ((d.digits * Magnitude.unitsPerOne : Nat) : ℚ) / (10 ^ d.places : Nat) := by
    rw [toRat, Nat.cast_mul, Nat.cast_pow, Nat.cast_ofNat, div_mul_eq_mul_div]
  rw [round, Magnitude.round_eq_some_iff (Nat.pow_pos (by decide)), hvalue]

theorem round_of_exact {d : Decimal} {m : Magnitude}
    (h : d.toRat * Magnitude.unitsPerOne = m.units) : d.round = some m := by
  rw [round_eq_some_iff, h]
  exact Magnitude.isNearest_units_iff.mpr rfl

end Decimal

namespace Magnitude
variable {m : Magnitude}

/-! ## The two neighbours -/

theorem toRat_floorAt_le (m : Magnitude) (places : Nat) :
    (m.floorAt places).toRat * unitsPerOne ≤ m.units := by
  have hpower : (0 : ℚ) < 10 ^ places := by positivity
  have hdiv : m.units * 10 ^ places / unitsPerOne * unitsPerOne ≤ m.units * 10 ^ places :=
    Nat.div_mul_le_self _ _
  rw [floorAt, Decimal.toRat, div_mul_eq_mul_div, div_le_iff₀ hpower]
  exact_mod_cast hdiv

theorem lt_toRat_ceilAt (m : Magnitude) (places : Nat) :
    m.units < (m.ceilAt places).toRat * unitsPerOne := by
  have hpower : (0 : ℚ) < 10 ^ places := by positivity
  have hdiv : m.units * 10 ^ places <
      (m.units * 10 ^ places / unitsPerOne + 1) * unitsPerOne :=
    (Nat.div_lt_iff_lt_mul unitsPerOne_pos).mp (Nat.lt_succ_self _)
  rw [ceilAt, Decimal.toRat, div_mul_eq_mul_div, lt_div_iff₀ hpower]
  exact_mod_cast hdiv

theorem toRat_le_or_ge (m : Magnitude) (d : Decimal) :
    d.toRat ≤ (m.floorAt d.places).toRat ∨ (m.ceilAt d.places).toRat ≤ d.toRat := by
  have hpower : (0 : ℚ) < 10 ^ d.places := by positivity
  rcases Nat.lt_or_ge (m.units * 10 ^ d.places / unitsPerOne) d.digits with hlt | hle
  · right
    exact div_le_div_of_nonneg_right (by exact_mod_cast hlt) hpower.le
  · left
    exact div_le_div_of_nonneg_right (by exact_mod_cast hle) hpower.le

/-- If a decimal reads back, so does one of the two neighbours with as many places. -/
theorem round_floorAt_or_ceilAt {d : Decimal} (h : d.round = some m) :
    (m.floorAt d.places).round = some m ∨ (m.ceilAt d.places).round = some m := by
  rw [Decimal.round_eq_some_iff] at h ⊢
  rw [Decimal.round_eq_some_iff]
  have hself : m.IsNearest m.units := isNearest_units_iff.mpr rfl
  have hunits := unitsPerOne_cast_pos.le
  rcases m.toRat_le_or_ge d with hle | hge
  · exact .inl (h.between hself (mul_le_mul_of_nonneg_right hle hunits)
      (m.toRat_floorAt_le d.places))
  · exact .inr (hself.between h (m.lt_toRat_ceilAt d.places).le
      (mul_le_mul_of_nonneg_right hge hunits))

theorem decimalAt?_eq_some {places : Nat} {d : Decimal} (h : m.decimalAt? places = some d) :
    d.round = some m ∧ d.places = places := by
  unfold decimalAt? at h
  dsimp only at h
  by_cases hlow : (m.floorAt places).round = some m
  · rw [if_pos hlow] at h
    by_cases hhigh : (m.ceilAt places).round = some m
    · rw [if_pos hhigh, Option.some.injEq] at h
      by_cases hnearer : m.floorIsNearer places
      · rw [if_pos hnearer] at h
        exact h ▸ ⟨hlow, rfl⟩
      · rw [if_neg hnearer] at h
        exact h ▸ ⟨hhigh, rfl⟩
    · rw [if_neg hhigh, Option.some.injEq] at h
      exact h ▸ ⟨hlow, rfl⟩
  · rw [if_neg hlow] at h
    by_cases hhigh : (m.ceilAt places).round = some m
    · rw [if_pos hhigh, Option.some.injEq] at h
      exact h ▸ ⟨hhigh, rfl⟩
    · rw [if_neg hhigh] at h
      cases h

theorem round_ne_of_decimalAt?_eq_none {d : Decimal} (h : m.decimalAt? d.places = none) :
    d.round ≠ some m := by
  intro hround
  unfold decimalAt? at h
  rcases round_floorAt_or_ceilAt hround with hlow | hhigh
  · simp only [hlow, if_true] at h
    split at h <;> cases h
  · simp only [hhigh, if_true] at h
    split at h <;> cases h

/-! ## Trying the places -/

theorem two_pow_dvd_ten_pow (n : Nat) : 2 ^ n ∣ 10 ^ n :=
  ⟨5 ^ n, Nat.mul_pow 2 5 n⟩

theorem unitsPerOne_dvd : unitsPerOne ∣ 10 ^ 1074 := by
  rw [unitsPerOne]
  exact two_pow_dvd_ten_pow 1074

theorem toRat_floorAt_exact {places : Nat} (h : unitsPerOne ∣ 10 ^ places) (m : Magnitude) :
    (m.floorAt places).toRat * unitsPerOne = m.units := by
  have hpower : (0 : ℚ) < 10 ^ places := by positivity
  have hdiv : m.units * 10 ^ places / unitsPerOne * unitsPerOne = m.units * 10 ^ places :=
    Nat.div_mul_cancel (h.mul_left _)
  rw [floorAt, Decimal.toRat, div_mul_eq_mul_div, div_eq_iff hpower.ne']
  exact_mod_cast hdiv

/-- The shortest decimal is found with a number of places, or it has 1074. With fewer
places none is found. -/
theorem shortest_cases (m : Magnitude) :
    ∃ places, 0 < places ∧ (∀ p, 0 < p → p < places → m.decimalAt? p = none) ∧
      (m.decimalAt? places = some m.shortest ∨ places = 1074 ∧ m.shortest = m.floorAt 1074) := by
  unfold shortest
  cases hfound : (List.range' 1 1073).findSome? m.decimalAt? with
  | some d =>
    obtain ⟨before, places, after, hsplit, hplaces, hbefore⟩ := List.findSome?_eq_some_iff.mp hfound
    have hsorted : (before ++ places :: after).Pairwise (· < ·) :=
      hsplit ▸ List.pairwise_lt_range'
    have hmem (p : Nat) : p ∈ before ++ places :: after ↔ 1 ≤ p ∧ p < 1 + 1073 := by
      rw [← hsplit, List.mem_range'_1]
    have hrange := (hmem places).mp (by simp)
    refine ⟨places, hrange.1, ?_, .inl hplaces⟩
    intro p hpos hlt
    apply hbefore
    -- What is not before this number of places is not less than it.
    have hafter := (List.pairwise_append.mp hsorted).2.1
    rcases List.mem_append.mp ((hmem p).mpr (by omega)) with hp | hp
    · exact hp
    · rcases List.mem_cons.mp hp with rfl | hp
      · exact absurd hlt (Nat.lt_irrefl p)
      · exact absurd ((List.pairwise_cons.mp hafter).1 p hp) (Nat.lt_asymm hlt)
  | none =>
    refine ⟨1074, by decide, ?_, .inr ⟨rfl, rfl⟩⟩
    intro p hpos hlt
    exact List.findSome?_eq_none_iff.mp hfound p (List.mem_range'_1.mpr (by omega))

theorem round_shortest (m : Magnitude) : m.shortest.round = some m := by
  obtain ⟨places, -, -, hfound | ⟨-, hlast⟩⟩ := m.shortest_cases
  · exact (decimalAt?_eq_some hfound).1
  · rw [hlast]
    exact Decimal.round_of_exact (toRat_floorAt_exact unitsPerOne_dvd m)

theorem places_shortest (m : Magnitude) :
    0 < m.shortest.places ∧
      ∀ d : Decimal, d.round = some m → 0 < d.places → m.shortest.places ≤ d.places := by
  obtain ⟨places, hpos, hnone, hshortest⟩ := m.shortest_cases
  have hplaces : m.shortest.places = places := by
    rcases hshortest with hfound | ⟨hlast, hfloor⟩
    · exact (decimalAt?_eq_some hfound).2
    · rw [hfloor, hlast]
      rfl
  rw [hplaces]
  refine ⟨hpos, ?_⟩
  intro d hround hd
  apply Nat.le_of_not_lt
  intro hlt
  exact round_ne_of_decimalAt?_eq_none (hnone d.places hd hlt) hround

/-! ## The printed decimal -/

theorem decimal_of_units_eq {n : Nat} (h : m.units = n * unitsPerOne) :
    m.decimal = ⟨n * 10, 1⟩ := by
  rw [decimal, h, Nat.mul_mod_left, if_pos rfl, Nat.mul_div_cancel _ unitsPerOne_pos]

theorem round_decimal (m : Magnitude) : m.decimal.round = some m := by
  by_cases hwhole : m.units % unitsPerOne = 0
  · obtain ⟨n, hn⟩ := Nat.dvd_of_mod_eq_zero hwhole
    rw [Nat.mul_comm] at hn
    rw [decimal_of_units_eq hn]
    apply Decimal.round_of_exact
    rw [Decimal.toRat, hn]
    push_cast
    ring
  · rw [decimal, if_neg hwhole]
    exact m.round_shortest

/-- The printed decimal has places, and of all that read back it has the fewest. -/
theorem places_decimal (m : Magnitude) :
    0 < m.decimal.places ∧
      ∀ d : Decimal, d.round = some m → 0 < d.places → m.decimal.places ≤ d.places := by
  unfold decimal
  split
  · exact ⟨Nat.one_pos, fun d _ hpos => hpos⟩
  · exact m.places_shortest

end Magnitude

end LineCalc
