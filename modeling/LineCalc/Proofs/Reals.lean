import LineCalc.Proofs.Arithmetic
import LineCalc.Proofs.Pointing
/-
  Reals: an operation with a real operand, and every division, is one of reals

  An operation answers on one of three paths: a division, an operation on two
  integers, and one on reals. There are two tests for a zero divisor, one of the
  value before it is converted and one of the real that it is converted to, and
  two places where a division of integers could be answered. `Operator.Rounds` is
  what the result on reals is, apart from how it is computed.

  What is proved:
    1. `Binary64.isZero_ofInt` — no integer but zero is converted to a zero, so
       the two tests agree (`Value.isZero_asReal`);
    2. `Operator.apply_asReal` — converting both operands beforehand changes
       nothing where the operation is one of reals;
    3. `Operator.rounds_onReals` — the result on finite reals is the exact one, rounded;
    4. `Operator.applyWith_congr` — the second test and the second place may
       answer anything: they never decide.
-/

namespace LineCalc

/-! ## Zeros -/

theorem Magnitude.mantissa_ne_zero_of_round {num den : Nat} {m : Magnitude} (hden : 0 < den)
    (hle : den ≤ num) (h : round num den = some m) : m.mantissa ≠ 0 := by
  have hone : 1 ≤ roundMantissa num den := by
    -- With exponent zero the mantissa is no less than the quotient, and otherwise it is full.
    rcases roundMantissa_full num den with hexponent | hfull
    · have hquotient : 1 ≤ num / den := (Nat.le_div_iff_mul_le hden).mpr (by omega)
      have hrounded := le_roundHalfEven num den
      rw [roundMantissa, hexponent, Nat.pow_zero, Nat.mul_one]
      omega
    · omega
  unfold round at h
  split at h
  · split at h
    · cases h
      exact Nat.ne_of_gt hone
    · cases h
  · split at h
    · cases h
      show (2 : Nat) ^ 52 ≠ 0
      decide
    · cases h

theorem Binary64.isZero_ofInt (n : Int) : (ofInt n).isZero = decide (n = 0) := by
  by_cases hn : n = 0
  · subst hn
    have hround : Magnitude.round ((0 : Int).natAbs * Magnitude.unitsPerOne) 1 = some .zero := by
      simpa [Magnitude.units, Magnitude.zero] using Magnitude.round_units .zero
    rw [ofInt, hround]
    rfl
  · have hpos : 1 ≤ n.natAbs * Magnitude.unitsPerOne :=
      Nat.mul_pos (by omega) Magnitude.unitsPerOne_pos
    rw [ofInt, decide_eq_false hn]
    cases hround : Magnitude.round (n.natAbs * Magnitude.unitsPerOne) 1 with
    | none => rfl
    | some size =>
      exact decide_eq_false (Magnitude.mantissa_ne_zero_of_round Nat.one_pos hpos hround)

theorem Binary64.isZero_iff (r : Binary64) : r.isZero ↔ r = zero false ∨ r = zero true := by
  constructor
  · intro h
    cases r with
    | finite negative size =>
      obtain ⟨mantissa, exponent, hlt, hle, hfull⟩ := size
      have hmantissa : mantissa = 0 := of_decide_eq_true h
      have hexponent : exponent = 0 := by omega
      subst hmantissa hexponent
      cases negative with
      | false => exact .inl rfl
      | true => exact .inr rfl
    | infinite negative => cases h
    | nan => cases h
  · rintro (rfl | rfl) <;> rfl

namespace Value

theorem isZero_iff (v : Value) :
    v.isZero ↔ v = integer 0 ∨ v = real (.zero false) ∨ v = real (.zero true) := by
  cases v with
  | integer n => simp [isZero]
  | real r => simp [isZero, Binary64.isZero_iff]

theorem isZero_asReal (v : Value) : v.asReal.isZero = v.isZero := by
  cases v with
  | integer n =>
    have hzero : n.toInt = 0 ↔ n = 0 := Int64.toInt_inj (y := 0)
    simp only [asReal, isZero, Binary64.isZero_ofInt, hzero]
  | real r => rfl

/-! ## Operations on reals -/

variable {left right : Value}

theorem divide_of_isZero (h : right.isZero) (position : Nat) :
    left.divide right position = .error (.divisionByZero position) := if_pos h

/-- A division that passes the test of the value passes that of the real as well. -/
theorem divide_of_not_isZero (h : right.isZero = false) (position : Nat) :
    left.divide right position = ofRounded position (left.asReal.div right.asReal) := by
  have hreal : right.asReal.isZero = false := right.isZero_asReal.trans h
  simp [divide, Operator.applyReals, Operator.onReals, h, hreal]

theorem divide_asReal (left right : Value) (position : Nat) :
    left.divide right position = (real left.asReal).divide (real right.asReal) position := by
  have hzero : (real right.asReal).isZero = right.isZero := right.isZero_asReal
  cases h : right.isZero with
  | true => rw [divide_of_isZero h, divide_of_isZero (hzero.trans h)]
  | false =>
    rw [divide_of_not_isZero h, divide_of_not_isZero (hzero.trans h)]
    rfl

end Value

namespace Operator
variable {op : Operator} {left right : Value}

theorem apply_asReal (h : op = .div ∨ left.isReal ∨ right.isReal) (position : Nat) :
    op.apply left right position =
      op.apply (.real left.asReal) (.real right.asReal) position := by
  by_cases hop : op = .div
  · subst hop
    exact left.divide_asReal right position
  · rw [apply_of_isReal hop (h.resolve_left hop), apply_of_isReal hop (.inl rfl)]
    rfl

/-- Where the operation is one of reals and divides by no zero, the answer is the
rounded result if it is finite. -/
theorem apply_eq_ofRounded (h : op = .div ∨ left.isReal ∨ right.isReal)
    (hzero : ¬ (op = .div ∧ right.isZero)) (position : Nat) :
    op.apply left right position =
      Value.ofRounded position (op.onReals left.asReal right.asReal) := by
  by_cases hop : op = .div
  · subst hop
    exact Value.divide_of_not_isZero (by simpa using hzero) position
  · rw [apply_of_isReal hop (h.resolve_left hop)]
    exact if_neg fun hdiv => hop hdiv.1

end Operator

/-! ## The answers of an operation -/

theorem Value.of_ofRounded_ok {position : Nat} {r : Binary64} {v : Value}
    (h : ofRounded position r = .ok v) : v = .real r ∧ r.isFinite := by
  unfold ofRounded at h
  split at h
  case isTrue hfinite =>
    cases h
    exact ⟨rfl, hfinite⟩
  case isFalse => cases h

theorem Value.ofExact_ne_real (position : Nat) (n : Int) (r : Binary64) :
    ofExact position n ≠ .ok (.real r) := by
  unfold ofExact
  split
  · intro h
    cases h
  · intro h
    cases h

namespace Operator
variable {op : Operator} {left right : Value} {position : Nat}

theorem isFinite_of_apply {r : Binary64} (h : op.apply left right position = .ok (.real r)) :
    r.isFinite := by
  rcases op.apply_cases left right with ⟨-, hzero⟩ | ⟨n, hexact⟩ | ⟨s, hrounded⟩
  · rw [hzero] at h
    cases h
  · rw [hexact] at h
    exact absurd h (Value.ofExact_ne_real position n r)
  · rw [hrounded] at h
    obtain ⟨hreal, hfinite⟩ := Value.of_ofRounded_ok h
    cases hreal
    exact hfinite

theorem apply_eq_divisionByZero_iff {place : Nat} :
    op.apply left right position = .error (.divisionByZero place) ↔
      (op = .div ∧ right.isZero) ∧ place = position := by
  constructor
  · intro h
    have hplace : place = position := (apply_error h).1
    have hop : op = .div := (apply_error h).2
    subst hop
    refine ⟨⟨rfl, ?_⟩, hplace⟩
    apply Decidable.byContradiction
    intro hzero
    have hrounded : left.divide right position = _ :=
      Value.divide_of_not_isZero (by simpa using hzero) position
    cases Value.ofRounded_error (hrounded.symm.trans h)
  · rintro ⟨⟨rfl, hzero⟩, rfl⟩
    exact Value.divide_of_isZero hzero place

/-! ## The results on reals -/

/-- The exact result of an operator. -/
def onRationals : Operator → ℚ → ℚ → ℚ
  | add, a, b => a + b
  | sub, a, b => a - b
  | mul, a, b => a * b
  | div, a, b => a / b

/-- The sign of the result of an operator on finite reals. -/
def resultSign (op : Operator) (x y : Binary64) : Bool :=
  match op with
  | add => Binary64.signOfSum (x.isNegative && y.isNegative) (x.toRat + y.toRat)
  | sub => Binary64.signOfSum (x.isNegative && !y.isNegative) (x.toRat - y.toRat)
  | mul => x.isNegative != y.isNegative
  | div => x.isNegative != y.isNegative

/-- What the result of an operator on reals is: on finite ones the exact result, rounded. Of
any others only a quotient by an infinite real is finite, and that is a zero. -/
structure Rounds (op : Operator) (x y r : Binary64) : Prop where
  rounded : x.isFinite → y.isFinite →
    r.IsRounded (op.resultSign x y) (op.onRationals x.toRat y.toRat)
  vanishes : op = .div → x.isFinite → ∀ t, y = .infinite t → r = .zero (x.isNegative != t)
  finite : r.isFinite → x.isFinite ∧ (y.isFinite ∨ op = .div ∧ ∃ t, y = .infinite t)

theorem rounds_onReals {x y : Binary64} (h : ¬ (op = .div ∧ y.isZero)) :
    op.Rounds x y (op.onReals x y) := by
  cases op with
  | add =>
    exact ⟨Binary64.isRounded_add, nofun, fun hr => (Binary64.isFinite_of_add hr).imp id .inl⟩
  | sub =>
    exact ⟨Binary64.isRounded_sub, nofun, fun hr => (Binary64.isFinite_of_sub hr).imp id .inl⟩
  | mul =>
    exact ⟨Binary64.isRounded_mul, nofun, fun hr => (Binary64.isFinite_of_mul hr).imp id .inl⟩
  | div =>
    have hzero : y.isZero = false := by simpa using h
    refine ⟨fun hx hy => Binary64.isRounded_div hx hy hzero, ?_, ?_⟩
    · rintro - hx t rfl
      obtain ⟨s, size, rfl⟩ := Binary64.exists_finite hx
      rfl
    · intro hr
      obtain ⟨hx, hy | ⟨t, ht⟩⟩ := Binary64.isFinite_of_div hr
      · exact ⟨hx, .inl hy⟩
      · exact ⟨hx, .inr ⟨rfl, t, ht⟩⟩

/-! ## The test and the place that never decide -/

/-- What is answered where a real divisor turns out to be zero, and where a division
has come to the operations on integers. -/
structure Arms where
  zeroDivisor : Nat → Except RuntimeError Value
  quotient : Int64 → Int64 → Nat → Except RuntimeError Value

/-- The arms of `applyReals` and of `applyIntegers`. -/
def Arms.own : Arms where
  zeroDivisor position := .error (.divisionByZero position)
  quotient a b position := Value.divide (.integer a) (.integer b) position

/-- `applyReals` with other arms. -/
def applyRealsWith (arms : Arms) (op : Operator) (a b : Binary64) (position : Nat) :
    Except RuntimeError Value :=
  if op = .div ∧ b.isZero then arms.zeroDivisor position
  else Value.ofRounded position (op.onReals a b)

/-- `Value.divide` with other arms. -/
def divideWith (arms : Arms) (left right : Value) (position : Nat) : Except RuntimeError Value :=
  if right.isZero then .error (.divisionByZero position)
  else div.applyRealsWith arms left.asReal right.asReal position

/-- `applyIntegers` with other arms. -/
def applyIntegersWith (arms : Arms) (op : Operator) (a b : Int64) (position : Nat) :
    Except RuntimeError Value :=
  match op with
  | add => Value.ofExact position (a.toInt + b.toInt)
  | sub => Value.ofExact position (a.toInt - b.toInt)
  | mul => Value.ofExact position (a.toInt * b.toInt)
  | div => arms.quotient a b position

/-- `apply` with other arms. -/
def applyWith (arms : Arms) (op : Operator) (left right : Value) (position : Nat) :
    Except RuntimeError Value :=
  match op, left, right with
  | .div, _, _ => divideWith arms left right position
  | _, .integer a, .integer b => op.applyIntegersWith arms a b position
  | _, .real _, _ | _, _, .real _ => op.applyRealsWith arms left.asReal right.asReal position

theorem applyWith_own (op : Operator) (left right : Value) (position : Nat) :
    op.applyWith .own left right position = op.apply left right position := by
  cases op with
  | div => rfl
  | add => cases left <;> cases right <;> rfl
  | sub => cases left <;> cases right <;> rfl
  | mul => cases left <;> cases right <;> rfl

theorem applyRealsWith_congr (arms other : Arms) {a b : Binary64} (position : Nat)
    (h : op = .div → b.isZero = false) :
    op.applyRealsWith arms a b position = op.applyRealsWith other a b position := by
  have hpassed : ¬ (op = .div ∧ b.isZero) := by
    rintro ⟨hop, hzero⟩
    rw [h hop] at hzero
    cases hzero
  rw [applyRealsWith, applyRealsWith, if_neg hpassed, if_neg hpassed]

/-- Only a division comes to the second arm. -/
theorem applyIntegersWith_congr (arms other : Arms) (a b : Int64) (position : Nat)
    (hop : op ≠ .div) :
    op.applyIntegersWith arms a b position = op.applyIntegersWith other a b position := by
  cases op with
  | div => exact absurd rfl hop
  | add => rfl
  | sub => rfl
  | mul => rfl

theorem divideWith_congr (arms other : Arms) (left right : Value) (position : Nat) :
    divideWith arms left right position = divideWith other left right position := by
  unfold divideWith
  split
  case isTrue => rfl
  case isFalse hzero =>
    apply applyRealsWith_congr
    intro _
    rw [right.isZero_asReal]
    simpa using hzero

/-- Whatever the two arms answer, the operation answers the same. -/
theorem applyWith_congr (arms other : Arms) (op : Operator) (left right : Value)
    (position : Nat) :
    op.applyWith arms left right position = op.applyWith other left right position := by
  by_cases hop : op = .div
  · subst hop
    exact divideWith_congr arms other left right position
  · -- Neither arm is for an operator that is no division.
    unfold applyWith
    split
    · exact absurd rfl hop
    · exact applyIntegersWith_congr arms other _ _ position hop
    · exact applyRealsWith_congr arms other position fun hdiv => absurd hdiv hop
    · exact applyRealsWith_congr arms other position fun hdiv => absurd hdiv hop

end Operator

/-- A division, and any operation with a real operand, is the operation on the reals that
its operands are converted to. It divides by zero, at its own position, exactly if it is
a division whose divisor is zero, whatever is divided. Any other answer is the exact
result, rounded once, if that is finite, and an overflow if it is infinite or not a
number. No answer is a real that is not finite. What stands behind the second test of a
real divisor, and where a division comes to the operations on integers, decides no
answer. -/
theorem Operator.apply_in_reals (op : Operator) (left right : Value) (position : Nat) :
    (op = .div ∨ left.isReal ∨ right.isReal →
      op.apply left right position =
          op.apply (.real left.asReal) (.real right.asReal) position ∧
        (op.apply left right position = .error (.divisionByZero position) ↔
          op = .div ∧
            (right = .integer 0 ∨ right = .real (.zero false) ∨ right = .real (.zero true))) ∧
        (¬ (op = .div ∧ right.isZero) →
          ∃ r, op.Rounds left.asReal right.asReal r ∧
            (op = .add → r = left.asReal.add right.asReal) ∧
            (op = .sub → r = left.asReal.sub right.asReal) ∧
            (op = .mul → r = left.asReal.mul right.asReal) ∧
            (op = .div → r = left.asReal.div right.asReal) ∧
            op.apply left right position =
              if r.isFinite then .ok (.real r) else .error (.overflow position))) ∧
      (∀ r, op.apply left right position = .ok (.real r) → r.isFinite) ∧
      ∀ arms : Arms, op.applyWith arms left right position = op.apply left right position := by
  refine ⟨fun h => ⟨apply_asReal h position, ?_, ?_⟩, fun r => isFinite_of_apply, ?_⟩
  · rw [apply_eq_divisionByZero_iff, right.isZero_iff]
    exact and_iff_left rfl
  · intro hzero
    have hreal : ¬ (op = .div ∧ right.asReal.isZero) := by rwa [right.isZero_asReal]
    refine ⟨_, rounds_onReals hreal, ?_, ?_, ?_, ?_, apply_eq_ofRounded h hzero position⟩
    all_goals
      rintro rfl
      rfl
  · intro arms
    rw [← applyWith_own op left right position]
    exact applyWith_congr arms .own op left right position

/-- An integer of 54 bits is rounded when a real is added to it, and an integer zero
divides nothing, not even what is no number. -/
theorem Operator.apply_in_reals_of_mixed :
    let large := Value.integer 9007199254740993
    let zero := Value.real (.zero true)
    let sum := Binary64.ofBits 0x4340000000000000
    ((add = .div ∨ large.isReal ∨ zero.isReal) ∧ ¬ (add = .div ∧ zero.isZero) ∧
      add.apply large zero 3 = add.apply (.real large.asReal) (.real zero.asReal) 3 ∧
      add.apply large zero 3 = .ok (.real sum) ∧
      sum.IsNearest (large.asReal.toRat + zero.asReal.toRat)) ∧
    div.apply (.real .nan) (.integer 0) 1 = .error (.divisionByZero 1) := by
  intro large zero sum
  have hreal : add = .div ∨ large.isReal ∨ zero.isReal := .inr (.inr rfl)
  have hdivide : ¬ (add = .div ∧ zero.isZero) := by decide
  have hsum : large.asReal.add zero.asReal = sum := by decide +kernel
  have hfinite : sum.isFinite := rfl
  obtain ⟨hconverted, -, hresult⟩ := (apply_in_reals add large zero 3).1 hreal
  obtain ⟨r, hrounds, hadd, -, -, -, hanswer⟩ := hresult hdivide
  obtain rfl : r = sum := (hadd rfl).trans hsum
  rw [if_pos hfinite] at hanswer
  have hrounded := hrounds.rounded (hrounds.finite hfinite).1 (Eq.refl true)
  refine ⟨⟨hreal, hdivide, hconverted, hanswer, ?_⟩, ?_⟩
  · exact hrounded.nearest (hrounded.isFinite_iff.mp hfinite)
  · exact ((apply_in_reals div (.real .nan) (.integer 0) 1).1 (.inl rfl)).2.1.mpr ⟨rfl, .inl rfl⟩

end LineCalc
