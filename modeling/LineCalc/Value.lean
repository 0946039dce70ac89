import LineCalc.Binary64.Decimal
import LineCalc.Error
import LineCalc.Expr
/-
  Values: what an expression is worth

  A value is a 64-bit integer or a double precision number. Sums, differences
  and products of two integers stay integers and are exact or fail; a quotient
  is always a real, and so is everything with a real operand. A real that would
  not be finite is no value: the operator at its position overflows.

  `Expr.value` evaluates a tree from the left: the left operand, the right one,
  then the operation. The first of them that fails is the answer.
-/

namespace LineCalc

/-- A value. -/
inductive Value where
  | integer (n : Int64)
  | real (r : Binary64)
  deriving DecidableEq, Repr

namespace Value

/-- The value as a real: an integer beyond 53 bits is rounded. -/
def asReal : Value → Binary64
  | integer n => Binary64.ofInt n.toInt
  | real r => r

/-- Whether a value is zero, of either sign. -/
def isZero : Value → Bool
  | integer n => n = 0
  | real r => r.isZero

/-- Whether a value is a real. -/
def isReal : Value → Bool
  | real _ => true
  | integer _ => false

/-- Whether a value is an integer. -/
def isInteger : Value → Bool
  | integer _ => true
  | real _ => false

theorem exists_integer {v : Value} (h : ¬ v.isReal) : ∃ n, v = integer n := by
  cases v with
  | integer n => exact ⟨n, rfl⟩
  | real r => exact absurd rfl h

/-- Whether two values are of one type and compare equal. -/
def equal : Value → Value → Bool
  | integer m, integer n => m = n
  | real x, real y => x.equal y
  | _, _ => false

/-- The text of a value. A whole real shows a point, an integer does not. -/
def text : Value → String
  | integer n => Digits.intText n
  | real r => r.text

end Value

/-! ## Operations -/

/-- An exact integer result, if it is a 64-bit integer. -/
def Value.ofExact (position : Nat) (n : Int) : Except RuntimeError Value :=
  if -2 ^ 63 ≤ n ∧ n < 2 ^ 63 then .ok (.integer (Int64.ofInt n))
  else .error (.overflow position)

/-- A rounded real result, if it is finite. -/
def Value.ofRounded (position : Nat) (r : Binary64) : Except RuntimeError Value :=
  if r.isFinite then .ok (.real r) else .error (.overflow position)

/-- The result of an operator on two reals: exact, then rounded once. -/
def Operator.onReals : Operator → Binary64 → Binary64 → Binary64
  | add => Binary64.add
  | sub => Binary64.sub
  | mul => Binary64.mul
  | div => Binary64.div

/-- The answer of an operator on two reals. A divisor that is zero is refused. -/
def Operator.applyReals (op : Operator) (a b : Binary64) (position : Nat) :
    Except RuntimeError Value :=
  if op = .div ∧ b.isZero then .error (.divisionByZero position)
  else Value.ofRounded position (op.onReals a b)

/-- The quotient of two values, always a real. A divisor that is zero is refused
before anything is converted or divided. -/
def Value.divide (left right : Value) (position : Nat) : Except RuntimeError Value :=
  if right.isZero then .error (.divisionByZero position)
  else Operator.div.applyReals left.asReal right.asReal position

/-- The answer of an operator on two integers. -/
def Operator.applyIntegers (op : Operator) (a b : Int64) (position : Nat) :
    Except RuntimeError Value :=
  match op with
  | add => Value.ofExact position (a.toInt + b.toInt)
  | sub => Value.ofExact position (a.toInt - b.toInt)
  | mul => Value.ofExact position (a.toInt * b.toInt)
  | div => Value.divide (.integer a) (.integer b) position

/-- The answer of the operator at a position: a quotient is one of reals whatever the
operands are, and any other operator has two integers or at least one real. -/
def Operator.apply (op : Operator) (left right : Value) (position : Nat) :
    Except RuntimeError Value :=
  match op, left, right with
  | .div, _, _ => left.divide right position
  | _, .integer a, .integer b => op.applyIntegers a b position
  | _, .real _, _ | _, _, .real _ => op.applyReals left.asReal right.asReal position

/-- Any operator but a division is one of reals as soon as one operand is a real. -/
theorem Operator.apply_of_isReal {op : Operator} {left right : Value} (hop : op ≠ .div)
    (h : left.isReal ∨ right.isReal) (position : Nat) :
    op.apply left right position = op.applyReals left.asReal right.asReal position := by
  unfold apply
  split
  · exact absurd rfl hop
  · simp [Value.isReal] at h
  · rfl
  · rfl

theorem Operator.applyReals_cases (op : Operator) (a b : Binary64) :
    (op = .div ∧ ∀ position, op.applyReals a b position = .error (.divisionByZero position)) ∨
      ∃ r, ∀ position, op.applyReals a b position = Value.ofRounded position r := by
  by_cases hzero : op = .div ∧ b.isZero
  · exact .inl ⟨hzero.1, fun _ => if_pos hzero⟩
  · exact .inr ⟨_, fun _ => if_neg hzero⟩

theorem Value.divide_cases (left right : Value) :
    (∀ position, left.divide right position = .error (.divisionByZero position)) ∨
      ∃ r, ∀ position, left.divide right position = ofRounded position r := by
  by_cases hzero : right.isZero
  · exact .inl fun _ => if_pos hzero
  · have hreals (position : Nat) : left.divide right position =
        Operator.div.applyReals left.asReal right.asReal position := if_neg hzero
    simp only [hreals]
    exact (Operator.applyReals_cases .div _ _).imp And.right id

/-- A division refuses a divisor. Any other answer is one result, exact or rounded, that
is checked. Which of them it is does not depend on the position. -/
theorem Operator.apply_cases (op : Operator) (left right : Value) :
    (op = .div ∧ ∀ position, op.apply left right position = .error (.divisionByZero position)) ∨
      (∃ n, ∀ position, op.apply left right position = Value.ofExact position n) ∨
      ∃ r, ∀ position, op.apply left right position = Value.ofRounded position r := by
  by_cases hop : op = .div
  · subst hop
    exact (left.divide_cases right).imp (⟨rfl, ·⟩) .inr
  by_cases hreal : left.isReal ∨ right.isReal
  · simp only [apply_of_isReal hop hreal]
    exact (applyReals_cases op _ _).imp id .inr
  · -- Two integers: one exact result for each of the three operators.
    obtain ⟨a, rfl⟩ := Value.exists_integer fun h => hreal (.inl h)
    obtain ⟨b, rfl⟩ := Value.exists_integer fun h => hreal (.inr h)
    refine .inr (.inl ?_)
    cases op with
    | add => exact ⟨_, fun _ => rfl⟩
    | sub => exact ⟨_, fun _ => rfl⟩
    | mul => exact ⟨_, fun _ => rfl⟩
    | div => exact absurd rfl hop

/-- The value of an expression, or the first error from the left. -/
def Expr.value : Expr → Except RuntimeError Value
  | literal n _ => .ok (.integer n)
  | binary left op right position =>
    match left.value with
    | .error e => .error e
    | .ok l =>
      match right.value with
      | .error e => .error e
      | .ok r => op.apply l r position

end LineCalc
