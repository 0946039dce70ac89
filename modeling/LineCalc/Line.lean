import LineCalc.Parser
import LineCalc.Value
/-
  Lines: from text to value

  `evaluateLine` is the whole way: the text of a line is parsed, and its tree is
  evaluated. The first error on the way is the answer.
-/

namespace LineCalc

/-- The value of a tree as the answer of a line. -/
def Expr.answer (tree : Expr) : Except Error Value :=
  match tree.value with
  | .ok value => .ok value
  | .error e => .error (.runtime e)

theorem Expr.answer_eq (tree : Expr) : tree.answer = tree.value.mapError .runtime := by
  unfold answer
  cases tree.value <;> rfl

theorem Expr.value_of_answer {tree : Expr} {value : Value} (h : tree.answer = .ok value) :
    tree.value = .ok value := by
  rw [answer_eq] at h
  cases hvalue : tree.value with
  | ok inner =>
    rw [hvalue] at h
    cases h
    rfl
  | error failure =>
    rw [hvalue] at h
    cases h

/-- A tree fails in no other way than at run time. -/
theorem Expr.exists_of_answer {tree : Expr} {e : Error} (h : tree.answer = .error e) :
    ∃ failure, e = .runtime failure ∧ tree.value = .error failure := by
  rw [answer_eq] at h
  cases hvalue : tree.value with
  | ok inner =>
    rw [hvalue] at h
    cases h
  | error failure =>
    rw [hvalue] at h
    cases h
    exact ⟨failure, rfl, rfl⟩

/-- The value of a line, or its first error. -/
def evaluateLine (source : String) : Except Error Value :=
  match parseLine source with
  | .ok tree => tree.answer
  | .error e => .error e

theorem evaluateLine_of_parseLine {source : String} {tree : Expr}
    (h : parseLine source = .ok tree) : evaluateLine source = tree.answer := by
  rw [evaluateLine, h]

end LineCalc
