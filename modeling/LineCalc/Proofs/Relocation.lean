import LineCalc.Line
import LineCalc.Proofs.Acceptance
/-
  Relocation: the same tokens at other positions

  A move says for each position where it comes to lie. Items, trees and errors
  are relocated by moving their positions and nothing else. Neither the scan of a
  line nor its grammar nor an evaluation decides anything by a position, so their
  answers are relocated with what they are about.

  What is proved:
    1. `Cuts.translate` — a text has the same items wherever it stands;
    2. `Derives.relocate` — relocated tokens derive the relocated tree;
    3. `Scan.resume_relocate` — a scan of relocated items ends alike;
    4. `Expr.value_relocate` — a relocated tree has the same value, or the same
       failure at the relocated operator;
    5. `parseLine_relocate`, `evaluateLine_relocate` — so a line whose items are
       those of another, relocated, has the answers of the other, relocated.
-/

namespace LineCalc

/-! ## Positions moved -/

def Located.relocate (move : Nat → Nat) (located : Located) : Located :=
  ⟨located.token, move located.position⟩

def LexError.relocate (move : Nat → Nat) : LexError → LexError
  | invalidCharacter character position => invalidCharacter character (move position)
  | overflow literal position => overflow literal (move position)

def SyntaxError.relocate (move : Nat → Nat) : SyntaxError → SyntaxError
  | unexpectedToken found expected position => unexpectedToken found expected (move position)
  | trailingTokens found position => trailingTokens found (move position)
  | nestingTooDeep limit position => nestingTooDeep limit (move position)
  | expressionTooLarge limit position => expressionTooLarge limit (move position)

def RuntimeError.relocate (move : Nat → Nat) : RuntimeError → RuntimeError
  | divisionByZero position => divisionByZero (move position)
  | overflow position => overflow (move position)

/-- The same error about another position. -/
def Error.relocate (move : Nat → Nat) : Error → Error
  | lexical e => lexical (e.relocate move)
  | syntactic e => syntactic (e.relocate move)
  | runtime e => runtime (e.relocate move)

/-- The same item at another position. -/
def Item.relocate (move : Nat → Nat) : Item → Item
  | .ok located => .ok (located.relocate move)
  | .error e => .error (e.relocate move)

/-- The same tree with every node at another position. -/
def Expr.relocate (move : Nat → Nat) : Expr → Expr
  | literal value position => literal value (move position)
  | binary left op right position =>
    binary (left.relocate move) op (right.relocate move) (move position)

section
variable (move : Nat → Nat)

theorem Item.relocate_ofDigits (run : List Char) (position : Nat) :
    (ofDigits run position).relocate move = ofDigits run (move position) := by
  unfold ofDigits
  split <;> rfl

theorem Item.relocate_ofChar (c : Char) (position : Nat) :
    (ofChar c position).relocate move = ofChar c (move position) := by
  unfold ofChar
  split <;> rfl

/-- The items of a text further on in a line. -/
theorem Cuts.translate (distance : Nat) {position : Nat} {text : List Char} {items : List Item}
    (h : Cuts position text items) :
    Cuts (position + distance) text (items.map (Item.relocate (· + distance))) := by
  induction h with
  | nil position => exact .nil (position + distance)
  | @blank position c text items hblank _ ih =>
    refine .blank hblank ?_
    rwa [Nat.add_right_comm]
  | @run position run text items hne hrun htext _ ih =>
    rw [List.map_cons, Item.relocate_ofDigits]
    refine .run hne hrun htext ?_
    rwa [Nat.add_right_comm]
  | @single position c text items hblank hdigit _ ih =>
    rw [List.map_cons, Item.relocate_ofChar]
    refine .single hblank hdigit ?_
    rwa [Nat.add_right_comm]

/-! ## The grammar -/

theorem deepest_relocate (ts : List Located) :
    Nesting.deepest Located.paren (ts.map (Located.relocate move)) =
      Nesting.deepest Located.paren ts :=
  Nesting.deepest_map (fun _ => rfl) ts

theorem countOperators_relocate (ts : List Located) :
    countOperators (ts.map (Located.relocate move)) = countOperators ts :=
  List.countP_map

theorem Derives.relocate {phrase : Phrase} {ts : List Located} {tree : Expr}
    (h : Derives phrase ts tree) :
    Derives phrase (ts.map (Located.relocate move)) (tree.relocate move) := by
  induction h with
  | literal value position => exact .literal value (move position)
  | group opening closing _ ih =>
    rw [List.map_append]
    exact .group (move opening) (move closing) ih
  | operand _ ih => exact .operand ih
  | operation position hop _ _ ihl ihr =>
    rw [List.map_append]
    exact .operation (move position) hop ihl ihr

/-! ## The scan -/

namespace Scan

/-- The same move at a token elsewhere. -/
def Move.relocate : Move → Move
  | take after exceeded => take after (exceeded.map (SyntaxError.relocate move))
  | stop failure => stop (failure.map (SyntaxError.relocate move))

theorem move_relocate (scan : Scan) (located : Located) :
    scan.move (located.relocate move) = (scan.move located).relocate move := by
  obtain ⟨phase, opened, operators⟩ := scan
  obtain ⟨token, position⟩ := located
  -- The counts and the token decide, and the position only goes into the error.
  cases phase with
  | due =>
    by_cases hlimit : opened + 1 > maxNesting <;> cases token <;>
      simp [Scan.move, Located.relocate, Move.relocate, SyntaxError.relocate, hlimit]
  | ended =>
    by_cases hlimit : operators + 1 > maxOperators <;> by_cases hopened : opened > 0 <;>
      cases token <;>
      simp [Scan.move, Located.relocate, Move.relocate, SyntaxError.relocate, hlimit, hopened]

theorem resume_relocate (scan : Scan) (exceeded : Option SyntaxError) (items : List Item) :
    scan.resume (exceeded.map (SyntaxError.relocate move)) (items.map (Item.relocate move)) =
      (scan.resume exceeded items).mapError (Error.relocate move) := by
  induction items generalizing scan exceeded with
  | nil => rfl
  | cons item rest ih =>
    cases item with
    | error e => rfl
    | ok located =>
      cases exceeded with
      | some e => rfl
      | none =>
        simp only [List.map_cons, Item.relocate, Option.map_none, resume, move_relocate]
        cases scan.move located with
        | take after exceeded => exact ih after exceeded
        | stop failure => cases failure <;> rfl

end Scan

/-! ## The evaluation -/

theorem Value.ofExact_relocate (position : Nat) (n : Int) :
    ofExact (move position) n = (ofExact position n).mapError (RuntimeError.relocate move) := by
  unfold ofExact
  split <;> rfl

theorem Value.ofRounded_relocate (position : Nat) (r : Binary64) :
    ofRounded (move position) r =
      (ofRounded position r).mapError (RuntimeError.relocate move) := by
  unfold ofRounded
  split <;> rfl

theorem Operator.apply_relocate (op : Operator) (left right : Value) (position : Nat) :
    op.apply left right (move position) =
      (op.apply left right position).mapError (RuntimeError.relocate move) := by
  rcases op.apply_cases left right with ⟨-, hzero⟩ | ⟨n, hexact⟩ | ⟨r, hrounded⟩
  · rw [hzero, hzero]
    rfl
  · rw [hexact, hexact]
    exact Value.ofExact_relocate move position n
  · rw [hrounded, hrounded]
    exact Value.ofRounded_relocate move position r

theorem Expr.value_relocate (tree : Expr) :
    (tree.relocate move).value = tree.value.mapError (RuntimeError.relocate move) := by
  induction tree with
  | literal value position => rfl
  | binary left op right position ihl ihr =>
    simp only [relocate, value, ihl, ihr]
    cases left.value with
    | error e => rfl
    | ok l =>
      cases right.value with
      | error e => rfl
      | ok r => exact op.apply_relocate move l r position

end

/-! ## Lines -/

section
variable {source other : String} {move : Nat → Nat}

theorem parseLine_relocate
    (hitems : Item.ofSource other = (Item.ofSource source).map (Item.relocate move))
    (hlength : other.length = move source.length) :
    parseLine other =
      ((parseLine source).map (Expr.relocate move)).mapError (Error.relocate move) := by
  cases hparse : parseLine source with
  | ok tree =>
    obtain ⟨ts, hts, hderives, -⟩ := derives_of_parseLine hparse
    obtain ⟨hnesting, hoperators⟩ := within_of_parseLine hparse hts
    have htokens : tokenize other = .ok (ts.map (Located.relocate move)) := by
      rw [tokenize_eq_ok_iff, hitems, tokenize_eq_ok_iff.mp hts, List.map_map, List.map_map]
      rfl
    refine parseLine_of_derives htokens (hderives.relocate move) ?_ ?_
    · rwa [deepest_relocate]
    · rwa [countOperators_relocate]
  | error e =>
    have hstream : Scan.stream other = (Scan.stream source).map (Item.relocate move) := by
      rw [Scan.stream, Scan.stream, hitems, hlength, List.map_append]
      rfl
    have hscan : Scan.ofLine other = .error (e.relocate move) := by
      have hresume := Scan.resume_relocate move ⟨.due, 0, 0⟩ none (Scan.stream source)
      rw [Scan.ofLine, hstream, ← Option.map_none, hresume]
      rw [← Scan.ofLine, ofLine_of_parseLine_error hparse]
      rfl
    exact parseLine_of_ofLine_error hscan

theorem Expr.answer_relocate (tree : Expr) (move : Nat → Nat) :
    (tree.relocate move).answer = tree.answer.mapError (Error.relocate move) := by
  rw [answer_eq, answer_eq, value_relocate]
  cases tree.value <;> rfl

theorem evaluateLine_relocate
    (hitems : Item.ofSource other = (Item.ofSource source).map (Item.relocate move))
    (hlength : other.length = move source.length) :
    evaluateLine other = (evaluateLine source).mapError (Error.relocate move) := by
  rw [evaluateLine, evaluateLine, parseLine_relocate hitems hlength]
  cases parseLine source with
  | ok tree => exact tree.answer_relocate move
  | error e => rfl

end

end LineCalc
