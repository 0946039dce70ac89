import LineCalc.Proofs.Relocation
/-
  Composing: two lines in parentheses with an operator between them

  The items of the composed line are those of the two lines, each further on,
  between the parentheses and the operator. Both lines are factors of it, so its
  tree has their trees at its root. It is one parenthesis deeper than the deeper
  line and has one operator more than the two, which the limits have to allow.

  What is proved:
    1. `countOperators_of_tokenize` — a line has as many operators as operator
       characters;
    2. `parseLine_composed` — the tree of a composed line. So its answer is the
       failure of the first line, that of the second, or the operation on their
       values.
-/

namespace LineCalc

/-- Two lines, each in parentheses, with a character between them. -/
def composed (a : String) (o : Char) (b : String) : String :=
  "(" ++ a ++ ")" ++ String.singleton o ++ "(" ++ b ++ ")"

/-! ## The operators of a line -/

/-- The number of operator characters in a text. -/
def operatorsIn (text : List Char) : Nat :=
  text.countP fun c => (Operator.ofChar? c).isSome

/-- Whether an item is an operator. -/
def Item.isOperator : Item → Bool
  | .ok located => located.token.isOperator
  | .error _ => false

namespace Item

theorem isOperator_ofDigits (run : List Char) (position : Nat) :
    (ofDigits run position).isOperator = false := by
  unfold ofDigits
  split <;> rfl

theorem isOperator_ofChar (c : Char) (position : Nat) :
    (ofChar c position).isOperator = (Operator.ofChar? c).isSome := by
  by_cases hleft : c = '('
  · rw [hleft]
    rfl
  · by_cases hright : c = ')'
    · rw [hright]
      rfl
    · simp only [ofChar, Token.ofChar?, if_neg hleft, if_neg hright]
      cases Operator.ofChar? c <;> rfl

end Item

namespace Operator
variable {c : Char}

theorem ofChar?_eq_none (h : ∀ op : Operator, op.symbol ≠ c) : ofChar? c = none := by
  cases hop : ofChar? c with
  | none => rfl
  | some op => exact (h op (symbol_of_ofChar? hop)).elim

theorem ofChar?_of_isBlank (h : isBlank c = true) : ofChar? c = none := by
  refine ofChar?_eq_none fun op hop => ?_
  rw [← hop, isBlank_symbol] at h
  cases h

theorem ofChar?_of_isDigit (h : c.isDigit = true) : ofChar? c = none := by
  refine ofChar?_eq_none fun op hop => ?_
  rw [← hop, isDigit_symbol] at h
  cases h

end Operator

theorem Cuts.operators_eq {position : Nat} {text : List Char} {items : List Item}
    (h : Cuts position text items) : items.countP Item.isOperator = operatorsIn text := by
  unfold operatorsIn
  induction h with
  | nil position => rfl
  | blank hblank _ ih =>
    rw [ih, List.countP_cons_of_neg (by simp [Operator.ofChar?_of_isBlank hblank])]
  | @run position run text items _ hrun _ _ ih =>
    have hnone : ∀ c ∈ run, ¬ (Operator.ofChar? c).isSome = true := by
      intro c hc
      simp [Operator.ofChar?_of_isDigit (hrun c hc)]
    rw [List.countP_cons_of_neg (by simp [Item.isOperator_ofDigits]), ih, List.countP_append,
      List.countP_eq_zero.mpr hnone, Nat.zero_add]
  | single _ _ _ ih => rw [List.countP_cons, ih, Item.isOperator_ofChar, List.countP_cons]

theorem countOperators_of_tokenize {source : String} {ts : List Located}
    (h : tokenize source = .ok ts) : countOperators ts = operatorsIn source.toList := by
  rw [← (cuts_ofSource source).operators_eq, tokenize_eq_ok_iff.mp h, List.countP_map]
  rfl

/-! ## Lines in parentheses -/

/-- The tokens of a text of so many characters, in parentheses from a position on. -/
def enclosed (position length : Nat) (ts : List Located) : List Located :=
  ⟨.leftParen, position⟩ :: ts.map (Located.relocate (· + (position + 1))) ++
    [⟨.rightParen, position + 1 + length⟩]

section
variable {ts : List Located} {tree : Expr} (position length : Nat)

theorem cuts_enclosed {source : String} (h : tokenize source = .ok ts) :
    Cuts position ('(' :: source.toList ++ [')'])
      ((enclosed position source.length ts).map .ok) := by
  have hinner := (cuts_ofSource source).translate (position + 1)
  rw [tokenize_eq_ok_iff.mp h, Nat.zero_add] at hinner
  have hclosing : Cuts (position + 1 + source.toList.length) [')']
      [.ok ⟨.rightParen, position + 1 + source.toList.length⟩] := .single rfl rfl (.nil _)
  have hseparate : Separate source.toList [')'] := .of_head rfl
  have hwhole : Cuts position ('(' :: (source.toList ++ [')'])) (.ok ⟨.leftParen, position⟩ :: _) :=
    .single rfl rfl (hinner.append hseparate hclosing)
  simpa [enclosed, Function.comp_def, Item.relocate, String.length_toList] using hwhole

theorem Derives.enclosed (h : Derives (.chain .sum) ts tree) :
    Derives .factor (enclosed position length ts) (tree.relocate (· + (position + 1))) :=
  .group _ _ (h.relocate _)

theorem deepest_enclosed_of_derives (h : Derives (.chain .sum) ts tree) :
    Nesting.deepest Located.paren (enclosed position length ts) =
      Nesting.deepest Located.paren ts + 1 := by
  have hbalance := (h.relocate (· + (position + 1))).balance_eq_zero
  rw [enclosed, Nesting.deepest_enclosed (Located.paren_left _) (Located.paren_right _) hbalance,
    deepest_relocate]

theorem countOperators_enclosed :
    countOperators (enclosed position length ts) = countOperators ts := by
  simp [enclosed, countOperators_relocate, Token.isOperator]

end

/-! ## Two lines -/

section
variable {a b : String} {op : Operator} {left right : Expr}

theorem tokenize_composed {ts us : List Located} (ha : tokenize a = .ok ts)
    (hb : tokenize b = .ok us) (op : Operator) :
    tokenize (composed a op.symbol b) =
      .ok (enclosed 0 a.length ts ++
        ⟨.operator op, a.length + 2⟩ :: enclosed (a.length + 3) b.length us) := by
  have htext : (composed a op.symbol b).toList =
      ('(' :: a.toList ++ [')']) ++ op.symbol :: ('(' :: b.toList ++ [')']) := by
    simp [composed]
  have hlength : 0 + ('(' :: a.toList ++ [')']).length = a.length + 2 := by
    simp [String.length_toList]
  have hseparate : Separate ('(' :: a.toList ++ [')'])
      (op.symbol :: ('(' :: b.toList ++ [')'])) := .of_head (isDigit_symbol op)
  have hcuts : Cuts 0 (composed a op.symbol b).toList
      ((enclosed 0 a.length ts).map .ok ++ .ok ⟨.operator op, a.length + 2⟩ ::
        (enclosed (a.length + 3) b.length us).map .ok) := by
    rw [htext]
    refine (cuts_enclosed 0 ha).append hseparate ?_
    rw [hlength]
    exact .symbol op (cuts_enclosed (a.length + 3) hb)
  rw [tokenize_eq_ok_iff, Item.ofSource, hcuts.ofChars_eq, List.map_append, List.map_cons]

theorem parseLine_composed (ha : parseLine a = .ok left) (hb : parseLine b = .ok right)
    (hnestinga : Nesting.deepest parenOfChar a.toList < maxNesting)
    (hnestingb : Nesting.deepest parenOfChar b.toList < maxNesting)
    (hoperators : operatorsIn a.toList + operatorsIn b.toList < maxOperators) :
    parseLine (composed a op.symbol b) =
      .ok (.binary (left.relocate (· + 1)) op (right.relocate (· + (a.length + 4)))
        (a.length + 2)) := by
  obtain ⟨ts, hts, hleft, -⟩ := derives_of_parseLine ha
  obtain ⟨us, hus, hright, -⟩ := derives_of_parseLine hb
  have hfirst := hleft.enclosed 0 a.length
  have hsecond := hright.enclosed (a.length + 3) b.length
  refine parseLine_of_derives (tokenize_composed hts hus op)
    (.of_chain (.operation (a.length + 2) rfl hfirst.of_factor hsecond.of_factor)) ?_ ?_
  · rw [← deepest_of_tokenize hts] at hnestinga
    rw [← deepest_of_tokenize hus] at hnestingb
    rw [Nesting.deepest_append, hfirst.balance_eq_zero,
      Nesting.deepest_cons_of_eq_zero _ (Located.paren_operator op _),
      deepest_enclosed_of_derives _ _ hleft, deepest_enclosed_of_derives _ _ hright]
    omega
  · rw [← countOperators_of_tokenize hts, ← countOperators_of_tokenize hus] at hoperators
    rw [countOperators_append, countOperators_cons, countOperators_enclosed,
      countOperators_enclosed, Token.isOperator, if_pos rfl]
    omega

/-- The answer of a composed line is that of its first line if this fails, or else
that of the second if this fails, each at the place where it stands in the
composed line. Otherwise it is the operation on the values of the two. -/
theorem evaluateLine_composed {o : Char} (ha : ∃ tree, parseLine a = .ok tree)
    (hb : ∃ tree, parseLine b = .ok tree)
    (hnestinga : Nesting.deepest parenOfChar a.toList < maxNesting)
    (hnestingb : Nesting.deepest parenOfChar b.toList < maxNesting)
    (hoperators : operatorsIn a.toList + operatorsIn b.toList < maxOperators)
    (ho : Operator.ofChar? o = some op) :
    (∀ e, evaluateLine a = .error e →
      ∃ failure, e = .runtime failure ∧
        evaluateLine (composed a o b) = .error (.runtime (failure.relocate (· + 1)))) ∧
    (∀ x e, evaluateLine a = .ok x → evaluateLine b = .error e →
      ∃ failure, e = .runtime failure ∧
        evaluateLine (composed a o b) =
          .error (.runtime (failure.relocate (· + (a.length + 4))))) ∧
    (∀ x y, evaluateLine a = .ok x → evaluateLine b = .ok y →
      evaluateLine (composed a o b) = (op.apply x y (a.length + 2)).mapError .runtime) := by
  obtain ⟨left, hleft⟩ := ha
  obtain ⟨right, hright⟩ := hb
  obtain rfl := Operator.symbol_of_ofChar? ho
  have hwhole : parseLine (composed a op.symbol b) = _ :=
    parseLine_composed hleft hright hnestinga hnestingb hoperators
  -- The operator stands at the root, so both trees are evaluated before it is applied.
  rw [evaluateLine_of_parseLine hleft, evaluateLine_of_parseLine hright,
    evaluateLine_of_parseLine hwhole, Expr.answer_eq (.binary _ _ _ _), Expr.value,
    Expr.value_relocate, Expr.value_relocate]
  refine ⟨?_, ?_, ?_⟩
  · intro e he
    obtain ⟨failure, rfl, hfailure⟩ := Expr.exists_of_answer he
    rw [hfailure]
    exact ⟨failure, rfl, rfl⟩
  · intro x e hx he
    obtain ⟨failure, rfl, hfailure⟩ := Expr.exists_of_answer he
    rw [Expr.value_of_answer hx, hfailure]
    exact ⟨failure, rfl, rfl⟩
  · intro x y hx hy
    rw [Expr.value_of_answer hx, Expr.value_of_answer hy]
    rfl

theorem evaluateLine_composed_of_failure :
    let a := "2*(4-1)"
    let b := "1+ 2/0"
    (∃ tree, parseLine a = .ok tree) ∧ (∃ tree, parseLine b = .ok tree) ∧
      Nesting.deepest parenOfChar a.toList < maxNesting ∧
      Nesting.deepest parenOfChar b.toList < maxNesting ∧
      operatorsIn a.toList + operatorsIn b.toList < maxOperators ∧
      Operator.ofChar? '*' = some .mul ∧
      evaluateLine a = .ok (.integer 6) ∧
      evaluateLine b = .error (.runtime (.divisionByZero 4)) ∧
      evaluateLine (composed a '*' b) = .error (.runtime (.divisionByZero 15)) := by
  intro a b
  have ha : ∃ tree, parseLine a = .ok tree :=
    ⟨.binary (.literal 2 0) .mul (.binary (.literal 4 3) .sub (.literal 1 5) 4) 1,
      by decide +kernel⟩
  have hb : ∃ tree, parseLine b = .ok tree :=
    ⟨.binary (.literal 1 0) .add (.binary (.literal 2 3) .div (.literal 0 5) 4) 1,
      by decide +kernel⟩
  have hnestinga : Nesting.deepest parenOfChar a.toList < maxNesting := by decide +kernel
  have hnestingb : Nesting.deepest parenOfChar b.toList < maxNesting := by decide +kernel
  have hoperators : operatorsIn a.toList + operatorsIn b.toList < maxOperators := by
    decide +kernel
  have ho : Operator.ofChar? '*' = some .mul := rfl
  have hx : evaluateLine a = .ok (.integer 6) := by decide +kernel
  have hy : evaluateLine b = .error (.runtime (.divisionByZero 4)) := by decide +kernel
  obtain ⟨-, hsecond, -⟩ := evaluateLine_composed ha hb hnestinga hnestingb hoperators ho
  obtain ⟨failure, hfailure, hanswer⟩ := hsecond _ _ hx hy
  cases hfailure
  have hlength : a.length = 7 := by decide +kernel
  rw [hlength] at hanswer
  exact ⟨ha, hb, hnestinga, hnestingb, hoperators, ho, hx, hy, hanswer⟩

end

end LineCalc
