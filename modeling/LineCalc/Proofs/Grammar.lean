import LineCalc.Parser
import LineCalc.Proofs.Nesting
/-
  The grammar of expressions, apart from any parser

      chain sum     := chain product | chain sum ('+' | '-') chain product
      chain product := factor | chain product ('*' | '/') factor
      factor        := INTEGER | '(' chain sum ')'

  `Derives` is this grammar as a relation between a list of tokens and a tree:
  an operation carries the position of its own operator, a literal the value
  and the position of its own token, and parentheses leave no node. It names the
  operators of each chain by itself, and `Derives.operation` and
  `Derives.levelRec` are where these meet `Operator.level`.

  What is proved:
    1. `Derives.unique` — a list of tokens derives at most one tree;
    2. `Derives.inorder_eq` — the tree shows every token but the parentheses,
       each once and in order;
    3. `Derives.balance_eq_zero`, `Derives.prefix_nonneg` — the parentheses of
       a phrase match;
    4. `Derives.holds_of_outermost` — outside parentheses a phrase has no
       operator that binds weaker than the phrase itself. The split of a chain
       at its last operator, and with it (1), rests on this.
-/

namespace LineCalc

/-- The phrases of the grammar. -/
inductive Phrase where
  | factor
  | chain (level : Level)
  deriving DecidableEq, Repr

/-- The phrase that stands between the operators of a level. -/
def Level.operand : Level → Phrase
  | sum => .chain .product
  | product => .factor

/-- The tokens of a phrase, with the tree that they stand for. -/
inductive Derives : Phrase → List Located → Expr → Prop where
  | literal (value : Int64) (position : Nat) :
    Derives .factor [⟨.integer value, position⟩] (.literal value position)
  | group {ts : List Located} {tree : Expr} (opening closing : Nat) :
    Derives (.chain .sum) ts tree →
    Derives .factor (⟨.leftParen, opening⟩ :: ts ++ [⟨.rightParen, closing⟩]) tree
  | operand {level : Level} {ts : List Located} {tree : Expr} :
    Derives level.operand ts tree → Derives (.chain level) ts tree
  | sum {op : Operator} {ts us : List Located} {left right : Expr} (position : Nat) :
    op = .add ∨ op = .sub →
    Derives (.chain .sum) ts left → Derives (.chain .product) us right →
    Derives (.chain .sum) (ts ++ ⟨.operator op, position⟩ :: us)
      (.binary left op right position)
  | product {op : Operator} {ts us : List Located} {left right : Expr} (position : Nat) :
    op = .mul ∨ op = .div →
    Derives (.chain .product) ts left → Derives .factor us right →
    Derives (.chain .product) (ts ++ ⟨.operator op, position⟩ :: us)
      (.binary left op right position)

namespace Phrase

/-- Whether operators of a level may stand in a phrase outside parentheses. -/
def holds : Phrase → Level → Bool
  | factor, _ => false
  | chain .product, level => level = .product
  | chain .sum, _ => true

theorem holds_chain (outer level : Level) :
    (chain outer).holds level = (level == outer || outer.operand.holds level) := by
  cases outer <;> cases level <;> rfl

theorem holds_operand_self (level : Level) : level.operand.holds level = false := by
  cases level <;> rfl

theorem holds_chain_of_operand {outer level : Level} (h : outer.operand.holds level = true) :
    (chain outer).holds level = true := by
  rw [holds_chain, h, Bool.or_true]

end Phrase

def Token.isParen : Token → Bool
  | leftParen => true
  | rightParen => true
  | _ => false

def Token.isOperator : Token → Bool
  | operator _ => true
  | _ => false

/-- The number of operators among tokens. -/
def countOperators (ts : List Located) : Nat :=
  ts.countP fun located => located.token.isOperator

@[simp] theorem countOperators_nil : countOperators [] = 0 := rfl

@[simp] theorem countOperators_cons (located : Located) (ts : List Located) :
    countOperators (located :: ts) =
      countOperators ts + if located.token.isOperator then 1 else 0 :=
  List.countP_cons

@[simp] theorem countOperators_append (ts us : List Located) :
    countOperators (ts ++ us) = countOperators ts + countOperators us :=
  List.countP_append

/-- The tokens that the nodes of a tree stand for, in the order of the line. -/
def Expr.inorder : Expr → List Located
  | literal value position => [⟨.integer value, position⟩]
  | binary left op right position =>
    left.inorder ++ ⟨.operator op, position⟩ :: right.inorder

/-- Two ways to split a list at one element each: at the same place, or the
second one behind the first, or before it. -/
theorem append_cons_cases {α : Type} {xs ys us vs : List α} {x y : α}
    (h : xs ++ x :: us = ys ++ y :: vs) :
    (xs = ys ∧ x = y ∧ us = vs) ∨
      (∃ between, ys = xs ++ x :: between ∧ us = between ++ y :: vs) ∨
      (∃ between, xs = ys ++ y :: between ∧ vs = between ++ x :: us) := by
  rcases List.append_eq_append_iff.mp h with ⟨rest, rfl, hrest⟩ | ⟨rest, rfl, hrest⟩
  · rcases List.cons_eq_append_iff.mp hrest with ⟨rfl, hy⟩ | ⟨between, rfl, hus⟩
    · obtain ⟨rfl, rfl⟩ := List.cons.inj hy
      exact .inl ⟨(List.append_nil xs).symm, rfl, rfl⟩
    · exact .inr (.inl ⟨between, rfl, hus⟩)
  · rcases List.cons_eq_append_iff.mp hrest with ⟨rfl, hx⟩ | ⟨between, rfl, hvs⟩
    · obtain ⟨rfl, rfl⟩ := List.cons.inj hx
      exact .inl ⟨List.append_nil ys, rfl, rfl⟩
    · exact .inr (.inr ⟨between, rfl, hvs⟩)

namespace Derives
variable {phrase : Phrase} {ts : List Located} {tree : Expr}

/-! ## Operations of either level -/

theorem operation {level : Level} {op : Operator} {us : List Located} {left right : Expr}
    (position : Nat) (hop : op.level = level) (hleft : Derives (.chain level) ts left)
    (hright : Derives level.operand us right) :
    Derives (.chain level) (ts ++ ⟨.operator op, position⟩ :: us)
      (.binary left op right position) := by
  subst hop
  cases op with
  | add => exact .sum position (.inl rfl) hleft hright
  | sub => exact .sum position (.inr rfl) hleft hright
  | mul => exact .product position (.inl rfl) hleft hright
  | div => exact .product position (.inr rfl) hleft hright

theorem level_eq_sum {op : Operator} (h : op = .add ∨ op = .sub) : op.level = .sum := by
  rcases h with rfl | rfl <;> rfl

theorem level_eq_product {op : Operator} (h : op = .mul ∨ op = .div) : op.level = .product := by
  rcases h with rfl | rfl <;> rfl

/-- Induction over a derivation, with one case for the operations of both levels. -/
@[elab_as_elim, induction_eliminator]
theorem levelRec {motive : ∀ phrase ts tree, Derives phrase ts tree → Prop}
    (literal : ∀ value position, motive _ _ _ (.literal value position))
    (group : ∀ {ts tree} opening closing (inner : Derives (.chain .sum) ts tree),
      motive _ _ _ inner → motive _ _ _ (.group opening closing inner))
    (operand : ∀ {level ts tree} (inner : Derives (Level.operand level) ts tree),
      motive _ _ _ inner → motive _ _ _ (.operand inner))
    (operation : ∀ {level op ts us left right} position (hop : Operator.level op = level)
      (hleft : Derives (.chain level) ts left) (hright : Derives level.operand us right),
      motive _ _ _ hleft → motive _ _ _ hright →
        motive _ _ _ (Derives.operation position hop hleft hright))
    (h : Derives phrase ts tree) : motive phrase ts tree h :=
  Derives.rec literal group operand
    (fun position hop hleft hright => operation position (level_eq_sum hop) hleft hright)
    (fun position hop hleft hright => operation position (level_eq_product hop) hleft hright) h

/-- A chain is one operand, or it is split at an operator of its level. -/
theorem chain_cases {level : Level} (h : Derives (.chain level) ts tree) :
    Derives level.operand ts tree ∨
      ∃ op before after left right position, Operator.level op = level ∧
        Derives (.chain level) before left ∧ Derives level.operand after right ∧
        ts = before ++ ⟨.operator op, position⟩ :: after ∧
        tree = .binary left op right position := by
  cases h with
  | operand hinner => exact .inl hinner
  | sum position hop hleft hright =>
    exact .inr ⟨_, _, _, _, _, position, level_eq_sum hop, hleft, hright, rfl, rfl⟩
  | product position hop hleft hright =>
    exact .inr ⟨_, _, _, _, _, position, level_eq_product hop, hleft, hright, rfl, rfl⟩

/-! ## Phrases that are other phrases -/

theorem of_factor (h : Derives .factor ts tree) : Derives phrase ts tree := by
  have hproduct : Derives (.chain .product) ts tree := .operand h
  rcases phrase with _ | level
  · exact h
  · cases level with
    | product => exact hproduct
    | sum => exact .operand hproduct

theorem of_chain {level : Level} (h : Derives (.chain level) ts tree) :
    Derives (.chain .sum) ts tree := by
  cases level with
  | product => exact .operand h
  | sum => exact h

/-! ## The tokens of a phrase -/

theorem inorder_eq (h : Derives phrase ts tree) :
    tree.inorder = ts.filter fun located => !located.token.isParen := by
  induction h with
  | literal value position => rfl
  | group opening closing _ ih => simp [ih, Token.isParen]
  | operand _ ih => exact ih
  | operation position _ _ _ ihl ihr => simp [Expr.inorder, ihl, ihr, Token.isParen]

theorem countOperators_eq (h : Derives phrase ts tree) :
    countOperators ts = tree.operations := by
  induction h with
  | literal value position => rfl
  | group opening closing _ ih => simp [ih, Token.isOperator]
  | operand _ ih => exact ih
  | operation position _ _ _ ihl ihr =>
    simp [ihl, ihr, Token.isOperator, Expr.operations]
    omega

theorem ne_endOfInput (h : Derives phrase ts tree) :
    ∀ located ∈ ts, located.token ≠ .endOfInput := by
  induction h with
  | literal value position => simp
  | group opening closing _ ih =>
    intro located hmem
    simp only [List.cons_append, List.mem_cons, List.mem_append, List.not_mem_nil,
      or_false] at hmem
    rcases hmem with rfl | hmem | rfl
    · simp
    · exact ih located hmem
    · simp
  | operand _ ih => exact ih
  | operation position _ _ _ ihl ihr =>
    intro located hmem
    simp only [List.mem_append, List.mem_cons] at hmem
    rcases hmem with hmem | rfl | hmem
    · exact ihl located hmem
    · simp
    · exact ihr located hmem

/-! ## Matching parentheses -/

theorem balance_eq_zero (h : Derives phrase ts tree) :
    Nesting.balance Located.paren ts = 0 := by
  induction h with
  | literal value position => rfl
  | group opening closing _ ih =>
    rw [Nesting.balance_enclosed (Located.paren_left opening) (Located.paren_right closing)]
    exact ih
  | operand _ ih => exact ih
  | operation position _ _ _ ihl ihr => simp [ihl, ihr, Located.paren]

theorem prefix_nonneg (h : Derives phrase ts tree) :
    Nesting.NeverNegative Located.paren ts := by
  induction h with
  | literal value position =>
    exact .cons (Int.le_refl 0) fun before hbefore => by simp [List.prefix_nil.mp hbefore]
  | group opening closing _ ih =>
    exact .enclosed (Located.paren_left opening) (Located.paren_right closing) ih
  | operand _ ih => exact ih
  | operation position _ hl _ ihl ihr =>
    exact .append hl.balance_eq_zero ihl (.cons (Int.le_refl 0) ihr)

/-! ## Operators outside parentheses -/

/-- An operator of a phrase with all parentheses closed before it is one that
the phrase may hold there. -/
theorem holds_of_outermost (h : Derives phrase ts tree) {before after : List Located}
    {op : Operator} {position : Nat} (hts : ts = before ++ ⟨.operator op, position⟩ :: after)
    (hbefore : Nesting.balance Located.paren before = 0) : phrase.holds op.level = true := by
  induction h generalizing before after with
  | literal value _ =>
    cases before <;> simp at hts
  | @group ts _ opening closing hinner _ =>
    -- Behind the opening parenthesis no prefix gets back to balance zero.
    cases before with
    | nil => simp at hts
    | cons first before =>
      simp only [List.cons_append, List.cons.injEq] at hts
      obtain ⟨rfl, hts⟩ := hts
      have hprefix : before <+: ts := by
        rcases List.prefix_concat_iff.mp ⟨_, hts.symm⟩ with rfl | h
        · simp at hts
        · exact h
      have := hinner.prefix_nonneg before hprefix
      rw [Nesting.balance_cons, Located.paren_left] at hbefore
      omega
  | operand _ ih => exact Phrase.holds_chain_of_operand (ih hts hbefore)
  | operation _ hlevel hl _ ihl ihr =>
    -- It is the operator of this node, or it stands in the right operand or in the left one.
    rcases append_cons_cases hts with ⟨-, hop, -⟩ | ⟨between, rfl, hus⟩ | ⟨between, rfl, -⟩
    · simp only [Located.mk.injEq, Token.operator.injEq] at hop
      rw [Phrase.holds_chain, ← hop.1, hlevel, beq_self_eq_true, Bool.true_or]
    · refine Phrase.holds_chain_of_operand (ihr hus ?_)
      simpa [hl.balance_eq_zero, Located.paren] using hbefore
    · exact ihl rfl hbefore

/-! ## One tree for each list of tokens -/

/-- A phrase that stands between the operators of a level is not itself a
chain of that level with an operator in it. -/
theorem operand_ne_operation {level : Level} {op : Operator} {position : Nat}
    {left us : List Located} {tree leftTree : Expr} (hop : op.level = level)
    (hleft : Derives (.chain level) left leftTree)
    (h : Derives level.operand (left ++ ⟨.operator op, position⟩ :: us) tree) : False := by
  have := h.holds_of_outermost rfl hleft.balance_eq_zero
  rw [hop, Phrase.holds_operand_self] at this
  exact Bool.noConfusion this

/-- A chain is split at its last operator in one way only. -/
theorem operation_split {level : Level} {op other : Operator} {position place : Nat}
    {ts us ts' us' : List Located} {left right left' right' : Expr}
    (hop : op.level = level) (hother : other.level = level)
    (hl : Derives (.chain level) ts left) (hr : Derives level.operand us right)
    (hl' : Derives (.chain level) ts' left') (hr' : Derives level.operand us' right')
    (h : ts ++ ⟨.operator op, position⟩ :: us = ts' ++ ⟨.operator other, place⟩ :: us') :
    ts = ts' ∧ op = other ∧ position = place ∧ us = us' := by
  have hzero := hl.balance_eq_zero
  have hzero' := hl'.balance_eq_zero
  rcases append_cons_cases h with ⟨hts, hop', hus⟩ | ⟨between, rfl, rfl⟩ | ⟨between, rfl, rfl⟩
  · simp only [Located.mk.injEq, Token.operator.injEq] at hop'
    exact ⟨hts, hop'.1, hop'.2, hus⟩
  · -- The other operator would stand in the right operand, outside parentheses.
    have hbetween : Nesting.balance Located.paren between = 0 := by
      simpa [hzero, Located.paren] using hzero'
    have := hr.holds_of_outermost rfl hbetween
    rw [hother, Phrase.holds_operand_self] at this
    exact Bool.noConfusion this
  · have hbetween : Nesting.balance Located.paren between = 0 := by
      simpa [hzero', Located.paren] using hzero
    have := hr'.holds_of_outermost rfl hbetween
    rw [hop, Phrase.holds_operand_self] at this
    exact Bool.noConfusion this

/-- A list of tokens is a phrase with at most one tree. -/
theorem unique {other : Expr} (h : Derives phrase ts tree) (h' : Derives phrase ts other) :
    other = tree := by
  induction h generalizing other with
  | literal value position =>
    generalize hts : [(⟨.integer value, position⟩ : Located)] = ts' at h'
    cases h' with
    | literal => simpa [eq_comm] using hts
    | group => simp at hts
  | @group ts _ opening closing _ ih =>
    generalize hts : (⟨.leftParen, opening⟩ : Located) :: ts ++ [⟨.rightParen, closing⟩] = ts' at h'
    cases h' with
    | literal => simp at hts
    | group opening' closing' hinner =>
      simp only [List.cons_append, List.cons.injEq] at hts
      obtain ⟨rfl, -⟩ := List.append_inj' hts.2 rfl
      exact ih hinner
  | operand hinner ih =>
    rcases h'.chain_cases with h' | ⟨op, before, after, left, right, place, hop, hl, -, rfl, -⟩
    · exact ih h'
    · exact (operand_ne_operation hop hl hinner).elim
  | operation position hop hl hr ihl ihr =>
    rcases h'.chain_cases with h' | ⟨_, _, _, _, _, place, hother, hl', hr', hts, rfl⟩
    · exact (operand_ne_operation hop hl h').elim
    · obtain ⟨rfl, rfl, rfl, rfl⟩ := operation_split hop hother hl hr hl' hr' hts
      rw [ihl hl', ihr hr']

end Derives

end LineCalc
