import LineCalc.Proofs.Composing
import LineCalc.Proofs.Rendering
/-
  Decoding: the prefix text of a tree holds all of it but the positions

  In the prefix form every operator stands before its two operands, so the words
  between the spaces are enough: the parentheses may be left out. A word that is one
  operator character is an operator, any other word is a literal, be it negative.
  `Expr.ofText?` reads the words from the right, and an operator takes the two trees
  that begin behind it.

  What is proved:
    1. `Expr.wordsOf_text` — the words of a text are those of the tree, in preorder;
    2. `Expr.foldrM_pushWord_words` — the words of a tree put that tree before all
       that is read behind them;
    3. `Expr.text_determines` — a tree is read back from its text, up to positions.
-/

namespace LineCalc

/-! ## Words -/

/-- The words of a text: what stands between its spaces, some characters left out. -/
def wordsOf (skip : Char → Bool) (text : List Char) : List (List Char) :=
  (text.filter fun c => !skip c).splitOn ' '

section
variable {skip : Char → Bool}

theorem wordsOf_space (h : skip ' ' = false) (text more : List Char) :
    wordsOf skip (text ++ ' ' :: more) = wordsOf skip text ++ wordsOf skip more := by
  simp [wordsOf, List.splitOn, List.splitOnP_append_cons, h]

theorem wordsOf_cons {c : Char} (h : skip c = true) (text : List Char) :
    wordsOf skip (c :: text) = wordsOf skip text := by
  simp [wordsOf, h]

theorem wordsOf_concat {c : Char} (h : skip c = true) (text : List Char) :
    wordsOf skip (text ++ [c]) = wordsOf skip text := by
  simp [wordsOf, h]

theorem wordsOf_word {word : List Char} (h : ∀ c ∈ word, c ≠ ' ' ∧ skip c = false) :
    wordsOf skip word = [word] := by
  have hkept : word.filter (fun c => !skip c) = word := by
    apply List.filter_eq_self.mpr
    intro c hmem
    simp [(h c hmem).2]
  rw [wordsOf, hkept]
  apply List.splitOnP_eq_singleton
  intro c hmem
  simp [(h c hmem).1]

end

/-! ## The words of a tree -/

/-- Whether a character may stand in a word. -/
def isWordChar (c : Char) : Bool := c.isDigit || (Operator.ofChar? c).isSome

theorem ne_of_isWordChar {c d : Char} (hc : isWordChar c = true) (hd : isWordChar d = false) :
    c ≠ d := by
  rintro rfl
  rw [hd] at hc
  cases hc

theorem isWordChar_symbol (op : Operator) : isWordChar op.symbol = true := by
  cases op <;> rfl

theorem isWordChar_of_mem_ofInt {c : Char} {n : Int} (h : c ∈ Digits.ofInt n) :
    isWordChar c = true := by
  rcases Digits.eq_minus_or_isDigit_of_mem_ofInt h with rfl | hdigit
  · rfl
  · simp [isWordChar, hdigit]

/-- The operator that a word is, if it is one. -/
def Operator.ofWord? : List Char → Option Operator
  | [c] => ofChar? c
  | _ => none

theorem Operator.ofWord?_ofInt (n : Int) : ofWord? (Digits.ofInt n) = none := by
  unfold ofWord?
  split
  · rename_i c hword
    apply ofChar?_of_isDigit
    unfold Digits.ofInt at hword
    split at hword
    · exact absurd (List.cons.inj hword).2 (Digits.ofNat_ne_nil _)
    · exact Digits.isDigit_of_mem_ofNat (hword ▸ List.mem_singleton_self c)
  · rfl

namespace Expr

/-- The words of a tree: the operator of an operation before the words of its operands. -/
def words : Expr → List (List Char)
  | literal value _ => [Digits.ofInt value.toInt]
  | binary left op right _ => [op.symbol] :: (left.words ++ right.words)

/-- Whether a character only encloses. -/
def isParen (c : Char) : Bool := c = '(' || c = ')'

theorem wordsOf_enclosed (text : List Char) :
    wordsOf isParen ('(' :: (text ++ [')'])) = wordsOf isParen text := by
  rw [wordsOf_cons rfl, wordsOf_concat rfl]

theorem wordsOf_of_isWordChar {word : List Char} (h : ∀ c ∈ word, isWordChar c = true) :
    wordsOf isParen word = [word] := by
  apply wordsOf_word
  intro c hmem
  simp [isParen, ne_of_isWordChar (h c hmem) (d := ' ') rfl,
    ne_of_isWordChar (h c hmem) (d := '(') rfl, ne_of_isWordChar (h c hmem) (d := ')') rfl]

theorem wordsOf_text (tree : Expr) : wordsOf isParen tree.text.toList = tree.words := by
  induction tree with
  | literal value position =>
    rw [text, Digits.intText, String.toList_ofList, words]
    exact wordsOf_of_isWordChar fun c hmem => isWordChar_of_mem_ofInt hmem
  | binary left op right position ihl ihr =>
    have htext : (binary left op right position).text.toList =
        '(' ::
          (([op.symbol] ++ ' ' :: (left.text.toList ++ ' ' :: right.text.toList)) ++ [')']) := by
      simp [text, Operator.text, String.toList_append]
    have hop : wordsOf isParen [op.symbol] = [[op.symbol]] :=
      wordsOf_of_isWordChar (by simp [isWordChar_symbol])
    rw [htext, wordsOf_enclosed, wordsOf_space rfl, wordsOf_space rfl, ihl, ihr, hop]
    rfl

/-! ## Reading the words -/

/-- The trees from a word on: an operator takes the first two of those behind it. -/
def pushWord (word : List Char) (stack : List Expr) : Option (List Expr) :=
  match Operator.ofWord? word with
  | none => some (literal (Int64.ofInt (Digits.toInt word)) 0 :: stack)
  | some op =>
    match stack with
    | left :: right :: below => some (binary left op right 0 :: below)
    | _ => none

/-- The tree of a prefix text without its positions, if the words are those of one tree. -/
def ofText? (text : String) : Option Expr :=
  match (wordsOf isParen text.toList).foldrM pushWord [] with
  | some [tree] => some tree
  | _ => none

/-- The words of a tree are read as that tree, whatever is read behind them. -/
theorem foldrM_pushWord_words (tree : Expr) (stack : List Expr) :
    tree.words.foldrM pushWord stack = some (tree.erased :: stack) := by
  -- The words are read from the right, so the operands stand on the stack before the operator.
  induction tree generalizing stack with
  | literal value position =>
    simp [words, pushWord, Operator.ofWord?_ofInt, Digits.toInt_ofInt, erased]
  | binary left op right position ihl ihr =>
    have hop : Operator.ofWord? [op.symbol] = some op := Operator.ofChar?_symbol op
    simp [words, List.foldrM_append, ihl, ihr, pushWord, hop, erased]

theorem ofText?_text (tree : Expr) : ofText? tree.text = some tree.erased := by
  rw [ofText?, wordsOf_text, foldrM_pushWord_words]

theorem text_erased (tree : Expr) : tree.erased.text = tree.text := by
  induction tree with
  | literal value position => rfl
  | binary left op right position ihl ihr => simp only [erased, text, ihl, ihr]

/-- A tree is read back from its prefix text with all operators and literals, positions
apart. So two trees have the same text exactly if they differ in positions only. -/
theorem text_determines :
    (∀ tree : Expr, ofText? tree.text = some tree.erased) ∧
      ∀ a b : Expr, a.text = b.text ↔ a.erased = b.erased := by
  refine ⟨ofText?_text, ?_⟩
  intro a b
  constructor
  · intro h
    have hread := congrArg ofText? h
    rw [ofText?_text, ofText?_text] at hread
    exact Option.some.inj hread
  · intro h
    rw [← text_erased a, h, text_erased b]

example : ofText? "(- -1 (- 2 -3))" =
    some (binary (literal (-1) 0) .sub (binary (literal 2 0) .sub (literal (-3) 0) 0) 0) := by
  decide

end Expr

end LineCalc
