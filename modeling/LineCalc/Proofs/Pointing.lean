import LineCalc.Line
import LineCalc.Proofs.Acceptance
/-
  Pointing: what stands in a line where its error points

  An error is found in one of three stages, and its position has come through
  all the stages before: the cursor counts it, a token carries it, a scan stops
  at that token or a node of the tree keeps it, and the evaluation fails at the
  node. `Error.Points` says what the characters of the line are there.

  What is proved:
    1. `SyntaxError.points_of_about` — what an error tells about an item of the
       line is what stands at its position;
    2. `Expr.mem_inorder_of_value` — an evaluation fails at an operator of the
       tree, and by a division only at a division;
    3. every error of a line points at what it is about.
-/

namespace LineCalc

/-! ## What an error points at -/

/-- A token of a kind begins behind so many characters of a text. -/
def KindAt (text : List Char) (position : Nat) (kind : TokenKind) : Prop :=
  ∃ token, TokenAt text position token ∧ token.kind = kind

/-- An operator stands behind so many characters of a text. -/
def OperatorAt (text : List Char) (position : Nat) : Prop :=
  ∃ op : Operator, text[position]? = some op.symbol

def SyntaxError.Points (text : List Char) : SyntaxError → Prop
  | .unexpectedToken found _ position =>
    KindAt text position found ∨ (found = .endOfInput ∧ position = text.length)
  | .trailingTokens found position => KindAt text position found
  | .nestingTooDeep _ position => text[position]? = some '('
  | .expressionTooLarge _ position => OperatorAt text position

def RuntimeError.Points (text : List Char) : RuntimeError → Prop
  | .divisionByZero position => text[position]? = some '/'
  | .overflow position => OperatorAt text position

/-- What an error is about stands where it points. -/
def Error.Points (text : List Char) : Error → Prop
  | .lexical e => e.At text
  | .syntactic e => e.Points text
  | .runtime e => e.Points text

/-! ## Errors of the tokens and of the grammar -/

theorem tokenAt_of_mem_stream {source : String} {located : Located}
    (h : .ok located ∈ Scan.stream source) :
    TokenAt source.toList located.position located.token ∨
      (located.token = .endOfInput ∧ located.position = source.toList.length) := by
  rcases List.mem_append.mp h with hmem | hmem
  · exact .inl (itemAt_of_mem_ofSource hmem)
  · obtain rfl := Except.ok.inj (List.mem_singleton.mp hmem)
    exact .inr ⟨rfl, String.length_toList.symm⟩

theorem SyntaxError.points_of_about {text : List Char} {located : Located} {e : SyntaxError}
    (hat : TokenAt text located.position located.token ∨
      (located.token = .endOfInput ∧ located.position = text.length))
    (h : e.About located) : e.Points text := by
  cases e with
  | unexpectedToken found expected position =>
    obtain ⟨rfl, rfl⟩ := h
    rcases hat with hat | ⟨htoken, hposition⟩
    · exact .inl ⟨_, hat, rfl⟩
    · exact .inr ⟨by rw [htoken]; rfl, hposition⟩
  | trailingTokens found position =>
    obtain ⟨rfl, rfl, hend⟩ := h
    rcases hat with hat | ⟨htoken, -⟩
    · exact ⟨_, hat, rfl⟩
    · exact absurd htoken hend
  | nestingTooDeep limit position =>
    obtain ⟨hparen, rfl⟩ := h
    rw [hparen] at hat
    rcases hat with hat | ⟨htoken, -⟩
    · exact hat
    · cases htoken
  | expressionTooLarge limit position =>
    obtain ⟨⟨op, hop⟩, rfl⟩ := h
    rw [hop] at hat
    rcases hat with hat | ⟨htoken, -⟩
    · exact ⟨op, hat⟩
    · cases htoken

theorem points_of_parseLine {source : String} {e : Error} (h : parseLine source = .error e) :
    e.Points source.toList := by
  have hscan := ofLine_of_parseLine_error h
  rcases Scan.resume_error hscan with ⟨lexical, hmem, rfl⟩ | ⟨_, hnone, -⟩ |
    ⟨located, failure, hmem, habout, rfl⟩
  · rcases List.mem_append.mp hmem with hmem | hmem
    · exact itemAt_of_mem_ofSource hmem
    · cases List.mem_singleton.mp hmem
  · cases hnone
  · exact SyntaxError.points_of_about (tokenAt_of_mem_stream hmem) habout

/-! ## Errors of the evaluation -/

/-- Whether an operator can fail in a way: any operator can overflow. -/
def RuntimeError.Of (op : Operator) : RuntimeError → Prop
  | .divisionByZero _ => op = .div
  | .overflow _ => True

theorem Value.ofExact_error {position : Nat} {n : Int} {e : RuntimeError}
    (h : ofExact position n = .error e) : e = .overflow position := by
  unfold ofExact at h
  split at h
  · cases h
  · exact (Except.error.inj h).symm

theorem Value.ofRounded_error {position : Nat} {r : Binary64} {e : RuntimeError}
    (h : ofRounded position r = .error e) : e = .overflow position := by
  unfold ofRounded at h
  split at h
  · cases h
  · exact (Except.error.inj h).symm

theorem Operator.apply_error {op : Operator} {left right : Value} {position : Nat}
    {e : RuntimeError} (h : op.apply left right position = .error e) :
    e.position = position ∧ e.Of op := by
  have hoverflow : e = .overflow position → e.position = position ∧ e.Of op := by
    rintro rfl
    exact ⟨rfl, trivial⟩
  rcases op.apply_cases left right with ⟨rfl, hzero⟩ | ⟨n, hexact⟩ | ⟨r, hrounded⟩
  · rw [hzero] at h
    cases h
    exact ⟨rfl, rfl⟩
  · rw [hexact] at h
    exact hoverflow (Value.ofExact_error h)
  · rw [hrounded] at h
    exact hoverflow (Value.ofRounded_error h)

theorem Expr.mem_inorder_of_value {tree : Expr} {e : RuntimeError} (h : tree.value = .error e) :
    ∃ op, ⟨.operator op, e.position⟩ ∈ tree.inorder ∧ e.Of op := by
  induction tree with
  | literal value position => cases h
  | binary left op right position ihl ihr =>
    rw [value] at h
    cases hleft : left.value with
    | error failure =>
      simp only [hleft] at h
      cases h
      obtain ⟨other, hmem, hof⟩ := ihl hleft
      exact ⟨other, List.mem_append_left _ hmem, hof⟩
    | ok l =>
      cases hright : right.value with
      | error failure =>
        simp only [hleft, hright] at h
        cases h
        obtain ⟨other, hmem, hof⟩ := ihr hright
        exact ⟨other, List.mem_append_right _ (List.mem_cons_of_mem _ hmem), hof⟩
      | ok r =>
        simp only [hleft, hright] at h
        obtain ⟨rfl, hof⟩ := Operator.apply_error h
        exact ⟨op, List.mem_append_right _ List.mem_cons_self, hof⟩

/-- An operator of the tree of a line stands in the line where the tree says. -/
theorem symbol_of_mem_inorder {source : String} {tree : Expr} {op : Operator} {position : Nat}
    (h : parseLine source = .ok tree) (hmem : ⟨.operator op, position⟩ ∈ tree.inorder) :
    source.toList[position]? = some op.symbol := by
  obtain ⟨ts, hts, hderives, -⟩ := derives_of_parseLine h
  rw [hderives.inorder_eq] at hmem
  have hitem : .ok ⟨.operator op, position⟩ ∈ Item.ofSource source := by
    rw [tokenize_eq_ok_iff.mp hts]
    exact List.mem_map_of_mem (List.mem_filter.mp hmem).1
  exact itemAt_of_mem_ofSource hitem

theorem points_of_value {source : String} {tree : Expr} {e : RuntimeError}
    (h : parseLine source = .ok tree) (hvalue : tree.value = .error e) :
    e.Points source.toList := by
  obtain ⟨op, hmem, hof⟩ := Expr.mem_inorder_of_value hvalue
  have hsymbol := symbol_of_mem_inorder h hmem
  cases e with
  | divisionByZero position =>
    obtain rfl : op = .div := hof
    exact hsymbol
  | overflow position => exact ⟨op, hsymbol⟩

/-! ## Errors of a line -/

/-- The error of a line points at what it is about, counted in characters of the
line. -/
theorem evaluateLine_points {source : String} {e : Error} (h : evaluateLine source = .error e) :
    e.Points source.toList := by
  unfold evaluateLine at h
  cases hparse : parseLine source with
  | error failure =>
    rw [hparse] at h
    cases h
    exact points_of_parseLine hparse
  | ok tree =>
    simp only [hparse, Expr.answer] at h
    cases hvalue : tree.value with
    | error failure =>
      rw [hvalue] at h
      cases h
      exact points_of_value hparse hvalue
    | ok value =>
      rw [hvalue] at h
      cases h

theorem evaluateLine_points_of_division :
    evaluateLine " (7/(1-1))" = .error (.runtime (.divisionByZero 3)) ∧
      (Error.runtime (.divisionByZero 3)).Points " (7/(1-1))".toList :=
  ⟨by decide +kernel, evaluateLine_points (by decide +kernel)⟩

end LineCalc
