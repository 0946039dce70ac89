import LineCalc.Proofs.Grammar
/-
  Scan: a line judged from left to right with two counters

  A scan knows whether an operand is due or has just ended, how many
  parentheses are open and how many operators it has seen. It pulls the items
  of a line one at a time, and decides at each token whether it takes it, and
  with it the next item, or stops. A lexical error is the answer as soon as it
  is pulled. A limit that a token exceeds is the answer when the item behind
  that token has been pulled. No tree is built and nothing is nested: this is
  the other account of which lines are expressions, and of the error of those
  that are not.

  What is proved:
    1. `resume_derives` — a phrase of the grammar within the limits takes a
       scan from an operand due to an operand ended;
    2. `within_of_resume` — tokens that a scan accepts keep both limits;
    3. `resume_error` — the answer of a scan that fails is a lexical error
       among the items, or a syntax error about a token among them.
-/

namespace LineCalc

/-- What a scan waits for. -/
inductive Scan.Phase where
  | due
  | ended
  deriving DecidableEq, Repr

/-- What a scan remembers of the tokens it has taken. -/
structure Scan where
  phase : Scan.Phase
  /-- The number of parentheses open. -/
  opened : Nat
  /-- The number of operators seen. -/
  operators : Nat
  deriving DecidableEq, Repr

/-- What a scan does at a token: it takes it, and may find a limit exceeded, or
it stops, with an error or without. -/
inductive Scan.Move where
  | take (after : Scan) (exceeded : Option SyntaxError)
  | stop (failure : Option SyntaxError)
  deriving DecidableEq, Repr

/-- What a syntax error tells about the token it is at. -/
def SyntaxError.About (located : Located) : SyntaxError → Prop
  | .unexpectedToken found _ position => found = located.token.kind ∧ position = located.position
  | .trailingTokens found position =>
    found = located.token.kind ∧ position = located.position ∧ located.token ≠ .endOfInput
  | .nestingTooDeep _ position => located.token = .leftParen ∧ position = located.position
  | .expressionTooLarge _ position =>
    (∃ op, located.token = .operator op) ∧ position = located.position

namespace Scan

/-- The move at a token. -/
def move (scan : Scan) (located : Located) : Move :=
  match scan.phase, located.token with
  | .due, .integer _ => .take { scan with phase := .ended } none
  | .due, .leftParen =>
    .take { scan with opened := scan.opened + 1 }
      (if scan.opened + 1 > maxNesting then
        some (.nestingTooDeep maxNesting located.position) else none)
  | .due, .operator _ | .due, .rightParen | .due, .endOfInput =>
    .stop (some (.unexpectedToken located.token.kind [.integer, .leftParen] located.position))
  | .ended, .operator _ =>
    .take { scan with phase := .due, operators := scan.operators + 1 }
      (if scan.operators + 1 > maxOperators then
        some (.expressionTooLarge maxOperators located.position) else none)
  | .ended, token =>
    if scan.opened > 0 then
      if token = .rightParen then .take { scan with opened := scan.opened - 1 } none
      else .stop (some (.unexpectedToken token.kind [.rightParen] located.position))
    else if token = .endOfInput then .stop none
    else .stop (some (.trailingTokens token.kind located.position))

/-- The answer of a scan that pulls the items of a list, the first of them
behind a token that may have exceeded a limit. -/
def resume (scan : Scan) (exceeded : Option SyntaxError) : List Item → Except Error Unit
  | [] => .ok ()
  | .error e :: _ => .error (.lexical e)
  | .ok located :: rest =>
    match exceeded with
    | some e => .error (.syntactic e)
    | none =>
      match scan.move located with
      | .take after exceeded => after.resume exceeded rest
      | .stop none => .ok ()
      | .stop (some e) => .error (.syntactic e)

/-- The items of a line and the end of input behind them, where every scan
stops. -/
def stream (source : String) : List Item :=
  Item.ofSource source ++ [.ok ⟨.endOfInput, source.length⟩]

/-- The answer for a line. -/
def ofLine (source : String) : Except Error Unit :=
  resume ⟨.due, 0, 0⟩ none (stream source)

/-! ## One move -/

theorem move_endOfInput (scan : Scan) (position : Nat) :
    ∃ failure, scan.move ⟨.endOfInput, position⟩ = .stop failure := by
  unfold move
  cases scan.phase with
  | due => exact ⟨_, rfl⟩
  | ended =>
    by_cases hopened : scan.opened > 0
    · exact ⟨_, by simp [hopened]; rfl⟩
    · exact ⟨none, by simp [hopened]⟩

/-- Nothing behind the end of input is pulled. -/
theorem resume_endOfInput (scan : Scan) (position : Nat) (rest : List Item) :
    scan.resume none (.ok ⟨.endOfInput, position⟩ :: rest) =
      scan.resume none [.ok ⟨.endOfInput, position⟩] := by
  obtain ⟨failure, hstop⟩ := scan.move_endOfInput position
  cases failure <;> simp only [resume, hstop]

theorem resume_stop {scan : Scan} {located : Located} {e : SyntaxError} (rest : List Item)
    (h : scan.move located = .stop (some e)) :
    scan.resume none (.ok located :: rest) = .error (.syntactic e) := by
  simp only [resume, h]

theorem take_cases {scan after : Scan} {located : Located} {exceeded : Option SyntaxError}
    (h : scan.move located = .take after exceeded) :
    (∃ value, located.token = .integer value ∧ scan.phase = .due ∧
      after = { scan with phase := .ended } ∧ exceeded = none) ∨
    (located.token = .leftParen ∧ scan.phase = .due ∧
      after = { scan with opened := scan.opened + 1 } ∧
      exceeded = if scan.opened + 1 > maxNesting then
        some (.nestingTooDeep maxNesting located.position) else none) ∨
    (∃ op, located.token = .operator op ∧ scan.phase = .ended ∧
      after = { scan with phase := .due, operators := scan.operators + 1 } ∧
      exceeded = if scan.operators + 1 > maxOperators then
        some (.expressionTooLarge maxOperators located.position) else none) ∨
    (located.token = .rightParen ∧ scan.phase = .ended ∧ scan.opened > 0 ∧
      after = { scan with opened := scan.opened - 1 } ∧ exceeded = none) := by
  unfold move at h
  split at h
  · rename_i value hphase htoken
    cases h
    exact .inl ⟨value, htoken, hphase, rfl, rfl⟩
  · rename_i hphase htoken
    cases h
    exact .inr (.inl ⟨htoken, hphase, rfl, rfl⟩)
  · cases h
  · cases h
  · cases h
  · rename_i op hphase htoken
    cases h
    exact .inr (.inr (.inl ⟨op, htoken, hphase, rfl, rfl⟩))
  · rename_i hphase _
    -- Behind an operand no other token is taken than the end of its parenthesis.
    by_cases hopened : scan.opened > 0
    · by_cases htoken : located.token = .rightParen
      · rw [if_pos hopened, if_pos htoken] at h
        cases h
        exact .inr (.inr (.inr ⟨htoken, hphase, hopened, rfl, rfl⟩))
      · rw [if_pos hopened, if_neg htoken] at h
        cases h
    · by_cases htoken : located.token = .endOfInput
      · rw [if_neg hopened, if_pos htoken] at h
        cases h
      · rw [if_neg hopened, if_neg htoken] at h
        cases h

/-- The three ways in which a scan stops: at the end of the line, or with an
error about the token it stops at. -/
theorem stop_cases {scan : Scan} {located : Located} {failure : Option SyntaxError}
    (h : scan.move located = .stop failure) :
    (failure = none ∧ located.token = .endOfInput) ∨
    (∃ expected, failure =
      some (.unexpectedToken located.token.kind expected located.position)) ∨
    (located.token ≠ .endOfInput ∧
      failure = some (.trailingTokens located.token.kind located.position)) := by
  unfold move at h
  split at h
  · cases h
  · cases h
  · cases h
    exact .inr (.inl ⟨_, rfl⟩)
  · cases h
    exact .inr (.inl ⟨_, rfl⟩)
  · cases h
    exact .inr (.inl ⟨_, rfl⟩)
  · cases h
  · by_cases hopened : scan.opened > 0
    · by_cases htoken : located.token = .rightParen
      · rw [if_pos hopened, if_pos htoken] at h
        cases h
      · rw [if_pos hopened, if_neg htoken] at h
        cases h
        exact .inr (.inl ⟨_, rfl⟩)
    · by_cases htoken : located.token = .endOfInput
      · rw [if_neg hopened, if_pos htoken] at h
        cases h
        exact .inl ⟨rfl, htoken⟩
      · rw [if_neg hopened, if_neg htoken] at h
        cases h
        exact .inr (.inr ⟨htoken, rfl⟩)

/-- A token that is taken without exceeding a limit is counted, and leaves both
counts within their limits. -/
theorem counts_of_take {scan after : Scan} {located : Located}
    (h : scan.move located = .take after none) :
    (after.opened : Int) = scan.opened + located.paren ∧
    after.operators = scan.operators + (if located.token.isOperator then 1 else 0) ∧
    (scan.opened ≤ maxNesting → after.opened ≤ maxNesting) ∧
    (scan.operators ≤ maxOperators → after.operators ≤ maxOperators) := by
  rcases take_cases h with ⟨_, htoken, -, rfl, -⟩ | ⟨htoken, -, rfl, hlimit⟩ |
    ⟨_, htoken, -, rfl, hlimit⟩ | ⟨htoken, -, hopened, rfl, -⟩
  · simp [Located.paren, Token.isOperator, htoken]
  · have hwithin : scan.opened + 1 ≤ maxNesting :=
      Nat.le_of_not_gt fun hover => by simp [hover] at hlimit
    simp [Located.paren, Token.isOperator, htoken, hwithin]
  · have hwithin : scan.operators + 1 ≤ maxOperators :=
      Nat.le_of_not_gt fun hover => by simp [hover] at hlimit
    simp [Located.paren, Token.isOperator, htoken, hwithin]
  · simp only [Located.paren, Token.isOperator, htoken]
    exact ⟨by omega, rfl, fun _ => by omega, id⟩

theorem move_unexpected {opened operators : Nat} {located : Located}
    (hinteger : ∀ value, located.token ≠ .integer value) (hparen : located.token ≠ .leftParen) :
    move ⟨.due, opened, operators⟩ located =
      .stop (some (.unexpectedToken located.token.kind [.integer, .leftParen]
        located.position)) := by
  cases htoken : located.token with
  | integer value => exact absurd htoken (hinteger value)
  | leftParen => exact absurd htoken hparen
  | operator op => simp [move, htoken]
  | rightParen => simp [move, htoken]
  | endOfInput => simp [move, htoken]

theorem move_unclosed {opened operators : Nat} {located : Located} (hopened : opened > 0)
    (hoperator : ∀ op, located.token ≠ .operator op) (hparen : located.token ≠ .rightParen) :
    move ⟨.ended, opened, operators⟩ located =
      .stop (some (.unexpectedToken located.token.kind [.rightParen] located.position)) := by
  cases htoken : located.token with
  | operator op => exact absurd htoken (hoperator op)
  | rightParen => exact absurd htoken hparen
  | integer value => simp [move, htoken, hopened]
  | leftParen => simp [move, htoken, hopened]
  | endOfInput => simp [move, htoken, hopened]

theorem move_trailing {operators : Nat} {located : Located}
    (hoperator : ∀ op, located.token ≠ .operator op) (hend : located.token ≠ .endOfInput) :
    move ⟨.ended, 0, operators⟩ located =
      .stop (some (.trailingTokens located.token.kind located.position)) := by
  cases htoken : located.token with
  | operator op => exact absurd htoken (hoperator op)
  | endOfInput => exact absurd htoken hend
  | integer value => simp [move, htoken]
  | leftParen => simp [move, htoken]
  | rightParen => simp [move, htoken]

/-! ## Tokens that keep to the grammar are accepted -/

theorem resume_take {scan after : Scan} {located : Located} (rest : List Item)
    (h : scan.move located = .take after none) :
    scan.resume none (.ok located :: rest) = after.resume none rest := by
  simp only [resume, h]

theorem move_leftParen {opened : Nat} (operators position : Nat) (h : opened + 1 ≤ maxNesting) :
    move ⟨.due, opened, operators⟩ ⟨.leftParen, position⟩ =
      .take ⟨.due, opened + 1, operators⟩ none := by
  simp [move, Nat.not_lt.mpr h]

theorem move_leftParen_over {opened : Nat} (operators position : Nat)
    (h : opened + 1 > maxNesting) :
    move ⟨.due, opened, operators⟩ ⟨.leftParen, position⟩ =
      .take ⟨.due, opened + 1, operators⟩ (some (.nestingTooDeep maxNesting position)) := by
  simp [move, h]

theorem move_rightParen {opened : Nat} (operators position : Nat) (h : opened > 0) :
    move ⟨.ended, opened, operators⟩ ⟨.rightParen, position⟩ =
      .take ⟨.ended, opened - 1, operators⟩ none := by
  simp [move, h]

theorem move_operator {operators : Nat} (opened : Nat) (op : Operator) (position : Nat)
    (h : operators + 1 ≤ maxOperators) :
    move ⟨.ended, opened, operators⟩ ⟨.operator op, position⟩ =
      .take ⟨.due, opened, operators + 1⟩ none := by
  simp [move, Nat.not_lt.mpr h]

theorem move_operator_over {operators : Nat} (opened : Nat) (op : Operator) (position : Nat)
    (h : operators + 1 > maxOperators) :
    move ⟨.ended, opened, operators⟩ ⟨.operator op, position⟩ =
      .take ⟨.due, opened, operators + 1⟩
        (some (.expressionTooLarge maxOperators position)) := by
  simp [move, h]

/-- A phrase within the limits takes a scan from an operand due to an operand
ended, with its operators counted and its parentheses closed again. -/
theorem resume_derives {phrase : Phrase} {ts : List Located} {tree : Expr}
    (h : Derives phrase ts tree) {opened operators : Nat} {rest : List Item}
    (hnesting : opened + Nesting.deepest Located.paren ts ≤ maxNesting)
    (hoperators : operators + countOperators ts ≤ maxOperators) :
    resume ⟨.due, opened, operators⟩ none (ts.map .ok ++ rest) =
      resume ⟨.ended, opened, operators + countOperators ts⟩ none rest := by
  induction h generalizing opened operators rest with
  | literal value position => rfl
  | @group ts _ opening closing hinner ih =>
    -- Inside the parentheses one more is open, and one less may be opened.
    rw [Nesting.deepest_enclosed (Located.paren_left opening) (Located.paren_right closing)
      hinner.balance_eq_zero] at hnesting
    have hnonneg := Nesting.deepest_nonneg Located.paren ts
    have hcount : countOperators (⟨.leftParen, opening⟩ :: ts ++ [⟨.rightParen, closing⟩]) =
        countOperators ts := by simp [Token.isOperator]
    rw [hcount] at hoperators ⊢
    simp only [List.cons_append, List.map_cons, List.map_append, List.map_nil, List.append_assoc,
      List.nil_append]
    rw [resume_take _ (move_leftParen operators opening (by omega)),
      ih (by omega) hoperators, resume_take _ (move_rightParen _ closing (Nat.succ_pos opened))]
    rfl
  | operand _ ih => exact ih hnesting hoperators
  | @operation level op ts us left right position hop hl _ ihl ihr =>
    -- The left operand has closed what it opened, so the right one begins as deep.
    simp only [Nesting.deepest_append, Nesting.deepest, hl.balance_eq_zero] at hnesting
    have hcount : countOperators (ts ++ ⟨.operator op, position⟩ :: us) =
        countOperators ts + 1 + countOperators us := by
      simp [Token.isOperator]
      omega
    rw [hcount] at hoperators ⊢
    have hzero : Located.paren ⟨.operator op, position⟩ = 0 := rfl
    simp only [List.map_append, List.map_cons, List.append_assoc, List.cons_append]
    rw [ihl (by omega) (by omega), resume_take _ (move_operator opened op position (by omega)),
      ihr (by omega) (by omega)]
    simp only [Nat.add_assoc]

theorem take_of_accepted {scan : Scan} {located last : Located} {ts : List Located}
    (haccepted : scan.resume none ((located :: ts).map .ok ++ [.ok last]) = .ok ())
    (hend : located.token ≠ .endOfInput) :
    ∃ after, scan.move located = .take after none ∧
      after.resume none (ts.map .ok ++ [.ok last]) = .ok () := by
  simp only [List.map_cons, List.cons_append, resume] at haccepted
  cases hmove : scan.move located with
  | stop failure =>
    simp only [hmove] at haccepted
    cases failure with
    | none =>
      rcases stop_cases hmove with ⟨-, htoken⟩ | ⟨_, hfailure⟩ | ⟨-, hfailure⟩
      · exact absurd htoken hend
      · cases hfailure
      · cases hfailure
    | some e => cases haccepted
  | take after exceeded =>
    simp only [hmove] at haccepted
    cases exceeded with
    | none => exact ⟨after, rfl, haccepted⟩
    | some e =>
      -- Something follows the token, so the limit it exceeds would be the answer.
      cases ts with
      | nil => cases haccepted
      | cons located ts => cases haccepted

theorem within_of_resume {scan : Scan} {ts : List Located} {last : Located}
    (haccepted : scan.resume none (ts.map .ok ++ [.ok last]) = .ok ())
    (hend : ∀ located ∈ ts, located.token ≠ .endOfInput)
    (hopened : scan.opened ≤ maxNesting) (hoperators : scan.operators ≤ maxOperators) :
    scan.opened + Nesting.deepest Located.paren ts ≤ maxNesting ∧
      scan.operators + countOperators ts ≤ maxOperators := by
  induction ts generalizing scan with
  | nil =>
    simp only [Nesting.deepest, countOperators_nil]
    omega
  | cons located ts ih =>
    obtain ⟨after, hmove, hrest⟩ := take_of_accepted haccepted (hend located List.mem_cons_self)
    obtain ⟨hparen, hcount, hopened', hoperators'⟩ := counts_of_take hmove
    have := ih hrest (fun x hx => hend x (List.mem_cons_of_mem located hx))
      (hopened' hopened) (hoperators' hoperators)
    simp only [Nesting.deepest, countOperators_cons]
    omega

/-! ## What the error of a scan is about -/

theorem about_of_take {scan after : Scan} {located : Located} {e : SyntaxError}
    (h : scan.move located = .take after (some e)) : e.About located := by
  rcases take_cases h with ⟨_, -, -, -, hnone⟩ | ⟨htoken, -, -, hlimit⟩ |
    ⟨op, htoken, -, -, hlimit⟩ | ⟨-, -, -, -, hnone⟩
  · cases hnone
  · split at hlimit
    · cases hlimit
      exact ⟨htoken, rfl⟩
    · cases hlimit
  · split at hlimit
    · cases hlimit
      exact ⟨⟨op, htoken⟩, rfl⟩
    · cases hlimit
  · cases hnone

theorem about_of_stop {scan : Scan} {located : Located} {e : SyntaxError}
    (h : scan.move located = .stop (some e)) : e.About located := by
  rcases stop_cases h with ⟨hnone, -⟩ | ⟨expected, hfailure⟩ | ⟨htoken, hfailure⟩
  · cases hnone
  · cases hfailure
    exact ⟨rfl, rfl⟩
  · cases hfailure
    exact ⟨rfl, rfl, htoken⟩

/-- The answer of a scan that fails is a lexical error among the items, the
error of a limit exceeded before them, or an error about a token of theirs. -/
theorem resume_error {scan : Scan} {exceeded : Option SyntaxError} {items : List Item}
    {e : Error} (h : scan.resume exceeded items = .error e) :
    (∃ lexical, .error lexical ∈ items ∧ e = .lexical lexical) ∨
    (∃ failure, exceeded = some failure ∧ e = .syntactic failure) ∨
    (∃ located failure, .ok located ∈ items ∧ failure.About located ∧
      e = .syntactic failure) := by
  induction items generalizing scan exceeded with
  | nil => cases h
  | cons item rest ih =>
    cases item with
    | error lexical =>
      cases h
      exact .inl ⟨lexical, List.mem_cons_self, rfl⟩
    | ok located =>
      cases exceeded with
      | some failure =>
        cases h
        exact .inr (.inl ⟨failure, rfl, rfl⟩)
      | none =>
        simp only [resume] at h
        cases hmove : scan.move located with
        | stop failure =>
          simp only [hmove] at h
          cases failure with
          | none => cases h
          | some failure =>
            cases h
            exact .inr (.inr ⟨located, failure, List.mem_cons_self, about_of_stop hmove, rfl⟩)
        | take after exceeded =>
          simp only [hmove] at h
          -- What was exceeded before the rest was exceeded by the token just taken.
          rcases ih h with ⟨lexical, hmem, rfl⟩ | ⟨failure, rfl, rfl⟩ |
            ⟨other, failure, hmem, habout, rfl⟩
          · exact .inl ⟨lexical, List.mem_cons_of_mem _ hmem, rfl⟩
          · exact .inr (.inr ⟨located, failure, List.mem_cons_self, about_of_take hmove, rfl⟩)
          · exact .inr (.inr ⟨other, failure, List.mem_cons_of_mem _ hmem, habout, rfl⟩)

end Scan

end LineCalc
