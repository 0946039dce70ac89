import LineCalc.Proofs.Activations
import LineCalc.Proofs.Resuming
/-
  Accounting: both counts of a parser at every moment of a call

  The depth of a parser counts the parentheses open, its operators those taken.
  A step takes at most one token and counts it. So at each moment the counts are
  those at the start of the call and what the tokens taken since then add, also
  when the call fails: the group that a failed call leaves open stays counted. A
  group that waits for its end has counted its parenthesis, and an end that is
  counted off is the end of one of these.

  What is proved:
    1. `Machine.step_goes` — what a step can do, the activations apart: it stays,
       it takes a token, it fails, or it hands an error on;
    2. `Standing.Since.goes` — the account is kept by each of these;
    3. `Machine.Reaches.since` — and so by every call, at every moment of it;
    4. `Parser.calls_keep_counts` — the account of a call on a line, after any
       other calls.
-/

namespace LineCalc

/-- Whether an error is about a limit that a token taken exceeds. Any other syntax
error is about the look-ahead, which is not taken. -/
def SyntaxError.isLimit : SyntaxError → Bool
  | .unexpectedToken .. => false
  | .trailingTokens .. => false
  | .nestingTooDeep .. => true
  | .expressionTooLarge .. => true

/-! ## Moments without their activations -/

/-- A moment of a call as far as the counts go: the parser, the number of groups
that wait for their end, and the error that goes up if the call has failed. -/
structure Standing where
  parser : Parser
  waiting : Nat
  failure : Option Error

/-- What a step can do. The error that goes up may leave groups behind that wait. -/
inductive Standing.Goes : Standing → Standing → Prop where
  | stay (parser : Parser) (waiting : Nat) : Goes ⟨parser, waiting, none⟩ ⟨parser, waiting, none⟩
  | rise (parser : Parser) {waiting left : Nat} (e : Error) : left ≤ waiting →
    Goes ⟨parser, waiting, some e⟩ ⟨parser, left, some e⟩
  | refuse {parser : Parser} {waiting left : Nat} {e : SyntaxError} : e.About parser.current →
    e.isLimit = false → left ≤ waiting →
    Goes ⟨parser, waiting, none⟩ ⟨parser, left, some (.syntactic e)⟩
  | miss {parser after : Parser} {waiting left : Nat} {e : LexError} :
    parser.current.token ≠ .endOfInput → parser.advance = (.error (.lexical e), after) →
    left ≤ waiting → Goes ⟨parser, waiting, none⟩ ⟨after, left, some (.lexical e)⟩
  | integer {parser after : Parser} {taken : Located} {value : Int64} (waiting : Nat) :
    parser.current.token = .integer value → parser.advance = (.ok taken, after) →
    Goes ⟨parser, waiting, none⟩ ⟨after, waiting, none⟩
  | opening {parser after : Parser} {taken : Located} (waiting : Nat) :
    parser.current.token = .leftParen → parser.advance = (.ok taken, after) →
    after.depth + 1 ≤ maxNesting →
    Goes ⟨parser, waiting, none⟩ ⟨{ after with depth := after.depth + 1 }, waiting + 1, none⟩
  | tooDeep {parser after : Parser} {taken : Located} (waiting : Nat) :
    parser.current.token = .leftParen → parser.advance = (.ok taken, after) →
    Goes ⟨parser, waiting, none⟩ ⟨{ after with depth := after.depth + 1 }, waiting,
      some (.syntactic (.nestingTooDeep maxNesting taken.position))⟩
  | operator {parser after : Parser} {taken : Located} {op : Operator} (waiting : Nat) :
    parser.current.token = .operator op → parser.advance = (.ok taken, after) →
    Goes ⟨parser, waiting, none⟩ ⟨{ after with operators := after.operators + 1 }, waiting, none⟩
  | tooLarge {parser after : Parser} {taken : Located} {op : Operator} (waiting : Nat) :
    parser.current.token = .operator op → parser.advance = (.ok taken, after) →
    Goes ⟨parser, waiting, none⟩ ⟨{ after with operators := after.operators + 1 }, waiting,
      some (.syntactic (.expressionTooLarge maxOperators taken.position))⟩
  | closing {parser after : Parser} {taken : Located} (waiting : Nat) :
    parser.current.token = .rightParen → parser.advance = (.ok taken, after) →
    Goes ⟨parser, waiting + 1, none⟩ ⟨{ after with depth := after.depth - 1 }, waiting, none⟩

/-- The number of groups among activations that wait. -/
def Frame.groupings : List Frame → Nat
  | [] => 0
  | .grouping :: stack => groupings stack + 1
  | .line :: stack => groupings stack
  | .first _ :: stack => groupings stack
  | .next _ _ _ _ :: stack => groupings stack
  | .primary :: stack => groupings stack

theorem Frame.groupings_le_cons (frame : Frame) (stack : List Frame) :
    groupings stack ≤ groupings (frame :: stack) := by
  cases frame with
  | grouping => exact Nat.le_succ _
  | _ => exact Nat.le_refl _

namespace Machine

/-- The parser at a moment. -/
def parser : Machine → Parser
  | ⟨.call _ parser, _⟩ => parser
  | ⟨.group parser, _⟩ => parser
  | ⟨.loop _ _ parser, _⟩ => parser
  | ⟨.reply (_, parser), _⟩ => parser

/-- The error that goes up at a moment, if there is one. -/
def failure : Machine → Option Error
  | ⟨.call _ _, _⟩ => none
  | ⟨.group _, _⟩ => none
  | ⟨.loop _ _ _, _⟩ => none
  | ⟨.reply (.ok _, _), _⟩ => none
  | ⟨.reply (.error e, _), _⟩ => some e

def standing (moment : Machine) : Standing :=
  ⟨moment.parser, Frame.groupings moment.stack, moment.failure⟩

end Machine

/-! ## One step -/

namespace Parser
variable {parser after : Parser}

theorem advance_error {e : Error} (h : parser.advance = (.error e, after)) :
    ∃ lexical, e = .lexical lexical ∧
      parser.cursor.nextToken = (.error lexical, after.cursor) ∧
      after.current = parser.current ∧ after.depth = parser.depth ∧
      after.operators = parser.operators := by
  unfold advance at h
  cases hnext : parser.cursor.nextToken with
  | mk item cursor =>
    rw [hnext] at h
    cases item with
    | ok next => cases h
    | error lexical =>
      cases h
      exact ⟨lexical, rfl, rfl, rfl, rfl, rfl⟩

theorem eat_ok {expected : TokenKind} {taken : Located}
    (h : parser.eat expected = (.ok taken, after)) :
    parser.current.token.kind = expected ∧ parser.advance = (.ok taken, after) := by
  unfold eat at h
  split at h
  · rename_i hkind
    exact ⟨hkind, h⟩
  · cases h

theorem goes_of_advance_error {e : Error} {waiting left : Nat}
    (hend : parser.current.token ≠ .endOfInput) (h : parser.advance = (.error e, after))
    (hleft : left ≤ waiting) :
    Standing.Goes ⟨parser, waiting, none⟩ ⟨after, left, some e⟩ := by
  obtain ⟨lexical, rfl, -⟩ := advance_error h
  exact .miss hend h hleft

theorem goes_of_eat_error {expected : TokenKind} {e : Error} {waiting left : Nat}
    (hexpected : expected ≠ .endOfInput) (h : parser.eat expected = (.error e, after))
    (hleft : left ≤ waiting) :
    Standing.Goes ⟨parser, waiting, none⟩ ⟨after, left, some e⟩ := by
  unfold eat at h
  split at h
  · rename_i hkind
    refine goes_of_advance_error ?_ h hleft
    intro htoken
    rw [htoken] at hkind
    exact hexpected hkind.symm
  · cases h
    exact .refuse ⟨rfl, rfl⟩ rfl hleft

end Parser

theorem Token.of_kind_leftParen {token : Token} (h : token.kind = .leftParen) :
    token = .leftParen := by
  cases token <;> simp_all [Token.kind]

theorem Token.of_kind_rightParen {token : Token} (h : token.kind = .rightParen) :
    token = .rightParen := by
  cases token <;> simp_all [Token.kind]

namespace Machine

theorem enter_goes (stack : List Frame) (routine : Routine) (parser : Parser) :
    Standing.Goes ⟨parser, Frame.groupings stack, none⟩ (enter stack routine parser).standing := by
  match routine with
  | .line => exact .stay _ _
  | .phrase (.chain level) => exact .stay _ _
  | .phrase .factor =>
    simp only [enter]
    cases htoken : parser.current.token with
    | integer value =>
      cases heat : parser.eat .integer with
      | mk result after =>
        cases result with
        | error e => exact Parser.goes_of_eat_error (by simp) heat (Nat.le_refl _)
        | ok taken => exact .integer _ htoken (Parser.eat_ok heat).2
    | leftParen => exact .stay _ _
    | operator op => exact .refuse ⟨rfl, rfl⟩ rfl (Nat.le_refl _)
    | rightParen => exact .refuse ⟨rfl, rfl⟩ rfl (Nat.le_refl _)
    | endOfInput => exact .refuse ⟨rfl, rfl⟩ rfl (Nat.le_refl _)

theorem openGroup_goes (stack : List Frame) (parser : Parser) :
    Standing.Goes ⟨parser, Frame.groupings stack, none⟩ (openGroup stack parser).standing := by
  unfold openGroup
  cases heat : parser.eat .leftParen with
  | mk result after =>
    cases result with
    | error e => exact Parser.goes_of_eat_error (by simp) heat (Nat.le_refl _)
    | ok taken =>
      obtain ⟨hkind, hadvance⟩ := Parser.eat_ok heat
      have htoken := Token.of_kind_leftParen hkind
      simp only [proceed]
      split
      · exact .tooDeep _ htoken hadvance
      · rename_i hlimit
        exact .opening _ htoken hadvance (Nat.le_of_not_gt hlimit)

theorem goOn_goes (stack : List Frame) (level : Level) (left : Expr) (parser : Parser) :
    Standing.Goes ⟨parser, Frame.groupings stack, none⟩
      (goOn stack level left parser).standing := by
  unfold goOn
  cases hop : parser.current.token.operatorAt? level with
  | none => exact .stay _ _
  | some op =>
    obtain ⟨htoken, -⟩ := Token.operatorAt?_eq_some_iff.mp hop
    cases hadvance : parser.advance with
    | mk result middle =>
      cases result with
      | error e =>
        exact Parser.goes_of_advance_error (by simp [htoken]) hadvance (Nat.le_refl _)
      | ok taken =>
        simp only [proceed, Parser.countOperator]
        split
        · rename_i heq
          split at heq
          · cases heq
          · cases heq
            exact .operator _ htoken hadvance
        · rename_i heq
          split at heq
          · cases heq
            exact .tooLarge _ htoken hadvance
          · cases heq

theorem resume_goes (stack : List Frame) (frame : Frame) (tree : Expr) (parser : Parser) :
    Standing.Goes ⟨parser, Frame.groupings (frame :: stack), none⟩
      (resume stack frame tree parser).standing := by
  cases frame with
  | line =>
    simp only [resume]
    split
    · exact .stay _ _
    · rename_i htoken
      exact .refuse ⟨rfl, rfl, htoken⟩ rfl (Nat.le_refl _)
  | first level => exact .stay _ _
  | next level left op position => exact .stay _ _
  | primary => exact .stay _ _
  | grouping =>
    simp only [resume]
    cases heat : parser.eat .rightParen with
    | mk result after =>
      cases result with
      | error e => exact Parser.goes_of_eat_error (by simp) heat (Nat.le_succ _)
      | ok taken =>
        obtain ⟨hkind, hadvance⟩ := Parser.eat_ok heat
        exact .closing _ (Token.of_kind_rightParen hkind) hadvance

theorem step_goes {before after : Machine} (h : before.step = some after) :
    before.standing.Goes after.standing := by
  obtain ⟨control, stack⟩ := before
  cases control with
  | call routine parser =>
    cases h
    exact enter_goes stack routine parser
  | group parser =>
    cases h
    exact openGroup_goes stack parser
  | loop level left parser =>
    cases h
    exact goOn_goes stack level left parser
  | reply reply =>
    cases stack with
    | nil => cases h
    | cons frame stack =>
      obtain ⟨result, parser⟩ := reply
      cases h
      cases result with
      | ok tree => exact resume_goes stack frame tree parser
      | error e =>
        exact .rise parser e (Frame.groupings_le_cons frame stack)

end Machine

/-! ## The account of a call -/

/-- The place of a parser behind tokens taken, and what its error is about if it has
failed: the look-ahead, the last token taken if that exceeds a limit, or what could
not be pulled behind the look-ahead. -/
def Parser.Stands (start : Parser) (ts : List Located) (after : Parser) : Option Error → Prop
  | none => start.look.Takes ts after.look
  | some (.lexical e) =>
    after.current.token ≠ .endOfInput ∧ ∃ cursor,
      start.look.Takes ts ⟨after.current, cursor⟩ ∧ cursor.nextToken = (.error e, after.cursor)
  | some (.syntactic e) =>
    start.look.Takes ts after.look ∧
      ∃ located, (if e.isLimit then ts.getLast? else some after.current) = some located ∧
        e.About located
  | some (.runtime _) => False

/-- The account of a call: the tokens it has taken, the counts they add up to, and
the groups among them that wait for their end. -/
structure Standing.Since (start : Parser) (ts : List Located) (now : Standing) : Prop where
  inside : ∀ located ∈ ts, located.token ≠ .endOfInput
  depth : (now.parser.depth : Int) = start.depth + Nesting.balance Located.paren ts
  operators : now.parser.operators = start.operators + countOperators ts
  waiting : start.depth + now.waiting ≤ now.parser.depth
  level : now.failure = none → now.parser.depth = start.depth + now.waiting
  within : now.waiting ≤ maxNesting - start.depth
  stands : start.Stands ts now.parser now.failure

theorem Look.Takes.pulls {first last : Look} {ts : List Located} (h : first.Takes ts last) :
    first.Pulls ts [] last := by
  induction h with
  | none look => exact .none look
  | more hnext _ ih => exact .take hnext ih

/-- The lexical error that a call has failed with, if it has. -/
def missed : Option Error → List LexError
  | some (.lexical e) => [e]
  | some (.syntactic _) => []
  | some (.runtime _) => []
  | none => []

theorem Parser.Stands.pulls {start after : Parser} {ts : List Located} {failure : Option Error}
    (h : start.Stands ts after failure) : start.look.Pulls ts (missed failure) after.look := by
  match failure, h with
  | none, htakes => exact Look.Takes.pulls htakes
  | some (.lexical e), ⟨_, cursor, htakes, hnext⟩ =>
    have hall := htakes.pulls.trans (.pass hnext (.none _))
    rwa [List.append_nil] at hall
  | some (.syntactic e), ⟨htakes, _⟩ => exact htakes.pulls

namespace Standing
variable {start : Parser} {ts : List Located}

theorem since_start (parser : Parser) : Since parser [] ⟨parser, 0, none⟩ where
  inside := by simp
  depth := by simp
  operators := by simp
  waiting := Nat.le_refl _
  level := fun _ => rfl
  within := Nat.zero_le _
  stands := .none _

/-- A call that fails leaves the account as it is, be it with fewer groups that wait. -/
theorem Since.fails {parser after : Parser} {waiting left : Nat} {failure : Option Error}
    {e : Error} (h : Since start ts ⟨parser, waiting, failure⟩) (hleft : left ≤ waiting)
    (hdepth : after.depth = parser.depth) (hoperators : after.operators = parser.operators)
    (hstands : start.Stands ts after (some e)) : Since start ts ⟨after, left, some e⟩ where
  inside := h.inside
  depth := by
    rw [hdepth]
    exact h.depth
  operators := hoperators.trans h.operators
  waiting := by
    rw [hdepth]
    exact Nat.le_trans (Nat.add_le_add_left hleft _) h.waiting
  level := nofun
  within := Nat.le_trans hleft h.within
  stands := hstands

section
variable {parser after counted : Parser} {taken : Located} {waiting left : Nat}
  {failure : Option Error}

/-- A token that is taken adds to the account what it is counted for. -/
theorem Since.takes (h : Since start ts ⟨parser, waiting, none⟩)
    (hadvance : parser.advance = (.ok taken, after)) (hend : parser.current.token ≠ .endOfInput)
    (hlook : counted.look = after.look)
    (hdepth : (counted.depth : Int) = after.depth + parser.current.paren)
    (hoperators : counted.operators =
      after.operators + if parser.current.token.isOperator then 1 else 0)
    (hleft : (left : Int) ≤ waiting + parser.current.paren)
    (hlevel : failure = none → (left : Int) = waiting + parser.current.paren)
    (hwithin : left ≤ maxNesting - start.depth)
    (hfailure : ∀ e, failure = some e →
      ∃ cause, e = .syntactic cause ∧ cause.isLimit = true ∧ cause.About parser.current) :
    Since start (ts ++ [parser.current]) ⟨counted, left, failure⟩ := by
  obtain ⟨-, htakes, hsame, hcount⟩ := Parser.advance_ok hadvance
  have hbefore := h.level rfl
  have hbalance := h.depth
  have hcounted := h.operators
  simp only at hbefore hbalance hcounted
  have hall : start.look.Takes (ts ++ [parser.current]) counted.look := by
    rw [hlook]
    exact Look.Takes.trans h.stands htakes
  refine ⟨?_, ?_, ?_, ?_, ?_, hwithin, ?_⟩
  · intro located hmem
    rcases List.mem_append.mp hmem with hmem | hmem
    · exact h.inside located hmem
    · rwa [List.mem_singleton.mp hmem]
  · simp only [Nesting.balance_append, Nesting.balance_cons, Nesting.balance_nil]
    omega
  · simp only [countOperators_append, countOperators_cons, countOperators_nil]
    omega
  · simp only
    omega
  · intro hnone
    have := hlevel hnone
    simp only
    omega
  · cases failure with
    | none => exact hall
    | some e =>
      obtain ⟨cause, rfl, hlimit, habout⟩ := hfailure e rfl
      refine ⟨hall, parser.current, ?_, habout⟩
      rw [if_pos hlimit, List.getLast?_concat]

theorem Since.integer {value : Int64} (h : Since start ts ⟨parser, waiting, none⟩)
    (htoken : parser.current.token = .integer value)
    (hadvance : parser.advance = (.ok taken, after)) :
    Since start (ts ++ [parser.current]) ⟨after, waiting, none⟩ := by
  have hparen : parser.current.paren = 0 := by rw [Located.paren, htoken]
  refine h.takes hadvance (by simp [htoken]) rfl ?_ ?_ ?_ ?_ h.within (by simp)
  · omega
  · simp [htoken, Token.isOperator]
  · omega
  · omega

theorem Since.operator {op : Operator} (h : Since start ts ⟨parser, waiting, none⟩)
    (htoken : parser.current.token = .operator op)
    (hadvance : parser.advance = (.ok taken, after))
    (hfailure : ∀ e, failure = some e →
      ∃ cause, e = .syntactic cause ∧ cause.isLimit = true ∧ cause.About parser.current) :
    Since start (ts ++ [parser.current])
      ⟨{ after with operators := after.operators + 1 }, waiting, failure⟩ := by
  have hparen : parser.current.paren = 0 := by rw [Located.paren, htoken]
  refine h.takes hadvance (by simp [htoken]) rfl ?_ ?_ ?_ ?_ h.within hfailure
  · simp only
    omega
  · simp [htoken, Token.isOperator]
  · omega
  · omega

theorem Since.leftParen (h : Since start ts ⟨parser, waiting, none⟩)
    (htoken : parser.current.token = .leftParen)
    (hadvance : parser.advance = (.ok taken, after)) (hleft : left ≤ waiting + 1)
    (hlevel : failure = none → left = waiting + 1) (hwithin : left ≤ maxNesting - start.depth)
    (hfailure : ∀ e, failure = some e →
      ∃ cause, e = .syntactic cause ∧ cause.isLimit = true ∧ cause.About parser.current) :
    Since start (ts ++ [parser.current])
      ⟨{ after with depth := after.depth + 1 }, left, failure⟩ := by
  have hparen : parser.current.paren = 1 := by rw [Located.paren, htoken]
  refine h.takes hadvance (by simp [htoken]) rfl ?_ ?_ ?_ ?_ hwithin hfailure
  · simp only
    omega
  · simp [htoken, Token.isOperator]
  · omega
  · intro hnone
    have := hlevel hnone
    omega

/-- The group that ends has waited, so its parenthesis is among those counted. -/
theorem Since.rightParen (h : Since start ts ⟨parser, waiting + 1, none⟩)
    (htoken : parser.current.token = .rightParen)
    (hadvance : parser.advance = (.ok taken, after)) :
    Since start (ts ++ [parser.current])
      ⟨{ after with depth := after.depth - 1 }, waiting, none⟩ := by
  obtain ⟨-, -, hsame, -⟩ := Parser.advance_ok hadvance
  have hwaited := h.waiting
  have hwithin := h.within
  simp only at hwaited hwithin
  have hparen : parser.current.paren = -1 := by rw [Located.paren, htoken]
  refine h.takes hadvance (by simp [htoken]) rfl ?_ ?_ ?_ ?_ (by omega) (by simp)
  · simp only
    omega
  · simp [htoken, Token.isOperator]
  · omega
  · omega

end

/-- A step keeps the account, with the token that it takes, if any. -/
theorem Since.goes {before after : Standing} (h : before.Since start ts)
    (hgoes : before.Goes after) :
    ∃ us, after.Since start (ts ++ us) := by
  cases hgoes with
  | stay parser waiting => exact ⟨[], by rwa [List.append_nil]⟩
  | rise parser e hleft =>
    refine ⟨[], ?_⟩
    rw [List.append_nil]
    exact h.fails hleft rfl rfl h.stands
  | @refuse parser waiting left e habout hlimit hleft =>
    refine ⟨[], ?_⟩
    rw [List.append_nil]
    exact h.fails hleft rfl rfl ⟨h.stands, parser.current, by rw [hlimit]; rfl, habout⟩
  | @miss parser after waiting left e hend hadvance hleft =>
    obtain ⟨lexical, he, hnext, hcurrent, hdepth, hoperators⟩ := Parser.advance_error hadvance
    cases he
    have hplace : start.look.Takes ts ⟨after.current, parser.cursor⟩ := by
      rw [hcurrent]
      exact h.stands
    refine ⟨[], ?_⟩
    rw [List.append_nil]
    exact h.fails hleft hdepth hoperators ⟨by rwa [hcurrent], parser.cursor, hplace, hnext⟩
  | integer waiting htoken hadvance => exact ⟨_, h.integer htoken hadvance⟩
  | opening waiting htoken hadvance hlimit =>
    obtain ⟨-, -, hdepth, -⟩ := Parser.advance_ok hadvance
    have hlevel := h.level rfl
    simp only at hlevel
    exact ⟨_, h.leftParen htoken hadvance (Nat.le_refl _) (fun _ => rfl) (by omega) nofun⟩
  | tooDeep waiting htoken hadvance =>
    obtain ⟨htaken, -⟩ := Parser.advance_ok hadvance
    refine ⟨_, h.leftParen htoken hadvance (Nat.le_succ _) nofun h.within ?_⟩
    intro e he
    cases he
    exact ⟨_, rfl, rfl, htoken, by rw [htaken]⟩
  | operator waiting htoken hadvance => exact ⟨_, h.operator htoken hadvance nofun⟩
  | tooLarge waiting htoken hadvance =>
    obtain ⟨htaken, -⟩ := Parser.advance_ok hadvance
    refine ⟨_, h.operator htoken hadvance ?_⟩
    intro e he
    cases he
    exact ⟨_, rfl, rfl, ⟨_, htoken⟩, by rw [htaken]⟩
  | closing waiting htoken hadvance => exact ⟨_, h.rightParen htoken hadvance⟩

end Standing

namespace Machine

theorem Reaches.since {routine : Routine} {parser : Parser} {moment : Machine}
    (h : (ofCall routine parser).Reaches moment) : ∃ ts, moment.standing.Since parser ts := by
  induction h with
  | refl => exact ⟨[], Standing.since_start parser⟩
  | step _ hstep ih =>
    obtain ⟨ts, hsince⟩ := ih
    obtain ⟨us, hmore⟩ := hsince.goes (step_goes hstep)
    exact ⟨ts ++ us, hmore⟩

end Machine

/-! ## The calls of a session -/

namespace Parser

/-- Every call keeps its contract. -/
theorem read_answers (parser : Parser) (phrase : Phrase) :
    parser.Answers phrase (parser.read phrase) := by
  have hprimary : ∀ primary : Parser, primary.depth = parser.depth →
      primary.Answers .factor (primaryWithin parser.nesting primary) := by
    intro primary hdepth
    exact primaryWithin_answers _ primary (by rw [nesting, hdepth])
  cases phrase with
  | factor => exact hprimary parser rfl
  | chain level =>
    cases level with
    | product => exact chain_answers parser hprimary
    | sum => exact expression_answers parser

/-- The parentheses that tokens open, and those that they close. -/
def opened (ts : List Located) : Nat := ts.countP fun located => located.token = .leftParen

def closed (ts : List Located) : Nat := ts.countP fun located => located.token = .rightParen

theorem balance_eq (ts : List Located) :
    Nesting.balance Located.paren ts = opened ts - closed ts := by
  induction ts with
  | nil => rfl
  | cons located ts ih =>
    simp only [Nesting.balance_cons, ih, opened, closed, List.countP_cons, Located.paren]
    cases located.token <;> simp <;> omega

section
variable {parser : Parser} {phrase : Phrase}

theorem account_of_reaches {moment : Machine}
    (h : (Machine.ofCall (.phrase phrase) parser).Reaches moment) :
    ∃ ts, (∀ located ∈ ts, located.token ≠ .endOfInput) ∧
      parser.look.Pulls ts (missed moment.failure) moment.parser.look ∧
      moment.parser.depth + closed ts = parser.depth + opened ts ∧
      moment.parser.operators = parser.operators + countOperators ts ∧
      parser.depth + Frame.groupings moment.stack ≤ moment.parser.depth := by
  obtain ⟨ts, hsince⟩ := h.since
  have hdepth := hsince.depth
  rw [balance_eq] at hdepth
  refine ⟨ts, hsince.inside, hsince.stands.pulls, ?_, hsince.operators, hsince.waiting⟩
  simp only [Machine.standing] at hdepth
  omega

theorem missed_ended (reply : Reply Expr) :
    missed (Machine.ended reply).failure = lexicalErrors reply.1 := by
  obtain ⟨result, after⟩ := reply
  cases result with
  | ok tree => rfl
  | error e => cases e <;> rfl

/-- A phrase that is read whole: its tree shows the tokens taken, parentheses apart,
and what stands behind it does not go on with it. -/
theorem account_of_ok {tree : Expr} {after : Parser} (h : parser.read phrase = (.ok tree, after)) :
    ∃ ts, parser.look.Pulls ts [] after.look ∧ (∀ located ∈ ts, located.token ≠ .endOfInput) ∧
      opened ts = closed ts ∧ countOperators ts = tree.operations ∧
      after.depth = parser.depth ∧ after.operators = parser.operators + tree.operations ∧
      tree.inorder = ts.filter (fun located => !located.token.isParen) ∧
      phrase.EndsBefore after.current := by
  have hanswers := parser.read_answers phrase
  rw [h] at hanswers
  obtain ⟨hreads, hends⟩ := hanswers
  obtain ⟨ts, htakes, hderives⟩ := hreads.derives
  have hbalance := hderives.balance_eq_zero
  rw [balance_eq] at hbalance
  exact ⟨ts, htakes.pulls, hderives.ne_endOfInput, by omega, hderives.countOperators_eq,
    hreads.depth, hreads.operators, hderives.inorder_eq, hends⟩

theorem exists_account (parser : Parser) (phrase : Phrase) :
    ∃ ts, (∀ located ∈ ts, located.token ≠ .endOfInput) ∧
      parser.look.Pulls ts (lexicalErrors (parser.read phrase).1) (parser.read phrase).2.look ∧
      (parser.read phrase).2.depth + closed ts = parser.depth + opened ts ∧
      (parser.read phrase).2.operators = parser.operators + countOperators ts ∧
      ∀ tree, (parser.read phrase).1 = .ok tree →
        (parser.read phrase).2.depth = parser.depth ∧
        (parser.read phrase).2.operators = parser.operators + tree.operations ∧
        tree.inorder = ts.filter (fun located => !located.token.isParen) ∧
        phrase.EndsBefore (parser.read phrase).2.current := by
  have hend := Machine.computes_read parser phrase []
  cases hreply : parser.read phrase with
  | mk result after =>
    rw [hreply] at hend
    cases result with
    | ok tree =>
      obtain ⟨ts, hpulls, hinside, hparens, hcount, hdepth, hoperators, hinorder, hends⟩ :=
        account_of_ok hreply
      refine ⟨ts, hinside, hpulls, by simp only [hdepth, hparens],
        by simp only [hoperators, hcount], ?_⟩
      intro other hother
      cases hother
      exact ⟨hdepth, hoperators, hinorder, hends⟩
    | error e =>
      obtain ⟨ts, hinside, hpulls, hdepth, hoperators, -⟩ := account_of_reaches hend
      refine ⟨ts, hinside, ?_, hdepth, hoperators, nofun⟩
      rwa [← missed_ended (.error e, after)]

end

/-- At every moment of a call both counts are those at its start and what the tokens
taken since then add: the parentheses opened less those closed, and the operators.
Each group that waits for its end is one more parenthesis open than at the start, so
none is counted off that has not been counted. The same holds when the call has ended,
with a tree or with an error. A tree shows the tokens taken, parentheses apart, each
with its position and in order; it has closed what it opened, has as many operations
as operators were counted, and what follows does not go on with it. -/
theorem calls_keep_counts {source : String} {start : Parser} (h : ofSource source = .ok start)
    (calls : List Call) (phrase : Phrase) :
    let parser := start.after calls
    let reply := parser.read phrase
    (∀ moment, (Machine.ofCall (.phrase phrase) parser).Reaches moment →
      moment.Reaches (.ended reply) ∧
      ∃ ts, (∀ located ∈ ts, located.token ≠ .endOfInput) ∧
        parser.look.Pulls ts (missed moment.failure) moment.parser.look ∧
        moment.parser.depth + closed ts = parser.depth + opened ts ∧
        moment.parser.operators = parser.operators + countOperators ts ∧
        parser.depth + Frame.groupings moment.stack ≤ moment.parser.depth) ∧
    ∃ index ts, parser.current = entry source index ∧ ts = entries source index ts.length ∧
      parser.look.Pulls ts (lexicalErrors reply.1) reply.2.look ∧
      reply.2.depth + closed ts = parser.depth + opened ts ∧
      reply.2.operators = parser.operators + countOperators ts ∧
      parser.depth ≤ reply.2.depth ∧ parser.operators ≤ reply.2.operators ∧
      ∀ tree, reply.1 = .ok tree →
        reply.2.depth = parser.depth ∧
        reply.2.operators = parser.operators + tree.operations ∧
        tree.inorder = ts.filter (fun located => !located.token.isParen) ∧
        (tree.inorder.map Located.position).Pairwise (· < ·) ∧
        (phrase = .chain .sum → ∀ op, reply.2.current.token ≠ .operator op) ∧
        (phrase = .chain .product → reply.2.current.token ≠ .operator .mul ∧
          reply.2.current.token ≠ .operator .div) := by
  intro parser reply
  have hend : (Machine.ofCall (.phrase phrase) parser).Reaches (.ended reply) :=
    Machine.computes_read parser phrase []
  -- The calls before this one leave the parser at a token of the line.
  obtain ⟨hat, -⟩ := at_ofSource h
  obtain ⟨taken, -, -, hplaces, -⟩ := exists_taken hat calls
  have hparser := hplaces calls.length (Nat.le_refl _)
  rw [List.take_of_length_le (Nat.le_refl _)] at hparser
  refine ⟨fun moment hmoment => ⟨hend.comesTo hmoment, account_of_reaches hmoment⟩, ?_⟩
  obtain ⟨ts, hinside, hpulls, hdepth, hoperators, htree⟩ := exists_account parser phrase
  obtain ⟨htokens, -, -⟩ := hpulls.at hparser
  obtain ⟨-, -, -, -, -, hwaiting⟩ := account_of_reaches hend
  have hincreasing := increasing_entries (htokens ▸ hinside)
  refine ⟨_, ts, hparser.current, htokens, hpulls, hdepth, hoperators, hwaiting,
    by rw [hoperators]; exact Nat.le_add_right _ _, ?_⟩
  intro tree hok
  obtain ⟨hsame, hcount, hinorder, hends⟩ := htree tree hok
  refine ⟨hsame, hcount, hinorder, ?_, ?_, ?_⟩
  · rw [hinorder]
    rw [← htokens] at hincreasing
    exact hincreasing.sublist (List.filter_sublist.map _)
  · rintro rfl op
    exact not_operator_of_endsBefore hends op
  · rintro rfl
    exact ⟨fun hmul => Bool.noConfusion (hends .mul hmul),
      fun hdiv => Bool.noConfusion (hends .div hdiv)⟩

/-- Two parentheses stay open behind a call that fails at a bad character, and the
next call goes on from there. -/
theorem calls_keep_counts_of_product :
    let source := "(1+(2 $*3"
    let tree : Expr := .binary (.literal 2 4) .mul (.literal 3 8) 7
    ∃ start, ofSource source = .ok start ∧
      (start.after [.expression]).depth = 2 ∧ (start.after [.expression]).operators = 1 ∧
      ((start.after [.expression]).read (.chain .product)).1 = .ok tree ∧
      ((start.after [.expression]).read (.chain .product)).2.depth = 2 ∧
      ((start.after [.expression]).read (.chain .product)).2.operators = 2 ∧
      ∃ index ts, (start.after [.expression]).current = entry source index ∧
        ts = entries source index ts.length ∧
        tree.inorder = ts.filter (fun located => !located.token.isParen) := by
  intro source tree
  have hvalues : (ofSource source).map (fun start =>
      ((start.after [.expression]).depth, (start.after [.expression]).operators,
        ((start.after [.expression]).read (.chain .product)).1)) = .ok (2, 1, .ok tree) := by
    decide +kernel
  cases hstart : ofSource source with
  | error e =>
    rw [hstart] at hvalues
    cases hvalues
  | ok start =>
    rw [hstart] at hvalues
    obtain ⟨hdepth, hrest⟩ := Prod.mk.inj (Except.ok.inj hvalues)
    obtain ⟨hoperators, htree⟩ := Prod.mk.inj hrest
    obtain ⟨-, index, ts, hcurrent, htokens, -, -, -, -, -, hok⟩ :=
      calls_keep_counts hstart [.expression] (.chain .product)
    obtain ⟨hdepth', hoperators', hinorder, -⟩ := hok tree htree
    refine ⟨start, rfl, hdepth, hoperators, htree, hdepth'.trans hdepth, ?_, index, ts, hcurrent,
      htokens, hinorder⟩
    rw [hoperators', hoperators]
    rfl

end Parser

end LineCalc
