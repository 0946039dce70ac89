import LineCalc.Proofs.Descent
/-
  Activations: the descent in steps, with the calls that are open at each moment

  A call of the parser is known so far by its answer alone. Here the same descent
  is a machine. It holds what the innermost activation does next and what each
  of the others waits for, innermost first. Nothing bounds it from outside: no
  fuel is handed down, and whether it goes on is decided by the token looked at
  and by the two counts of the parser.

  What is proved:
    1. `Machine.reaches_loop` — a chain goes on around its operands as the
       function does, if the operands are computed;
    2. `Machine.computes_read`, `Machine.computes_line`, `Machine.reaches_answer` —
       the machine comes from every call to the answer of the function, above any
       activations that wait;
    3. `Machine.Reaches.comesTo` — it has no other way to go: from every moment of
       a call it comes to that answer.
-/

namespace LineCalc

/-- The routines of the descent that a session may call. -/
inductive Routine where
  | line
  | phrase (phrase : Phrase)
  deriving DecidableEq, Repr

/-- What an activation waits for: a line or a group for the chain in it, a chain
for its first operand or for the next one, a primary for its group. -/
inductive Frame where
  | line
  | first (level : Level)
  | next (level : Level) (left : Expr) (op : Operator) (position : Nat)
  | primary
  | grouping
  deriving DecidableEq, Repr

/-- What the innermost activation does next: it begins, as one of the routines or as
a group, it is a chain at the head of its loop, or it has ended with an answer. -/
inductive Control where
  | call (routine : Routine) (parser : Parser)
  | group (parser : Parser)
  | loop (level : Level) (left : Expr) (parser : Parser)
  | reply (reply : Reply Expr)

/-- A moment of a call. -/
structure Machine where
  control : Control
  /-- The activations that wait, the innermost first. -/
  stack : List Frame

namespace Machine

/-! ## Steps -/

/-- Goes on after a success; an error ends the activation. -/
def proceed {α : Type} (stack : List Frame) (reply : Reply α) (next : α → Parser → Machine) :
    Machine :=
  match reply with
  | (.ok a, parser) => next a parser
  | (.error e, parser) => ⟨.reply (.error e, parser), stack⟩

/-- A routine begins. -/
def enter (stack : List Frame) (routine : Routine) (parser : Parser) : Machine :=
  match routine with
  | .line => ⟨.call (.phrase (.chain .sum)) parser, .line :: stack⟩
  | .phrase (.chain level) => ⟨.call (.phrase level.operand) parser, .first level :: stack⟩
  | .phrase .factor =>
    match parser.current.token with
    | .integer value =>
      proceed stack (parser.eat .integer) fun taken parser =>
        ⟨.reply (.ok (.literal value taken.position), parser), stack⟩
    | .leftParen => ⟨.group parser, .primary :: stack⟩
    | .operator _ | .rightParen | .endOfInput =>
      ⟨.reply (.error (parser.unexpected [.integer, .leftParen]), parser), stack⟩

/-- A group begins. -/
def openGroup (stack : List Frame) (parser : Parser) : Machine :=
  proceed stack (parser.eat .leftParen) fun taken parser =>
    let opened := { parser with depth := parser.depth + 1 }
    if opened.depth > maxNesting then
      ⟨.reply (.error (.syntactic (.nestingTooDeep maxNesting taken.position)), opened), stack⟩
    else ⟨.call (.phrase (.chain .sum)) opened, .grouping :: stack⟩

/-- A chain looks for one more operator of its level. -/
def goOn (stack : List Frame) (level : Level) (left : Expr) (parser : Parser) : Machine :=
  match parser.current.token.operatorAt? level with
  | none => ⟨.reply (.ok left, parser), stack⟩
  | some op =>
    proceed stack parser.advance fun taken parser =>
      proceed stack (parser.countOperator taken.position) fun _ parser =>
        ⟨.call (.phrase level.operand) parser, .next level left op taken.position :: stack⟩

/-- An activation that has waited is given a tree. -/
def resume (stack : List Frame) (frame : Frame) (tree : Expr) (parser : Parser) : Machine :=
  match frame with
  | .line =>
    match parser.current.token with
    | .endOfInput => ⟨.reply (.ok tree, parser), stack⟩
    | token =>
      ⟨.reply
        (.error (.syntactic (.trailingTokens token.kind parser.current.position)), parser), stack⟩
  | .first level => ⟨.loop level tree parser, stack⟩
  | .next level left op position => ⟨.loop level (.binary left op tree position) parser, stack⟩
  | .primary => ⟨.reply (.ok tree, parser), stack⟩
  | .grouping =>
    proceed stack (parser.eat .rightParen) fun _ parser =>
      ⟨.reply (.ok tree, { parser with depth := parser.depth - 1 }), stack⟩

/-- The next moment, unless the outermost activation has ended. -/
def step : Machine → Option Machine
  | ⟨.call routine parser, stack⟩ => some (enter stack routine parser)
  | ⟨.group parser, stack⟩ => some (openGroup stack parser)
  | ⟨.loop level left parser, stack⟩ => some (goOn stack level left parser)
  | ⟨.reply reply, frame :: stack⟩ => some (proceed stack reply (resume stack frame))
  | ⟨.reply _, []⟩ => none

/-- The moments that come at or after one. -/
inductive Reaches (start : Machine) : Machine → Prop where
  | refl : Reaches start start
  | step {before after : Machine} : Reaches start before → before.step = some after →
    Reaches start after

/-- The first moment of a call. -/
def ofCall (routine : Routine) (parser : Parser) : Machine := ⟨.call routine parser, []⟩

/-- The last moment of a call. -/
def ended (reply : Reply Expr) : Machine := ⟨.reply reply, []⟩

theorem step_ended (reply : Reply Expr) : (ended reply).step = none := rfl

/-- Above any stack, the machine comes from the call of a routine to an answer. -/
def Computes (routine : Routine) (parser : Parser) (reply : Reply Expr) : Prop :=
  ∀ stack, (⟨.call routine parser, stack⟩ : Machine).Reaches ⟨.reply reply, stack⟩

section
variable {first middle last : Machine}

theorem Reaches.trans (h : first.Reaches middle) (h' : middle.Reaches last) :
    first.Reaches last := by
  induction h' with
  | refl => exact h
  | step _ hstep ih => exact .step ih hstep

theorem Reaches.head (hstep : first.step = some middle) (h : middle.Reaches last) :
    first.Reaches last :=
  (Reaches.step .refl hstep).trans h

theorem Reaches.cases_head (h : first.Reaches last) :
    first = last ∨ ∃ middle, first.step = some middle ∧ middle.Reaches last := by
  induction h with
  | refl => exact .inl rfl
  | @step before after _ hstep ih =>
    rcases ih with rfl | ⟨middle, hfirst, hmiddle⟩
    · exact .inr ⟨after, hstep, .refl⟩
    · exact .inr ⟨middle, hfirst, .step hmiddle hstep⟩

/-- There is one way to go, so whatever a call reaches is on the way to its end. -/
theorem Reaches.comesTo {reply : Reply Expr} (hend : first.Reaches (ended reply))
    (h : first.Reaches middle) : middle.Reaches (ended reply) := by
  induction h with
  | refl => exact hend
  | @step before after _ hstep ih =>
    rcases ih.cases_head with rfl | ⟨next, hnext, hlast⟩
    · rw [step_ended] at hstep
      cases hstep
    · rw [hstep] at hnext
      cases hnext
      exact hlast

theorem Reaches.ended_unique {reply other : Reply Expr} (h : first.Reaches (ended reply))
    (h' : first.Reaches (ended other)) : other = reply := by
  rcases (h.comesTo h').cases_head with heq | ⟨next, hnext, -⟩
  · cases heq
    rfl
  · rw [step_ended] at hnext
    cases hnext

end

end Machine

/-! ## From a call to its answer -/

theorem Reply.andThen_same {α : Type} (reply : Reply α) :
    Reply.andThen reply (fun a parser => (.ok a, parser)) = reply := by
  obtain ⟨result, parser⟩ := reply
  cases result <;> rfl

namespace Parser
variable {parser after : Parser}

theorem countOperator_ok {position : Nat} {a : Unit}
    (h : parser.countOperator position = (.ok a, after)) :
    after = { parser with operators := parser.operators + 1 } ∧
      parser.operators + 1 ≤ maxOperators := by
  unfold countOperator at h
  dsimp only at h
  split at h
  · cases h
  · rename_i hlimit
    cases h
    exact ⟨rfl, Nat.le_of_not_gt hlimit⟩

theorem Answers.reads {phrase : Phrase} {reply : Reply Expr} {tree : Expr}
    (h : parser.Answers phrase reply) (hreply : reply = (.ok tree, after)) :
    parser.Reads phrase tree after := by
  subst hreply
  exact h.1

/-- The call for a phrase. -/
def read (parser : Parser) : Phrase → Reply Expr
  | .factor => parser.primary
  | .chain .product => parser.product
  | .chain .sum => parser.expression

/-- The call of a routine. -/
def answer (parser : Parser) : Routine → Reply Expr
  | .line => parser.line
  | .phrase phrase => parser.read phrase

end Parser

namespace Machine

section
variable {stack : List Frame}

theorem reaches_proceed {α : Type} {reply : Reply α} {next : α → Parser → Machine}
    {answer : α → Parser → Reply Expr}
    (h : ∀ a after, reply = (.ok a, after) →
      (next a after).Reaches ⟨.reply (answer a after), stack⟩) :
    (proceed stack reply next).Reaches ⟨.reply (Reply.andThen reply answer), stack⟩ := by
  obtain ⟨result, after⟩ := reply
  cases result with
  | error e => exact .refl
  | ok a => exact h a after rfl

theorem reaches_awaited {frame : Frame} {control : Control} {reply : Reply Expr}
    {answer : Expr → Parser → Reply Expr}
    (hcall : (⟨control, frame :: stack⟩ : Machine).Reaches ⟨.reply reply, frame :: stack⟩)
    (h : ∀ tree after, reply = (.ok tree, after) →
      (resume stack frame tree after).Reaches ⟨.reply (answer tree after), stack⟩) :
    (⟨control, frame :: stack⟩ : Machine).Reaches
      ⟨.reply (Reply.andThen reply answer), stack⟩ :=
  hcall.trans (.head rfl (reaches_proceed h))

end

section
variable {level : Level} {operand : Parser → Reply Expr} {start : Parser}
  (hcomputes : ∀ parser : Parser, parser.depth = start.depth →
    Computes (.phrase level.operand) parser (operand parser))
  (hanswers : ∀ parser : Parser, parser.depth = start.depth →
    parser.Answers level.operand (operand parser))
include hcomputes hanswers

/-- The loop of a chain. An operand leaves the nesting as it finds it, so each is
read as the first one is. -/
theorem reaches_loop (room : Nat) (left : Expr) (parser : Parser)
    (hdepth : parser.depth = start.depth) (hroom : maxOperators ≤ room + parser.operators)
    (stack : List Frame) :
    (⟨.loop level left parser, stack⟩ : Machine).Reaches
      ⟨.reply (Parser.chainRest level operand room left parser), stack⟩ := by
  induction room using Nat.strongRecOn generalizing left parser with
  | ind room ih =>
    apply Reaches.head rfl
    unfold goOn
    cases hop : parser.current.token.operatorAt? level with
    | none =>
      rw [Parser.chainRest_of_none hop]
      exact .refl
    | some op =>
      rw [Parser.chainRest_of_some hop hroom]
      apply reaches_proceed
      intro taken middle hadvance
      obtain ⟨-, -, hdepth', hoperators⟩ := Parser.advance_ok hadvance
      apply reaches_proceed
      intro _ counted hcount
      -- A counted operator is within the limit, so there has been room for it.
      obtain ⟨hcounted, hlimit⟩ := Parser.countOperator_ok hcount
      have hsame : counted.depth = start.depth := by rw [hcounted, hdepth', hdepth]
      apply reaches_awaited (hcomputes counted hsame _)
      intro right after hright
      have hreads := (hanswers counted hsame).reads hright
      have hmore := hreads.operators
      simp only [hcounted] at hmore
      exact ih (room - 1) (by omega) _ after (hreads.depth.trans hsame) (by omega)

theorem computes_chain :
    Computes (.phrase (.chain level)) start (Parser.chain level operand start) := by
  intro stack
  apply Reaches.head rfl
  apply reaches_awaited (hcomputes start rfl _)
  intro left after hleft
  have hreads := (hanswers start rfl).reads hleft
  exact reaches_loop hcomputes hanswers (maxOperators - after.operators) left after hreads.depth
    (by omega) stack

end

theorem reaches_group {parser : Parser} {inside : Parser → Reply Expr}
    (htoken : parser.current.token = .leftParen)
    (hinside : ∀ opened : Parser, opened.depth = parser.depth + 1 → opened.depth ≤ maxNesting →
      Computes (.phrase (.chain .sum)) opened (inside opened)) (stack : List Frame) :
    (⟨.group parser, stack⟩ : Machine).Reaches ⟨.reply
      (Reply.andThen parser.advance fun taken middle =>
        let opened := { middle with depth := middle.depth + 1 }
        if opened.depth > maxNesting then
          (.error (.syntactic (.nestingTooDeep maxNesting taken.position)), opened)
        else
          Reply.andThen (inside opened) fun inner closing =>
            Reply.andThen (closing.eat .rightParen) fun _ after =>
              (.ok inner, { after with depth := after.depth - 1 })), stack⟩ := by
  apply Reaches.head rfl
  simp only [openGroup, Parser.eat, htoken, Token.kind, if_true]
  apply reaches_proceed
  intro taken middle hadvance
  obtain ⟨-, -, hdepth, -⟩ := Parser.advance_ok hadvance
  by_cases hlimit : middle.depth + 1 > maxNesting
  · simp only [if_pos hlimit]
    exact .refl
  · simp only [if_neg hlimit]
    apply reaches_awaited (hinside _ (by rw [hdepth]) (Nat.le_of_not_gt hlimit) _)
    intro inner closing hinner
    apply reaches_proceed
    intro last after hclosing
    exact .refl

section
variable {nesting : Nat} {start : Parser} (hnesting : nesting = maxNesting - start.depth)
  (hprimary : ∀ parser : Parser, parser.depth = start.depth →
    Computes (.phrase .factor) parser (Parser.primaryWithin nesting parser))
include hnesting hprimary

theorem computes_product : Computes (.phrase (.chain .product)) start
    (Parser.chain .product (Parser.primaryWithin nesting) start) := by
  apply computes_chain hprimary
  intro parser hdepth
  exact Parser.primaryWithin_answers nesting parser (by rw [hnesting, hdepth])

theorem computes_sum : Computes (.phrase (.chain .sum)) start
    (Parser.chain .sum (Parser.chain .product (Parser.primaryWithin nesting)) start) := by
  apply computes_chain
  · intro parser hdepth
    apply computes_product (by rw [hnesting, hdepth])
    intro primary hsame
    exact hprimary primary (hsame.trans hdepth)
  · intro parser hdepth
    apply Parser.chain_answers parser
    intro primary hsame
    exact Parser.primaryWithin_answers nesting primary (by rw [hnesting, hsame, hdepth])

end

theorem computes_primaryWithin (nesting : Nat) (parser : Parser)
    (hnesting : nesting = maxNesting - parser.depth) :
    Computes (.phrase .factor) parser (Parser.primaryWithin nesting parser) := by
  -- By the nesting left, as for the contract of the calls.
  induction nesting using Nat.strongRecOn generalizing parser with
  | ind nesting ih =>
    intro stack
    apply Reaches.head rfl
    cases htoken : parser.current.token with
    | integer value =>
      rw [Parser.primaryWithin]
      simp only [enter, htoken]
      apply reaches_proceed
      intro taken after heat
      exact .refl
    | leftParen =>
      rw [Parser.primaryWithin_of_leftParen htoken hnesting,
        ← Reply.andThen_same (Reply.andThen parser.advance _)]
      simp only [enter, htoken]
      apply reaches_awaited
      · apply reaches_group htoken
        intro opened hopened hlimit
        apply computes_sum (by omega)
        intro primary hprimary
        exact ih (nesting - 1) (by omega) primary (by omega)
      · intro tree after hgroup
        exact .refl
    | operator op =>
      rw [Parser.primaryWithin]
      simp only [enter, htoken]
      exact .refl
    | rightParen =>
      rw [Parser.primaryWithin]
      simp only [enter, htoken]
      exact .refl
    | endOfInput =>
      rw [Parser.primaryWithin]
      simp only [enter, htoken]
      exact .refl

/-! ## The calls of a session -/

theorem computes_read (parser : Parser) (phrase : Phrase) :
    Computes (.phrase phrase) parser (parser.read phrase) := by
  have hprimary : ∀ primary : Parser, primary.depth = parser.depth →
      Computes (.phrase .factor) primary (Parser.primaryWithin parser.nesting primary) := by
    intro primary hdepth
    exact computes_primaryWithin _ primary (by rw [Parser.nesting, hdepth])
  cases phrase with
  | factor => exact hprimary parser rfl
  | chain level =>
    cases level with
    | product => exact computes_product rfl hprimary
    | sum => exact computes_sum rfl hprimary

theorem computes_line (parser : Parser) : Computes .line parser parser.line := by
  intro stack
  apply Reaches.head rfl
  apply reaches_awaited (computes_read parser (.chain .sum) _)
  intro tree after hreply
  unfold resume
  cases after.current.token <;> exact .refl

/-- Every call comes to an end, with the answer of the function. -/
theorem reaches_answer (routine : Routine) (parser : Parser) :
    (ofCall routine parser).Reaches (ended (parser.answer routine)) := by
  cases routine with
  | line => exact computes_line parser []
  | phrase phrase => exact computes_read parser phrase []

end Machine

end LineCalc
