import LineCalc.Proofs.Pulling
import LineCalc.Proofs.Scan
/-
  Descent: what the calls of a parser answer

  `Parser.Answers` is the contract of a call for a phrase, and the same for
  every call. If it answers a tree, the tokens it took derive that tree, the
  parentheses open are those that were open before, every operation of the tree
  has been counted, and what follows cannot go on with the phrase. If it
  answers an error, that is the answer of a scan from the same place. So a
  scan never tells apart whether a token is taken in a nested call or in a loop.

  What is proved:
    1. `Parser.scan_of_take` — a token taken by the parser is taken by the scan,
       with the same item pulled behind it;
    2. `Parser.chain_answers` — a chain keeps the contract if its operands do;
    3. `Parser.primaryWithin_answers`, `Parser.expression_answers` — every call
       keeps it, from any parser.
-/

namespace LineCalc

/-! ## Places in a line -/

/-- A place in a line: the token looked at and what follows it. -/
structure Look where
  current : Located
  cursor : Cursor

namespace Look

/-- From one place to a later one by taking tokens, each with the next one
pulled behind it. -/
inductive Takes : Look → List Located → Look → Prop where
  | none (look : Look) : Takes look [] look
  | more {look last : Look} {next : Located} {cursor : Cursor} {ts : List Located} :
    look.cursor.nextToken = (.ok next, cursor) → Takes ⟨next, cursor⟩ ts last →
    Takes look (look.current :: ts) last

theorem Takes.trans {first middle last : Look} {ts us : List Located}
    (h : first.Takes ts middle) (h' : middle.Takes us last) : first.Takes (ts ++ us) last := by
  induction h with
  | none look => exact h'
  | more hnext _ ih => exact .more hnext (ih h')

/-- The items from the token looked at to the end of the line. -/
def ahead (look : Look) : List Item :=
  if look.current.token = .endOfInput then [] else .ok look.current :: look.cursor.pending

/-- The end of input stands behind the items that are still to be pulled, and
not among them. -/
def Proper (look : Look) : Prop :=
  ∀ located, .ok located ∈ look.cursor.pending → located.token ≠ .endOfInput

theorem Proper.next {look : Look} {next : Located} {cursor : Cursor} (hproper : look.Proper)
    (hnext : look.cursor.nextToken = (.ok next, cursor)) :
    (⟨next, cursor⟩ : Look).ahead = look.cursor.pending ∧ (⟨next, cursor⟩ : Look).Proper := by
  unfold Proper at hproper
  cases hpending : look.cursor.pending with
  | nil =>
    obtain ⟨hend, hnothing, -⟩ := Cursor.nextToken_of_pending_nil hpending
    rw [hnext] at hend
    cases hend
    exact ⟨rfl, by simp [Proper, hnothing]⟩
  | cons item rest =>
    obtain ⟨after, hfirst, hrest, -⟩ := Cursor.nextToken_of_pending_cons hpending
    rw [hnext] at hfirst
    cases hfirst
    rw [hpending] at hproper
    constructor
    · rw [ahead, if_neg (hproper next List.mem_cons_self)]
      simp only [hrest]
    · intro located hmem
      rw [hrest] at hmem
      exact hproper located (List.mem_cons_of_mem _ hmem)

theorem Takes.ahead_eq {first last : Look} {ts : List Located} (h : first.Takes ts last)
    (hproper : first.Proper) (hend : ∀ located ∈ ts, located.token ≠ .endOfInput) :
    first.ahead = ts.map .ok ++ last.ahead := by
  induction h with
  | none look => rfl
  | @more look last next cursor ts hnext _ ih =>
    have hcurrent := hend look.current List.mem_cons_self
    have hrest := fun x hx => hend x (List.mem_cons_of_mem look.current hx)
    obtain ⟨hahead, hproper'⟩ := hproper.next hnext
    rw [List.map_cons, List.cons_append, ← ih hproper' hrest, hahead, ahead, if_neg hcurrent]

end Look

namespace Parser

def look (parser : Parser) : Look := ⟨parser.current, parser.cursor⟩

/-- The answer of a scan from the place of a parser, with its counts. -/
def scan (parser : Parser) (phase : Scan.Phase) : Except Error Unit :=
  Scan.resume ⟨phase, parser.depth, parser.operators⟩ none
    (.ok parser.current :: parser.cursor.pending ++ [.ok parser.cursor.endToken])

/-! ## Taking a token -/

theorem advance_ok {parser after : Parser} {taken : Located}
    (h : parser.advance = (.ok taken, after)) :
    taken = parser.current ∧ parser.look.Takes [parser.current] after.look ∧
      after.depth = parser.depth ∧ after.operators = parser.operators := by
  unfold advance at h
  cases hnext : parser.cursor.nextToken with
  | mk item cursor =>
    cases item with
    | error e => simp [hnext] at h
    | ok next =>
      simp only [hnext, Prod.mk.injEq, Except.ok.injEq] at h
      obtain ⟨rfl, rfl⟩ := h
      exact ⟨rfl, .more hnext (.none _), rfl, rfl⟩

/-- A scan takes the token that a parser looks at as the parser does. -/
theorem scan_of_take {parser : Parser} {phase : Scan.Phase} {next : Scan}
    {exceeded : Option SyntaxError}
    (hmove : Scan.move ⟨phase, parser.depth, parser.operators⟩ parser.current =
      .take next exceeded) :
    parser.scan phase =
      match parser.advance, exceeded with
      | (.error e, _), _ => .error e
      | (.ok _, _), some e => .error (.syntactic e)
      | (.ok _, after), none =>
        next.resume none
          (.ok after.current :: after.cursor.pending ++ [.ok after.cursor.endToken]) := by
  simp only [scan, List.cons_append, Scan.resume, hmove]
  unfold advance
  cases hpending : parser.cursor.pending with
  | nil =>
    obtain ⟨hend, hnothing, hsame⟩ := Cursor.nextToken_of_pending_nil hpending
    simp only [hend]
    cases exceeded with
    | some e => rfl
    | none =>
      simp only [hnothing, hsame]
      exact (Scan.resume_endOfInput next parser.cursor.length _).symm
  | cons item rest =>
    obtain ⟨after, hfirst, hrest, hsame, -⟩ := Cursor.nextToken_of_pending_cons hpending
    simp only [hfirst]
    cases item with
    | error e => rfl
    | ok located =>
      cases exceeded with
      | some e => rfl
      | none =>
        simp only [hrest, hsame]
        rfl

section
variable {parser after : Parser} {phase : Scan.Phase} {next : Scan}

theorem scan_of_advance_error {located : Located} {e : Error}
    (hcurrent : parser.current = located)
    (hmove : ∃ next exceeded, Scan.move ⟨phase, parser.depth, parser.operators⟩ located =
      .take next exceeded)
    (hadvance : parser.advance = (.error e, after)) : parser.scan phase = .error e := by
  obtain ⟨next, exceeded, hmove⟩ := hmove
  rw [← hcurrent] at hmove
  rw [scan_of_take hmove, hadvance]

theorem scan_of_exceeded {taken : Located} {e : SyntaxError}
    (hmove : Scan.move ⟨phase, parser.depth, parser.operators⟩ parser.current =
      .take next (some e))
    (hadvance : parser.advance = (.ok taken, after)) :
    parser.scan phase = .error (.syntactic e) := by
  rw [scan_of_take hmove, hadvance]

theorem scan_of_advance_ok {taken : Located} (counted : Parser)
    (hmove : Scan.move ⟨phase, parser.depth, parser.operators⟩ parser.current =
      .take next none)
    (hadvance : parser.advance = (.ok taken, after))
    (hplace : counted.look = after.look)
    (hcounts : next = ⟨next.phase, counted.depth, counted.operators⟩) :
    parser.scan phase = counted.scan next.phase := by
  simp only [look, Look.mk.injEq] at hplace
  rw [scan_of_take hmove, hadvance, scan, ← hcounts, hplace.1, hplace.2]

end

/-! ## The contract of a call -/

/-- How a parser gets from one state to another by reading a phrase. -/
structure Reads (parser : Parser) (phrase : Phrase) (tree : Expr) (after : Parser) : Prop where
  derives : ∃ ts, parser.look.Takes ts after.look ∧ Derives phrase ts tree
  depth : after.depth = parser.depth
  operators : after.operators = parser.operators + tree.operations
  scan : parser.scan .due = after.scan .ended

end Parser

theorem Token.operatorAt?_eq_some_iff {level : Level} {token : Token} {op : Operator} :
    token.operatorAt? level = some op ↔ token = .operator op ∧ op.level = level := by
  rw [Token.operatorAt?, Option.filter_eq_some_iff]
  cases token <;> simp [Token.operator?]

/-- Whether a phrase that has been read ends before a token: the token is no
operator that the phrase could go on with. -/
def Phrase.EndsBefore (phrase : Phrase) (located : Located) : Prop :=
  ∀ op, located.token = .operator op → phrase.holds op.level = false

theorem not_operator_of_endsBefore {located : Located}
    (h : (Phrase.chain .sum).EndsBefore located) (op : Operator) :
    located.token ≠ .operator op :=
  fun htoken => Bool.noConfusion (h op htoken)

namespace Parser

/-- The contract of a call for a phrase. -/
def Answers (parser : Parser) (phrase : Phrase) : Reply Expr → Prop
  | (.ok tree, after) => parser.Reads phrase tree after ∧ phrase.EndsBefore after.current
  | (.error e, _) => parser.scan .due = .error e

namespace Reads
variable {parser middle counted after : Parser}

theorem operand {level : Level} {tree : Expr} (h : parser.Reads level.operand tree after) :
    parser.Reads (.chain level) tree after := by
  obtain ⟨ts, htakes, hderives⟩ := h.derives
  exact ⟨⟨ts, htakes, .operand hderives⟩, h.depth, h.operators, h.scan⟩

theorem literal {value : Int64} {position : Nat} {taken : Located}
    (hcurrent : parser.current = ⟨.integer value, position⟩)
    (hadvance : parser.advance = (.ok taken, after)) :
    parser.Reads .factor (.literal value taken.position) after := by
  obtain ⟨rfl, htakes, hdepth, hoperators⟩ := advance_ok hadvance
  have hmove : Scan.move ⟨.due, parser.depth, parser.operators⟩ parser.current =
      .take ⟨.ended, parser.depth, parser.operators⟩ none := by
    rw [hcurrent]
    rfl
  refine ⟨⟨_, htakes, ?_⟩, hdepth, hoperators, ?_⟩
  · rw [hcurrent]
    exact .literal value position
  · exact scan_of_advance_ok after hmove hadvance rfl (by rw [hdepth, hoperators])

theorem operation {start counted : Parser} {level : Level} {op : Operator} {position : Nat}
    {taken : Located} {left right : Expr} (hleft : start.Reads (.chain level) left parser)
    (hcurrent : parser.current = ⟨.operator op, position⟩) (hlevel : op.level = level)
    (hadvance : parser.advance = (.ok taken, middle))
    (hlimit : parser.operators + 1 ≤ maxOperators)
    (hcounted : counted = { middle with operators := middle.operators + 1 })
    (hright : counted.Reads level.operand right after) :
    start.Reads (.chain level) (.binary left op right taken.position) after := by
  subst hcounted
  obtain ⟨rfl, htakes, hdepth, hoperators⟩ := advance_ok hadvance
  obtain ⟨ts, htakes', hderives⟩ := hleft.derives
  obtain ⟨us, htakes'', hderives'⟩ := hright.derives
  have hmove := Scan.move_operator parser.depth op position hlimit
  rw [← hcurrent] at hmove
  refine ⟨⟨ts ++ parser.current :: us, htakes'.trans (htakes.trans htakes''), ?_⟩, ?_, ?_, ?_⟩
  · rw [hcurrent]
    exact .operation position hlevel hderives hderives'
  · rw [hright.depth, hdepth, hleft.depth]
  · simp only [hright.operators, hoperators, hleft.operators, Expr.operations]
    omega
  · calc start.scan .due
        = parser.scan .ended := hleft.scan
      _ = { middle with operators := middle.operators + 1 }.scan .due :=
        scan_of_advance_ok { middle with operators := middle.operators + 1 } hmove hadvance rfl
          (by rw [hdepth, hoperators])
      _ = after.scan .ended := hright.scan

theorem group {opened closing : Parser} {position : Nat} {taken last : Located} {tree : Expr}
    (hcurrent : parser.current = ⟨.leftParen, position⟩)
    (hadvance : parser.advance = (.ok taken, middle))
    (hlimit : parser.depth + 1 ≤ maxNesting)
    (hopened : opened = { middle with depth := middle.depth + 1 })
    (hinner : opened.Reads (.chain .sum) tree closing)
    (hclosing : closing.current.token = .rightParen)
    (hadvance' : closing.advance = (.ok last, after)) :
    parser.Reads .factor tree { after with depth := after.depth - 1 } := by
  subst hopened
  obtain ⟨rfl, htakes, hdepth, hoperators⟩ := advance_ok hadvance
  obtain ⟨ts, htakes', hderives⟩ := hinner.derives
  obtain ⟨rfl, htakes'', hdepth', hoperators'⟩ := advance_ok hadvance'
  have hinside : closing.depth = parser.depth + 1 := by rw [hinner.depth, hdepth]
  have hmove := Scan.move_leftParen parser.operators position hlimit
  rw [← hcurrent] at hmove
  have hcurrent' : closing.current = ⟨.rightParen, closing.current.position⟩ := by rw [← hclosing]
  have hmove' := Scan.move_rightParen closing.operators closing.current.position
    (show closing.depth > 0 by omega)
  rw [← hcurrent'] at hmove'
  refine ⟨⟨parser.current :: (ts ++ [closing.current]),
    htakes.trans (htakes'.trans htakes''), ?_⟩, ?_, ?_, ?_⟩
  · rw [hcurrent, hcurrent']
    exact .group position _ hderives
  · simp only [hdepth', hinside]
    omega
  · simp only [hoperators', hinner.operators, hoperators]
  · have hentry := scan_of_advance_ok { middle with depth := middle.depth + 1 } hmove hadvance rfl
      (by rw [hdepth, hoperators])
    have hexit := scan_of_advance_ok { after with depth := after.depth - 1 } hmove' hadvance' rfl
      (by rw [hdepth', hoperators'])
    exact hentry.trans (hinner.scan.trans hexit)

end Reads

theorem answers_andThen {start parser : Parser} {outer phrase : Phrase} {reply : Reply Expr}
    {next : Expr → Parser → Reply Expr} (hscan : start.scan .due = parser.scan .due)
    (hreply : parser.Answers phrase reply)
    (hnext : ∀ tree after, parser.Reads phrase tree after → phrase.EndsBefore after.current →
      start.Answers outer (next tree after)) :
    start.Answers outer (Reply.andThen reply next) := by
  obtain ⟨result, after⟩ := reply
  cases result with
  | error e =>
    -- The call fails, and with it the whole: the scan has come to the same error.
    exact hscan.trans hreply
  | ok tree => exact hnext tree after hreply.1 hreply.2

/-! ## Chains -/

/-- A chain ends before a token that is no operator of its level, where its
last operand ends too. -/
theorem endsBefore_of_operatorAt?_eq_none {level : Level} {located : Located}
    (hnone : located.token.operatorAt? level = none)
    (hoperand : level.operand.EndsBefore located) :
    (Phrase.chain level).EndsBefore located := by
  intro op htoken
  have hlevel : op.level ≠ level := by
    intro hlevel
    rw [Token.operatorAt?_eq_some_iff.mpr ⟨htoken, hlevel⟩] at hnone
    cases hnone
  simp [Phrase.holds_chain, hlevel, hoperand op htoken]

theorem chainRest_of_none {level : Level} {operand : Parser → Reply Expr} {room : Nat}
    {left : Expr} {parser : Parser} (hop : parser.current.token.operatorAt? level = none) :
    chainRest level operand room left parser = (.ok left, parser) := by
  rw [chainRest]
  simp only [hop]

/-- The room of a chain cuts nothing short: as long as it is no less than what
the limit leaves, an operator is taken and counted, and the count alone
decides. -/
theorem chainRest_of_some {level : Level} {operand : Parser → Reply Expr} {room : Nat}
    {left : Expr} {op : Operator} {parser : Parser}
    (hop : parser.current.token.operatorAt? level = some op)
    (hroom : maxOperators ≤ room + parser.operators) :
    chainRest level operand room left parser =
      Reply.andThen parser.advance fun taken middle =>
        Reply.andThen (middle.countOperator taken.position) fun _ counted =>
          Reply.andThen (operand counted) fun right after =>
            chainRest level operand (room - 1) (.binary left op right taken.position) after := by
  rw [chainRest]
  simp only [hop]
  cases room with
  | succ room => rfl
  | zero =>
    cases hadvance : parser.advance with
    | mk result middle =>
      cases result with
      | error e => rfl
      | ok taken =>
        obtain ⟨-, -, -, hoperators⟩ := advance_ok hadvance
        have hover : middle.operators + 1 > maxOperators := by omega
        simp only [Reply.andThen_ok, countOperator, if_pos hover, Reply.andThen_error]

theorem chainRest_answers {level : Level} {operand : Parser → Reply Expr} {start : Parser}
    (hoperand : ∀ parser : Parser, parser.depth = start.depth →
      parser.Answers level.operand (operand parser))
    (room : Nat) {left : Expr} {parser : Parser} (hleft : start.Reads (.chain level) left parser)
    (hends : level.operand.EndsBefore parser.current)
    (hroom : maxOperators ≤ room + parser.operators) :
    start.Answers (.chain level) (chainRest level operand room left parser) := by
  -- The room shrinks with every operator, while the operand behind it may count more.
  induction room using Nat.strongRecOn generalizing left parser with
  | ind room ih =>
    cases hop : parser.current.token.operatorAt? level with
    | none =>
      rw [chainRest_of_none hop]
      exact ⟨hleft, endsBefore_of_operatorAt?_eq_none hop hends⟩
    | some op =>
      obtain ⟨htoken, hlevel⟩ := Token.operatorAt?_eq_some_iff.mp hop
      have hcurrent : parser.current = ⟨.operator op, parser.current.position⟩ := by rw [← htoken]
      rw [chainRest_of_some hop hroom]
      cases hadvance : parser.advance with
      | mk result middle =>
        cases result with
        | error e =>
          exact hleft.scan.trans (scan_of_advance_error hcurrent ⟨_, _, rfl⟩ hadvance)
        | ok taken =>
          obtain ⟨rfl, -, hdepth, hoperators⟩ := advance_ok hadvance
          by_cases hlimit : middle.operators + 1 > maxOperators
          · have hmove := Scan.move_operator_over parser.depth op parser.current.position
              (hoperators ▸ hlimit)
            rw [← hcurrent] at hmove
            simp only [Reply.andThen_ok, countOperator, if_pos hlimit, Reply.andThen_error]
            exact hleft.scan.trans (scan_of_exceeded hmove hadvance)
          · have hwithin : parser.operators + 1 ≤ maxOperators :=
              hoperators ▸ Nat.le_of_not_gt hlimit
            simp only [Reply.andThen_ok, countOperator, if_neg hlimit]
            have hmove := Scan.move_operator parser.depth op parser.current.position hwithin
            rw [← hcurrent] at hmove
            have hpassed := scan_of_advance_ok { middle with operators := middle.operators + 1 }
              hmove hadvance rfl (by rw [hdepth, hoperators])
            apply answers_andThen (hleft.scan.trans hpassed)
              (hoperand _ (by rw [hdepth, hleft.depth]))
            intro right after hright hends'
            have hcount := hright.operators
            simp only [hoperators] at hcount
            apply ih (room - 1) (by omega)
            · exact hleft.operation hcurrent hlevel hadvance hwithin rfl hright
            · exact hends'
            · omega

/-- A chain keeps the contract if its operands do. -/
theorem chain_answers {level : Level} {operand : Parser → Reply Expr} (start : Parser)
    (hoperand : ∀ parser : Parser, parser.depth = start.depth →
      parser.Answers level.operand (operand parser)) :
    start.Answers (.chain level) (chain level operand start) := by
  apply answers_andThen rfl (hoperand start rfl)
  intro left after hleft hends
  have hcount := hleft.operators
  exact chainRest_answers hoperand _ hleft.operand hends (by omega)

/-! ## The grammar -/

theorem close_answers {parser closing : Parser} {tree : Expr} (hinside : closing.depth > 0)
    (hscan : parser.scan .due = closing.scan .ended)
    (hends : (Phrase.chain .sum).EndsBefore closing.current)
    (hgroup : ∀ last after, closing.current.token = .rightParen →
      closing.advance = (.ok last, after) →
      parser.Reads .factor tree { after with depth := after.depth - 1 }) :
    parser.Answers .factor (Reply.andThen (closing.eat .rightParen) fun _ after =>
      (.ok tree, { after with depth := after.depth - 1 })) := by
  by_cases hclosing : closing.current.token = .rightParen
  · have hcurrent : closing.current = ⟨.rightParen, closing.current.position⟩ := by rw [← hclosing]
    simp only [eat, hclosing, Token.kind, if_true]
    cases hadvance : closing.advance with
    | mk result after =>
      cases result with
      | error e =>
        have hmove := Scan.move_rightParen closing.operators closing.current.position hinside
        exact hscan.trans (scan_of_advance_error hcurrent ⟨_, _, hmove⟩ hadvance)
      | ok last => exact ⟨hgroup last after hclosing hadvance, fun _ _ => rfl⟩
  · have hkind : closing.current.token.kind ≠ .rightParen := by
      cases htoken : closing.current.token <;> simp_all [Token.kind]
    simp only [eat, if_neg hkind, Reply.andThen_error]
    exact hscan.trans (Scan.resume_stop _
      (Scan.move_unclosed hinside (not_operator_of_endsBefore hends) hclosing))

/-- The nesting left cuts nothing short either: a parenthesis is taken and
counted, and the count alone decides. -/
theorem primaryWithin_of_leftParen {nesting : Nat} {parser : Parser}
    (htoken : parser.current.token = .leftParen) (hnesting : nesting = maxNesting - parser.depth) :
    primaryWithin nesting parser =
      Reply.andThen parser.advance fun taken middle =>
        let opened := { middle with depth := middle.depth + 1 }
        if opened.depth > maxNesting then
          (.error (.syntactic (.nestingTooDeep maxNesting taken.position)), opened)
        else
          Reply.andThen (chain .sum (chain .product (primaryWithin (nesting - 1))) opened)
            fun inner closing =>
              Reply.andThen (closing.eat .rightParen) fun _ after =>
                (.ok inner, { after with depth := after.depth - 1 }) := by
  rw [primaryWithin]
  simp only [htoken, eat, Token.kind, if_true]
  cases hadvance : parser.advance with
  | mk result middle =>
    cases result with
    | error e => rfl
    | ok taken =>
      obtain ⟨-, -, hdepth, -⟩ := advance_ok hadvance
      cases nesting with
      | zero =>
        have hover : middle.depth + 1 > maxNesting := by omega
        simp only [Reply.andThen_ok, if_pos hover]
      | succ nesting =>
        have hwithin : ¬middle.depth + 1 > maxNesting := by omega
        simp only [Reply.andThen_ok, if_neg hwithin, Nat.add_sub_cancel]

theorem primaryWithin_of_other {nesting : Nat} {parser : Parser}
    (hinteger : ∀ value, parser.current.token ≠ .integer value)
    (hparen : parser.current.token ≠ .leftParen) :
    primaryWithin nesting parser =
      (.error (parser.unexpected [.integer, .leftParen]), parser) := by
  rw [primaryWithin]
  cases htoken : parser.current.token with
  | integer value => exact absurd htoken (hinteger value)
  | leftParen => exact absurd htoken hparen
  | operator op => rfl
  | rightParen => rfl
  | endOfInput => rfl

theorem group_answers {parser : Parser} {inside : Parser → Reply Expr}
    (htoken : parser.current.token = .leftParen)
    (hinside : ∀ opened : Parser, opened.depth = parser.depth + 1 → opened.depth ≤ maxNesting →
      opened.Answers (.chain .sum) (inside opened)) :
    parser.Answers .factor
      (Reply.andThen parser.advance fun taken middle =>
        let opened := { middle with depth := middle.depth + 1 }
        if opened.depth > maxNesting then
          (.error (.syntactic (.nestingTooDeep maxNesting taken.position)), opened)
        else
          Reply.andThen (inside opened) fun inner closing =>
            Reply.andThen (closing.eat .rightParen) fun _ after =>
              (.ok inner, { after with depth := after.depth - 1 })) := by
  have hcurrent : parser.current = ⟨.leftParen, parser.current.position⟩ := by rw [← htoken]
  cases hadvance : parser.advance with
  | mk result middle =>
    cases result with
    | error e => exact scan_of_advance_error hcurrent ⟨_, _, rfl⟩ hadvance
    | ok taken =>
      obtain ⟨rfl, -, hdepth, hoperators⟩ := advance_ok hadvance
      -- The parenthesis is taken before it is counted, by the parser and by the scan.
      by_cases hlimit : middle.depth + 1 > maxNesting
      · have hmove := Scan.move_leftParen_over parser.operators parser.current.position
          (hdepth ▸ hlimit)
        rw [← hcurrent] at hmove
        simp only [Reply.andThen_ok, if_pos hlimit]
        exact scan_of_exceeded hmove hadvance
      · have hwithin : middle.depth + 1 ≤ maxNesting := Nat.le_of_not_gt hlimit
        have hmove := Scan.move_leftParen parser.operators parser.current.position
          (hdepth ▸ hwithin)
        rw [← hcurrent] at hmove
        have hpassed := scan_of_advance_ok { middle with depth := middle.depth + 1 }
          hmove hadvance rfl (by rw [hdepth, hoperators])
        simp only [Reply.andThen_ok, if_neg hlimit]
        apply answers_andThen hpassed (hinside _ (by rw [hdepth]) hwithin)
        intro tree closing hinner hends
        have hopened : closing.depth > 0 := by
          rw [hinner.depth]
          exact Nat.succ_pos _
        apply close_answers hopened (hpassed.trans hinner.scan) hends
        intro last after hclosing hadvance'
        exact .group hcurrent hadvance (hdepth ▸ hwithin) rfl hinner hclosing hadvance'

theorem primaryWithin_answers (nesting : Nat) (parser : Parser)
    (hnesting : nesting = maxNesting - parser.depth) :
    parser.Answers .factor (primaryWithin nesting parser) := by
  -- The nesting left is one less inside a parenthesis, from where the chains lead back here.
  induction nesting using Nat.strongRecOn generalizing parser with
  | ind nesting ih =>
    by_cases hparen : parser.current.token = .leftParen
    · rw [primaryWithin_of_leftParen hparen hnesting]
      apply group_answers hparen
      intro opened hopened hlimit
      apply chain_answers opened
      intro product hproduct
      apply chain_answers product
      intro primary hprimary
      exact ih (nesting - 1) (by omega) primary (by omega)
    · by_cases hinteger : ∃ value, parser.current.token = .integer value
      · obtain ⟨value, htoken⟩ := hinteger
        have hcurrent : parser.current = ⟨.integer value, parser.current.position⟩ := by
          rw [← htoken]
        rw [primaryWithin]
        simp only [htoken, eat, Token.kind, if_true]
        cases hadvance : parser.advance with
        | mk result after =>
          cases result with
          | error e => exact scan_of_advance_error hcurrent ⟨_, _, rfl⟩ hadvance
          | ok taken => exact ⟨.literal hcurrent hadvance, fun _ _ => rfl⟩
      · have hother := not_exists.mp hinteger
        rw [primaryWithin_of_other hother hparen]
        exact Scan.resume_stop _ (Scan.move_unexpected hother hparen)

theorem expression_answers (parser : Parser) :
    parser.Answers (.chain .sum) parser.expression := by
  apply chain_answers parser
  intro product hproduct
  apply chain_answers product
  intro primary hprimary
  apply primaryWithin_answers
  rw [nesting, hprimary, hproduct]

end Parser

end LineCalc
