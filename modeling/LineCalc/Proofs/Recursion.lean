import LineCalc.Line
import LineCalc.Proofs.Acceptance
import LineCalc.Proofs.Accounting
/-
  Recursion: how deep the calls for a line go

  A group calls for the expression in it, and an evaluation for the values of both
  operands. Nothing else nests without a bound, and both limits are there to bound
  it: the one of the parentheses for the groups, the one of the operators for the
  height of a tree. So a line may be of any length, and a parser and an evaluation
  that give up beyond a fixed number of levels answer it as those without bounds do.

  What is proved:
    1. `Machine.groupings_le` — the groups that are open at a moment of a call;
    2. `Machine.step_deepest` — the one for which there is no room ends at once;
    3. `Expr.height_le`, `Expr.valueWithin_of_height_le` — the levels of a tree, and
       those its evaluation needs;
    4. `Machine.EndsWithin.of_reaches` — a call in which no more groups are open than
       a budget allows is carried out within the budget;
    5. `recursion_within_limits` — all of these for the lines and the calls of the
       program;
    6. `exists_deepest_group` — a line of parentheses comes to the group for which
       there is no room.
-/

namespace LineCalc

/-! ## Groups -/

/-- The error of a group for which there is no room: the limit is exceeded, unless
what stands behind its parenthesis is no token. -/
def Parser.refusal (opening : Parser) : Error :=
  match opening.cursor.nextToken with
  | (.ok _, _) => .syntactic (.nestingTooDeep maxNesting opening.current.position)
  | (.error e, _) => .lexical e

namespace Machine

/-- The number of groups that are open: those that wait, and one that begins. -/
def groupings (moment : Machine) : Nat :=
  match moment.control with
  | .call _ _ => Frame.groupings moment.stack
  | .group _ => Frame.groupings moment.stack + 1
  | .loop _ _ _ => Frame.groupings moment.stack
  | .reply _ => Frame.groupings moment.stack

theorem groupings_le_succ (moment : Machine) :
    moment.groupings ≤ Frame.groupings moment.stack + 1 := by
  obtain ⟨control, stack⟩ := moment
  cases control <;> simp [groupings]

theorem of_proceed_group {α : Type} {stack after : List Frame} {reply : Reply α}
    {next : α → Parser → Machine} {opening : Parser}
    (h : proceed stack reply next = ⟨.group opening, after⟩) :
    ∃ a parser, reply = (.ok a, parser) ∧ next a parser = ⟨.group opening, after⟩ := by
  obtain ⟨result, parser⟩ := reply
  cases result with
  | error e => cases h
  | ok a => exact ⟨a, parser, rfl, h⟩

section
variable {frames stack : List Frame} {opening parser : Parser}

/-- A group begins where a factor is called at an opening parenthesis, and nowhere else. -/
theorem opening_of_enter {routine : Routine}
    (h : enter frames routine parser = ⟨.group opening, stack⟩) :
    opening.current.token = .leftParen := by
  match routine with
  | .line => cases h
  | .phrase (.chain level) => cases h
  | .phrase .factor =>
    simp only [enter] at h
    cases htoken : parser.current.token with
    | leftParen =>
      simp only [htoken] at h
      cases h
      exact htoken
    | integer value =>
      simp only [htoken] at h
      obtain ⟨_, _, -, hnext⟩ := of_proceed_group h
      cases hnext
    | operator op =>
      simp only [htoken] at h
      cases h
    | rightParen =>
      simp only [htoken] at h
      cases h
    | endOfInput =>
      simp only [htoken] at h
      cases h

theorem openGroup_ne_group : openGroup frames parser ≠ ⟨.group opening, stack⟩ := by
  intro h
  obtain ⟨taken, after, -, hnext⟩ := of_proceed_group h
  dsimp only at hnext
  split at hnext <;> cases hnext

theorem goOn_ne_group {level : Level} {left : Expr} :
    goOn frames level left parser ≠ ⟨.group opening, stack⟩ := by
  intro h
  unfold goOn at h
  split at h
  · cases h
  · obtain ⟨taken, middle, -, hcount⟩ := of_proceed_group h
    obtain ⟨_, after, -, hnext⟩ := of_proceed_group hcount
    cases hnext

theorem resume_ne_group {frame : Frame} {tree : Expr} :
    resume frames frame tree parser ≠ ⟨.group opening, stack⟩ := by
  intro h
  cases frame with
  | line =>
    simp only [resume] at h
    split at h <;> cases h
  | first level => cases h
  | next level left op position => cases h
  | primary => cases h
  | grouping =>
    obtain ⟨_, after, -, hnext⟩ := of_proceed_group h
    cases hnext

end

theorem opening_of_step {before : Machine} {opening : Parser} {stack : List Frame}
    (h : before.step = some ⟨.group opening, stack⟩) : opening.current.token = .leftParen := by
  obtain ⟨control, frames⟩ := before
  cases control with
  | call routine parser => exact opening_of_enter (Option.some.inj h)
  | group parser => exact absurd (Option.some.inj h) openGroup_ne_group
  | loop level left parser => exact absurd (Option.some.inj h) goOn_ne_group
  | reply reply =>
    cases frames with
    | nil => cases h
    | cons frame frames =>
      obtain ⟨tree, parser, -, hresume⟩ := of_proceed_group (Option.some.inj h)
      exact absurd hresume resume_ne_group

theorem openGroup_refused {opening : Parser} (htoken : opening.current.token = .leftParen)
    (hdepth : maxNesting ≤ opening.depth) (stack : List Frame) :
    ∃ after, openGroup stack opening = ⟨.reply (.error opening.refusal, after), stack⟩ := by
  simp only [openGroup, Parser.eat, htoken, Token.kind, if_true, Parser.advance, Parser.refusal]
  cases opening.cursor.nextToken with
  | mk item cursor =>
    cases item with
    | error e => exact ⟨_, rfl⟩
    | ok next =>
      have hlimit : opening.depth + 1 > maxNesting := Nat.lt_succ_of_le hdepth
      simp only [proceed, if_pos hlimit]
      exact ⟨_, rfl⟩

section
variable {routine : Routine} {parser : Parser} {moment : Machine}
  (h : (ofCall routine parser).Reaches moment)
include h

/-- A call never has more groups open than there is room for, and one more. -/
theorem groupings_le : moment.groupings ≤ max 1 (maxNesting + 1 - parser.depth) := by
  obtain ⟨ts, hsince⟩ := h.since
  have hwithin : Frame.groupings moment.stack ≤ maxNesting - parser.depth := hsince.within
  have hmore := moment.groupings_le_succ
  omega

theorem step_deepest {opening : Parser} (hgroup : moment.control = .group opening)
    (hmost : max 1 (maxNesting + 1 - parser.depth) ≤ moment.groupings) :
    ∃ after, moment.step = some ⟨.reply (.error opening.refusal, after), moment.stack⟩ := by
  obtain ⟨ts, hsince⟩ := h.since
  obtain ⟨control, stack⟩ := moment
  simp only at hgroup
  subst hgroup
  have hlevel : opening.depth = parser.depth + Frame.groupings stack := hsince.level rfl
  have htoken : opening.current.token = .leftParen := by
    cases h with
    | step _ hstep => exact opening_of_step hstep
  simp only [groupings] at hmost
  obtain ⟨after, hrefused⟩ := openGroup_refused htoken (by omega) stack
  exact ⟨after, congrArg some hrefused⟩

end

end Machine

/-! ## Trees -/

namespace Expr

/-- The number of levels of a tree: a literal has one. -/
def height : Expr → Nat
  | literal _ _ => 1
  | binary left _ right _ => max left.height right.height + 1

theorem height_le_operations (tree : Expr) : tree.height ≤ tree.operations + 1 := by
  induction tree with
  | literal value position => exact Nat.le_refl 1
  | binary left op right position ihl ihr =>
    simp only [height, operations]
    omega

/-- The value of a tree whose evaluation may go through a number of levels, if it
needs no more. -/
def valueWithin : Nat → Expr → Option (Except RuntimeError Value)
  | 0, _ => none
  | _ + 1, literal n _ => some (.ok (.integer n))
  | levels + 1, binary left op right position =>
    match left.valueWithin levels with
    | none => none
    | some (.error e) => some (.error e)
    | some (.ok l) =>
      match right.valueWithin levels with
      | none => none
      | some (.error e) => some (.error e)
      | some (.ok r) => some (op.apply l r position)

theorem valueWithin_of_height_le {levels : Nat} {tree : Expr} (h : tree.height ≤ levels) :
    tree.valueWithin levels = some tree.value := by
  induction tree generalizing levels with
  | literal n position =>
    cases levels with
    | zero => cases h
    | succ levels => rfl
  | binary left op right position ihl ihr =>
    cases levels with
    | zero => cases h
    | succ levels =>
      simp only [height] at h
      have hleft : left.height ≤ levels := by omega
      have hright : right.height ≤ levels := by omega
      simp only [valueWithin, value, ihl hleft, ihr hright]
      cases left.value with
      | error e => rfl
      | ok l => cases right.value <;> rfl

theorem height_le {source : String} {tree : Expr} (h : parseLine source = .ok tree) :
    tree.operations ≤ maxOperators ∧ tree.height ≤ maxOperators + 1 := by
  obtain ⟨ts, hts, hderives, -⟩ := derives_of_parseLine h
  obtain ⟨-, hoperators⟩ := within_of_parseLine h hts
  rw [hderives.countOperators_eq] at hoperators
  exact ⟨hoperators, Nat.le_trans tree.height_le_operations (Nat.succ_le_succ hoperators)⟩

end Expr

/-! ## Budgets -/

namespace Machine

/-- A call that goes on to its end with no more groups open than a budget. -/
inductive EndsWithin (groups : Nat) : Machine → Reply Expr → Prop where
  | ended (reply : Reply Expr) : EndsWithin groups (ended reply) reply
  | step {moment next : Machine} {reply : Reply Expr} : moment.groupings ≤ groups →
    moment.step = some next → EndsWithin groups next reply → EndsWithin groups moment reply

namespace EndsWithin
variable {groups : Nat} {first : Machine} {reply : Reply Expr}

theorem reaches (h : EndsWithin groups first reply) : first.Reaches (Machine.ended reply) := by
  induction h with
  | ended reply => exact .refl
  | step _ hstep _ ih => exact .head hstep ih

theorem of_reaches (hend : first.Reaches (Machine.ended reply))
    (hbudget : ∀ moment, first.Reaches moment → moment.groupings ≤ groups) :
    EndsWithin groups first reply := by
  -- Backwards from the end, as every moment on the way keeps the budget.
  have hback : ∀ moment, first.Reaches moment → EndsWithin groups moment reply →
      EndsWithin groups first reply := by
    intro moment hmoment
    induction hmoment with
    | refl => exact id
    | step hbefore hstep ih =>
      intro hafter
      exact ih (.step (hbudget _ hbefore) hstep hafter)
  exact hback _ hend (.ended reply)

end EndsWithin

end Machine

/-- The answer of a parser that gives up beyond a number of open groups. -/
inductive ParsesWithin (groups : Nat) (source : String) : Except Error Expr → Prop where
  | unread {e : Error} : Parser.ofSource source = .error e → ParsesWithin groups source (.error e)
  | read {start after : Parser} {result : Except Error Expr} :
    Parser.ofSource source = .ok start →
    Machine.EndsWithin groups (.ofCall .line start) (result, after) →
    ParsesWithin groups source result

/-- The answer of a line that is parsed and evaluated within both budgets. -/
inductive EvaluatesWithin (groups levels : Nat) (source : String) : Except Error Value → Prop where
  | unparsed {e : Error} : ParsesWithin groups source (.error e) →
    EvaluatesWithin groups levels source (.error e)
  | failed {tree : Expr} {e : RuntimeError} : ParsesWithin groups source (.ok tree) →
    tree.valueWithin levels = some (.error e) →
    EvaluatesWithin groups levels source (.error (.runtime e))
  | evaluated {tree : Expr} {value : Value} : ParsesWithin groups source (.ok tree) →
    tree.valueWithin levels = some (.ok value) → EvaluatesWithin groups levels source (.ok value)

/-- With room for one group more than the limit, the answer is the one without a
bound, and there is no other. -/
theorem parsesWithin_iff {source : String} {result : Except Error Expr} :
    ParsesWithin (maxNesting + 1) source result ↔ result = parseLine source := by
  constructor
  · intro h
    cases h with
    | unread hstart => rw [parseLine, hstart]
    | @read start after result hstart hends =>
      have hsame := (Machine.computes_line start []).ended_unique hends.reaches
      rw [parseLine, hstart]
      exact congrArg Prod.fst hsame
  · rintro rfl
    rw [parseLine]
    cases hstart : Parser.ofSource source with
    | error e => exact .unread hstart
    | ok start =>
      have hends : Machine.EndsWithin (maxNesting + 1) (.ofCall .line start)
          (start.line.1, start.line.2) := by
        apply Machine.EndsWithin.of_reaches (Machine.computes_line start [])
        intro moment hmoment
        have hmost := Machine.groupings_le hmoment
        omega
      exact .read hstart hends

theorem evaluatesWithin_iff {source : String} {answer : Except Error Value} :
    EvaluatesWithin (maxNesting + 1) (maxOperators + 1) source answer ↔
      answer = evaluateLine source := by
  constructor
  · intro h
    cases h with
    | unparsed hparse => rw [evaluateLine, ← parsesWithin_iff.mp hparse]
    | @failed tree e hparse hvalue =>
      have hline := (parsesWithin_iff.mp hparse).symm
      rw [Expr.valueWithin_of_height_le (Expr.height_le hline).2] at hvalue
      rw [evaluateLine_of_parseLine hline, Expr.answer, Option.some.inj hvalue]
    | @evaluated tree value hparse hvalue =>
      have hline := (parsesWithin_iff.mp hparse).symm
      rw [Expr.valueWithin_of_height_le (Expr.height_le hline).2] at hvalue
      rw [evaluateLine_of_parseLine hline, Expr.answer, Option.some.inj hvalue]
  · rintro rfl
    cases hline : parseLine source with
    | error e =>
      rw [evaluateLine, hline]
      exact .unparsed (parsesWithin_iff.mpr hline.symm)
    | ok tree =>
      have hparse := parsesWithin_iff.mpr hline.symm
      have hwithin := Expr.valueWithin_of_height_le (Expr.height_le hline).2
      rw [evaluateLine_of_parseLine hline, Expr.answer]
      cases hvalue : tree.value with
      | error e => exact .failed hparse (hwithin.trans (congrArg some hvalue))
      | ok value => exact .evaluated hparse (hwithin.trans (congrArg some hvalue))

/-! ## All lines and calls -/

/-- Every call comes to its end from any parser, with no more groups open than there is
room for and one more; that one ends at once, with the error of the limit unless what
stands behind its parenthesis is no token. The tree of a line has no more operations
than a line may hold operators, and at most one level more. So a parser with room for
one group more than the limit, and an evaluation with room for as many levels, answer
every line as those without bounds do, and in no other way. -/
theorem recursion_within_limits :
    (∀ routine (parser : Parser),
      (Machine.ofCall routine parser).Reaches (.ended (parser.answer routine)) ∧
      ∀ moment, (Machine.ofCall routine parser).Reaches moment →
        moment.Reaches (.ended (parser.answer routine)) ∧
        moment.groupings ≤ max 1 (maxNesting + 1 - parser.depth) ∧
        ∀ opening, moment.control = .group opening →
          moment.groupings = max 1 (maxNesting + 1 - parser.depth) →
          ∃ after, moment.step = some ⟨.reply (.error opening.refusal, after), moment.stack⟩) ∧
    ∀ source,
      (∀ tree, parseLine source = .ok tree →
        tree.operations ≤ maxOperators ∧ tree.height ≤ maxOperators + 1) ∧
      (∀ result, ParsesWithin (maxNesting + 1) source result ↔ result = parseLine source) ∧
      ∀ answer, EvaluatesWithin (maxNesting + 1) (maxOperators + 1) source answer ↔
        answer = evaluateLine source := by
  constructor
  · intro routine parser
    have hend := Machine.reaches_answer routine parser
    refine ⟨hend, fun moment hmoment => ⟨hend.comesTo hmoment, Machine.groupings_le hmoment, ?_⟩⟩
    intro opening hgroup hmost
    exact Machine.step_deepest hmoment hgroup (Nat.le_of_eq hmost.symm)
  · intro source
    exact ⟨fun tree => Expr.height_le, fun result => parsesWithin_iff,
      fun answer => evaluatesWithin_iff⟩

/-- A line with one group, and a group behind as many as a line has room for. -/
theorem recursion_within_limits_of_group :
    let tree : Expr := .binary (.literal 8 0) .sub (.binary (.literal 2 3) .sub (.literal 3 5) 4) 1
    let full : Parser := ⟨(Cursor.ofSource "(1").nextToken.2, ⟨.leftParen, 0⟩, maxNesting, 0⟩
    parseLine "8-(2-3)" = .ok tree ∧ tree.height ≤ maxOperators + 1 ∧
      ParsesWithin (maxNesting + 1) "8-(2-3)" (.ok tree) ∧
      EvaluatesWithin (maxNesting + 1) (maxOperators + 1) "8-(2-3)" (.ok (.integer 9)) ∧
      (Machine.ofCall (.phrase .factor) full).Reaches ⟨.group full, [.primary]⟩ ∧
      ∃ after, (⟨.group full, [.primary]⟩ : Machine).step =
        some ⟨.reply (.error (.syntactic (.nestingTooDeep 256 0)), after), [.primary]⟩ := by
  intro tree full
  have htree : parseLine "8-(2-3)" = .ok tree := by decide +kernel
  have hvalue : evaluateLine "8-(2-3)" = .ok (.integer 9) := by decide +kernel
  have hrefusal : full.refusal = .syntactic (.nestingTooDeep 256 0) := by decide +kernel
  have hreaches : (Machine.ofCall (.phrase .factor) full).Reaches ⟨.group full, [.primary]⟩ :=
    .head rfl .refl
  obtain ⟨hcalls, hlines⟩ := recursion_within_limits
  obtain ⟨htrees, hparses, hevaluates⟩ := hlines "8-(2-3)"
  obtain ⟨-, hmoments⟩ := hcalls (.phrase .factor) full
  obtain ⟨-, -, hdeepest⟩ := hmoments _ hreaches
  obtain ⟨after, hstep⟩ := hdeepest full rfl (by decide)
  rw [hrefusal] at hstep
  exact ⟨htree, (htrees tree htree).2, (hparses _).mpr htree.symm, (hevaluates _).mpr hvalue.symm,
    hreaches, after, hstep⟩

/-! ## A line of parentheses -/

theorem Item.ofChars_leftParens (count position : Nat) (text : List Char) :
    ∃ items : List Item, items.length = count ∧
      (∀ item ∈ items, ∃ place, item = .ok ⟨.leftParen, place⟩) ∧
      Item.ofChars position (List.replicate count '(' ++ text) =
        items ++ Item.ofChars (position + count) text := by
  induction count generalizing position with
  | zero => exact ⟨[], rfl, nofun, rfl⟩
  | succ count ih =>
    obtain ⟨items, hlength, hitems, hrest⟩ := ih (position + 1)
    have hblank : isBlank '(' = false := by decide
    have hdigit : '('.isDigit = false := by decide
    have hparen : Item.ofChar '(' position = .ok ⟨.leftParen, position⟩ := rfl
    refine ⟨.ok ⟨.leftParen, position⟩ :: items, congrArg Nat.succ hlength, ?_, ?_⟩
    · exact List.forall_mem_cons.mpr ⟨⟨position, rfl⟩, hitems⟩
    · rw [List.replicate_succ, List.cons_append, Item.ofChars, hblank, hdigit,
        if_neg Bool.false_ne_true, if_neg Bool.false_ne_true, hparen, hrest, List.cons_append, Nat.add_assoc, Nat.add_comm 1]

namespace Machine

/-- Each parenthesis behind the one that a group begins with opens one more group, as
long as there is room. -/
theorem reaches_opened {opening : Parser} {items rest : List Item}
    (hpending : opening.cursor.pending = items ++ rest)
    (hitems : ∀ item ∈ items, ∃ place, item = .ok ⟨.leftParen, place⟩)
    (htoken : opening.current.token = .leftParen)
    (hroom : opening.depth + items.length ≤ maxNesting) (stack : List Frame) :
    ∃ last frames, (⟨.group opening, stack⟩ : Machine).Reaches ⟨.group last, frames⟩ ∧
      Frame.groupings frames = Frame.groupings stack + items.length ∧
      last.cursor.pending = rest := by
  induction items generalizing opening stack with
  | nil => exact ⟨opening, stack, .refl, rfl, hpending⟩
  | cons item items ih =>
    obtain ⟨⟨place, rfl⟩, hothers⟩ := List.forall_mem_cons.mp hitems
    obtain ⟨cursor, hnext, hbehind, -⟩ := Cursor.nextToken_of_pending_cons hpending
    rw [List.length_cons] at hroom
    -- One group more: its parenthesis is taken, and a sum, a product and a primary begin.
    let opened : Parser := ⟨cursor, ⟨.leftParen, place⟩, opening.depth + 1, opening.operators⟩
    let frames : List Frame := .primary :: .first .product :: .first .sum :: .grouping :: stack
    have hopen : openGroup stack opening =
        ⟨.call (.phrase (.chain .sum)) opened, .grouping :: stack⟩ := by
      have hlimit : ¬ opening.depth + 1 > maxNesting := by omega
      simp only [openGroup, Parser.eat, htoken, Token.kind, if_true, Parser.advance, hnext, proceed,
        if_neg hlimit]
      rfl
    obtain ⟨last, later, hreaches, hgroupings, hrest⟩ :=
      ih (show opened.cursor.pending = items ++ rest from hbehind) hothers rfl
        (by simp only [opened]; omega) frames
    refine ⟨last, later, ?_, ?_, hrest⟩
    · exact .head (congrArg some hopen) (.head rfl (.head rfl (.head rfl hreaches)))
    · rw [hgroupings, List.length_cons]
      simp only [frames, Frame.groupings]
      omega

end Machine

/-- The group behind as many parentheses as a line has room for, with any text behind
its own. -/
theorem exists_deepest_group (text : List Char) :
    ∃ start opening frames,
      Parser.ofSource (String.ofList (List.replicate (maxNesting + 1) '(' ++ text)) = .ok start ∧
      start.depth = 0 ∧ (Machine.ofCall .line start).Reaches ⟨.group opening, frames⟩ ∧
      Frame.groupings frames = maxNesting ∧
      opening.cursor.pending = Item.ofChars (maxNesting + 1) text := by
  obtain ⟨items, hlength, hitems, hsource⟩ := Item.ofChars_leftParens (maxNesting + 1) 0 text
  cases items with
  | nil => cases hlength
  | cons item items =>
    obtain ⟨⟨place, rfl⟩, hothers⟩ := List.forall_mem_cons.mp hitems
    have hcount : items.length = maxNesting := Nat.succ.inj hlength
    have hfirst : (Cursor.ofSource (String.ofList
        (List.replicate (maxNesting + 1) '(' ++ text))).pending =
          .ok ⟨.leftParen, place⟩ :: (items ++ Item.ofChars (maxNesting + 1) text) := by
      rw [Cursor.pending_ofSource, Item.ofSource, String.toList_ofList, hsource, Nat.zero_add]
      rfl
    obtain ⟨cursor, hnext, hbehind, -⟩ := Cursor.nextToken_of_pending_cons hfirst
    let start : Parser := ⟨cursor, ⟨.leftParen, place⟩, 0, 0⟩
    let frames : List Frame := [.primary, .first .product, .first .sum, .line]
    obtain ⟨opening, later, hreaches, hgroupings, hpending⟩ :=
      Machine.reaches_opened (show start.cursor.pending = _ from hbehind) hothers rfl
        (by rw [hcount]; exact Nat.le_of_eq (Nat.zero_add _)) frames
    refine ⟨start, opening, later, ?_, rfl, ?_, ?_, hpending⟩
    · rw [Parser.ofSource, hnext]
    · -- The line, both chains and the factor call each other without taking a token.
      exact .head rfl (.head rfl (.head rfl (.head rfl hreaches)))
    · rw [hgroupings, hcount]
      exact Nat.zero_add _

/-- A bad character stands behind the last parenthesis, and that is the error of its
group. -/
theorem deepest_group_before_character :
    let source := String.ofList (List.replicate 257 '(' ++ ['$'])
    ∃ start moment opening after, Parser.ofSource source = .ok start ∧
      (Machine.ofCall .line start).Reaches moment ∧ moment.control = .group opening ∧
      moment.groupings = 257 ∧
      moment.step =
        some ⟨.reply (.error (.lexical (.invalidCharacter '$' 257)), after), moment.stack⟩ := by
  intro source
  obtain ⟨start, opening, frames, hstart, hdepth, hreaches, hgroupings, hpending⟩ :=
    exists_deepest_group ['$']
  have hitem : Item.ofChars (maxNesting + 1) ['$'] = [.error (.invalidCharacter '$' 257)] := by
    decide +kernel
  have hopen : Machine.groupings ⟨.group opening, frames⟩ = 257 := congrArg Nat.succ hgroupings
  obtain ⟨after, hstep⟩ := Machine.step_deepest hreaches rfl (by rw [hopen, hdepth]; decide)
  have hrefusal : opening.refusal = .lexical (.invalidCharacter '$' 257) := by
    rw [hitem] at hpending
    obtain ⟨_, hnext, -⟩ := Cursor.nextToken_of_pending_cons hpending
    rw [Parser.refusal, hnext]
  rw [hrefusal] at hstep
  exact ⟨start, _, opening, after, hstart, hreaches, rfl, hopen, hstep⟩

end LineCalc
