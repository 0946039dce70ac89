import LineCalc.Proofs.Coverage
import LineCalc.Proofs.Descent
/-
  Resuming: any calls on one parser, one after the other, after failures as well

  A call pulls items from the cursor. A token pulled means that the token looked
  at has been taken; an error pulled leaves the look-ahead where it is, and the
  call answers that error. Nothing else moves a parser, so it always looks at a
  token of the line, the first that no call has taken, and every lexical error is
  the answer of one call.

  What is proved:
    1. `Look.Pulls.at` — pulls take the tokens of a line in order, and pass its
       errors in order;
    2. `Parser.accounts_line` and the like — a call answers every error it pulls,
       wherever in the descent it pulls it;
    3. `Parser.exists_took` — what each kind of call takes;
    4. `Parser.exists_taken` — calls one after the other take the tokens of a line
       from where they begin, and answer its errors from there on.
-/

namespace LineCalc

/-! ## The tokens and the errors of a line -/

/-- The lexical error of an item, if it is one. -/
def Item.error? : Item → Option LexError
  | .ok _ => none
  | .error e => some e

/-- The tokens of a line, whatever errors stand between them. -/
def validTokens (source : String) : List Located :=
  (Item.ofSource source).filterMap Item.token?

/-- The lexical errors of a line. -/
def LexError.ofSource (source : String) : List LexError :=
  (Item.ofSource source).filterMap Item.error?

/-- The token of a line with an index. Behind the last one comes the end of input,
over and over. -/
def entry (source : String) (index : Nat) : Located :=
  (validTokens source)[index]?.getD ⟨.endOfInput, source.length⟩

/-- So many tokens of a line, from an index on. -/
def entries (source : String) (index count : Nat) : List Located :=
  (List.range' index count).map (entry source)

section
variable {source : String}

theorem entry_eq_head? (source : String) (index : Nat) :
    entry source index =
      ((validTokens source).drop index).head?.getD ⟨.endOfInput, source.length⟩ := by
  rw [entry, List.head?_drop]

theorem entries_succ (source : String) (index count : Nat) :
    entries source index (count + 1) = entry source index :: entries source (index + 1) count := by
  rw [entries, List.range'_succ, List.map_cons, entries]

theorem entries_append (source : String) (index count more : Nat) :
    entries source index (count + more) =
      entries source index count ++ entries source (index + count) more := by
  rw [entries, entries, entries, ← List.map_append, List.range'_append_1]

theorem increasing_filterMap {α : Type} {part : Item → Option α} {place : α → Nat}
    (h : ∀ item a, part item = some a → place a = item.position) (source : String) :
    (((Item.ofSource source).filterMap part).map place).Pairwise (· < ·) := by
  have hitems := List.pairwise_map.mp (increasing_ofSource source).1
  rw [List.pairwise_map, List.pairwise_filterMap]
  refine hitems.imp fun hlt a ha b hb => ?_
  rwa [h _ _ ha, h _ _ hb]

theorem position_of_token? (item : Item) (located : Located) (h : item.token? = some located) :
    located.position = item.position := by
  cases item with
  | ok inner => cases h; rfl
  | error e => cases h

theorem position_of_error? (item : Item) (e : LexError) (h : item.error? = some e) :
    e.position = item.position := by
  cases item with
  | ok located => cases h
  | error inner => cases h; rfl

theorem position_lt_of_mem_validTokens {located : Located} (h : located ∈ validTokens source) :
    located.position < source.length := by
  obtain ⟨item, hmem, htoken⟩ := List.mem_filterMap.mp h
  rw [position_of_token? item located htoken]
  exact (increasing_ofSource source).2 item hmem

theorem entry_position_le {i j : Nat} (h : i ≤ j) :
    (entry source i).position ≤ (entry source j).position := by
  rcases Nat.eq_or_lt_of_le h with rfl | hlt
  · exact Nat.le_refl _
  · have hincreasing := List.pairwise_map.mp (increasing_filterMap position_of_token? source)
    by_cases hj : j < (validTokens source).length
    · have hi : i < (validTokens source).length := by omega
      have hpositions := List.pairwise_iff_getElem.mp hincreasing i j hi hj hlt
      rw [entry, entry, List.getElem?_eq_getElem hi, List.getElem?_eq_getElem hj]
      exact Nat.le_of_lt hpositions
    · have hend : entry source j = ⟨.endOfInput, source.length⟩ := by
        rw [entry, List.getElem?_eq_none (by omega)]
        rfl
      rw [hend, entry]
      cases hi : (validTokens source)[i]? with
      | none => exact Nat.le_refl _
      | some located =>
        exact Nat.le_of_lt (position_lt_of_mem_validTokens (List.mem_of_getElem? hi))

theorem entry_position_lt {i j : Nat} (h : i < j) (htoken : (entry source i).token ≠ .endOfInput) :
    (entry source i).position < (entry source j).position := by
  have hi : i < (validTokens source).length := by
    apply Nat.lt_of_not_le
    intro hbehind
    rw [entry, List.getElem?_eq_none hbehind] at htoken
    exact htoken rfl
  have hentry : entry source i = (validTokens source)[i] := by
    rw [entry, List.getElem?_eq_getElem hi]
    rfl
  have hincreasing := List.pairwise_map.mp (increasing_filterMap position_of_token? source)
  by_cases hj : j < (validTokens source).length
  · rw [hentry, entry, List.getElem?_eq_getElem hj]
    exact List.pairwise_iff_getElem.mp hincreasing i j hi hj h
  · rw [hentry, entry, List.getElem?_eq_none (Nat.le_of_not_lt hj)]
    exact position_lt_of_mem_validTokens (List.getElem_mem hi)

theorem increasing_entries {index count : Nat}
    (htokens : ∀ located ∈ entries source index count, located.token ≠ .endOfInput) :
    ((entries source index count).map Located.position).Pairwise (· < ·) := by
  rw [entries, List.map_map, List.pairwise_map]
  have hindices : (List.range' index count).Pairwise (· < ·) := List.pairwise_lt_range'
  apply hindices.imp_of_mem
  intro i j hi _ hlt
  exact entry_position_lt hlt (htokens _ (List.mem_map_of_mem hi))

end

/-! ## Pulling -/

namespace Cursor

/-- The lexical errors still to be pulled. -/
def errors (cursor : Cursor) : List LexError := cursor.pending.filterMap Item.error?

/-- A cursor that has the tokens of a line from an index on still to be pulled. -/
structure At (source : String) (index : Nat) (cursor : Cursor) : Prop where
  tokens : cursor.pending.filterMap Item.token? = (validTokens source).drop index
  endToken : cursor.endToken = ⟨.endOfInput, source.length⟩

theorem at_ofSource (source : String) :
    (ofSource source).At source 0 ∧ (ofSource source).errors = LexError.ofSource source := by
  refine ⟨⟨?_, endToken_ofSource source⟩, ?_⟩
  · rw [pending_ofSource, validTokens, List.drop_zero]
  · rw [errors, pending_ofSource, LexError.ofSource]

section
variable {source : String} {index : Nat} {cursor after : Cursor}

/-- A token that is pulled is the one with the index. -/
theorem At.take {next : Located} (h : cursor.At source index)
    (hnext : cursor.nextToken = (.ok next, after)) :
    next = entry source index ∧ after.At source (index + 1) ∧ cursor.errors = after.errors := by
  have htokens := h.tokens
  cases hpending : cursor.pending with
  | nil =>
    obtain ⟨hend, hnothing, hsame⟩ := nextToken_of_pending_nil hpending
    rw [hnext] at hend
    cases hend
    rw [hpending] at htokens
    have hnone : (validTokens source).drop index = [] := htokens.symm
    refine ⟨?_, ⟨?_, hsame.trans h.endToken⟩, ?_⟩
    · rw [entry_eq_head?, hnone, h.endToken]
      rfl
    · rw [← List.drop_drop, hnone, hnothing]
      rfl
    · rw [errors, errors, hpending, hnothing]
  | cons item rest =>
    obtain ⟨_, hfirst, hrest, hsame, -⟩ := nextToken_of_pending_cons hpending
    rw [hnext] at hfirst
    cases hfirst
    rw [hpending] at htokens
    have hmore : (validTokens source).drop index = next :: rest.filterMap Item.token? :=
      htokens.symm
    refine ⟨?_, ⟨?_, hsame.trans h.endToken⟩, ?_⟩
    · rw [entry_eq_head?, hmore]
      rfl
    · rw [← List.drop_drop, hmore, hrest]
      rfl
    · rw [errors, errors, hpending, hrest]
      rfl

theorem At.pass {e : LexError} (h : cursor.At source index)
    (hnext : cursor.nextToken = (.error e, after)) :
    after.At source index ∧ cursor.errors = e :: after.errors := by
  have htokens := h.tokens
  cases hpending : cursor.pending with
  | nil =>
    rw [(nextToken_of_pending_nil hpending).1] at hnext
    cases hnext
  | cons item rest =>
    obtain ⟨_, hfirst, hrest, hsame, -⟩ := nextToken_of_pending_cons hpending
    rw [hnext] at hfirst
    cases hfirst
    rw [hpending] at htokens
    refine ⟨⟨?_, hsame.trans h.endToken⟩, ?_⟩
    · rw [← htokens, hrest]
      rfl
    · rw [errors, errors, hpending, hrest]
      rfl

end

end Cursor

namespace Look

/-- From one place to another by pulling items. A token takes the look-ahead and
is the next one, an error leaves the look-ahead. -/
inductive Pulls : Look → List Located → List LexError → Look → Prop where
  | none (look : Look) : Pulls look [] [] look
  | take {look last : Look} {next : Located} {cursor : Cursor} {ts : List Located}
    {es : List LexError} :
    look.cursor.nextToken = (.ok next, cursor) → Pulls ⟨next, cursor⟩ ts es last →
    Pulls look (look.current :: ts) es last
  | pass {look last : Look} {e : LexError} {cursor : Cursor} {ts : List Located}
    {es : List LexError} :
    look.cursor.nextToken = (.error e, cursor) → Pulls ⟨look.current, cursor⟩ ts es last →
    Pulls look ts (e :: es) last

theorem Pulls.trans {first middle last : Look} {ts us : List Located} {es fs : List LexError}
    (h : first.Pulls ts es middle) (h' : middle.Pulls us fs last) :
    first.Pulls (ts ++ us) (es ++ fs) last := by
  induction h with
  | none look => exact h'
  | take hnext _ ih => exact .take hnext (ih h')
  | pass hnext _ ih => exact .pass hnext (ih h')

/-- A place that looks at the token of a line with an index, with the tokens behind
it still to be pulled. -/
structure At (source : String) (index : Nat) (look : Look) : Prop where
  current : look.current = entry source index
  cursor : look.cursor.At source (index + 1)

/-- Pulls take the tokens of a line in order, and pass its errors in order. -/
theorem Pulls.at {source : String} {index : Nat} {look last : Look} {ts : List Located}
    {es : List LexError} (h : look.Pulls ts es last) (hat : look.At source index) :
    ts = entries source index ts.length ∧ last.At source (index + ts.length) ∧
      look.cursor.errors = es ++ last.cursor.errors := by
  induction h generalizing index with
  | none look => exact ⟨rfl, hat, rfl⟩
  | take hnext _ ih =>
    obtain ⟨hentry, hcursor, herrors⟩ := hat.cursor.take hnext
    obtain ⟨htokens, hlast, hrest⟩ := ih ⟨hentry, hcursor⟩
    refine ⟨?_, ?_, herrors.trans hrest⟩
    · rw [List.length_cons, entries_succ, ← htokens, hat.current]
    · rwa [List.length_cons, Nat.add_comm _ 1, ← Nat.add_assoc]
  | pass hnext _ ih =>
    obtain ⟨hcursor, herrors⟩ := hat.cursor.pass hnext
    obtain ⟨htokens, hlast, hrest⟩ := ih ⟨hat.current, hcursor⟩
    exact ⟨htokens, hlast, by rw [herrors, hrest, List.cons_append]⟩

end Look

/-! ## What a call pulls -/

/-- The lexical error of an answer, if it is one. -/
def lexicalErrors {α : Type} : Except Error α → List LexError
  | .error (.lexical e) => [e]
  | .error (.syntactic _) => []
  | .error (.runtime _) => []
  | .ok _ => []

namespace Parser

/-- The contract of a call: it gets on by pulling, takes no end of input, and
answers the error that it pulls, if any. -/
def Accounts {α : Type} (parser : Parser) (reply : Reply α) : Prop :=
  ∃ ts, (∀ located ∈ ts, located.token ≠ .endOfInput) ∧
    parser.look.Pulls ts (lexicalErrors reply.1) reply.2.look

section
variable {α β : Type} {parser : Parser} {reply : Reply α}

theorem accounts_of_look_eq (hlook : reply.2.look = parser.look)
    (hanswer : lexicalErrors reply.1 = []) : parser.Accounts reply := by
  refine ⟨[], by simp, ?_⟩
  rw [hlook, hanswer]
  exact .none _

theorem accounts_andThen {next : α → Parser → Reply β} (hreply : parser.Accounts reply)
    (hnext : ∀ a after, Accounts after (next a after)) :
    parser.Accounts (Reply.andThen reply next) := by
  obtain ⟨ts, hts, hpulls⟩ := hreply
  obtain ⟨result, after⟩ := reply
  cases result with
  | error e =>
    refine ⟨ts, hts, ?_⟩
    cases e <;> exact hpulls
  | ok a =>
    obtain ⟨us, hus, hpulls'⟩ := hnext a after
    refine ⟨ts ++ us, ?_, hpulls.trans hpulls'⟩
    intro located hmem
    rcases List.mem_append.mp hmem with hmem | hmem
    · exact hts located hmem
    · exact hus located hmem

end

variable {parser : Parser}

theorem accounts_advance (h : parser.current.token ≠ .endOfInput) :
    parser.Accounts parser.advance := by
  unfold advance
  cases hnext : parser.cursor.nextToken with
  | mk item cursor =>
    cases item with
    | ok next => exact ⟨[parser.current], by simpa using h, .take hnext (.none _)⟩
    | error e => exact ⟨[], by simp, .pass hnext (.none _)⟩

theorem accounts_eat {expected : TokenKind} (h : expected ≠ .endOfInput) :
    parser.Accounts (parser.eat expected) := by
  unfold eat
  split
  · rename_i hkind
    apply accounts_advance
    intro htoken
    rw [htoken] at hkind
    exact h hkind.symm
  · exact accounts_of_look_eq rfl rfl

theorem accounts_countOperator (position : Nat) :
    parser.Accounts (parser.countOperator position) := by
  unfold countOperator
  dsimp only
  split
  · exact accounts_of_look_eq rfl rfl
  · exact accounts_of_look_eq rfl rfl

section
variable {level : Level} {operand : Parser → Reply Expr}
  (hoperand : ∀ parser : Parser, parser.Accounts (operand parser))
include hoperand

theorem accounts_chainRest (room : Nat) (left : Expr) (parser : Parser) :
    parser.Accounts (chainRest level operand room left parser) := by
  induction room using Nat.strongRecOn generalizing left parser with
  | ind room ih =>
    rw [chainRest]
    cases hop : parser.current.token.operatorAt? level with
    | none => exact accounts_of_look_eq rfl rfl
    | some op =>
      have htoken := (Token.operatorAt?_eq_some_iff.mp hop).1
      refine accounts_andThen (accounts_advance (by simp [htoken])) fun taken middle => ?_
      cases room with
      | zero => exact accounts_of_look_eq rfl rfl
      | succ room =>
        refine accounts_andThen (accounts_countOperator _) fun _ counted => ?_
        exact accounts_andThen (hoperand counted) fun right after =>
          ih room (Nat.lt_succ_self room) _ after

theorem accounts_chain (parser : Parser) : parser.Accounts (chain level operand parser) :=
  accounts_andThen (hoperand parser) fun left after => accounts_chainRest hoperand _ left after

end

theorem accounts_primaryWithin (nesting : Nat) (parser : Parser) :
    parser.Accounts (primaryWithin nesting parser) := by
  -- By the nesting left, as the chains inside a parenthesis lead back here.
  induction nesting using Nat.strongRecOn generalizing parser with
  | ind nesting ih =>
    rw [primaryWithin]
    cases parser.current.token with
    | integer value =>
      refine accounts_andThen (accounts_eat (by simp)) fun taken after => ?_
      exact accounts_of_look_eq rfl rfl
    | leftParen =>
      refine accounts_andThen (accounts_eat (by simp)) fun taken opened => ?_
      cases nesting with
      | zero => exact accounts_of_look_eq rfl rfl
      | succ nesting =>
        have hprimary := ih nesting (Nat.lt_succ_self nesting)
        have hinside : opened.Accounts (chain .sum (chain .product (primaryWithin nesting))
            { opened with depth := opened.depth + 1 }) :=
          accounts_chain (accounts_chain hprimary) { opened with depth := opened.depth + 1 }
        refine accounts_andThen hinside fun inner closing => ?_
        refine accounts_andThen (accounts_eat (by simp)) fun _ after => ?_
        exact accounts_of_look_eq rfl rfl
    | operator op => exact accounts_of_look_eq rfl rfl
    | rightParen => exact accounts_of_look_eq rfl rfl
    | endOfInput => exact accounts_of_look_eq rfl rfl

theorem accounts_expression (parser : Parser) : parser.Accounts parser.expression :=
  accounts_chain (accounts_chain (accounts_primaryWithin _)) parser

theorem accounts_line (parser : Parser) : parser.Accounts parser.line := by
  refine accounts_andThen parser.accounts_expression fun tree after => ?_
  cases after.current.token <;> exact accounts_of_look_eq rfl rfl

/-! ## Any calls -/

/-- The calls of a parser. -/
inductive Call where
  | eat (expected : TokenKind)
  | line
  | expression
  | product
  | primary
  deriving DecidableEq, Repr

/-- What a call answers, a token or a tree, and the parser it leaves behind. -/
def call (parser : Parser) : Call → Reply (Located ⊕ Expr)
  | .eat expected => ((parser.eat expected).1.map .inl, (parser.eat expected).2)
  | .line => (parser.line.1.map .inr, parser.line.2)
  | .expression => (parser.expression.1.map .inr, parser.expression.2)
  | .product => (parser.product.1.map .inr, parser.product.2)
  | .primary => (parser.primary.1.map .inr, parser.primary.2)

/-- The parser that calls leave behind. -/
def after (parser : Parser) (calls : List Call) : Parser :=
  calls.foldl (fun parser call => (parser.call call).2) parser

/-- What calls answer, one after the other. -/
def answers (parser : Parser) : List Call → List (Except Error (Located ⊕ Expr))
  | [] => []
  | first :: rest => (parser.call first).1 :: (parser.call first).2.answers rest

/-- How a call to eat goes with the tokens that it takes: the one looked at, which
is its answer, or none if it fails, and then the look-ahead stays. -/
def Eats (parser : Parser) (ts : List Located) : Reply (Located ⊕ Expr) → Prop
  | (.ok answer, _) => answer = .inl parser.current ∧ ts = [parser.current]
  | (.error _, after) => ts = [] ∧ after.current = parser.current

/-- What it is for a call to take tokens. Only a call to eat can take an end of
input. -/
structure Took (parser : Parser) (call : Call) (ts : List Located) : Prop where
  pulls : parser.look.Pulls ts (lexicalErrors (parser.call call).1) (parser.call call).2.look
  eats : ∀ expected, call = .eat expected → parser.Eats ts (parser.call call)
  inside : (∀ expected, call ≠ .eat expected) →
    ∀ located ∈ ts, located.token ≠ .endOfInput

theorem lexicalErrors_map {α β : Type} (f : α → β) (result : Except Error α) :
    lexicalErrors (result.map f) = lexicalErrors result := by
  cases result with
  | ok a => rfl
  | error e => cases e <;> rfl

section
variable {call : Call} {ts : List Located}

theorem took_of_eats {expected : TokenKind} {reply : Reply (Located ⊕ Expr)}
    (hcall : parser.call (.eat expected) = reply)
    (hpulls : parser.look.Pulls ts (lexicalErrors reply.1) reply.2.look)
    (heats : parser.Eats ts reply) : parser.Took (.eat expected) ts := by
  subst hcall
  exact ⟨hpulls, fun _ _ => heats, fun hother => (hother expected rfl).elim⟩

theorem exists_took_of_accounts {reply : Reply Expr} (hreply : parser.Accounts reply)
    (hcall : parser.call call = (reply.1.map .inr, reply.2))
    (hother : ∀ expected, call ≠ .eat expected) : ∃ ts, parser.Took call ts := by
  obtain ⟨ts, hts, hpulls⟩ := hreply
  refine ⟨ts, ?_, fun expected heat => (hother expected heat).elim, fun _ => hts⟩
  rwa [hcall, lexicalErrors_map]

end

theorem exists_took_of_eat (parser : Parser) (expected : TokenKind) :
    ∃ ts, parser.Took (.eat expected) ts := by
  by_cases hkind : parser.current.token.kind = expected
  · have hcall : parser.call (.eat expected) =
        (parser.advance.1.map .inl, parser.advance.2) := by
      rw [call, eat, if_pos hkind]
    unfold advance at hcall
    cases hnext : parser.cursor.nextToken with
    | mk item cursor =>
      rw [hnext] at hcall
      cases item with
      | ok next =>
        exact ⟨[parser.current], took_of_eats hcall (.take hnext (.none _)) ⟨rfl, rfl⟩⟩
      | error e => exact ⟨[], took_of_eats hcall (.pass hnext (.none _)) ⟨rfl, rfl⟩⟩
  · have hcall : parser.call (.eat expected) =
        (.error (parser.unexpected [expected]), parser) := by
      rw [call, eat, if_neg hkind]
      rfl
    exact ⟨[], took_of_eats hcall (.none _) ⟨rfl, rfl⟩⟩

theorem exists_took (parser : Parser) (call : Call) : ∃ ts, parser.Took call ts := by
  cases call with
  | eat expected => exact parser.exists_took_of_eat expected
  | line => exact exists_took_of_accounts parser.accounts_line rfl (by simp)
  | expression => exact exists_took_of_accounts parser.accounts_expression rfl (by simp)
  | product =>
    exact exists_took_of_accounts (accounts_chain (accounts_primaryWithin _) parser) rfl (by simp)
  | primary => exact exists_took_of_accounts (accounts_primaryWithin _ parser) rfl (by simp)

/-! ## Any calls on a line -/

theorem at_ofSource {source : String} {start : Parser} (h : ofSource source = .ok start) :
    start.look.At source 0 ∧ start.cursor.errors = LexError.ofSource source := by
  obtain ⟨hat, herrors⟩ := Cursor.at_ofSource source
  unfold ofSource at h
  cases hnext : (Cursor.ofSource source).nextToken with
  | mk item cursor =>
    rw [hnext] at h
    cases item with
    | error e => cases h
    | ok first =>
      cases h
      obtain ⟨hentry, hcursor, hsame⟩ := hat.take hnext
      exact ⟨⟨hentry, hcursor⟩, hsame.symm.trans herrors⟩

/-- From a parser at the token of a line with an index, calls take the tokens from
there on and pass the errors from there on. -/
theorem exists_taken {source : String} {index : Nat} {parser : Parser}
    (hat : parser.look.At source index) (calls : List Call) :
    ∃ taken : List (List Located), taken.length = calls.length ∧
      (∀ n call ts, calls[n]? = some call → taken[n]? = some ts →
        (parser.after (calls.take n)).Took call ts) ∧
      (∀ n, n ≤ calls.length →
        (parser.after (calls.take n)).look.At source (index + (taken.take n).flatten.length)) ∧
      taken.flatten = entries source index taken.flatten.length ∧
      parser.cursor.errors =
        (parser.answers calls).flatMap lexicalErrors ++ (parser.after calls).cursor.errors := by
  -- Each call starts where the one before it has left the parser, failed or not.
  induction calls generalizing index parser with
  | nil =>
    refine ⟨[], rfl, by simp, ?_, rfl, rfl⟩
    intro n hn
    rw [List.take_nil, List.take_nil]
    exact hat
  | cons call calls ih =>
    obtain ⟨ts, htook⟩ := parser.exists_took call
    obtain ⟨hts, hafter, herrors⟩ := htook.pulls.at hat
    obtain ⟨taken, hlength, htaken, hplaces, htokens, hrest⟩ := ih hafter
    refine ⟨ts :: taken, congrArg Nat.succ hlength, ?_, ?_, ?_, ?_⟩
    · intro n other us hother hus
      cases n with
      | zero =>
        cases hother
        cases hus
        exact htook
      | succ n => exact htaken n other us hother hus
    · intro n hn
      cases n with
      | zero => exact hat
      | succ n =>
        have hplace := hplaces n (Nat.le_of_succ_le_succ hn)
        rwa [Nat.add_assoc, ← List.length_append] at hplace
    · rw [List.flatten_cons, List.length_append, entries_append, ← hts, ← htokens]
    · rw [answers, List.flatMap_cons, List.append_assoc]
      exact herrors.trans (congrArg _ hrest)

/-- Any calls on one parser take the tokens of its line one by one, in order,
whatever errors stand between them and whichever calls fail: after every call
the look-ahead is the token with as many before it as have been taken. What a
call takes is what it has pulled; a token that is eaten is the look-ahead, and
a call to eat that fails takes none. The lexical errors that are answered are
the first ones of the line, each answered once. -/
theorem calls_take_tokens {source : String} {start : Parser} (h : ofSource source = .ok start)
    (calls : List Call) :
    ∃ taken : List (List Located), taken.length = calls.length ∧
      (∀ n call ts, calls[n]? = some call → taken[n]? = some ts →
        (start.after (calls.take n)).Took call ts) ∧
      (∀ n, n ≤ calls.length →
        (start.after (calls.take n)).current = entry source (taken.take n).flatten.length) ∧
      taken.flatten = entries source 0 taken.flatten.length ∧
      (∀ m n, m ≤ n → n ≤ calls.length →
        (start.after (calls.take m)).current.position ≤
          (start.after (calls.take n)).current.position) ∧
      (start.answers calls).flatMap lexicalErrors <+: LexError.ofSource source ∧
      ((LexError.ofSource source).map LexError.position).Pairwise (· < ·) := by
  obtain ⟨hat, hstart⟩ := at_ofSource h
  obtain ⟨taken, hlength, htook, hplaces, htokens, herrors⟩ := exists_taken hat calls
  have hcurrent : ∀ n, n ≤ calls.length →
      (start.after (calls.take n)).current = entry source (taken.take n).flatten.length := by
    intro n hn
    have hplace := (hplaces n hn).current
    rwa [Nat.zero_add] at hplace
  refine ⟨taken, hlength, htook, hcurrent, htokens, ?_, ?_, ?_⟩
  · intro m n hmn hn
    rw [hcurrent m (Nat.le_trans hmn hn), hcurrent n hn]
    apply entry_position_le
    obtain ⟨rest, hrest⟩ : taken.take m <+: taken.take n := List.take_prefix_take_left hmn
    rw [← hrest, List.flatten_append, List.length_append]
    exact Nat.le_add_right _ _
  · rw [← hstart, herrors]
    exact List.prefix_append _ _
  · exact increasing_filterMap position_of_error? source

theorem calls_take_tokens_of_bad_characters :
    let source := "1 # 2 é)"
    let calls : List Call :=
      [.eat .integer, .line, .eat .leftParen, .eat .integer, .expression, .eat .rightParen]
    ∃ start, ofSource source = .ok start ∧
      start.answers calls =
        [.error (.lexical (.invalidCharacter '#' 2)),
          .error (.syntactic (.trailingTokens .integer 4)),
          .error (.syntactic (.unexpectedToken .integer [.leftParen] 4)),
          .error (.lexical (.invalidCharacter 'é' 6)),
          .ok (.inr (.literal 2 4)), .ok (.inl ⟨.rightParen, 7⟩)] ∧
      (start.answers calls).flatMap lexicalErrors <+: LexError.ofSource source ∧
      ∃ taken : List (List Located), taken.length = 6 ∧
        taken.flatten = entries source 0 taken.flatten.length ∧
        (start.after calls).current = entry source taken.flatten.length := by
  intro source calls
  have hanswers : (ofSource source).map (fun start => start.answers calls) =
      .ok [.error (.lexical (.invalidCharacter '#' 2)),
        .error (.syntactic (.trailingTokens .integer 4)),
        .error (.syntactic (.unexpectedToken .integer [.leftParen] 4)),
        .error (.lexical (.invalidCharacter 'é' 6)),
        .ok (.inr (.literal 2 4)), .ok (.inl ⟨.rightParen, 7⟩)] := by
    decide +kernel
  cases hstart : ofSource source with
  | error e =>
    rw [hstart] at hanswers
    cases hanswers
  | ok start =>
    rw [hstart] at hanswers
    obtain ⟨taken, hlength, -, hcurrent, htokens, -, herrors, -⟩ := calls_take_tokens hstart calls
    have hsix : taken.length = 6 := hlength
    have hlast := hcurrent 6 (Nat.le_refl 6)
    rw [List.take_of_length_le (Nat.le_of_eq hsix)] at hlast
    exact ⟨start, rfl, Except.ok.inj hanswers, herrors, taken, hsix, htokens, hlast⟩

end Parser

end LineCalc
