import LineCalc.Proofs.Acceptance
import LineCalc.Proofs.Accounting
import LineCalc.Proofs.Messages
import LineCalc.Record
/-
  Reading: how far a line is read, and what can matter for its error

  A parser holds one token that it has not taken. So behind the tokens taken one more
  item has been pulled, and a lexical error only if it is the answer. Where that is in
  the line can be told from the answer alone: an error about the look-ahead stands at
  the last item pulled, an error of a limit one item before it.

  What is proved:
    1. `itemsRead_of_endsAt`, `tokensRead_of_endsAt` — the items of a line up to the
       one that decides its error, told by the position of the error;
    2. `Scan.resume_cut` — a scan that fails is decided by those items;
    3. `Parser.line_pulls` — the parser has pulled them, and nothing else;
    4. `Record.token_injective` — the record of a token tells the token;
    5. `parseLine_reads` — the records of a line, and lines that begin alike.
-/

namespace LineCalc

/-! ## Where an answer is decided -/

/-- The tokens that a parser has pulled for an answer: all of them, those before a bad
item, those up to the token that an error is about, and one more if that token had
been taken. -/
def tokensRead (source : String) : Except Error Expr → List Located
  | .ok _ => validTokens source
  | .error (.lexical e) =>
    (validTokens source).filter fun located => located.position < e.position
  | .error (.syntactic e) =>
    (validTokens source).filter (fun located => located.position ≤ e.position) ++
      if e.isLimit then
        ((validTokens source).filter fun located => e.position < located.position).take 1
      else []
  | .error (.runtime _) => []

/-- The items that a parser has pulled for an error, the end of input among them. -/
def itemsRead (source : String) : Error → List Item
  | .lexical e => (Scan.stream source).filter fun item => item.position ≤ e.position
  | .syntactic e =>
    (Scan.stream source).filter (fun item => item.position ≤ e.position) ++
      if e.isLimit then
        ((Scan.stream source).filter fun item => e.position < item.position).take 1
      else []
  | .runtime _ => []

/-- Whether the last of some items decides an error. -/
def Error.EndsAt (items : List Item) : Error → Prop
  | .lexical e => ∃ before, items = before ++ [.error e]
  | .syntactic e =>
    ∃ before located, e.About located ∧
      if e.isLimit then ∃ next, items = before ++ [.ok located, .ok next]
      else items = before ++ [.ok located]
  | .runtime _ => False

/-- The token of an item, unless it is the end of input. -/
def Item.written? (item : Item) : Option Located :=
  item.token?.filter fun located => located.token ≠ .endOfInput

theorem written?_of_token {located : Located} (h : located.token ≠ .endOfInput) :
    Item.written? (.ok located) = some located :=
  Option.filter_eq_some_iff.mpr ⟨rfl, decide_eq_true h⟩

theorem written?_of_end {located : Located} (h : located.token = .endOfInput) :
    Item.written? (.ok located) = none := by
  simp [Item.written?, Item.token?, h]

theorem SyntaxError.About.position_eq {e : SyntaxError} {located : Located}
    (h : e.About located) : e.position = located.position := by
  cases e with
  | unexpectedToken found expected position => exact h.2
  | trailingTokens found position => exact h.2.1
  | nestingTooDeep limit position => exact h.2
  | expressionTooLarge limit position => exact h.2

section
variable {source : String}

theorem increasing_stream (source : String) :
    ((Scan.stream source).map Item.position).Pairwise (· < ·) := by
  obtain ⟨hitems, hinside⟩ := increasing_ofSource source
  rw [Scan.stream, List.map_append, List.pairwise_append]
  refine ⟨hitems, List.pairwise_singleton _ _, ?_⟩
  intro a ha b hb
  obtain ⟨item, hmem, rfl⟩ := List.mem_map.mp ha
  rw [List.map_singleton, List.mem_singleton] at hb
  rw [hb]
  exact hinside item hmem

theorem position_le_of_mem_stream {item : Item} (h : item ∈ Scan.stream source) :
    item.position ≤ source.length := by
  rcases List.mem_append.mp h with hmem | hmem
  · exact Nat.le_of_lt ((increasing_ofSource source).2 item hmem)
  · obtain rfl := List.mem_singleton.mp hmem
    exact Nat.le_refl _

theorem eq_end_of_mem_stream {located : Located} (h : .ok located ∈ Scan.stream source)
    (htoken : located.token = .endOfInput) : located = ⟨.endOfInput, source.length⟩ := by
  rcases List.mem_append.mp h with hmem | hmem
  · exact absurd htoken (ne_endOfInput_of_mem_ofSource hmem)
  · exact Except.ok.inj (List.mem_singleton.mp hmem)

theorem position_of_written? {item : Item} {located : Located}
    (h : item.written? = some located) : located.position = item.position := by
  obtain ⟨htoken, -⟩ := Option.filter_eq_some_iff.mp h
  exact position_of_token? item located htoken

theorem filterMap_written? {items : List Item} (h : ∀ item ∈ items, item ∈ Item.ofSource source) :
    items.filterMap Item.written? = items.filterMap Item.token? := by
  induction items with
  | nil => rfl
  | cons item items ih =>
    have hitem : item.written? = item.token? := by
      cases item with
      | error e => rfl
      | ok located =>
        exact written?_of_token (ne_endOfInput_of_mem_ofSource (h _ List.mem_cons_self))
    have hrest := ih fun other hmem => h other (List.mem_cons_of_mem item hmem)
    rw [List.filterMap_cons, List.filterMap_cons, hitem, hrest]

theorem validTokens_eq (source : String) :
    validTokens source = (Scan.stream source).filterMap Item.written? := by
  rw [Scan.stream, List.filterMap_append, filterMap_written? fun _ => id]
  exact (List.append_nil _).symm

theorem entry_of_endOfInput {index : Nat} (h : (entry source index).token = .endOfInput) :
    entry source index = ⟨.endOfInput, source.length⟩ := by
  rw [entry] at h ⊢
  cases hindex : (validTokens source)[index]? with
  | none => rfl
  | some located =>
    rw [hindex] at h
    obtain ⟨item, hmem, htoken⟩ := List.mem_filterMap.mp (List.mem_of_getElem? hindex)
    cases item with
    | error e => cases htoken
    | ok inner =>
      cases htoken
      exact absurd h (ne_endOfInput_of_mem_ofSource hmem)

end

theorem validTokens_of_tokenize {source : String} {ts : List Located}
    (h : tokenize source = .ok ts) : validTokens source = ts := by
  rw [validTokens, tokenize_eq_ok_iff.mp h, List.filterMap_map]
  exact List.filterMap_some

/-! ## The items up to one of them -/

section
variable {α : Type} {keep : α → Bool} {before rest : List α}

theorem filter_front (hbefore : ∀ a ∈ before, keep a = true) (hrest : ∀ a ∈ rest, keep a = false) :
    (before ++ rest).filter keep = before := by
  have hnone : rest.filter keep = [] := by
    rw [List.filter_eq_nil_iff]
    intro a ha
    simp [hrest a ha]
  rw [List.filter_append, List.filter_eq_self.mpr hbefore, hnone, List.append_nil]

theorem filter_back (hbefore : ∀ a ∈ before, keep a = false) (hrest : ∀ a ∈ rest, keep a = true) :
    (before ++ rest).filter keep = rest := by
  have hnone : before.filter keep = [] := by
    rw [List.filter_eq_nil_iff]
    intro a ha
    simp [hbefore a ha]
  rw [List.filter_append, List.filter_eq_self.mpr hrest, hnone, List.nil_append]

end

theorem forall_written {p : Nat → Prop} {items : List Item}
    (h : ∀ item ∈ items, p item.position) :
    ∀ located ∈ items.filterMap Item.written?, p located.position := by
  intro located hmem
  obtain ⟨item, hitem, hwritten⟩ := List.mem_filterMap.mp hmem
  rw [position_of_written? hwritten]
  exact h item hitem

section
variable {source : String} {before rest : List Item} {item : Item} {position : Nat}
  (h : Scan.stream source = before ++ item :: rest) (hposition : position = item.position)
include h hposition

theorem positions_of_split :
    (∀ other ∈ before, other.position < position) ∧
      (∀ other ∈ before ++ [item], other.position ≤ position) ∧
      ∀ other ∈ rest, position < other.position := by
  have hall := increasing_stream source
  rw [h, List.map_append, List.map_cons, List.pairwise_append, List.pairwise_cons] at hall
  obtain ⟨-, ⟨hbehind, -⟩, hbetween⟩ := hall
  rw [hposition]
  have hbefore : ∀ other ∈ before, other.position < item.position := by
    intro other hmem
    exact hbetween _ (List.mem_map_of_mem hmem) _ List.mem_cons_self
  refine ⟨hbefore, ?_, fun other hmem => hbehind _ (List.mem_map_of_mem hmem)⟩
  intro other hmem
  rcases List.mem_append.mp hmem with hmem | hmem
  · exact Nat.le_of_lt (hbefore other hmem)
  · obtain rfl := List.mem_singleton.mp hmem
    exact Nat.le_refl _

theorem stream_filter :
    (Scan.stream source).filter (fun other => other.position ≤ position) = before ++ [item] ∧
      (Scan.stream source).filter (fun other => position < other.position) = rest := by
  obtain ⟨-, hupTo, hrest⟩ := positions_of_split h hposition
  rw [h, List.append_cons]
  constructor
  · apply filter_front
    · simpa using hupTo
    · simpa using hrest
  · apply filter_back
    · simpa using hupTo
    · simpa using hrest

theorem validTokens_filter :
    (validTokens source).filter (fun located => located.position < position) =
        before.filterMap Item.written? ∧
      (validTokens source).filter (fun located => located.position ≤ position) =
        (before ++ [item]).filterMap Item.written? ∧
      (validTokens source).filter (fun located => position < located.position) =
        rest.filterMap Item.written? := by
  obtain ⟨hbefore, hupTo, hrest⟩ := positions_of_split h hposition
  have hfront := forall_written (p := (· < position)) hbefore
  have hbehind : ∀ other ∈ item :: rest, position ≤ other.position :=
    List.forall_mem_cons.mpr
      ⟨Nat.le_of_eq hposition, fun other hmem => Nat.le_of_lt (hrest other hmem)⟩
  have hfrom := forall_written (p := (position ≤ ·)) hbehind
  have hnear := forall_written (p := (· ≤ position)) hupTo
  have hfar := forall_written (p := (position < ·)) hrest
  rw [validTokens_eq]
  refine ⟨?_, ?_, ?_⟩
  · rw [h, List.filterMap_append]
    apply filter_front
    · simpa using hfront
    · simpa using hfrom
  · rw [h, List.append_cons, List.filterMap_append]
    apply filter_front
    · simpa using hnear
    · simpa using hfar
  · rw [h, List.append_cons, List.filterMap_append]
    apply filter_back
    · simpa using hnear
    · simpa using hfar

end

theorem take_written {source : String} {before rest : List Item} {next : Located}
    (h : Scan.stream source = before ++ .ok next :: rest) :
    (List.filterMap Item.written? (.ok next :: rest)).take 1 =
      [.ok next].filterMap Item.written? := by
  by_cases htoken : next.token = .endOfInput
  · have hmem : ∀ item ∈ .ok next :: rest, item ∈ Scan.stream source := by
      intro item hitem
      rw [h]
      exact List.mem_append_right before hitem
    have hlast := eq_end_of_mem_stream (hmem _ List.mem_cons_self) htoken
    obtain ⟨-, -, hrest⟩ := positions_of_split h rfl
    have hnothing : rest = [] := by
      rw [List.eq_nil_iff_forall_not_mem]
      intro item hitem
      have hlt := hrest item hitem
      have hle := position_le_of_mem_stream (hmem item (List.mem_cons_of_mem _ hitem))
      rw [hlast] at hlt
      exact absurd hlt (Nat.not_lt_of_le hle)
    rw [hnothing, List.filterMap_cons, written?_of_end htoken]
    rfl
  · rw [List.filterMap_cons, List.filterMap_cons, written?_of_token htoken]
    rfl

section
variable {source : String} {items rest : List Item} {e : Error}
  (h : Scan.stream source = items ++ rest) (hend : e.EndsAt items)
include h hend

theorem itemsRead_of_endsAt : itemsRead source e = items := by
  match e, hend with
  | .lexical e, ⟨before, hitems⟩ =>
    subst hitems
    rw [List.append_assoc] at h
    exact (stream_filter h rfl).1
  | .syntactic e, ⟨before, located, habout, hlast⟩ =>
    rw [itemsRead]
    split at hlast
    · rename_i hlimit
      obtain ⟨next, rfl⟩ := hlast
      rw [List.append_assoc] at h
      obtain ⟨hupTo, hbehind⟩ := stream_filter h habout.position_eq
      rw [hupTo, hbehind, if_pos hlimit, List.append_assoc]
      rfl
    · rename_i hlimit
      subst hlast
      rw [List.append_assoc] at h
      obtain ⟨hupTo, -⟩ := stream_filter h habout.position_eq
      rw [hupTo, if_neg hlimit, List.append_nil]

/-- The tokens among the items pulled are those of the line up to the one that decides the
error. -/
theorem tokensRead_of_endsAt :
    tokensRead source (.error e) = items.filterMap Item.written? := by
  match e, hend with
  | .lexical e, ⟨before, hitems⟩ =>
    subst hitems
    rw [List.append_assoc] at h
    obtain ⟨hbefore, -, -⟩ := validTokens_filter h rfl
    rw [List.filterMap_append]
    exact hbefore.trans (List.append_nil _).symm
  | .syntactic e, ⟨before, located, habout, hlast⟩ =>
    rw [tokensRead]
    split at hlast
    · rename_i hlimit
      obtain ⟨next, rfl⟩ := hlast
      rw [List.append_assoc] at h
      obtain ⟨-, hupTo, hbehind⟩ := validTokens_filter h habout.position_eq
      have hmore : Scan.stream source = (before ++ [.ok located]) ++ .ok next :: rest := by
        rw [h, List.append_assoc]
        rfl
      calc _ = List.filterMap Item.written? (before ++ [.ok located]) ++
            (List.filterMap Item.written? (.ok next :: rest)).take 1 := by
              rw [hupTo, hbehind, if_pos hlimit]
              rfl
        _ = List.filterMap Item.written? (before ++ [.ok located]) ++
            List.filterMap Item.written? [.ok next] := by rw [take_written hmore]
        _ = _ := by
              rw [← List.filterMap_append, List.append_assoc]
              rfl
    · rename_i hlimit
      subst hlast
      rw [List.append_assoc] at h
      obtain ⟨-, hupTo, -⟩ := validTokens_filter h habout.position_eq
      rw [hupTo, if_neg hlimit, List.append_nil]

end

/-! ## A scan is decided by the items it has pulled -/

namespace Scan

theorem isLimit_of_take {scan after : Scan} {located : Located} {e : SyntaxError}
    (h : scan.move located = .take after (some e)) : e.isLimit = true := by
  rcases take_cases h with ⟨_, -, -, -, hnone⟩ | ⟨-, -, -, hlimit⟩ | ⟨_, -, -, -, hlimit⟩ |
    ⟨-, -, -, -, hnone⟩
  · cases hnone
  · split at hlimit <;> cases hlimit
    rfl
  · split at hlimit <;> cases hlimit
    rfl
  · cases hnone

theorem isLimit_of_stop {scan : Scan} {located : Located} {e : SyntaxError}
    (h : scan.move located = .stop (some e)) : e.isLimit = false := by
  rcases stop_cases h with ⟨hnone, -⟩ | ⟨expected, hfailure⟩ | ⟨-, hfailure⟩
  · cases hnone
  · cases hfailure
    rfl
  · cases hfailure
    rfl

/-- A scan that fails has come to an item that decides its error, and answers the same
whatever follows there. Before the first item a limit may have been exceeded by a token
that stands behind some others. -/
theorem resume_cut {scan : Scan} {exceeded : Option SyntaxError} {items : List Item} {e : Error}
    (h : scan.resume exceeded items = .error e) (before : List Item)
    (hexceeded : ∀ failure, exceeded = some failure → failure.isLimit = true ∧
      ∃ earlier located, before = earlier ++ [.ok located] ∧ failure.About located) :
    ∃ pulled rest, items = pulled ++ rest ∧ e.EndsAt (before ++ pulled) ∧
      ∀ other, scan.resume exceeded (pulled ++ other) = .error e := by
  -- On the items, with those before them kept: a limit is about the last of these.
  induction items generalizing scan exceeded before with
  | nil => cases h
  | cons item items ih =>
    cases item with
    | error lexical =>
      cases h
      exact ⟨[.error lexical], items, rfl, ⟨before, rfl⟩, fun other => rfl⟩
    | ok located =>
      cases exceeded with
      | some failure =>
        cases h
        obtain ⟨hlimit, earlier, taken, rfl, habout⟩ := hexceeded failure rfl
        refine ⟨[.ok located], items, rfl, ⟨earlier, taken, habout, ?_⟩, fun other => rfl⟩
        rw [if_pos hlimit]
        exact ⟨located, by rw [List.append_assoc]; rfl⟩
      | none =>
        simp only [resume] at h
        cases hmove : scan.move located with
        | stop failure =>
          simp only [hmove] at h
          cases failure with
          | none => cases h
          | some failure =>
            cases h
            refine ⟨[.ok located], items, rfl,
              ⟨before, located, about_of_stop hmove, by simp [isLimit_of_stop hmove]⟩, ?_⟩
            intro other
            simp only [List.singleton_append, resume, hmove]
        | take after exceeded =>
          simp only [hmove] at h
          obtain ⟨pulled, rest, rfl, hend, hall⟩ := ih h (before ++ [.ok located]) (by
            rintro failure rfl
            exact ⟨isLimit_of_take hmove, before, located, rfl, about_of_take hmove⟩)
          refine ⟨.ok located :: pulled, rest, rfl, ?_, ?_⟩
          · rwa [List.append_assoc] at hend
          · intro other
            simp only [List.cons_append, resume, hmove]
            exact hall other

end Scan

/-- A line that begins with the items up to the one that decides an error has the same
error, decided by the same items. -/
theorem parseLine_of_itemsRead {source other : String} {e : Error}
    (h : parseLine source = .error e) (hbegins : itemsRead source e <+: Scan.stream other) :
    parseLine other = .error e ∧ itemsRead other e = itemsRead source e ∧
      tokensRead other (.error e) = tokensRead source (.error e) := by
  obtain ⟨pulled, rest, hsplit, hend, hall⟩ :=
    Scan.resume_cut (ofLine_of_parseLine_error h) [] nofun
  have hsource := itemsRead_of_endsAt hsplit hend
  rw [hsource] at hbegins
  obtain ⟨more, hmore⟩ := hbegins
  refine ⟨parseLine_of_ofLine_error ?_, ?_, ?_⟩
  · rw [Scan.ofLine, ← hmore]
    exact hall more
  · rw [hsource, itemsRead_of_endsAt hmore.symm hend]
  · rw [tokensRead_of_endsAt hsplit hend, tokensRead_of_endsAt hmore.symm hend]

/-! ## What the parser pulls -/

theorem Cursor.nextToken_cases {cursor after : Cursor} {item : Item}
    (h : cursor.nextToken = (item, after)) :
    cursor.pending = item :: after.pending ∨
      cursor.pending = [] ∧ after.pending = [] ∧ item = .ok cursor.endToken := by
  cases hpending : cursor.pending with
  | nil =>
    obtain ⟨hend, hnothing, -⟩ := nextToken_of_pending_nil hpending
    rw [h] at hend
    cases hend
    exact .inr ⟨rfl, hnothing, rfl⟩
  | cons first rest =>
    obtain ⟨_, hfirst, hrest, -⟩ := nextToken_of_pending_cons hpending
    rw [h] at hfirst
    cases hfirst
    exact .inl (by rw [hrest])

theorem Cursor.pending_of_nextToken {cursor after : Cursor} {item : Item}
    (h : cursor.nextToken = (item, after)) : after.pending = cursor.pending.drop 1 := by
  rcases nextToken_cases h with hpending | ⟨hpending, hnothing, -⟩
  · rw [hpending]
    rfl
  · rw [hpending, hnothing]
    rfl

theorem Parser.pending_of_ofSource {source : String} {start : Parser}
    (h : ofSource source = .ok start) :
    start.cursor.pending = (Item.ofSource source).drop 1 := by
  rw [← Cursor.pending_ofSource]
  unfold ofSource at h
  cases hnext : (Cursor.ofSource source).nextToken with
  | mk item cursor =>
    rw [hnext] at h
    cases item with
    | error e => cases h
    | ok first =>
      cases h
      exact Cursor.pending_of_nextToken hnext

theorem Parser.exists_of_ofSource_error {source : String} {e : Error}
    (h : ofSource source = .error e) :
    ∃ lexical rest, e = .lexical lexical ∧ Item.ofSource source = .error lexical :: rest := by
  rw [← Cursor.pending_ofSource]
  unfold ofSource at h
  cases hnext : (Cursor.ofSource source).nextToken with
  | mk item cursor =>
    rw [hnext] at h
    cases item with
    | ok first => cases h
    | error lexical =>
      cases h
      rcases Cursor.nextToken_cases hnext with hpending | ⟨-, -, hnone⟩
      · exact ⟨lexical, _, rfl, hpending⟩
      · cases hnone

theorem Look.Pulls.pending_eq {first last : Look} {ts : List Located} {es : List LexError}
    (h : first.Pulls ts es last) :
    last.cursor.pending = first.cursor.pending.drop (ts.length + es.length) := by
  induction h with
  | none look => rfl
  | take hnext _ ih =>
    rw [ih, Cursor.pending_of_nextToken hnext, List.drop_drop, List.length_cons]
    congr 1
    omega
  | pass hnext _ ih =>
    rw [ih, Cursor.pending_of_nextToken hnext, List.drop_drop, List.length_cons]
    congr 1
    omega

namespace Parser
variable {source : String} {start : Parser}

/-- The items pulled for a line when so many tokens of it have been taken: those, the
look-ahead, and the error that is the answer if it is lexical. -/
def pulled (taken : List Located) (reply : Reply Expr) : List Item :=
  taken.map .ok ++ .ok reply.2.current :: (lexicalErrors reply.1).map .error

/-- Tokens taken from the start of a line are its items, with the look-ahead behind
them and then what the cursor has still to answer. -/
theorem stream_of_takes {taken : List Located} {current : Located} {cursor : Cursor}
    (h : ofSource source = .ok start) (htakes : start.look.Takes taken ⟨current, cursor⟩)
    (hinside : ∀ located ∈ taken, located.token ≠ .endOfInput) :
    Scan.stream source = taken.map .ok ++ .ok current ::
      if current.token = .endOfInput then []
      else cursor.pending ++ [.ok ⟨.endOfInput, source.length⟩] := by
  obtain ⟨-, hproper, hahead, -⟩ := ofSource_ok h
  have hitems := htakes.ahead_eq hproper hinside
  rw [hahead, Look.ahead] at hitems
  split at hitems
  · rename_i htoken
    obtain ⟨hat, -⟩ := at_ofSource h
    obtain ⟨-, hlast, -⟩ := htakes.pulls.at hat
    have hcurrent : current = _ := hlast.current
    rw [hcurrent] at htoken
    rw [if_pos (hcurrent ▸ htoken), Scan.stream, hitems, hcurrent, entry_of_endOfInput htoken,
      List.append_nil]
  · rename_i htoken
    rw [if_neg htoken, Scan.stream, hitems, List.append_assoc]
    rfl

theorem pulled_isPrefix {taken : List Located} {reply : Reply Expr}
    (h : ofSource source = .ok start) (hinside : ∀ located ∈ taken, located.token ≠ .endOfInput)
    (hstands : start.Stands taken reply.2 (Machine.ended reply).failure) :
    pulled taken reply <+: Scan.stream source := by
  obtain ⟨result, after⟩ := reply
  have hfront {rest : List Item} (hstream : Scan.stream source = taken.map .ok ++ rest)
      (hrest : .ok after.current :: (lexicalErrors result).map .error <+: rest) :
      pulled taken (result, after) <+: Scan.stream source := by
    rw [hstream]
    exact (List.prefix_append_right_inj _).mpr hrest
  cases result with
  | ok tree =>
    have htakes : start.look.Takes taken after.look := hstands
    exact hfront (stream_of_takes h htakes hinside) ⟨_, rfl⟩
  | error e =>
    match e, hstands with
    | .lexical e, ⟨hcurrent, cursor, htakes, hnext⟩ =>
      apply hfront (stream_of_takes h htakes hinside)
      rw [if_neg hcurrent]
      rcases Cursor.nextToken_cases hnext with hpending | ⟨-, -, hnone⟩
      · rw [hpending]
        exact ⟨_, rfl⟩
      · cases hnone
    | .syntactic e, ⟨htakes, _⟩ => exact hfront (stream_of_takes h htakes hinside) ⟨_, rfl⟩

theorem endsAt_of_stands {taken : List Located} {after : Parser} {e : Error}
    (h : start.Stands taken after (some e)) : e.EndsAt (pulled taken (.error e, after)) := by
  match e, h with
  | .lexical e, _ =>
    exact ⟨taken.map .ok ++ [.ok after.current], by rw [List.append_assoc]; rfl⟩
  | .syntactic e, ⟨_, located, hlocated, habout⟩ =>
    split at hlocated
    · rename_i hlimit
      obtain ⟨before, rfl⟩ := List.getLast?_eq_some_iff.mp hlocated
      refine ⟨before.map .ok, located, habout, ?_⟩
      rw [if_pos hlimit]
      exact ⟨after.current, by rw [pulled, List.map_append, List.append_assoc]; rfl⟩
    · rename_i hlimit
      cases hlocated
      refine ⟨taken.map .ok, after.current, habout, ?_⟩
      rw [if_neg hlimit]
      rfl

/-- What a call on a whole line pulls: the first items of the line, up to the one that
decides its error, or all of them. -/
theorem line_pulls (h : ofSource source = .ok start) :
    ∃ taken, (∀ located ∈ taken, located.token ≠ .endOfInput) ∧
      start.look.Pulls taken (lexicalErrors start.line.1) start.line.2.look ∧
      pulled taken start.line <+: Scan.stream source ∧
      (∀ e, start.line.1 = .error e → e.EndsAt (pulled taken start.line)) ∧
      ∀ tree, start.line.1 = .ok tree → pulled taken start.line = Scan.stream source := by
  obtain ⟨taken, hsince⟩ := (Machine.computes_line start []).since
  have hinside := hsince.inside
  have hstands : start.Stands taken start.line.2 (Machine.ended start.line).failure :=
    hsince.stands
  have hpulls := Stands.pulls hstands
  rw [missed_ended] at hpulls
  refine ⟨taken, hinside, hpulls, pulled_isPrefix h hinside hstands, ?_, ?_⟩
  · intro e he
    cases hline : start.line with
    | mk result after =>
      rw [hline] at hstands he
      cases he
      exact endsAt_of_stands hstands
  · intro tree htree
    cases hline : start.line with
    | mk result after =>
      rw [hline] at hstands htree
      cases htree
      have htakes : start.look.Takes taken after.look := hstands
      obtain ⟨hdepth, -⟩ := ofSource_ok h
      obtain ⟨-, hend, -⟩ := line_ok hdepth hline
      have hstream := stream_of_takes h htakes hinside
      rw [if_pos hend] at hstream
      exact hstream.symm

end Parser

/-! ## The record of a token -/

/-- A number at the end of a text, behind a blank, is known from the text. -/
theorem Digits.append_ofNat_inj {front front' : List Char} {n m : Nat}
    (h : front ++ ' ' :: ofNat n = front' ++ ' ' :: ofNat m) : front = front' ∧ n = m := by
  have hdigits (k : Nat) : ∀ c ∈ (ofNat k).reverse, c.isDigit = true :=
    fun c hmem => isDigit_of_mem_ofNat (List.mem_reverse.mp hmem)
  have hblank (front : List Char) : ∀ c ∈ (' ' :: front.reverse).head?, c.isDigit = false := by
    intro c hc
    cases hc
    rfl
  have hreversed := congrArg List.reverse h
  rw [List.reverse_append, List.reverse_append, List.reverse_cons, List.reverse_cons,
    List.append_assoc, List.append_assoc] at hreversed
  obtain ⟨hrun, hrest⟩ :=
    run_append_inj (hdigits n) (hdigits m) (hblank front) (hblank front') hreversed
  refine ⟨List.reverse_inj.mp (List.cons.inj hrest).2, ?_⟩
  rw [← toNat_ofNat n, List.reverse_inj.mp hrun, toNat_ofNat]

namespace Token
variable {token other : Token}

theorem of_kind_integer (h : token.kind = .integer) : ∃ value, token = .integer value := by
  cases token with
  | integer value => exact ⟨value, rfl⟩
  | operator op => cases h
  | leftParen => cases h
  | rightParen => cases h
  | endOfInput => cases h

theorem text_of_kind_ne_integer (h : token.kind ≠ .integer) : token.text = token.kind.text := by
  cases token with
  | integer value => exact absurd rfl h
  | operator op => rfl
  | leftParen => rfl
  | rightParen => rfl
  | endOfInput => rfl

theorem eq_of_kind_eq (hinteger : token.kind ≠ .integer) (h : token.kind = other.kind) :
    token = other := by
  cases token <;> cases other <;> simp_all [kind]

theorem text_integer_ne_kind (value : Int64) (kind : TokenKind) :
    (integer value).text ≠ kind.text := by
  intro h
  have hhead : (integer value).text.toList.head? = some 'I' := by
    rw [text, String.toList_append, String.toList_append]
    rfl
  rw [h] at hhead
  cases kind with
  | operator op => cases op <;> cases hhead
  | integer => cases hhead
  | leftParen => cases hhead
  | rightParen => cases hhead
  | endOfInput => cases hhead

theorem text_integer_injective {value value' : Int64}
    (h : (integer value).text = (integer value').text) : value = value' := by
  have hchars := congrArg String.toList h
  simp only [text, String.toList_append, Digits.intText, String.toList_ofList] at hchars
  have hdigits := List.append_cancel_left (List.append_cancel_right hchars)
  apply Int64.toInt_inj.mp
  rw [← Digits.toInt_ofInt value.toInt, hdigits, Digits.toInt_ofInt]

/-- The text of a token tells the token: only an integer shows a value. -/
theorem text_injective (h : token.text = other.text) : token = other := by
  by_cases hinteger : token.kind = .integer
  · obtain ⟨value, rfl⟩ := of_kind_integer hinteger
    by_cases hother : other.kind = .integer
    · obtain ⟨value', rfl⟩ := of_kind_integer hother
      rw [text_integer_injective h]
    · rw [text_of_kind_ne_integer hother] at h
      exact absurd h (text_integer_ne_kind value _)
  · rw [text_of_kind_ne_integer hinteger] at h
    by_cases hother : other.kind = .integer
    · obtain ⟨value, rfl⟩ := of_kind_integer hother
      exact absurd h.symm (text_integer_ne_kind value _)
    · rw [text_of_kind_ne_integer hother] at h
      exact eq_of_kind_eq hinteger (TokenKind.text_injective h)

end Token

/-- No two tokens have the same record, nor does one at two places. -/
theorem Record.token_injective {located other : Located} (h : token located = token other) :
    located = other := by
  have hchars := congrArg (fun record => record.message.toList) h
  have hsplit (located : Located) : (token located).message.toList =
      "token ".toList ++ (located.token.text.toList ++ " at".toList) ++
        ' ' :: Digits.ofNat located.position := by
    simp [token, Digits.text, String.toList_append]
  simp only [hsplit] at hchars
  obtain ⟨hfront, hposition⟩ := Digits.append_ofNat_inj hchars
  have htext := List.append_cancel_right (List.append_cancel_left hfront)
  have htoken : located.token = other.token := Token.text_injective (String.toList_inj.mp htext)
  cases located
  cases other
  simp only [Located.mk.injEq]
  exact ⟨htoken, hposition⟩

/-! ## The records of a line -/

section
variable {source : String}

theorem written_take (source : String) (count : Nat) :
    ((Scan.stream source).take count).filterMap Item.written? =
      ((Item.ofSource source).take count).filterMap Item.token? := by
  rw [Scan.stream, List.take_append, List.filterMap_append,
    filterMap_written? fun item hmem => List.mem_of_mem_take hmem]
  cases count - (Item.ofSource source).length with
  | zero => exact List.append_nil _
  | succ more =>
    rw [List.take_succ_cons, List.take_nil]
    exact List.append_nil _

theorem ofItems_eq (items : List Item) :
    Record.ofItems items = (items.filterMap Item.token?).map Record.token := by
  rw [Record.ofItems, List.map_filterMap]

theorem take_passed {α : Type} (xs : List α) (count : Nat) :
    xs.take (xs.length - (xs.drop count).length) = xs.take count := by
  rw [List.length_drop]
  by_cases hcount : count ≤ xs.length
  · rw [Nat.sub_sub_self hcount]
  · rw [List.take_of_length_le (by omega), List.take_of_length_le (by omega)]

theorem records_of_pulls {start : Parser} {taken : List Located}
    (h : Parser.ofSource source = .ok start)
    (hpulls : start.look.Pulls taken (lexicalErrors start.line.1) start.line.2.look)
    (hbegins : Parser.pulled taken start.line <+: Scan.stream source) :
    firstTokenRecords source ++ start.records start.line.2 =
      ((Parser.pulled taken start.line).filterMap Item.written?).map Record.token := by
  have hstart := Parser.pending_of_ofSource h
  have hafter : start.line.2.cursor.pending =
      start.cursor.pending.drop (taken.length + (lexicalErrors start.line.1).length) :=
    hpulls.pending_eq
  have hcount : (Parser.pulled taken start.line).length =
      1 + (taken.length + (lexicalErrors start.line.1).length) := by
    simp only [Parser.pulled, List.length_append, List.length_map, List.length_cons]
    omega
  -- Records count items and not the end of input, which may be among those pulled.
  rw [List.prefix_iff_eq_take.mp hbegins, hcount, written_take, ← ofItems_eq, List.take_add,
    firstTokenRecords, Cursor.stepRecords, Parser.records, Cursor.passed, hafter,
    Cursor.pending_ofSource, take_passed, ← hstart, ofItems_eq, ofItems_eq, ofItems_eq,
    List.filterMap_append, List.map_append]

/-- The record of the tree of a line, if it has one. -/
def treeRecords : Except Error Expr → List Record
  | .ok tree => [.parsed tree]
  | .error _ => []

theorem lineRecords_eq (parser : Parser) :
    parser.lineRecords = parser.records parser.line.2 ++ treeRecords parser.line.1 := by
  unfold Parser.lineRecords
  cases parser.line with
  | mk result after =>
    cases result with
    | ok tree => rfl
    | error e => exact (List.append_nil _).symm

theorem exists_pulled (source : String) :
    ∃ items, items <+: Scan.stream source ∧
      (∀ start, Parser.ofSource source = .ok start →
        ∃ taken, (∀ located ∈ taken, located.token ≠ .endOfInput) ∧
          start.look.Pulls taken (lexicalErrors start.line.1) start.line.2.look ∧
          items = Parser.pulled taken start.line) ∧
      (∀ e, Parser.ofSource source = .error (.lexical e) → items = [.error e]) ∧
      parseLineRecords source =
        (items.filterMap Item.written?).map .token ++ treeRecords (parseLine source) ∧
      (∀ e, parseLine source = .error e → e.EndsAt items) ∧
      ∀ tree, parseLine source = .ok tree → items = Scan.stream source := by
  cases hstart : Parser.ofSource source with
  | error e =>
    -- Without a first token there is no parser, and the error is all that has been pulled.
    have hparse : parseLine source = .error e := by rw [parseLine, hstart]
    have hrecords : parseLineRecords source = firstTokenRecords source := by
      rw [parseLineRecords, hstart]
      exact List.append_nil _
    obtain ⟨lexical, rest, rfl, hitems⟩ := Parser.exists_of_ofSource_error hstart
    refine ⟨[.error lexical], ?_, ?_, ?_, ?_, ?_, ?_⟩
    · rw [Scan.stream, hitems]
      exact ⟨_, rfl⟩
    · intro start hother
      cases hother
    · intro other hother
      cases hother
      rfl
    · rw [hrecords, firstTokenRecords, Cursor.stepRecords, Cursor.pending_ofSource, hitems, hparse]
      rfl
    · rw [hparse]
      intro other hother
      cases hother
      exact ⟨[], rfl⟩
    · rw [hparse]
      intro tree htree
      cases htree
  | ok start =>
    have hparse : parseLine source = start.line.1 := by rw [parseLine, hstart]
    obtain ⟨taken, hinside, hpulls, hbegins, hfails, hends⟩ := Parser.line_pulls hstart
    refine ⟨Parser.pulled taken start.line, hbegins, ?_, ?_, ?_, ?_, ?_⟩
    · intro other hother
      cases hother
      exact ⟨taken, hinside, hpulls, rfl⟩
    · intro e he
      cases he
    · rw [← records_of_pulls hstart hpulls hbegins, parseLineRecords, hstart, hparse,
        List.append_assoc, ← lineRecords_eq]
    · rw [hparse]
      exact hfails
    · rw [hparse]
      exact hends

theorem tokensRead_of_pulled {items : List Item} (hbegins : items <+: Scan.stream source)
    (hfails : ∀ e, parseLine source = .error e → e.EndsAt items)
    (hends : ∀ tree, parseLine source = .ok tree → items = Scan.stream source) :
    tokensRead source (parseLine source) = items.filterMap Item.written? := by
  cases hparse : parseLine source with
  | ok tree =>
    rw [hends tree hparse]
    exact validTokens_eq source
  | error e =>
    obtain ⟨rest, hsplit⟩ := hbegins
    exact tokensRead_of_endsAt hsplit.symm (hfails e hparse)

theorem parseLineRecords_eq (source : String) :
    parseLineRecords source =
      (tokensRead source (parseLine source)).map .token ++ treeRecords (parseLine source) := by
  obtain ⟨items, hbegins, -, -, hrecords, hfails, hends⟩ := exists_pulled source
  rw [tokensRead_of_pulled hbegins hfails hends]
  exact hrecords

theorem written_pulled {taken : List Located}
    (hinside : ∀ located ∈ taken, located.token ≠ .endOfInput) (reply : Reply Expr) :
    (Parser.pulled taken reply).filterMap Item.written? =
      taken ++ [reply.2.current].filter (fun located => located.token ≠ .endOfInput) := by
  have htaken : (taken.map Except.ok).filterMap Item.written? = taken := by
    rw [List.filterMap_map]
    induction taken with
    | nil => rfl
    | cons located taken ih =>
      have hlocated : Item.written? (.ok located) = some located :=
        written?_of_token (hinside located List.mem_cons_self)
      have hrest := ih fun other hmem => hinside other (List.mem_cons_of_mem located hmem)
      rw [List.filterMap_cons, Function.comp_apply, hlocated, hrest]
  have herrors : ((lexicalErrors reply.1).map Except.error).filterMap Item.written? = [] := by
    rw [List.filterMap_map]
    exact List.filterMap_eq_nil_iff.mpr fun e _ => rfl
  rw [Parser.pulled, List.filterMap_append, htaken, List.filterMap_cons, herrors]
  by_cases htoken : reply.2.current.token = .endOfInput
  · rw [written?_of_end htoken]
    simp [htoken]
  · rw [written?_of_token htoken]
    simp [htoken]

end

/-- What a line is read of, told by its answer: all of it, or the items up to the one
that decides its error. The tokens among them are reported, in order and once each, and
then the tree if there is one. They are the tokens that the parser has taken and the one
that it looks at behind them, and each record tells its token. A line that begins with
the same items has the same error and the same records, whatever follows. -/
theorem parseLine_reads (source : String) :
    parseLineRecords source =
        (tokensRead source (parseLine source)).map .token ++ treeRecords (parseLine source) ∧
      (∀ located other, Record.token located = .token other → located = other) ∧
      (∀ tree, parseLine source = .ok tree → tokenize source = .ok (validTokens source)) ∧
      (∀ start, Parser.ofSource source = .ok start →
        ∃ taken, start.look.Pulls taken (lexicalErrors start.line.1) start.line.2.look ∧
          tokensRead source (parseLine source) =
            taken ++ [start.line.2.current].filter (fun located => located.token ≠ .endOfInput) ∧
          ∀ e, parseLine source = .error e →
            itemsRead source e = Parser.pulled taken start.line) ∧
      (∀ e, Parser.ofSource source = .error (.lexical e) →
        parseLine source = .error (.lexical e) ∧ itemsRead source (.lexical e) = [.error e]) ∧
      ∀ e, parseLine source = .error e →
        itemsRead source e <+: Scan.stream source ∧
        ∀ other, itemsRead source e <+: Scan.stream other →
          parseLine other = .error e ∧ parseLineRecords other = parseLineRecords source := by
  obtain ⟨items, hbegins, hstart, hfirst, -, hfails, hends⟩ := exists_pulled source
  have htokens := tokensRead_of_pulled hbegins hfails hends
  have hitems : ∀ e, parseLine source = .error e → itemsRead source e = items := by
    intro e he
    obtain ⟨rest, hsplit⟩ := hbegins
    exact itemsRead_of_endsAt hsplit.symm (hfails e he)
  refine ⟨parseLineRecords_eq source, fun _ _ => Record.token_injective, ?_, ?_, ?_, ?_⟩
  · intro tree htree
    obtain ⟨ts, hts, -⟩ := derives_of_parseLine htree
    rw [validTokens_of_tokenize hts]
    exact hts
  · intro start hok
    obtain ⟨taken, hinside, hpulls, rfl⟩ := hstart start hok
    refine ⟨taken, hpulls, ?_, hitems⟩
    rw [htokens, written_pulled hinside]
  · intro e he
    have hparse : parseLine source = .error (.lexical e) := by rw [parseLine, he]
    exact ⟨hparse, (hitems _ hparse).trans (hfirst e he)⟩
  · intro e he
    refine ⟨by rw [hitems e he]; exact hbegins, ?_⟩
    intro other hother
    obtain ⟨hsame, -, hread⟩ := parseLine_of_itemsRead he hother
    refine ⟨hsame, ?_⟩
    rw [parseLineRecords_eq, parseLineRecords_eq, hsame, he, hread]

/-- Neither a bad character nor a literal that is too large is reached behind a token
that is one too many. -/
theorem parseLine_reads_of_trailing :
    let source := "1 2 $"
    let other := "1 2*99999999999999999999"
    let e : Error := .syntactic (.trailingTokens .integer 2)
    parseLine source = .error e ∧
      itemsRead source e = [.ok ⟨.integer 1, 0⟩, .ok ⟨.integer 2, 2⟩] ∧
      (parseLineRecords source).map Record.text =
        ["TRACE spi::interpreter::lexer token Integer(1) at 0",
          "TRACE spi::interpreter::lexer token Integer(2) at 2"] ∧
      parseLine other = .error e ∧ parseLineRecords other = parseLineRecords source := by
  intro source other e
  have hfails : parseLine source = .error e := by decide +kernel
  have hitems : itemsRead source e = [.ok ⟨.integer 1, 0⟩, .ok ⟨.integer 2, 2⟩] := by
    decide +kernel
  have hother : (Scan.stream other).take 2 = [.ok ⟨.integer 1, 0⟩, .ok ⟨.integer 2, 2⟩] := by
    decide +kernel
  have hread : tokensRead source (.error e) = [⟨.integer 1, 0⟩, ⟨.integer 2, 2⟩] := by
    decide +kernel
  obtain ⟨hrecords, -, -, -, -, hcut⟩ := parseLine_reads source
  obtain ⟨-, hsame⟩ := hcut e hfails
  obtain ⟨hparse, hall⟩ := hsame other (by
    rw [hitems, ← hother]
    exact List.take_prefix _ _)
  rw [hfails, hread] at hrecords
  refine ⟨hfails, hitems, ?_, hparse, hall⟩
  rw [hrecords]
  decide +kernel

end LineCalc
