import LineCalc.Cursor
/-
  Pulling: a cursor answers the items of its line, one by one

  The items of a line are told at once by `Item.ofSource`, with every position
  counted from the start of the line. A cursor gets at them piece by piece, by
  bytes, and counts on from the last piece.

  What is proved:
    1. `Place.ofChars_of_piece?` — a scan finds the first item of a text, and
       stands before the others;
    2. `Cursor.nextToken_of_pending_nil`, `Cursor.nextToken_of_pending_cons` — a
       call answers the first item pending, at its position in characters, and
       leaves the others pending;
    3. `tokenize_eq` — a line read whole is the list of its items.
-/

namespace LineCalc

/-! ## Scanning -/

theorem Item.ofChars_skipBlanks (position : Nat) (text : List Char) :
    ofChars position text =
      ofChars (position + (text.takeWhile isBlank).length) (text.dropWhile isBlank) := by
  induction text generalizing position with
  | nil => rfl
  | cons c text ih =>
    cases hblank : isBlank c with
    | true =>
      rw [ofChars, if_pos hblank, ih, List.takeWhile_cons_of_pos hblank,
        List.dropWhile_cons_of_pos hblank, List.length_cons]
      congr 1
      omega
    | false =>
      rw [List.takeWhile_cons_of_neg (by simp [hblank]),
        List.dropWhile_cons_of_neg (by simp [hblank])]
      rfl

namespace Place
variable {place : Place} {piece : Piece}

theorem not_isBlank_skipBlanks {c : Char} {rest : List Char}
    (h : place.skipBlanks.rest = c :: rest) : isBlank c = false := by
  have := List.head?_dropWhile_not isBlank place.rest
  rw [show place.rest.dropWhile isBlank = c :: rest from h] at this
  exact this

theorem ofChars_eq (place : Place) (position : Nat) :
    Item.ofChars position place.rest =
      Item.ofChars (position + (place.rest.length - place.skipBlanks.rest.length))
        place.skipBlanks.rest := by
  have hlength : place.rest.length - place.skipBlanks.rest.length =
      (place.rest.takeWhile isBlank).length := by
    have hsplit : place.rest.length =
        (place.rest.takeWhile isBlank).length + place.skipBlanks.rest.length := by
      rw [← List.length_append]
      exact congrArg List.length List.takeWhile_append_dropWhile.symm
    omega
  rw [hlength]
  exact Item.ofChars_skipBlanks position place.rest

theorem ofChars_of_piece?_eq_none (h : place.piece? = none) (position : Nat) :
    Item.ofChars position place.rest = [] := by
  unfold piece? at h
  rw [ofChars_eq]
  cases hrest : place.skipBlanks.rest with
  | nil => rw [Item.ofChars]
  | cons c rest =>
    simp only [hrest] at h
    split at h <;> cases h

theorem ofChars_of_piece? (h : place.piece? = some piece) (position : Nat) :
    Item.ofChars position place.rest =
      piece.lexeme.item (position + (place.rest.length - piece.first.rest.length)) ::
        Item.ofChars (position + (place.rest.length - piece.last.rest.length))
          piece.last.rest := by
  obtain ⟨blanks, htext, -⟩ := place.before_skipBlanks
  have hlength : place.rest.length = blanks.length + place.skipBlanks.rest.length := by
    rw [htext, List.length_append]
  unfold piece? at h
  rw [ofChars_eq]
  cases hrest : place.skipBlanks.rest with
  | nil =>
    rw [hrest] at h
    cases h
  | cons c rest =>
    have hblank := not_isBlank_skipBlanks hrest
    rw [hrest, List.length_cons] at hlength
    simp only [hrest] at h
    rw [Item.ofChars, if_neg (by simp [hblank])]
    -- Both sides cut a whole run of digits or one character.
    split at h
    · rename_i hdigit
      cases h
      have hrun : (rest.takeWhile Char.isDigit).length + (rest.dropWhile Char.isDigit).length =
          rest.length := by
        rw [← List.length_append, List.takeWhile_append_dropWhile]
      rw [if_pos hdigit, hrest]
      simp only [Lexeme.item, List.length_cons]
      congr 2
      omega
    · rename_i hdigit
      cases h
      rw [if_neg hdigit, hrest]
      simp only [Lexeme.item, List.length_cons]
      congr 2
      omega

end Place

/-! ## One call -/

theorem Lexeme.token_ne_endOfInput {lexeme : Lexeme} {position : Nat} {located : Located}
    (h : lexeme.item position = .ok located) : located.token ≠ .endOfInput := by
  cases lexeme with
  | digits run =>
    simp only [item, Item.ofDigits] at h
    split at h
    · cases h
      simp
    · cases h
  | single c =>
    simp only [item, Item.ofChar] at h
    split at h
    · rename_i token htoken
      cases h
      rintro rfl
      unfold Token.ofChar? at htoken
      split at htoken
      · cases htoken
      · split at htoken
        · cases htoken
        · obtain ⟨op, -, hop⟩ := Option.map_eq_some_iff.mp htoken
          cases hop
    · cases h

namespace Cursor
variable {cursor : Cursor}

/-- The number of characters of the line. -/
def length (cursor : Cursor) : Nat := cursor.tally.seen + cursor.tally.place.rest.length

/-- The end of the line as a token. -/
def endToken (cursor : Cursor) : Located := ⟨.endOfInput, cursor.length⟩

theorem pending_ofSource (source : String) :
    (ofSource source).pending = Item.ofSource source := by
  simp [pending, position, ofSource, Item.ofSource]

theorem endToken_ofSource (source : String) :
    (ofSource source).endToken = ⟨.endOfInput, source.length⟩ := by
  simp [endToken, length, ofSource, String.length_toList]

theorem length_atEnd (cursor : Cursor) :
    cursor.atEnd.tally.seen = cursor.length ∧ cursor.atEnd.length = cursor.length := by
  have htally : cursor.atEnd.tally = ⟨⟨cursor.size, []⟩, cursor.length⟩ :=
    Tally.upTo_eq cursor.inside
  refine ⟨?_, ?_⟩
  · rw [htally]
  · rw [length, htally]
    rfl

/-- Counting on to a piece keeps the account of the line: the position of the
piece is the number of characters before it. -/
theorem tally_past {piece : Piece} (h : cursor.piece? = some piece) :
    (cursor.past h).tally.seen =
        cursor.position + (cursor.place.rest.length - piece.first.rest.length) ∧
      (cursor.past h).position =
        cursor.position + (cursor.place.rest.length - piece.last.rest.length) ∧
      (cursor.past h).length = cursor.length := by
  obtain ⟨hexhausted, hpiece, hfirst⟩ := before_of_piece? h
  obtain ⟨hplace, ⟨text, htext, -⟩, -⟩ := Place.before_of_piece? hpiece
  obtain ⟨blanks, hblanks, -⟩ := hplace
  obtain ⟨counted, hcounted, -⟩ := cursor.behind hexhausted
  -- The text from the count on is what lies before the scan, the blanks behind it,
  -- the lexeme, and the rest.
  have htally : (cursor.past h).tally = ⟨piece.first,
      cursor.tally.seen + (cursor.tally.place.rest.length - piece.first.rest.length)⟩ :=
    Tally.upTo_eq hfirst
  have hlast : (cursor.past h).place = piece.last := rfl
  have hcounted := congrArg List.length hcounted
  have hblanks := congrArg List.length hblanks
  have htext := congrArg List.length htext
  simp only [List.length_append] at hcounted hblanks htext
  simp only [length, position, htally, hlast]
  omega

theorem nextToken_of_pending_nil (h : cursor.pending = []) :
    cursor.nextToken = (.ok cursor.endToken, cursor.atEnd) ∧ cursor.atEnd.pending = [] ∧
      cursor.atEnd.endToken = cursor.endToken := by
  obtain ⟨hseen, hlength⟩ := cursor.length_atEnd
  have hnone : cursor.piece? = none := by
    cases hpiece : cursor.piece? with
    | none => rfl
    | some piece =>
      obtain ⟨hexhausted, hplace, -⟩ := before_of_piece? hpiece
      rw [pending, hexhausted, if_neg Bool.false_ne_true, Place.ofChars_of_piece? hplace] at h
      cases h
  refine ⟨?_, rfl, ?_⟩
  · rw [nextToken_of_none hnone, hseen, endToken]
  · rw [endToken, hlength, endToken]

theorem nextToken_of_pending_cons {item : Item} {rest : List Item}
    (h : cursor.pending = item :: rest) :
    ∃ after, cursor.nextToken = (item, after) ∧ after.pending = rest ∧
      after.endToken = cursor.endToken ∧
      ∀ located, item = .ok located → located.token ≠ .endOfInput := by
  cases hpiece : cursor.piece? with
  | none =>
    unfold pending at h
    unfold piece? at hpiece
    cases hexhausted : cursor.exhausted with
    | true =>
      rw [hexhausted] at h
      cases h
    | false =>
      simp only [hexhausted, Bool.false_eq_true, if_false] at h hpiece
      rw [Place.ofChars_of_piece?_eq_none hpiece] at h
      cases h
  | some piece =>
    obtain ⟨hexhausted, hplace, -⟩ := before_of_piece? hpiece
    obtain ⟨hseen, hposition, hlength⟩ := tally_past hpiece
    have hlast : (cursor.past hpiece).place = piece.last := rfl
    have hopen : (cursor.past hpiece).exhausted = false := hexhausted
    rw [pending, hexhausted, if_neg Bool.false_ne_true, Place.ofChars_of_piece? hplace] at h
    obtain ⟨rfl, rfl⟩ := List.cons.inj h
    refine ⟨cursor.past hpiece, ?_, ?_, ?_, fun located => Lexeme.token_ne_endOfInput⟩
    · rw [nextToken_of_some hpiece, hseen]
    · rw [pending, hopen, if_neg Bool.false_ne_true, hposition, hlast]
    · rw [endToken, hlength, endToken]

theorem next?_of_pending_nil (h : cursor.pending = []) :
    cursor.next? = (none, cursor.atEnd) := by
  rw [next?, (nextToken_of_pending_nil h).1]
  simp [endToken]

theorem next?_of_pending_ok {located : Located} {rest : List Item}
    (h : cursor.pending = .ok located :: rest) :
    ∃ after, cursor.next? = (some (.ok located), after) ∧ after.pending = rest ∧
      after.endToken = cursor.endToken := by
  obtain ⟨after, hnext, hrest, hend, htoken⟩ := nextToken_of_pending_cons h
  refine ⟨after, ?_, hrest, hend⟩
  rw [next?, hnext]
  simp [htoken located rfl]

/-- An error is the last answer of a reader that stops at errors. -/
theorem next?_of_pending_error {e : LexError} {rest : List Item}
    (h : cursor.pending = .error e :: rest) :
    ∃ after, cursor.next? = (some (.error e), after) ∧ after.pending = [] ∧
      after.endToken = cursor.endToken := by
  obtain ⟨after, hnext, -, hend, -⟩ := nextToken_of_pending_cons h
  refine ⟨after.givenUp, ?_, rfl, hend⟩
  rw [next?, hnext]

/-! ## A whole line -/

theorem collect_eq (cursor : Cursor) : cursor.collect = Item.tokens cursor.pending := by
  -- Every call answers one of the items pending, so they are what the induction is on.
  generalize hpending : cursor.pending = items
  induction items generalizing cursor with
  | nil =>
    rw [collect_eq_match, next?_of_pending_nil hpending]
    rfl
  | cons item rest ih =>
    cases item with
    | error e =>
      obtain ⟨after, hnext, -⟩ := next?_of_pending_error hpending
      rw [collect_eq_match, hnext]
      rfl
    | ok located =>
      obtain ⟨after, hnext, hrest, -⟩ := next?_of_pending_ok hpending
      have hothers := ih after hrest
      rw [collect_eq_match, hnext]
      cases htokens : Item.tokens rest with
      | ok others => simp only [hothers, Item.tokens, htokens]
      | error e => simp only [hothers, Item.tokens, htokens]

end Cursor

theorem tokenize_eq (source : String) : tokenize source = Item.tokens (Item.ofSource source) := by
  rw [tokenize, Cursor.collect_eq, Cursor.pending_ofSource]

end LineCalc
