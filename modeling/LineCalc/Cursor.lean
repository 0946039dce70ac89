import LineCalc.Item
/-
  Cursors: the items of a line, pulled one at a time

  A line is scanned by bytes, and positions count characters. So a cursor has
  two places in its text: where the scan goes on, and up to where characters
  have been counted. An item is answered with the count taken on to its first
  character, over no more than the text in between, and the count stays behind
  the scan until the end of the line.

  `Cursor.nextToken` answers the next item, token or error, and behind the last
  one the end of input, as often as it is asked. `Cursor.next?` is the same walk
  for a reader that stops at the first error: it answers nothing at the end, and
  after an error it answered nothing is left. `tokenize` reads a whole line in
  this way.
-/

namespace LineCalc

/-! ## Places in a line -/

/-- The number of bytes of a text. -/
def byteLength : List Char → Nat
  | [] => 0
  | c :: text => c.utf8Size + byteLength text

@[simp] theorem byteLength_nil : byteLength [] = 0 := rfl

@[simp] theorem byteLength_cons (c : Char) (text : List Char) :
    byteLength (c :: text) = c.utf8Size + byteLength text := rfl

@[simp] theorem byteLength_append (text more : List Char) :
    byteLength (text ++ more) = byteLength text + byteLength more := by
  induction text with
  | nil => simp
  | cons c text ih =>
    rw [List.cons_append, byteLength_cons, byteLength_cons, ih]
    omega

theorem utf8ByteSize_eq (s : String) : s.utf8ByteSize = byteLength s.toList := by
  obtain ⟨text, rfl⟩ : ∃ text, String.ofList text = s := ⟨s.toList, String.ofList_toList⟩
  rw [String.toList_ofList]
  induction text with
  | nil => rfl
  | cons c text ih =>
    rw [String.ofList_cons, String.utf8ByteSize_append, String.utf8ByteSize_singleton, ih,
      byteLength_cons]

/-- A place in a line: the number of bytes before it, and the text from it on. -/
structure Place where
  offset : Nat
  rest : List Char

namespace Place

/-- Whether a place comes before another one of the same line. -/
def Before (first last : Place) : Prop :=
  ∃ between, first.rest = between ++ last.rest ∧
    last.offset = first.offset + byteLength between

theorem Before.refl (place : Place) : place.Before place := ⟨[], rfl, rfl⟩

theorem Before.trans {first middle last : Place} (h : first.Before middle)
    (h' : middle.Before last) : first.Before last := by
  obtain ⟨between, hrest, hoffset⟩ := h
  obtain ⟨more, hrest', hoffset'⟩ := h'
  refine ⟨between ++ more, ?_, ?_⟩
  · rw [hrest, hrest', List.append_assoc]
  · rw [hoffset', hoffset, byteLength_append, Nat.add_assoc]

/-- Every later place of a line comes before the same end. -/
theorem Before.end_of {first last : Place} {size : Nat} (h : first.Before last)
    (hend : first.Before ⟨size, []⟩) : last.Before ⟨size, []⟩ := by
  obtain ⟨between, hrest, hoffset⟩ := h
  obtain ⟨text, htext, hsize⟩ := hend
  simp only [List.append_nil] at htext hsize
  refine ⟨last.rest, (List.append_nil _).symm, ?_⟩
  rw [hsize, ← htext, hrest, byteLength_append, hoffset, Nat.add_assoc]

end Place

/-! ## Scanning -/

/-- What a scan finds: a whole run of digits, or any other character that is no
blank. -/
inductive Lexeme where
  | digits (run : List Char)
  | single (c : Char)

/-- The item of a lexeme that stands at a position. -/
def Lexeme.item : Lexeme → Nat → Item
  | digits run, position => .ofDigits run position
  | single c, position => .ofChar c position

/-- A lexeme with the place where it begins and the place behind it. -/
structure Piece where
  lexeme : Lexeme
  first : Place
  last : Place

namespace Place

/-- The first place that is not before a blank. -/
def skipBlanks (place : Place) : Place :=
  ⟨place.offset + byteLength (place.rest.takeWhile isBlank), place.rest.dropWhile isBlank⟩

/-- The next lexeme, if there is one. A digit takes the whole run of digits it
begins. -/
def piece? (place : Place) : Option Piece :=
  match place.skipBlanks.rest with
  | [] => none
  | c :: rest =>
    if c.isDigit then
      let run := c :: rest.takeWhile Char.isDigit
      some ⟨.digits run, place.skipBlanks,
        ⟨place.skipBlanks.offset + byteLength run, rest.dropWhile Char.isDigit⟩⟩
    else
      some ⟨.single c, place.skipBlanks, ⟨place.skipBlanks.offset + c.utf8Size, rest⟩⟩

theorem before_skipBlanks (place : Place) : place.Before place.skipBlanks :=
  ⟨place.rest.takeWhile isBlank, List.takeWhile_append_dropWhile.symm, rfl⟩

/-- A piece stands behind the place, and is not empty. -/
theorem before_of_piece? {place : Place} {piece : Piece} (h : place.piece? = some piece) :
    place.Before piece.first ∧ piece.first.Before piece.last ∧
      piece.last.rest.length < place.rest.length := by
  have hskip := place.before_skipBlanks
  unfold piece? at h
  cases hrest : place.skipBlanks.rest with
  | nil =>
    rw [hrest] at h
    cases h
  | cons c rest =>
    have hshort : rest.length < place.rest.length := by
      obtain ⟨blanks, htext, -⟩ := hskip
      rw [htext, hrest, List.length_append, List.length_cons]
      omega
    simp only [hrest] at h
    split at h
    · cases h
      refine ⟨hskip, ⟨c :: rest.takeWhile Char.isDigit, ?_, rfl⟩, ?_⟩
      · rw [hrest, List.cons_append, List.takeWhile_append_dropWhile]
      · exact Nat.lt_of_le_of_lt (List.dropWhile_suffix Char.isDigit).length_le hshort
    · cases h
      exact ⟨hskip, ⟨[c], hrest, by simp⟩, hshort⟩

end Place

/-! ## Counting characters -/

/-- Counts on over so many bytes of a text: the count and the text behind them. -/
def countOver : Nat → List Char → Nat → Nat × List Char
  | bytes + 1, c :: text, seen => countOver (bytes + 1 - c.utf8Size) text (seen + 1)
  | _, text, seen => (seen, text)

theorem countOver_append (between rest : List Char) (seen : Nat) :
    countOver (byteLength between) (between ++ rest) seen = (seen + between.length, rest) := by
  induction between generalizing seen with
  | nil => simp [countOver]
  | cons c between ih =>
    have hpos := c.utf8Size_pos
    obtain ⟨bytes, hbytes⟩ : ∃ bytes, byteLength (c :: between) = bytes + 1 :=
      Nat.exists_eq_add_one.mpr (by rw [byteLength_cons]; omega)
    have hleft : bytes + 1 - c.utf8Size = byteLength between := by
      rw [← hbytes, byteLength_cons]
      omega
    rw [hbytes, List.cons_append, countOver, hleft, ih, List.length_cons]
    congr 1
    omega

/-- The number of characters before a place. -/
structure Tally where
  place : Place
  seen : Nat

/-- A count taken on to the place behind so many bytes. It is never taken back. -/
def Tally.upTo (tally : Tally) (offset : Nat) : Tally :=
  if offset > tally.place.offset then
    let (seen, rest) := countOver (offset - tally.place.offset) tally.place.rest tally.seen
    ⟨⟨offset, rest⟩, seen⟩
  else tally

theorem Tally.upTo_eq {tally : Tally} {place : Place} (h : tally.place.Before place) :
    tally.upTo place.offset =
      ⟨place, tally.seen + (tally.place.rest.length - place.rest.length)⟩ := by
  obtain ⟨between, hrest, hoffset⟩ := h
  have hbetween : tally.place.rest.length - place.rest.length = between.length := by
    rw [hrest, List.length_append, Nat.add_sub_cancel]
  rw [hbetween, upTo]
  split
  · rw [hoffset, Nat.add_sub_cancel_left, hrest, countOver_append, ← hoffset]
  · rename_i hnot
    cases between with
    | nil =>
      obtain ⟨⟨offset, rest⟩, seen⟩ := tally
      obtain ⟨offset', rest'⟩ := place
      simp only [List.nil_append, byteLength_nil, Nat.add_zero] at hrest hoffset
      simp [hrest, hoffset]
    | cons c between =>
      have hpos := c.utf8Size_pos
      rw [byteLength_cons] at hoffset
      omega

/-! ## Cursors -/

/-- A place between the items of a line. -/
structure Cursor where
  /-- Where the scan goes on. -/
  place : Place
  /-- The characters counted so far. -/
  tally : Tally
  /-- The number of bytes of the line. -/
  size : Nat
  /-- Whether nothing but the end of the line is left to be answered. -/
  exhausted : Bool
  inside : tally.place.Before ⟨size, []⟩
  -- The count jumps to the end of the line, ahead of the scan, only when nothing
  -- is scanned any more.
  behind : exhausted = false → tally.place.Before place

namespace Cursor

/-- The cursor before the first item of a line. -/
def ofSource (source : String) : Cursor where
  place := ⟨0, source.toList⟩
  tally := ⟨⟨0, source.toList⟩, 0⟩
  size := source.utf8ByteSize
  exhausted := false
  inside := ⟨source.toList, (List.append_nil _).symm, by rw [Nat.zero_add]; exact utf8ByteSize_eq _⟩
  behind := fun _ => .refl _

/-- The next piece to be answered. -/
def piece? (cursor : Cursor) : Option Piece :=
  if cursor.exhausted then none else cursor.place.piece?

theorem before_of_piece? {cursor : Cursor} {piece : Piece} (h : cursor.piece? = some piece) :
    cursor.exhausted = false ∧ cursor.place.piece? = some piece ∧
      cursor.tally.place.Before piece.first := by
  unfold piece? at h
  cases hexhausted : cursor.exhausted with
  | true =>
    rw [hexhausted] at h
    cases h
  | false =>
    rw [hexhausted] at h
    exact ⟨rfl, h, (cursor.behind hexhausted).trans (Place.before_of_piece? h).1⟩

/-- The cursor behind a piece. The count stops where the piece begins. -/
def past (cursor : Cursor) {piece : Piece} (h : cursor.piece? = some piece) : Cursor where
  place := piece.last
  tally := cursor.tally.upTo piece.first.offset
  size := cursor.size
  exhausted := cursor.exhausted
  inside := by
    obtain ⟨-, -, hfirst⟩ := before_of_piece? h
    rw [Tally.upTo_eq hfirst]
    exact hfirst.end_of cursor.inside
  behind := by
    obtain ⟨-, hpiece, hfirst⟩ := before_of_piece? h
    rw [Tally.upTo_eq hfirst]
    exact fun _ => (Place.before_of_piece? hpiece).2.1

/-- The cursor at the end of its line. The scan need not have come so far. -/
def atEnd (cursor : Cursor) : Cursor where
  place := cursor.place
  tally := cursor.tally.upTo cursor.size
  size := cursor.size
  exhausted := true
  inside := by
    rw [Tally.upTo_eq cursor.inside]
    exact .refl _
  behind := nofun

/-- The cursor of a reader that has been answered an error. -/
def givenUp (cursor : Cursor) : Cursor where
  place := cursor.place
  tally := cursor.tally
  size := cursor.size
  exhausted := true
  inside := cursor.inside
  behind := nofun

/-- The next item, and the end of input behind the last one. An error is
answered once and the next call goes on behind it. -/
def nextToken (cursor : Cursor) : Item × Cursor :=
  match h : cursor.piece? with
  | none => (.ok ⟨.endOfInput, cursor.atEnd.tally.seen⟩, cursor.atEnd)
  | some piece => (piece.lexeme.item (cursor.past h).tally.seen, cursor.past h)

/-- The next item, or nothing at the end. Nothing is left after an error. -/
def next? (cursor : Cursor) : Option Item × Cursor :=
  match cursor.nextToken with
  | (.ok located, after) =>
    if located.token = .endOfInput then (none, after) else (some (.ok located), after)
  | (.error e, after) => (some (.error e), after.givenUp)

/-- The number of characters before the place of the scan. -/
def position (cursor : Cursor) : Nat :=
  cursor.tally.seen + (cursor.tally.place.rest.length - cursor.place.rest.length)

/-- The items still to be answered. -/
def pending (cursor : Cursor) : List Item :=
  if cursor.exhausted then [] else Item.ofChars cursor.position cursor.place.rest

/-! ## One call -/

theorem nextToken_of_none {cursor : Cursor} (h : cursor.piece? = none) :
    cursor.nextToken = (.ok ⟨.endOfInput, cursor.atEnd.tally.seen⟩, cursor.atEnd) := by
  unfold nextToken
  split
  · rfl
  · rename_i hpiece
    rw [h] at hpiece
    cases hpiece

theorem nextToken_of_some {cursor : Cursor} {piece : Piece} (h : cursor.piece? = some piece) :
    cursor.nextToken =
      (piece.lexeme.item (cursor.past h).tally.seen, cursor.past h) := by
  unfold nextToken
  split
  · rename_i hpiece
    rw [h] at hpiece
    cases hpiece
  · rename_i other hpiece
    obtain rfl : piece = other := Option.some.inj (h.symm.trans hpiece)
    rfl

theorem shorter_of_next? {cursor after : Cursor} {located : Located}
    (h : cursor.next? = (some (.ok located), after)) :
    after.place.rest.length < cursor.place.rest.length := by
  unfold next? at h
  cases hpiece : cursor.piece? with
  | none =>
    rw [nextToken_of_none hpiece] at h
    simp at h
  | some piece =>
    rw [nextToken_of_some hpiece] at h
    obtain ⟨-, hplace, -⟩ := before_of_piece? hpiece
    have hshorter := (Place.before_of_piece? hplace).2.2
    split at h
    · rename_i heq
      obtain ⟨-, rfl⟩ := Prod.mk.inj heq
      split at h
      · cases h
      · obtain ⟨-, rfl⟩ := Prod.mk.inj h
        exact hshorter
    · cases h

/-! ## A whole line -/

/-- The tokens still to be answered, or the first error. -/
def collect (cursor : Cursor) : Except LexError (List Located) :=
  match _h : cursor.next? with
  | (none, _) => .ok []
  | (some (.error e), _) => .error e
  | (some (.ok located), after) =>
    match after.collect with
    | .ok others => .ok (located :: others)
    | .error e => .error e
termination_by cursor.place.rest.length
decreasing_by exact shorter_of_next? _h

theorem collect_eq_match (cursor : Cursor) :
    cursor.collect =
      match cursor.next? with
      | (none, _) => .ok []
      | (some (.error e), _) => .error e
      | (some (.ok located), after) =>
        match after.collect with
        | .ok others => .ok (located :: others)
        | .error e => .error e := by
  rw [collect]
  split
  · rename_i heq
    rw [heq]
  · rename_i heq
    rw [heq]
  · rename_i heq
    rw [heq]

end Cursor

/-- The tokens of a line with their positions, or its first lexical error. -/
def tokenize (source : String) : Except LexError (List Located) :=
  (Cursor.ofSource source).collect

end LineCalc
