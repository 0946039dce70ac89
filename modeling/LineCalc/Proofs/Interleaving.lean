import LineCalc.Proofs.Coverage
/-
  Interleaving: both kinds of calls on one cursor, in any order

  A cursor may be asked for its next token, and by a reader that stops at errors
  for its next item. The two kinds of calls share one place in the line. Which
  calls answer an item is `Answered`: the first ones, up to the last item, but an
  error answered to a reader that stops is the last item answered.

  What is proved:
    1. `Cursor.answers_eq` — calls answer the items of their line one by one, and
       the end of the line from then on;
    2. `Cursor.call_tally`, `Cursor.counted_after` — each call counts on from a
       boundary between two characters to one that is no earlier.
-/

namespace LineCalc

namespace Cursor

/-- The two kinds of calls. -/
inductive Call where
  | token
  | next
  deriving DecidableEq, Repr

/-- What a call answers, and the cursor it leaves behind. A call for a token
always answers an item. -/
def call (cursor : Cursor) : Call → Option Item × Cursor
  | .token => (some cursor.nextToken.1, cursor.nextToken.2)
  | .next => cursor.next?

/-- What calls answer, one after the other. -/
def answers (cursor : Cursor) : List Call → List (Option Item)
  | [] => []
  | first :: rest => (cursor.call first).1 :: (cursor.call first).2.answers rest

/-- The cursor that calls leave behind. -/
def after (cursor : Cursor) (calls : List Call) : Cursor :=
  calls.foldl (fun cursor call => (cursor.call call).2) cursor

/-- Whether no further item is answered: the call is of a reader that stops at
errors, and the item is one. -/
def Call.stopsAt : Call → Item → Bool
  | .next, .error _ => true
  | .next, .ok _ => false
  | .token, _ => false

/-- What a call answers when no item is left of a line with so many characters. -/
def Call.atEnd (length : Nat) : Call → Option Item
  | .token => some (.ok ⟨.endOfInput, length⟩)
  | .next => none

/-- So many calls answer an item, and so many items are answered: as many as
there are calls and items, unless a reader stops at the last of them. -/
structure Answered (calls : List Call) (items : List Item) (count : Nat) : Prop where
  le_calls : count ≤ calls.length
  le_items : count ≤ items.length
  goes_on : ∀ index call item, index + 1 < count → calls[index]? = some call →
    items[index]? = some item → call.stopsAt item = false
  ends : count = calls.length ∨ count = items.length ∨
    ∃ index call item, count = index + 1 ∧ calls[index]? = some call ∧
      items[index]? = some item ∧ call.stopsAt item = true

/-! ## The items of the line, one by one -/

namespace Answered
variable {calls : List Call} {items : List Item} {call : Call} {item : Item} {count : Nat}

theorem no_call (items : List Item) : Answered [] items 0 where
  le_calls := Nat.le_refl 0
  le_items := Nat.zero_le _
  goes_on := by
    intro index _ _ hlt
    omega
  ends := .inl rfl

theorem no_item (calls : List Call) : Answered calls [] 0 where
  le_calls := Nat.zero_le _
  le_items := Nat.le_refl 0
  goes_on := by
    intro index _ _ hlt
    omega
  ends := .inr (.inl rfl)

theorem stop (calls : List Call) (items : List Item) (hstops : call.stopsAt item = true) :
    Answered (call :: calls) (item :: items) 1 where
  le_calls := by simp
  le_items := by simp
  goes_on := by
    intro index _ _ hlt
    omega
  ends := .inr (.inr ⟨0, call, item, rfl, rfl, rfl, hstops⟩)

theorem go (hgoes : call.stopsAt item = false) (h : Answered calls items count) :
    Answered (call :: calls) (item :: items) (count + 1) where
  le_calls := Nat.succ_le_succ h.le_calls
  le_items := Nat.succ_le_succ h.le_items
  goes_on := by
    intro index other item' hlt hcall hitem
    cases index with
    | zero =>
      cases hcall
      cases hitem
      exact hgoes
    | succ index => exact h.goes_on index other item' (by omega) hcall hitem
  ends := by
    rcases h.ends with hcalls | hitems | ⟨index, other, item', hcount, hrest⟩
    · exact .inl (congrArg Nat.succ hcalls)
    · exact .inr (.inl (congrArg Nat.succ hitems))
    · exact .inr (.inr ⟨index + 1, other, item', congrArg Nat.succ hcount, hrest⟩)

end Answered

variable {cursor : Cursor} {length : Nat}

/-- Once no item is left, every call says so. -/
theorem answers_of_pending_nil (calls : List Call) (hpending : cursor.pending = [])
    (hend : cursor.endToken = ⟨.endOfInput, length⟩) :
    cursor.answers calls = calls.map (Call.atEnd length) := by
  induction calls generalizing cursor with
  | nil => rfl
  | cons call calls ih =>
    obtain ⟨hnext, hnothing, hsame⟩ := nextToken_of_pending_nil hpending
    have hleft : (cursor.call call).2 = cursor.atEnd := by
      cases call with
      | token => rw [Cursor.call, hnext]
      | next => rw [Cursor.call, next?_of_pending_nil hpending]
    have hanswer : (cursor.call call).1 = call.atEnd length := by
      cases call with
      | token => rw [Cursor.call, hnext, hend]; rfl
      | next => rw [Cursor.call, next?_of_pending_nil hpending]; rfl
    rw [answers, hanswer, hleft, ih hnothing (hsame.trans hend), List.map_cons]

/-- A call answers the first item pending. The others stay pending, unless a
reader stops at it. -/
theorem call_of_pending_cons {item : Item} {rest : List Item} (call : Call)
    (hpending : cursor.pending = item :: rest) :
    (cursor.call call).1 = some item ∧ (cursor.call call).2.endToken = cursor.endToken ∧
      (cursor.call call).2.pending = if call.stopsAt item then [] else rest := by
  cases call with
  | token =>
    obtain ⟨after, hnext, hrest, hend, -⟩ := nextToken_of_pending_cons hpending
    simp [Cursor.call, hnext, hend, hrest, Call.stopsAt]
  | next =>
    cases item with
    | ok located =>
      obtain ⟨after, hnext, hrest, hend⟩ := next?_of_pending_ok hpending
      simp [Cursor.call, hnext, hend, hrest, Call.stopsAt]
    | error e =>
      obtain ⟨after, hnext, hnothing, hend⟩ := next?_of_pending_error hpending
      simp [Cursor.call, hnext, hend, hnothing, Call.stopsAt]

theorem answers_eq (calls : List Call) {items : List Item} (hpending : cursor.pending = items)
    (hend : cursor.endToken = ⟨.endOfInput, length⟩) :
    ∃ count, Answered calls items count ∧
      cursor.answers calls =
        (items.take count).map some ++ (calls.drop count).map (Call.atEnd length) := by
  induction calls generalizing cursor items with
  | nil => exact ⟨0, .no_call items, rfl⟩
  | cons call calls ih =>
    cases items with
    | nil => exact ⟨0, .no_item _, answers_of_pending_nil (call :: calls) hpending hend⟩
    | cons item rest =>
      obtain ⟨hanswer, hsame, hleft⟩ := call_of_pending_cons call hpending
      rw [answers, hanswer]
      cases hstops : call.stopsAt item with
      | true =>
        rw [hstops] at hleft
        refine ⟨1, .stop calls rest hstops, ?_⟩
        rw [answers_of_pending_nil calls hleft (hsame.trans hend)]
        rfl
      | false =>
        rw [hstops] at hleft
        obtain ⟨count, hanswered, hanswers⟩ := ih hleft (hsame.trans hend)
        refine ⟨count + 1, hanswered.go hstops, ?_⟩
        rw [hanswers]
        rfl

/-! ## Counting from boundary to boundary -/

/-- The place whose position the next call tells: the beginning of the next piece,
or the end of the line. -/
def target (cursor : Cursor) : Place :=
  match cursor.piece? with
  | none => ⟨cursor.size, []⟩
  | some piece => piece.first

/-- Either call takes the count on to its target, which is not before the count. -/
theorem call_tally (cursor : Cursor) (call : Call) :
    (cursor.call call).2.tally = cursor.tally.upTo cursor.target.offset ∧
      cursor.tally.place.Before cursor.target := by
  have hnext : (cursor.call call).2.tally = cursor.nextToken.2.tally := by
    cases call with
    | token => rfl
    | next =>
      simp only [Cursor.call, next?]
      split
      · rename_i heq
        rw [heq]
        split <;> rfl
      · rename_i heq
        rw [heq]
        rfl
  rw [hnext, target]
  cases hpiece : cursor.piece? with
  | none =>
    rw [nextToken_of_none hpiece]
    exact ⟨rfl, cursor.inside⟩
  | some piece =>
    rw [nextToken_of_some hpiece]
    exact ⟨rfl, (before_of_piece? hpiece).2.2⟩

theorem counted_after (calls : List Call) {start : Place}
    (hstart : start.Before cursor.tally.place) :
    start.Before (cursor.after calls).tally.place := by
  induction calls generalizing cursor with
  | nil => exact hstart
  | cons call calls ih =>
    obtain ⟨htally, hbefore⟩ := cursor.call_tally call
    apply ih
    rw [htally, Tally.upTo_eq hbefore]
    exact hstart.trans hbefore

/-- A place of a line is a boundary between two of its characters. -/
theorem isValid_of_before {source : String} {place : Place}
    (h : (⟨0, source.toList⟩ : Place).Before place) :
    String.Pos.Raw.IsValid source ⟨place.offset⟩ := by
  obtain ⟨between, hrest, hoffset⟩ := h
  rw [String.Pos.Raw.isValid_iff_exists_append]
  refine ⟨String.ofList between, String.ofList place.rest, ?_, ?_⟩
  · rw [← String.ofList_append, ← hrest, String.ofList_toList]
  · rw [String.rawEndPos, utf8ByteSize_eq, String.toList_ofList, hoffset, Nat.zero_add]

/-! ## Any calls on a line -/

/-- The items of a line share out its characters, blanks apart, and any calls on a
cursor of the line answer them one by one, whichever kind each call is of: none
is left out or answered twice. Behind the last item, or behind an error that
was answered to a reader that stops, every call answers the end of the line.
Each call takes the count of characters over a stretch of the line that begins
and ends between two characters, and begins no later than it ends. -/
theorem calls_answer_items (source : String) (calls : List Call) :
    let line := source.toList
    let items := Item.ofSource source
    ((∀ item ∈ items, ItemAt line item) ∧
      line.zipIdx.filter (fun entry => !isBlank entry.1) =
        items.flatMap fun item => (item.textIn line).zipIdx item.position) ∧
    (∃ count, Answered calls items count ∧
      (ofSource source).answers calls =
        (items.take count).map some ++ (calls.drop count).map (Call.atEnd source.length)) ∧
    ∀ call,
      let cursor := (ofSource source).after calls
      (cursor.call call).2.tally = cursor.tally.upTo cursor.target.offset ∧
        cursor.tally.place.offset ≤ cursor.target.offset ∧
        String.Pos.Raw.IsValid source ⟨cursor.tally.place.offset⟩ ∧
        String.Pos.Raw.IsValid source ⟨cursor.target.offset⟩ := by
  intro line items
  refine ⟨⟨fun item => itemAt_of_mem_ofSource, filter_zipIdx_ofSource source⟩, ?_, ?_⟩
  · exact answers_eq calls (pending_ofSource source) (endToken_ofSource source)
  · intro call cursor
    obtain ⟨htally, hbefore⟩ := cursor.call_tally call
    have hcounted : (⟨0, source.toList⟩ : Place).Before cursor.tally.place :=
      counted_after calls (.refl _)
    refine ⟨htally, ?_, isValid_of_before hcounted, isValid_of_before (hcounted.trans hbefore)⟩
    obtain ⟨between, -, hoffset⟩ := hbefore
    omega

theorem calls_answer_items_of_bad_character :
    let source := "7 é#8"
    let calls : List Call := [.token, .token, .next, .next, .token]
    (ofSource source).answers calls =
        [some (.ok ⟨.integer 7, 0⟩), some (.error (.invalidCharacter 'é' 2)),
          some (.error (.invalidCharacter '#' 3)), none, some (.ok ⟨.endOfInput, 5⟩)] ∧
      (.ok ⟨.integer 8, 4⟩ ∈ Item.ofSource source ∧
        ItemAt source.toList (.ok ⟨.integer 8, 4⟩)) ∧
      ∃ count, Answered calls (Item.ofSource source) count ∧
        (ofSource source).answers calls =
          ((Item.ofSource source).take count).map some ++
            (calls.drop count).map (Call.atEnd source.length) := by
  intro source calls
  obtain ⟨⟨hitems, -⟩, hanswers, -⟩ := calls_answer_items source calls
  have hmem : .ok ⟨.integer 8, 4⟩ ∈ Item.ofSource source := by
    have hlast : (Item.ofSource source).getLast? = some (.ok ⟨.integer 8, 4⟩) := by
      decide +kernel
    exact List.mem_of_getLast? hlast
  exact ⟨by decide +kernel, ⟨hmem, hitems _ hmem⟩, hanswers⟩

end Cursor

end LineCalc
