import LineCalc.Proofs.Coverage
import LineCalc.Proofs.Relocation
/-
  Respacing: blanks put in and taken out

  A line is respaced by putting blanks in and taking blanks out, one at a time,
  where no run of digits is broken by it and no two runs are joined. It keeps its
  items, in order, at other places, so it keeps its answers but for the positions
  in them.

  What is proved:
    1. `Cuts.insert_blank` — a blank put in moves the items behind it by one place;
    2. `Respaced.items` — a respaced line has the items of the line, relocated. So
       its tree, its value and its error are those of the line, with the place of
       every item and the end of the line renamed.
-/

namespace LineCalc

/-- A text is respaced by putting blanks in and taking blanks out. Where digits
stand on both sides, a blank may be neither put in nor taken out. -/
inductive Respaced (text : List Char) : List Char → Prop where
  | refl : Respaced text text
  | insert {before after : List Char} {c : Char} :
    isBlank c = true → Separate before after → Respaced text (before ++ after) →
    Respaced text (before ++ c :: after)
  | delete {before after : List Char} {c : Char} :
    isBlank c = true → Separate before after → Respaced text (before ++ c :: after) →
    Respaced text (before ++ after)

/-- The places of a line that an answer can name: where its items begin, and its
end. -/
def marks (source : String) : List Nat :=
  (Item.ofSource source).map Item.position ++ [source.length]

/-! ## One blank -/

/-- Where a place comes to lie when a blank is put in behind so many characters. -/
def widen (before : Nat) (position : Nat) : Nat :=
  if position < before then position else position + 1

/-- Where a place comes to lie when the blank behind so many characters is taken out. -/
def narrow (before : Nat) (position : Nat) : Nat :=
  if position ≤ before then position else position - 1

theorem narrow_widen (before position : Nat) :
    narrow before (widen before position) = position := by
  unfold narrow widen
  split <;> split <;> omega

namespace Item

theorem position_relocate (move : Nat → Nat) (item : Item) :
    (item.relocate move).position = move item.position := by
  cases item with
  | ok located => rfl
  | error e => cases e <;> rfl

theorem relocate_relocate (move again : Nat → Nat) (item : Item) :
    (item.relocate move).relocate again = item.relocate fun position => again (move position) := by
  cases item with
  | ok located => rfl
  | error e => cases e <;> rfl

/-- An item is relocated by where its own place comes to lie. -/
theorem relocate_congr {move move' : Nat → Nat} {item : Item}
    (h : move item.position = move' item.position) : item.relocate move = item.relocate move' := by
  cases item with
  | ok located =>
    simp only [position] at h
    simp only [relocate, Located.relocate, h]
  | error e =>
    cases e <;> simp only [position, LexError.position] at h <;>
      simp only [relocate, LexError.relocate, h]

theorem relocate_id (item : Item) : item.relocate (fun position => position) = item := by
  cases item with
  | ok located => rfl
  | error e => cases e <;> rfl

end Item

theorem Cuts.insert_blank {before after : List Char} {items : List Item} {c : Char}
    (h : Cuts 0 (before ++ after) items) (hblank : isBlank c = true)
    (hseparate : Separate before after) :
    Cuts 0 (before ++ c :: after) (items.map (Item.relocate (widen before.length))) := by
  have hfirst := cuts_ofChars 0 before
  have hlast := cuts_ofChars (0 + before.length) after
  -- The two sides are cut on their own, and what is behind the blank moves on by one.
  obtain rfl := h.ofChars_eq.symm.trans (hfirst.append hseparate hlast).ofChars_eq
  have hblanked : Separate before (c :: after) := .of_head (not_isDigit_of_isBlank hblank)
  have hwidened := hfirst.append hblanked (.blank hblank (hlast.translate 1))
  have hstay : ∀ item ∈ Item.ofChars 0 before,
      item.relocate (widen before.length) = item := by
    intro item hmem
    have hposition := (hfirst.increasing.2 item hmem).2
    rw [Nat.zero_add] at hposition
    have hsame : widen before.length item.position = item.position := if_pos hposition
    exact (Item.relocate_congr hsame).trans item.relocate_id
  have hmove : ∀ item ∈ Item.ofChars (0 + before.length) after,
      item.relocate (widen before.length) = item.relocate (· + 1) := by
    intro item hmem
    have hposition := (hlast.increasing.2 item hmem).1
    rw [Nat.zero_add] at hposition
    exact Item.relocate_congr (if_neg (Nat.not_lt.mpr hposition))
  rwa [List.map_append, List.map_congr_left hmove, List.map_congr_left hstay, List.map_id']

/-! ## Any number of blanks -/

theorem Respaced.items {text other : List Char} (h : Respaced text other) :
    ∃ move : Nat → Nat,
      Item.ofChars 0 other = (Item.ofChars 0 text).map (Item.relocate move) ∧
      other.length = move text.length := by
  induction h with
  | refl => exact ⟨fun position => position, (List.map_id'' Item.relocate_id _).symm, rfl⟩
  | @insert before after c hblank hseparate _ ih =>
    obtain ⟨move, hitems, hlength⟩ := ih
    refine ⟨fun position => widen before.length (move position), ?_, ?_⟩
    · rw [((cuts_ofChars 0 _).insert_blank hblank hseparate).ofChars_eq, hitems, List.map_map]
      exact List.map_congr_left fun item _ => item.relocate_relocate _ _
    · simp only [← hlength, widen, List.length_append, List.length_cons]
      rw [if_neg (by omega), Nat.add_assoc]
  | @delete before after c hblank hseparate _ ih =>
    obtain ⟨move, hitems, hlength⟩ := ih
    refine ⟨fun position => narrow before.length (move position), ?_, ?_⟩
    · rw [((cuts_ofChars 0 _).insert_blank hblank hseparate).ofChars_eq] at hitems
      have hnarrowed := congrArg (List.map (Item.relocate (narrow before.length))) hitems
      simp only [List.map_map, Function.comp_def, Item.relocate_relocate, narrow_widen,
        Item.relocate_id, List.map_id'] at hnarrowed
      exact hnarrowed
    · simp only [← hlength, narrow, List.length_append, List.length_cons]
      rw [if_neg (by omega), ← Nat.add_assoc, Nat.add_sub_cancel]

/-- A respaced line has the answers of the line, each place in them renamed to
where the same item, or the end, stands in the respaced line. -/
theorem answers_of_respaced {source other : String} (h : Respaced source.toList other.toList) :
    (marks source).Pairwise (· < ·) ∧
      (∃ move : Nat → Nat, (marks source).map move = marks other) ∧
      ∀ move : Nat → Nat, (marks source).map move = marks other →
        Item.ofSource other = (Item.ofSource source).map (Item.relocate move) ∧
        parseLine other =
          ((parseLine source).map (Expr.relocate move)).mapError (Error.relocate move) ∧
        evaluateLine other = (evaluateLine source).mapError (Error.relocate move) := by
  obtain ⟨respaced, hitems, hlength⟩ := h.items
  rw [String.length_toList, String.length_toList] at hlength
  have hmarks : marks other = (marks source).map respaced := by
    rw [marks, marks, Item.ofSource, hitems, hlength, List.map_append, List.map_map, List.map_map]
    congr 1
    exact List.map_congr_left fun item _ => item.position_relocate respaced
  refine ⟨?_, ⟨respaced, hmarks.symm⟩, fun move hmove => ?_⟩
  · obtain ⟨hpairwise, hbounds⟩ := increasing_ofSource source
    rw [marks, List.pairwise_append]
    refine ⟨hpairwise, List.pairwise_singleton _ _, ?_⟩
    simpa using hbounds
  · -- The places leave no choice, so the renaming is the one that respacing gives.
    have hsame : ∀ place ∈ marks source, move place = respaced place :=
      List.map_inj_left.mp (hmove.trans hmarks)
    have hmoved : Item.ofSource other = (Item.ofSource source).map (Item.relocate move) := by
      rw [Item.ofSource, hitems]
      refine List.map_congr_left fun item hmem => Item.relocate_congr (hsame _ ?_).symm
      exact List.mem_append_left _ (List.mem_map_of_mem hmem)
    have hend : other.length = move source.length := by
      rw [hlength, hsame _ (List.mem_append_right _ (List.mem_singleton_self _))]
    exact ⟨hmoved, parseLine_relocate hmoved hend, evaluateLine_relocate hmoved hend⟩

theorem answers_of_respaced_of_quotient :
    Respaced "8/ 0".toList " 8 /0".toList ∧
      parseLine " 8 /0" = .ok (.binary (.literal 8 1) .div (.literal 0 4) 3) ∧
      evaluateLine " 8 /0" = .error (.runtime (.divisionByZero 3)) := by
  have hrespaced : Respaced "8/ 0".toList " 8 /0".toList := by
    have hmargin : Respaced ['8', '/', ' ', '0'] ([] ++ ' ' :: ['8', '/', ' ', '0']) :=
      .insert rfl (.inl fun _ hc => by cases hc) .refl
    have hput : Respaced ['8', '/', ' ', '0'] ([' ', '8'] ++ ' ' :: ['/', ' ', '0']) :=
      .insert rfl (.of_head rfl) hmargin
    have hlast : ∀ c ∈ [' ', '8', ' ', '/'].getLast?, c.isDigit = false := by
      intro c hc
      cases hc
      rfl
    have htaken : Respaced ['8', '/', ' ', '0'] ([' ', '8', ' ', '/'] ++ ['0']) :=
      .delete (show isBlank ' ' = true from rfl) (.inl hlast) hput
    exact htaken
  obtain ⟨-, -, hanswers⟩ := answers_of_respaced hrespaced
  have hmarks : (marks "8/ 0").map (fun place => if place = 0 then 1 else if place = 1 then 3
      else place + 1) = marks " 8 /0" := by
    decide +kernel
  obtain ⟨-, hparse, hvalue⟩ := hanswers _ hmarks
  refine ⟨hrespaced, hparse.trans ?_, hvalue.trans ?_⟩
  · decide +kernel
  · decide +kernel

end LineCalc
