import LineCalc.Proofs.Items
/-
  Coverage: which characters of a line belong to which item

  The text of an item is what stands in the line at its position: the whole run
  of digits of an integer or of a literal that is too large, or one character.

  What is proved:
    1. `filter_zipIdx_ofSource` — the characters of a line that are no blanks,
       each with its place, are the characters of the texts of its items. So
       every one of them belongs to exactly one item, and the items are in order;
    2. `increasing_ofSource` — no two items begin at the same place, and all
       begin before the end of the line.
-/

namespace LineCalc

namespace Item

/-- The number of characters before an item. -/
def position : Item → Nat
  | .ok located => located.position
  | .error e => e.position

/-- The characters of an item of a line. -/
def textIn (line : List Char) : Item → List Char
  | .ok ⟨.integer _, position⟩ => (line.drop position).takeWhile Char.isDigit
  | .ok ⟨.operator op, _⟩ => [op.symbol]
  | .ok ⟨.leftParen, _⟩ => ['(']
  | .ok ⟨.rightParen, _⟩ => [')']
  | .ok ⟨.endOfInput, _⟩ => []
  | .error (.invalidCharacter c _) => [c]
  | .error (.overflow literal _) => literal.toList

@[simp] theorem position_ofDigits (run : List Char) (position : Nat) :
    (ofDigits run position).position = position := by
  unfold ofDigits
  split <;> rfl

@[simp] theorem position_ofChar (c : Char) (position : Nat) :
    (ofChar c position).position = position := by
  unfold ofChar
  split <;> rfl

theorem textIn_ofDigits {line run : List Char} {position : Nat} (h : RunAt line position run) :
    (ofDigits run position).textIn line = run := by
  obtain ⟨before, after, rfl, rfl, -, hrun, -, hafter⟩ := h
  unfold ofDigits
  split
  · simp only [textIn]
    rw [List.append_assoc, List.drop_left, List.takeWhile_append_of_pos hrun,
      takeWhile_eq_nil hafter, List.append_nil]
  · exact String.toList_ofList

theorem textIn_ofChar (line : List Char) (c : Char) (position : Nat) :
    (ofChar c position).textIn line = [c] := by
  unfold ofChar
  cases htoken : Token.ofChar? c with
  | none => rfl
  | some token =>
    unfold Token.ofChar? at htoken
    split at htoken
    · rename_i hc
      cases htoken
      rw [hc]
      rfl
    · split at htoken
      · rename_i hc
        cases htoken
        rw [hc]
        rfl
      · obtain ⟨op, hop, rfl⟩ := Option.map_eq_some_iff.mp htoken
        rw [← Operator.symbol_of_ofChar? hop]
        rfl

end Item

/-! ## Each character once -/

namespace Cuts
variable {position : Nat} {text : List Char} {items : List Item}

/-- The characters of a text that are no blanks are those of its items, each at
its place. -/
theorem filter_zipIdx (h : Cuts position text items) (before : List Char)
    (hposition : before.length = position)
    (hbefore : (∃ c ∈ text.head?, c.isDigit = true) → ∀ c ∈ before.getLast?, c.isDigit = false) :
    (text.zipIdx position).filter (fun entry => !isBlank entry.1) =
      items.flatMap fun item => (item.textIn (before ++ text)).zipIdx item.position := by
  -- Along the pieces, with the text before them, as for `Cuts.itemAt`.
  induction h generalizing before with
  | nil position => rfl
  | @blank position c text items hblank _ ih =>
    have hrest := ih (before ++ [c]) (by simp [hposition])
      fun _ => by simp [not_isDigit_of_isBlank hblank]
    rw [List.append_cons, ← hrest, List.zipIdx_cons, List.filter_cons_of_neg (by simp [hblank])]
  | @run position run text items hne hrun htext _ ih =>
    subst hposition
    have hrunAt := runAt_between hne hrun hbefore htext
    have hrest := ih (before ++ run) (by simp) fun ⟨c, hc, hdigit⟩ => by
      rw [htext c hc] at hdigit
      cases hdigit
    have hkept : (run.zipIdx before.length).filter (fun entry => !isBlank entry.1) =
        run.zipIdx before.length := by
      apply List.filter_eq_self.mpr
      intro entry hentry
      simp [isBlank_of_isDigit (hrun _ (List.fst_mem_of_mem_zipIdx hentry))]
    rw [List.flatMap_cons, Item.textIn_ofDigits hrunAt, Item.position_ofDigits,
      ← List.append_assoc, ← hrest, List.zipIdx_append, List.filter_append, hkept]
  | @single position c text items hblank hdigit _ ih =>
    have hrest := ih (before ++ [c]) (by simp [hposition]) fun _ => by simp [hdigit]
    rw [List.flatMap_cons, Item.textIn_ofChar, Item.position_ofChar, List.append_cons, ← hrest,
      List.zipIdx_cons, List.filter_cons_of_pos (by simp [hblank])]
    rfl

theorem increasing (h : Cuts position text items) :
    (items.map Item.position).Pairwise (· < ·) ∧
      ∀ item ∈ items, position ≤ item.position ∧ item.position < position + text.length := by
  induction h with
  | nil position => simp
  | blank _ _ ih =>
    refine ⟨ih.1, fun item hmem => ?_⟩
    have := ih.2 item hmem
    simp only [List.length_cons]
    omega
  | @run position run text items hne _ _ _ ih =>
    have hpos := List.length_pos_iff.mpr hne
    simp only [List.map_cons, Item.position_ofDigits, List.pairwise_cons, List.mem_map,
      List.forall_mem_cons, List.length_append]
    refine ⟨⟨?_, ih.1⟩, by omega, fun item hmem => ?_⟩
    · rintro _ ⟨item, hmem, rfl⟩
      have := ih.2 item hmem
      omega
    · have := ih.2 item hmem
      omega
  | single _ _ _ ih =>
    simp only [List.map_cons, Item.position_ofChar, List.pairwise_cons, List.mem_map,
      List.forall_mem_cons, List.length_cons]
    refine ⟨⟨?_, ih.1⟩, by omega, fun item hmem => ?_⟩
    · rintro _ ⟨item, hmem, rfl⟩
      have := ih.2 item hmem
      omega
    · have := ih.2 item hmem
      omega

end Cuts

/-! ## Lines -/

theorem filter_zipIdx_ofSource (source : String) :
    (source.toList.zipIdx).filter (fun entry => !isBlank entry.1) =
      (Item.ofSource source).flatMap fun item =>
        (item.textIn source.toList).zipIdx item.position :=
  (cuts_ofSource source).filter_zipIdx [] rfl fun _ => by simp

theorem increasing_ofSource (source : String) :
    ((Item.ofSource source).map Item.position).Pairwise (· < ·) ∧
      ∀ item ∈ Item.ofSource source, item.position < source.length := by
  obtain ⟨hpairwise, hbounds⟩ := (cuts_ofSource source).increasing
  refine ⟨hpairwise, fun item hmem => ?_⟩
  have := (hbounds item hmem).2
  rwa [Nat.zero_add, String.length_toList] at this

end LineCalc
