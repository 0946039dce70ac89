import LineCalc.Proofs.Nesting
import LineCalc.Proofs.Pulling
/-
  Items: what the items of a line say about its text

  `Cuts` is the cutting of a text as a relation with one rule for each kind of
  piece: a blank, a whole run of digits, any other character. `ItemAt` says
  what stands in the text where an item is: the run of digits or the character
  of a token, the character that starts none, or the run that is too large.

  What is proved:
    1. `Cuts.ofChars_eq`, `cuts_ofChars` — the relation is the function
       `Item.ofChars`;
    2. `Cuts.append` — texts that share no run of digits are cut one after the
       other;
    3. `itemAt_of_mem_ofSource` — every item of a line is where it says;
    4. `deepest_of_tokenize` — the tokens of a line nest as deep as its text.
-/

namespace LineCalc

/-- How a text is cut into items, with the position of its first character. -/
inductive Cuts : Nat → List Char → List Item → Prop where
  | nil (position : Nat) : Cuts position [] []
  | blank {position : Nat} {c : Char} {text : List Char} {items : List Item} :
    isBlank c = true → Cuts (position + 1) text items → Cuts position (c :: text) items
  | run {position : Nat} {run text : List Char} {items : List Item} :
    run ≠ [] → (∀ c ∈ run, c.isDigit = true) → (∀ c ∈ text.head?, c.isDigit = false) →
    Cuts (position + run.length) text items →
    Cuts position (run ++ text) (Item.ofDigits run position :: items)
  | single {position : Nat} {c : Char} {text : List Char} {items : List Item} :
    isBlank c = false → c.isDigit = false → Cuts (position + 1) text items →
    Cuts position (c :: text) (Item.ofChar c position :: items)

theorem isBlank_of_isDigit {c : Char} (h : c.isDigit = true) : isBlank c = false := by
  have hne : ∀ d : Char, d.isDigit = false → c ≠ d := by
    intro d hd heq
    rw [heq, hd] at h
    cases h
  simp [isBlank, hne ' ' rfl, hne '\t' rfl, hne '\r' rfl, hne '\n' rfl, hne '\x0b' rfl,
    hne '\x0c' rfl]

theorem not_isDigit_of_isBlank {c : Char} (h : isBlank c = true) : c.isDigit = false := by
  cases hdigit : c.isDigit with
  | false => rfl
  | true => rw [isBlank_of_isDigit hdigit] at h; cases h

section
variable {member : Char → Bool} {run text run' text' : List Char}

theorem takeWhile_eq_nil (h : ∀ c ∈ text.head?, member c = false) :
    text.takeWhile member = [] := by
  cases text with
  | nil => rfl
  | cons c text => simp [h c rfl]

theorem dropWhile_eq_self (h : ∀ c ∈ text.head?, member c = false) :
    text.dropWhile member = text := by
  cases text with
  | nil => rfl
  | cons c text => simp [h c rfl]

/-- A text begins with one whole run of a class of characters only. -/
theorem run_append_inj (hrun : ∀ c ∈ run, member c = true) (hrun' : ∀ c ∈ run', member c = true)
    (htext : ∀ c ∈ text.head?, member c = false) (htext' : ∀ c ∈ text'.head?, member c = false)
    (h : run ++ text = run' ++ text') : run = run' ∧ text = text' := by
  have htake := congrArg (List.takeWhile member) h
  rw [List.takeWhile_append_of_pos hrun, List.takeWhile_append_of_pos hrun',
    takeWhile_eq_nil htext, takeWhile_eq_nil htext', List.append_nil, List.append_nil] at htake
  subst htake
  exact ⟨rfl, List.append_cancel_left h⟩

end

theorem isDigit_symbol (op : Operator) : op.symbol.isDigit = false := by
  cases op <;> rfl

theorem isBlank_symbol (op : Operator) : isBlank op.symbol = false := by
  cases op <;> rfl

theorem Cuts.symbol (op : Operator) {position : Nat} {text : List Char} {items : List Item}
    (h : Cuts (position + 1) text items) :
    Cuts position (op.symbol :: text) (.ok ⟨.operator op, position⟩ :: items) := by
  have hitem : Item.ofChar op.symbol position = .ok ⟨.operator op, position⟩ := by
    cases op <;> rfl
  have hcut := Cuts.single (isBlank_symbol op) (isDigit_symbol op) h
  rwa [hitem] at hcut

theorem Cuts.ofChars_eq {position : Nat} {text : List Char} {items : List Item}
    (h : Cuts position text items) : Item.ofChars position text = items := by
  induction h with
  | nil position => simp [Item.ofChars]
  | blank hblank _ ih => rw [Item.ofChars, if_pos hblank, ih]
  | @run position run text items hne hrun htext _ ih =>
    obtain ⟨c, digits, rfl⟩ := List.exists_cons_of_ne_nil hne
    have hc := hrun c List.mem_cons_self
    have hdigits : ∀ d ∈ digits, d.isDigit = true := by
      intro d hd
      exact hrun d (List.mem_cons_of_mem c hd)
    rw [List.cons_append, Item.ofChars, if_neg (by simp [isBlank_of_isDigit hc]), if_pos hc,
      List.takeWhile_append_of_pos hdigits, List.dropWhile_append_of_pos hdigits,
      takeWhile_eq_nil htext, dropWhile_eq_self htext, List.append_nil, ← ih, List.length_cons]
    congr 2
    omega
  | single hblank hdigit _ ih =>
    rw [Item.ofChars, if_neg (by simp [hblank]), if_neg (by simp [hdigit]), ih]

theorem cuts_ofChars (position : Nat) (text : List Char) :
    Cuts position text (Item.ofChars position text) := by
  fun_induction Item.ofChars position text with
  | case1 position => exact .nil position
  | case2 position c text hblank ih => exact .blank hblank ih
  | case3 position c text hblank hdigit ih =>
    have hrun : ∀ d ∈ c :: text.takeWhile Char.isDigit, d.isDigit = true := by
      intro d hd
      rcases List.mem_cons.mp hd with rfl | hd
      · exact hdigit
      · exact List.all_eq_true.mp List.all_takeWhile d hd
    have hend : ∀ d ∈ (text.dropWhile Char.isDigit).head?, d.isDigit = false := by
      intro d hd
      have := List.head?_dropWhile_not Char.isDigit text
      rwa [hd] at this
    have hcut : Cuts position (_ ++ _) (Item.ofDigits _ position :: _) :=
      .run (List.cons_ne_nil c _) hrun hend
        (by rwa [List.length_cons, Nat.add_comm _ 1, ← Nat.add_assoc])
    rwa [List.cons_append, List.takeWhile_append_dropWhile] at hcut
  | case4 position c text hblank hdigit ih =>
    exact .single (by simpa using hblank) (by simpa using hdigit) ih

theorem cuts_ofSource (source : String) : Cuts 0 source.toList (Item.ofSource source) :=
  cuts_ofChars 0 source.toList

/-! ## Texts joined -/

/-- No run of digits goes on from one text into the next. -/
def Separate (before after : List Char) : Prop :=
  (∀ c ∈ before.getLast?, c.isDigit = false) ∨ ∀ c ∈ after.head?, c.isDigit = false

namespace Separate
variable {before front after : List Char}

theorem of_head {c : Char} (h : c.isDigit = false) : Separate before (c :: after) := by
  refine Or.inr fun d hd => ?_
  cases hd
  exact h

theorem of_append (front : List Char) (h : Separate (front ++ before) after) :
    Separate before after := by
  rcases h with hlast | hhead
  · refine Or.inl fun c hc => hlast c ?_
    rw [List.getLast?_append, Option.mem_def.mp hc]
    rfl
  · exact Or.inr hhead

theorem head_of_digits (h : Separate front after) (hne : front ≠ [])
    (hdigits : ∀ c ∈ front, c.isDigit = true) : ∀ c ∈ after.head?, c.isDigit = false := by
  rcases h with hlast | hhead
  · have hmem := List.getLast_mem hne
    have hnot := hlast _ (List.getLast?_eq_some_getLast hne)
    rw [hdigits _ hmem] at hnot
    cases hnot
  · exact hhead

end Separate

/-- Texts that share no run of digits are cut one after the other. -/
theorem Cuts.append {position : Nat} {text after : List Char} {items rest : List Item}
    (h : Cuts position text items) (hseparate : Separate text after)
    (hafter : Cuts (position + text.length) after rest) :
    Cuts position (text ++ after) (items ++ rest) := by
  induction h with
  | nil position => exact hafter
  | @blank position c text items hblank _ ih =>
    refine .blank hblank (ih (hseparate.of_append [c]) ?_)
    rwa [List.length_cons, Nat.add_comm text.length, ← Nat.add_assoc] at hafter
  | @run position run text items hne hrun htext _ ih =>
    have hhead : ∀ c ∈ (text ++ after).head?, c.isDigit = false := by
      cases text with
      | nil =>
        rw [List.append_nil] at hseparate
        exact hseparate.head_of_digits hne hrun
      | cons c text => exact htext
    rw [List.append_assoc]
    refine .run hne hrun hhead (ih (hseparate.of_append run) ?_)
    rwa [List.length_append, ← Nat.add_assoc] at hafter
  | @single position c text items hblank hdigit _ ih =>
    refine .single hblank hdigit (ih (hseparate.of_append [c]) ?_)
    rwa [List.length_cons, Nat.add_comm text.length, ← Nat.add_assoc] at hafter

/-! ## Where an item stands -/

/-- A whole run of digits stands behind so many characters of a text. -/
def RunAt (text : List Char) (position : Nat) (run : List Char) : Prop :=
  ∃ before after, text = before ++ run ++ after ∧ before.length = position ∧
    run ≠ [] ∧ (∀ c ∈ run, c.isDigit = true) ∧
    (∀ c ∈ before.getLast?, c.isDigit = false) ∧ (∀ c ∈ after.head?, c.isDigit = false)

/-- A run of digits between texts is whole if no digit touches it. -/
theorem runAt_between {before run text : List Char} (hne : run ≠ [])
    (hrun : ∀ c ∈ run, c.isDigit = true)
    (hbefore : (∃ c ∈ (run ++ text).head?, c.isDigit = true) →
      ∀ c ∈ before.getLast?, c.isDigit = false)
    (htext : ∀ c ∈ text.head?, c.isDigit = false) :
    RunAt (before ++ (run ++ text)) before.length run := by
  refine ⟨before, text, (List.append_assoc _ _ _).symm, rfl, hne, hrun, hbefore ?_, htext⟩
  obtain ⟨c, digits, rfl⟩ := List.exists_cons_of_ne_nil hne
  exact ⟨c, rfl, hrun c List.mem_cons_self⟩

/-- A token stands behind so many characters of a text. -/
def TokenAt (text : List Char) (position : Nat) : Token → Prop
  | .integer value =>
    ∃ run, RunAt text position run ∧ Digits.toNat run ≤ maxInteger ∧
      value.toInt = Digits.toNat run
  | .operator op => text[position]? = some op.symbol
  | .leftParen => text[position]? = some '('
  | .rightParen => text[position]? = some ')'
  | .endOfInput => False

/-- What a lexical error is about stands where the error says. -/
def LexError.At (text : List Char) : LexError → Prop
  | .invalidCharacter c position =>
    text[position]? = some c ∧ isBlank c = false ∧ c.isDigit = false ∧ Token.ofChar? c = none
  | .overflow literal position =>
    RunAt text position literal.toList ∧ maxInteger < Digits.toNat literal.toList

/-- An item stands where it says. -/
def ItemAt (text : List Char) : Item → Prop
  | .ok located => TokenAt text located.position located.token
  | .error e => e.At text

theorem toInt_ofInt_of_le_maxInteger {n : Nat} (h : n ≤ maxInteger) :
    (Int64.ofInt n).toInt = n := by
  unfold maxInteger at h
  exact Int64.toInt_ofInt_of_le (by omega) (by omega)

theorem itemAt_ofDigits {text run : List Char} {position : Nat} (h : RunAt text position run) :
    ItemAt text (Item.ofDigits run position) := by
  unfold Item.ofDigits
  by_cases hle : Digits.toNat run ≤ maxInteger
  · rw [if_pos hle]
    exact ⟨run, h, hle, toInt_ofInt_of_le_maxInteger hle⟩
  · rw [if_neg hle]
    simp only [ItemAt, LexError.At, String.toList_ofList]
    exact ⟨h, Nat.lt_of_not_le hle⟩

theorem tokenAt_ofChar? {text : List Char} {position : Nat} {c : Char} {token : Token}
    (h : text[position]? = some c) (htoken : Token.ofChar? c = some token) :
    TokenAt text position token := by
  unfold Token.ofChar? at htoken
  split at htoken
  · rename_i hc
    cases htoken
    rw [TokenAt, h, hc]
  · split at htoken
    · rename_i hc
      cases htoken
      rw [TokenAt, h, hc]
    · obtain ⟨op, hop, rfl⟩ := Option.map_eq_some_iff.mp htoken
      rw [TokenAt, h, Operator.symbol_of_ofChar? hop]

theorem itemAt_ofChar {text : List Char} {position : Nat} {c : Char}
    (h : text[position]? = some c) (hblank : isBlank c = false) (hdigit : c.isDigit = false) :
    ItemAt text (Item.ofChar c position) := by
  unfold Item.ofChar
  cases htoken : Token.ofChar? c with
  | some token => exact tokenAt_ofChar? h htoken
  | none => exact ⟨h, hblank, hdigit, htoken⟩

theorem Cuts.itemAt {position : Nat} {text : List Char} {items : List Item}
    (h : Cuts position text items) {before : List Char} (hposition : before.length = position)
    (hbefore : (∃ c ∈ text.head?, c.isDigit = true) → ∀ c ∈ before.getLast?, c.isDigit = false) :
    ∀ item ∈ items, ItemAt (before ++ text) item := by
  -- Along the pieces, with the text before them: a run of digits is whole because
  -- the pieces before it do not end in a digit.
  induction h generalizing before with
  | nil position => simp
  | @blank position c text items hblank _ ih =>
    rw [List.append_cons]
    exact ih (by simp [hposition]) fun _ => by simp [not_isDigit_of_isBlank hblank]
  | @run position run text items hne hrun htext _ ih =>
    intro item hmem
    subst hposition
    rcases List.mem_cons.mp hmem with rfl | hmem
    · exact itemAt_ofDigits (runAt_between hne hrun hbefore htext)
    · rw [← List.append_assoc]
      refine ih (by simp) ?_ item hmem
      rintro ⟨c, hc, hdigit⟩
      rw [htext c hc] at hdigit
      cases hdigit
  | @single position c text items hblank hdigit _ ih =>
    intro item hmem
    rcases List.mem_cons.mp hmem with rfl | hmem
    · exact itemAt_ofChar (by simp [← hposition]) hblank hdigit
    · rw [List.append_cons]
      exact ih (by simp [hposition]) (fun _ => by simp [hdigit]) item hmem

theorem itemAt_of_mem_ofSource {source : String} {item : Item}
    (h : item ∈ Item.ofSource source) : ItemAt source.toList item := by
  rw [← List.nil_append source.toList]
  exact (cuts_ofSource source).itemAt rfl (fun _ => by simp) item h

theorem ne_endOfInput_of_mem_ofSource {source : String} {located : Located}
    (h : .ok located ∈ Item.ofSource source) : located.token ≠ .endOfInput := by
  have hat := itemAt_of_mem_ofSource h
  intro hend
  simp only [ItemAt, hend, TokenAt] at hat

theorem nonneg_of_mem_ofSource {source : String} {value : Int64} {position : Nat}
    (h : .ok ⟨.integer value, position⟩ ∈ Item.ofSource source) : 0 ≤ value.toInt := by
  obtain ⟨run, -, -, hvalue⟩ := itemAt_of_mem_ofSource h
  rw [hvalue]
  exact Int.natCast_nonneg _

/-! ## The tokens of a line -/

theorem tokens_eq_ok_iff {items : List Item} {ts : List Located} :
    Item.tokens items = .ok ts ↔ items = ts.map .ok := by
  induction items generalizing ts with
  | nil => cases ts <;> simp [Item.tokens]
  | cons item rest ih =>
    cases item with
    | error e => cases ts <;> simp [Item.tokens]
    | ok located =>
      rw [Item.tokens]
      cases hrest : Item.tokens rest with
      | error e =>
        have hne : ∀ ts : List Located, rest ≠ ts.map .ok := by
          intro ts hts
          rw [ih.mpr hts] at hrest
          cases hrest
        cases ts <;> simp [hne]
      | ok others =>
        rw [ih.mp hrest]
        cases ts with
        | nil => simp
        | cons first ts =>
          simp only [Except.ok.injEq, List.cons.injEq, List.map_cons]
          rw [List.map_inj_right fun _ _ => Except.ok.inj]

theorem tokenize_eq_ok_iff {source : String} {ts : List Located} :
    tokenize source = .ok ts ↔ Item.ofSource source = ts.map .ok := by
  rw [tokenize_eq, tokens_eq_ok_iff]

/-! ## The parentheses of a line -/

/-- By how much an item changes the number of open parentheses. -/
def parenOfItem : Item → Int
  | .ok located => located.paren
  | .error _ => 0

theorem deepest_map_ok (ts : List Located) :
    Nesting.deepest parenOfItem (ts.map .ok) = Nesting.deepest Located.paren ts :=
  Nesting.deepest_map (fun _ => rfl) ts

theorem parenOfItem_ofDigits (run : List Char) (position : Nat) :
    parenOfItem (Item.ofDigits run position) = 0 := by
  unfold Item.ofDigits
  split <;> rfl

theorem parenOfItem_ofChar (c : Char) (position : Nat) :
    parenOfItem (Item.ofChar c position) = parenOfChar c := by
  by_cases hleft : c = '('
  · rw [hleft]
    rfl
  · by_cases hright : c = ')'
    · rw [hright]
      rfl
    · rw [parenOfChar_eq_zero hleft hright]
      simp only [Item.ofChar, Token.ofChar?, if_neg hleft, if_neg hright]
      cases Operator.ofChar? c <;> rfl

theorem Cuts.deepest_eq {position : Nat} {text : List Char} {items : List Item}
    (h : Cuts position text items) :
    Nesting.deepest parenOfItem items = Nesting.deepest parenOfChar text := by
  induction h with
  | nil position => rfl
  | @blank position c text items hblank _ ih =>
    have hparen : parenOfChar c = 0 := by
      refine parenOfChar_eq_zero ?_ ?_
      · rintro rfl
        cases hblank
      · rintro rfl
        cases hblank
    rw [Nesting.deepest_cons_of_eq_zero _ hparen, ih]
  | run _ hrun _ _ ih =>
    rw [Nesting.deepest_cons_of_eq_zero _ (parenOfItem_ofDigits _ _), ih,
      Nesting.deepest_append_of_eq_zero _ fun c hc => parenOfChar_of_isDigit (hrun c hc)]
  | single _ _ _ ih => simp only [Nesting.deepest, parenOfItem_ofChar, ih]

theorem deepest_of_tokenize {source : String} {ts : List Located}
    (h : tokenize source = .ok ts) :
    Nesting.deepest Located.paren ts = Nesting.deepest parenOfChar source.toList := by
  rw [← (cuts_ofSource source).deepest_eq, tokenize_eq_ok_iff.mp h, deepest_map_ok]

end LineCalc
