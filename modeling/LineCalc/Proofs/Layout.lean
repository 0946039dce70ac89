import LineCalc.Proofs.Items
/-
  Layout: a line as lexemes with blanks between them

  `Spells` says how a token is written: an operator or a parenthesis by its own
  character, an integer by any run of digits that denotes it. A `Layout` is a
  margin of blanks and then words, each a lexeme with the blanks behind it. It
  is proper if every lexeme spells its token and no two runs of digits touch.

  What is proved:
    1. `Layout.Proper.cuts`, `Cuts.exists_layout` — the proper layouts of a text and
       the cuttings of that text into tokens are the same;
    2. `Written.unique` — a text has at most one proper layout;
    3. `Cuts.exists_error` — a text in which something breaks is cut with an
       error, and the first one stands no later than that;
    4. `LexError.At.eq_of_position` — at most one error is about a place. With
       (3), the error of a line is the one at the leftmost place that breaks it.
-/

namespace LineCalc

/-! ## Lexemes -/

/-- How a token is written. Leading zeros are free, and a run of digits of any
length spells an integer as long as that integer exists. -/
inductive Spells : List Char → Token → Prop where
  | integer {run : List Char} {value : Int64} :
    run ≠ [] → (∀ c ∈ run, c.isDigit = true) → value.toInt = Digits.toNat run →
    Spells run (.integer value)
  | operator (op : Operator) : Spells [op.symbol] (.operator op)
  | leftParen : Spells ['('] .leftParen
  | rightParen : Spells [')'] .rightParen

def Token.isInteger : Token → Bool
  | integer _ => true
  | operator _ => false
  | leftParen => false
  | rightParen => false
  | endOfInput => false

/-- A lexeme of a line with the token that it spells and the blanks behind it. -/
@[ext]
structure Word where
  lexeme : List Char
  token : Token
  blanks : List Char

/-- The characters of a word. -/
def Word.text (word : Word) : List Char := word.lexeme ++ word.blanks

/-- A line as the blanks at its start and its words. -/
@[ext]
structure Layout where
  margin : List Char
  words : List Word

/-- Whether no run of digits touches the next one. -/
def Apart : List Word → Prop
  | [] => True
  | word :: rest =>
    (word.token.isInteger = true → (∃ next ∈ rest.head?, next.token.isInteger = true) →
      word.blanks ≠ []) ∧ Apart rest

/-- Whether words are a line's: each lexeme spells its token, blanks are blanks,
and runs of digits do not touch. -/
structure Written (words : List Word) : Prop where
  spelled : ∀ word ∈ words, Spells word.lexeme word.token
  blanks : ∀ word ∈ words, ∀ c ∈ word.blanks, isBlank c = true
  apart : Apart words

namespace Layout

/-- The text of a line. -/
def text (layout : Layout) : List Char := layout.margin ++ layout.words.flatMap Word.text

/-- The tokens of words, the first of which stands at a position. -/
def locate : Nat → List Word → List Located
  | _, [] => []
  | position, word :: rest =>
    ⟨word.token, position⟩ :: locate (position + word.text.length) rest

/-- The tokens of a line, each with the number of characters before its lexeme. -/
def tokens (layout : Layout) : List Located := locate layout.margin.length layout.words

/-- Whether a layout is a line's. -/
structure Proper (layout : Layout) : Prop where
  margin : ∀ c ∈ layout.margin, isBlank c = true
  words : Written layout.words

theorem map_token_locate (position : Nat) (words : List Word) :
    (locate position words).map Located.token = words.map Word.token := by
  induction words generalizing position with
  | nil => rfl
  | cons word rest ih => rw [locate, List.map_cons, List.map_cons, ih]

end Layout

namespace Spells
variable {lexeme : List Char} {token other : Token}

/-- A lexeme begins with no blank, and with a digit exactly if it is an integer's. -/
theorem head (h : Spells lexeme token) :
    ∃ c rest, lexeme = c :: rest ∧ isBlank c = false ∧ c.isDigit = token.isInteger := by
  cases h with
  | integer hne hrun _ =>
    obtain ⟨c, rest, rfl⟩ := List.exists_cons_of_ne_nil hne
    have hc := hrun c List.mem_cons_self
    exact ⟨c, rest, rfl, isBlank_of_isDigit hc, hc⟩
  | operator op => exact ⟨op.symbol, [], rfl, isBlank_symbol op, isDigit_symbol op⟩
  | leftParen => exact ⟨'(', [], rfl, rfl, rfl⟩
  | rightParen => exact ⟨')', [], rfl, rfl, rfl⟩

theorem digits_or_single (h : Spells lexeme token) :
    (token.isInteger = true ∧ ∀ c ∈ lexeme, c.isDigit = true) ∨
      (token.isInteger = false ∧ ∃ c, lexeme = [c]) := by
  cases h with
  | integer _ hrun _ => exact .inl ⟨rfl, hrun⟩
  | operator op => exact .inr ⟨rfl, op.symbol, rfl⟩
  | leftParen => exact .inr ⟨rfl, '(', rfl⟩
  | rightParen => exact .inr ⟨rfl, ')', rfl⟩

theorem ofChar_eq {c : Char} (h : Spells [c] token) (htoken : token.isInteger = false)
    (position : Nat) : Item.ofChar c position = .ok ⟨token, position⟩ := by
  cases h with
  | integer => cases htoken
  | operator op => cases op <;> rfl
  | leftParen => rfl
  | rightParen => rfl

theorem ofDigits_eq {value : Int64} (h : Spells lexeme (.integer value)) (position : Nat) :
    Item.ofDigits lexeme position = .ok ⟨.integer value, position⟩ := by
  cases h with
  | integer _ _ hvalue =>
    have hlimit : Digits.toNat lexeme ≤ maxInteger := by
      have := value.toInt_lt
      unfold maxInteger
      omega
    rw [Item.ofDigits, if_pos hlimit, ← hvalue, Int64.ofInt_toInt]

theorem unique (h : Spells lexeme token) (h' : Spells lexeme other) : token = other := by
  rcases h.digits_or_single with ⟨htoken, -⟩ | ⟨htoken, c, rfl⟩
  · obtain ⟨c, rest, hlexeme, -, hc⟩ := h.head
    obtain ⟨c', rest', hlexeme', -, hc'⟩ := h'.head
    obtain ⟨rfl, rfl⟩ := List.cons.inj (hlexeme.symm.trans hlexeme')
    have hother : other.isInteger = true := by rw [← hc', hc, htoken]
    cases token with
    | integer value =>
      cases other with
      | integer value' =>
        have hitem := (h.ofDigits_eq 0).symm.trans (h'.ofDigits_eq 0)
        injection hitem with hlocated
        exact congrArg Located.token hlocated
      | operator | leftParen | rightParen | endOfInput => cases hother
    | operator | leftParen | rightParen | endOfInput => cases htoken
  · obtain ⟨d, _, hd, -, hdigit⟩ := h.head
    obtain ⟨d', _, hd', -, hdigit'⟩ := h'.head
    obtain ⟨rfl, -⟩ := List.cons.inj (hd.symm.trans hd')
    have hother : other.isInteger = false := by rw [← hdigit', hdigit, htoken]
    have hitem := (h.ofChar_eq htoken 0).symm.trans (h'.ofChar_eq hother 0)
    injection hitem with hlocated
    exact congrArg Located.token hlocated

theorem of_ofDigits {run : List Char} {position : Nat} {located : Located} (hne : run ≠ [])
    (hrun : ∀ c ∈ run, c.isDigit = true) (h : Item.ofDigits run position = .ok located) :
    Spells run located.token ∧ located.position = position := by
  unfold Item.ofDigits at h
  split at h
  · rename_i hle
    cases h
    exact ⟨.integer hne hrun (toInt_ofInt_of_le_maxInteger hle), rfl⟩
  · cases h

theorem of_ofChar? {c : Char} (h : Token.ofChar? c = some token) :
    Spells [c] token ∧ token.isInteger = false := by
  unfold Token.ofChar? at h
  split at h
  · rename_i hc
    cases h
    rw [hc]
    exact ⟨.leftParen, rfl⟩
  · split at h
    · rename_i hc
      cases h
      rw [hc]
      exact ⟨.rightParen, rfl⟩
    · obtain ⟨op, hop, rfl⟩ := Option.map_eq_some_iff.mp h
      rw [← Operator.symbol_of_ofChar? hop]
      exact ⟨.operator op, rfl⟩

theorem of_ofChar {c : Char} {position : Nat} {located : Located}
    (h : Item.ofChar c position = .ok located) :
    Spells [c] located.token ∧ located.token.isInteger = false ∧
      located.position = position := by
  unfold Item.ofChar at h
  cases htoken : Token.ofChar? c with
  | none => rw [htoken] at h; cases h
  | some token =>
    rw [htoken] at h
    cases h
    obtain ⟨hspells, hinteger⟩ := of_ofChar? htoken
    exact ⟨hspells, hinteger, rfl⟩

end Spells

/-! ## Words -/

namespace Written
variable {word : Word} {words rest : List Word}

theorem of_cons (h : Written (word :: rest)) : Written rest where
  spelled := fun other hmem => h.spelled other (List.mem_cons_of_mem _ hmem)
  blanks := fun other hmem => h.blanks other (List.mem_cons_of_mem _ hmem)
  apart := h.apart.2

theorem cons (hspelled : Spells word.lexeme word.token)
    (hblanks : ∀ c ∈ word.blanks, isBlank c = true)
    (hapart : word.token.isInteger = true →
      (∃ next ∈ rest.head?, next.token.isInteger = true) → word.blanks ≠ [])
    (h : Written rest) : Written (word :: rest) where
  spelled := by
    intro other hmem
    rcases List.mem_cons.mp hmem with rfl | hmem
    · exact hspelled
    · exact h.spelled other hmem
  blanks := by
    intro other hmem
    rcases List.mem_cons.mp hmem with rfl | hmem
    · exact hblanks
    · exact h.blanks other hmem
  apart := ⟨hapart, h.apart⟩

theorem head?_text (h : Written words) {c : Char}
    (hc : c ∈ (words.flatMap Word.text).head?) :
    isBlank c = false ∧ ∃ next ∈ words.head?, next.token.isInteger = c.isDigit := by
  cases words with
  | nil => cases hc
  | cons word rest =>
    obtain ⟨d, lexeme, hlexeme, hblank, hdigit⟩ := (h.spelled word List.mem_cons_self).head
    have hd : d = c := by
      simpa [List.flatMap_cons, Word.text, hlexeme] using hc
    rw [← hd]
    exact ⟨hblank, word, rfl, hdigit.symm⟩

theorem not_digit_behind (h : Written (word :: rest)) (hword : word.token.isInteger = true) :
    ∀ c ∈ (word.blanks ++ rest.flatMap Word.text).head?, c.isDigit = false := by
  intro c hc
  cases hblanks : word.blanks with
  | cons blank blanks =>
    have hblank := h.blanks word List.mem_cons_self blank (by simp [hblanks])
    have hc : blank = c := by simpa [hblanks] using hc
    rw [← hc]
    exact not_isDigit_of_isBlank hblank
  | nil =>
    rw [hblanks, List.nil_append] at hc
    obtain ⟨-, next, hnext, hdigit⟩ := h.of_cons.head?_text hc
    cases hcase : c.isDigit with
    | false => rfl
    | true => exact absurd hblanks (h.apart.1 hword ⟨next, hnext, hdigit.trans hcase⟩)

theorem text_ne_nil (h : Written (word :: rest)) : (word :: rest).flatMap Word.text ≠ [] := by
  obtain ⟨c, lexeme, hlexeme, -⟩ := (h.spelled word List.mem_cons_self).head
  simp [List.flatMap_cons, Word.text, hlexeme]

/-- The first lexeme of a text is one only: a whole run of digits, or one character. -/
theorem first_lexeme {other : Word} {rest' : List Word} (h : Written (word :: rest))
    (h' : Written (other :: rest'))
    (htext : (word :: rest).flatMap Word.text = (other :: rest').flatMap Word.text) :
    word.lexeme = other.lexeme ∧
      word.blanks ++ rest.flatMap Word.text = other.blanks ++ rest'.flatMap Word.text := by
  have hspells := h.spelled word List.mem_cons_self
  have hspells' := h'.spelled other List.mem_cons_self
  obtain ⟨c, lexeme, hlexeme, -, hdigit⟩ := hspells.head
  obtain ⟨c', lexeme', hlexeme', -, hdigit'⟩ := hspells'.head
  simp only [List.flatMap_cons, Word.text, List.append_assoc] at htext
  have hc : c = c' := by
    have := congrArg List.head? htext
    simpa [hlexeme, hlexeme'] using this
  have hkind : other.token.isInteger = word.token.isInteger := by
    rw [← hdigit', ← hdigit, hc]
  rcases hspells.digits_or_single with ⟨hword, hrun⟩ | ⟨hword, d, hd⟩
  · rcases hspells'.digits_or_single with ⟨-, hrun'⟩ | ⟨hother, -⟩
    · exact run_append_inj hrun hrun' (h.not_digit_behind hword)
        (h'.not_digit_behind (hkind.trans hword)) htext
    · rw [hkind, hword] at hother
      cases hother
  · rcases hspells'.digits_or_single with ⟨hother, -⟩ | ⟨-, d', hd'⟩
    · rw [hkind, hword] at hother
      cases hother
    · rw [hd, hd', List.singleton_append, List.singleton_append] at htext
      obtain ⟨rfl, hbehind⟩ := List.cons.inj htext
      exact ⟨hd.trans hd'.symm, hbehind⟩

theorem unique {others : List Word} (h : Written words) (h' : Written others)
    (htext : words.flatMap Word.text = others.flatMap Word.text) : words = others := by
  induction words generalizing others with
  | nil =>
    cases others with
    | nil => rfl
    | cons other rest' => exact absurd htext.symm h'.text_ne_nil
  | cons word rest ih =>
    cases others with
    | nil => exact absurd htext h.text_ne_nil
    | cons other rest' =>
      obtain ⟨hlexeme, hbehind⟩ := h.first_lexeme h' htext
      obtain ⟨hblanks, hrest⟩ := run_append_inj (h.blanks word List.mem_cons_self)
        (h'.blanks other List.mem_cons_self) (fun c hc => (h.of_cons.head?_text hc).1)
        (fun c hc => (h'.of_cons.head?_text hc).1) hbehind
      have hspells := h.spelled word List.mem_cons_self
      have hspells' := h'.spelled other List.mem_cons_self
      have htoken : word.token = other.token := hspells.unique (hlexeme ▸ hspells')
      rw [Word.ext hlexeme htoken hblanks, ih h.of_cons h'.of_cons hrest]

end Written

theorem Layout.Proper.unique {layout other : Layout} (h : layout.Proper) (h' : other.Proper)
    (htext : layout.text = other.text) : layout = other := by
  obtain ⟨hmargin, hwords⟩ := run_append_inj h.margin h'.margin
    (fun c hc => (h.words.head?_text hc).1) (fun c hc => (h'.words.head?_text hc).1) htext
  exact Layout.ext hmargin (h.words.unique h'.words hwords)

/-! ## Layouts and cuttings -/

theorem Cuts.blanks {position : Nat} {blanks text : List Char} {items : List Item}
    (hblanks : ∀ c ∈ blanks, isBlank c = true)
    (h : Cuts (position + blanks.length) text items) : Cuts position (blanks ++ text) items := by
  induction blanks generalizing position with
  | nil => exact h
  | cons c blanks ih =>
    refine .blank (hblanks c List.mem_cons_self) (ih ?_ ?_)
    · exact fun d hd => hblanks d (List.mem_cons_of_mem c hd)
    · rwa [List.length_cons, Nat.add_comm blanks.length, ← Nat.add_assoc] at h

theorem Cuts.lexeme {position : Nat} {lexeme text : List Char} {token : Token}
    {items : List Item} (hspells : Spells lexeme token)
    (htext : token.isInteger = true → ∀ c ∈ text.head?, c.isDigit = false)
    (h : Cuts (position + lexeme.length) text items) :
    Cuts position (lexeme ++ text) (.ok ⟨token, position⟩ :: items) := by
  cases hspells with
  | integer hne hrun hvalue =>
    rw [← (Spells.integer hne hrun hvalue).ofDigits_eq]
    exact .run hne hrun (htext rfl) h
  | operator op => exact .symbol op h
  | leftParen => exact .single rfl rfl h
  | rightParen => exact .single rfl rfl h

theorem Written.cuts {words : List Word} (h : Written words) (position : Nat) :
    Cuts position (words.flatMap Word.text) ((Layout.locate position words).map .ok) := by
  induction words generalizing position with
  | nil => exact .nil position
  | cons word rest ih =>
    have hrest := ih h.of_cons (position + word.lexeme.length + word.blanks.length)
    have hlength : word.text.length = word.lexeme.length + word.blanks.length :=
      List.length_append
    rw [List.flatMap_cons, Word.text, List.append_assoc, Layout.locate, List.map_cons, hlength,
      ← Nat.add_assoc]
    exact .lexeme (h.spelled word List.mem_cons_self) h.not_digit_behind
      (.blanks (h.blanks word List.mem_cons_self) hrest)

/-- A proper layout is cut into its tokens. -/
theorem Layout.Proper.cuts {layout : Layout} (h : layout.Proper) (position : Nat) :
    Cuts position layout.text
      ((locate (position + layout.margin.length) layout.words).map .ok) :=
  .blanks h.margin (h.words.cuts _)

theorem Cuts.exists_layout {position : Nat} {text : List Char} {items : List Item}
    (h : Cuts position text items) {ts : List Located} (hitems : items = ts.map .ok) :
    ∃ layout : Layout, layout.Proper ∧ layout.text = text ∧
      Layout.locate (position + layout.margin.length) layout.words = ts := by
  induction h generalizing ts with
  | nil position =>
    obtain rfl := List.map_eq_nil_iff.mp hitems.symm
    exact ⟨⟨[], []⟩, ⟨by simp, ⟨by simp, by simp, trivial⟩⟩, rfl, rfl⟩
  | @blank position c text items hblank _ ih =>
    obtain ⟨layout, hproper, rfl, rfl⟩ := ih hitems
    refine ⟨⟨c :: layout.margin, layout.words⟩, ⟨?_, hproper.words⟩, rfl, ?_⟩
    · intro d hd
      rcases List.mem_cons.mp hd with rfl | hd
      · exact hblank
      · exact hproper.margin d hd
    · rw [List.length_cons, Nat.add_comm layout.margin.length, ← Nat.add_assoc]
  | @run position run text items hne hrun htext _ ih =>
    obtain ⟨located, ts, rfl, hitem, hrest⟩ := List.map_eq_cons_iff.mp hitems.symm
    obtain ⟨hspells, hposition⟩ := Spells.of_ofDigits hne hrun hitem.symm
    obtain ⟨layout, hproper, rfl, rfl⟩ := ih hrest.symm
    refine ⟨⟨[], ⟨run, located.token, layout.margin⟩ :: layout.words⟩, ⟨by simp, ?_⟩, ?_, ?_⟩
    · refine .cons hspells hproper.margin ?_ hproper.words
      -- Without blanks between them the two runs would be one.
      rintro - ⟨next, hnext, hinteger⟩ hmargin
      obtain ⟨words, hwords⟩ : ∃ words, layout.words = next :: words :=
        List.head?_eq_some_iff.mp hnext
      have hnext := hproper.words.spelled next (by simp [hwords])
      obtain ⟨d, lexeme, hlexeme, -, hdigit⟩ := hnext.head
      have hd := htext d (by
        simp only at hmargin
        simp [Layout.text, hmargin, hwords, Word.text, hlexeme])
      rw [hdigit, hinteger] at hd
      cases hd
    · simp [Layout.text, Word.text]
    · simp only [Layout.locate, Word.text, List.length_append, List.length_nil, Nat.add_zero,
        ← Nat.add_assoc, ← hposition]
  | @single position c text items hblank hdigit _ ih =>
    obtain ⟨located, ts, rfl, hitem, hrest⟩ := List.map_eq_cons_iff.mp hitems.symm
    obtain ⟨hspells, hinteger, hposition⟩ := Spells.of_ofChar hitem.symm
    obtain ⟨layout, hproper, rfl, rfl⟩ := ih hrest.symm
    refine ⟨⟨[], ⟨[c], located.token, layout.margin⟩ :: layout.words⟩, ⟨by simp, ?_⟩, ?_, ?_⟩
    · refine .cons hspells hproper.margin ?_ hproper.words
      intro htoken
      rw [hinteger] at htoken
      cases htoken
    · simp [Layout.text, Word.text]
    · simp only [Layout.locate, Word.text, List.length_append, List.length_nil, Nat.add_zero,
        ← Nat.add_assoc, ← hposition, List.length_singleton]

/-! ## What breaks a text -/

theorem RunAt.bounds {text run : List Char} {position : Nat} (h : RunAt text position run) :
    (∃ c, text[position]? = some c ∧ c.isDigit = true) ∧
      ∀ before c, position = before + 1 → text[before]? = some c → c.isDigit = false := by
  obtain ⟨left, right, rfl, rfl, hne, hrun, hleft, -⟩ := h
  constructor
  · obtain ⟨c, digits, rfl⟩ := List.exists_cons_of_ne_nil hne
    exact ⟨c, by simp, hrun c List.mem_cons_self⟩
  · intro before c hbefore hc
    apply hleft
    have hinside : before < left.length := by omega
    rw [List.append_assoc, List.getElem?_append_left hinside] at hc
    rw [List.getLast?_eq_getElem?, hbefore, Nat.add_sub_cancel]
    exact hc

theorem RunAt.eq_of_split {left run right run' : List Char}
    (hrun : ∀ c ∈ run, c.isDigit = true) (hright : ∀ c ∈ right.head?, c.isDigit = false)
    (h : RunAt (left ++ (run ++ right)) left.length run') : run' = run := by
  obtain ⟨left', right', htext, hlength, -, hrun', -, hright'⟩ := h
  rw [List.append_assoc] at htext
  obtain ⟨-, hbehind⟩ := List.append_inj htext hlength.symm
  exact (run_append_inj hrun' hrun hright' hright hbehind.symm).1

theorem RunAt.unique {text run run' : List Char} {position : Nat} (h : RunAt text position run)
    (h' : RunAt text position run') : run' = run := by
  obtain ⟨left, right, rfl, rfl, -, hrun, -, hright⟩ := h
  rw [List.append_assoc] at h'
  exact h'.eq_of_split hrun hright

namespace LexError.At
variable {text : List Char} {e other : LexError}

theorem not_blank (h : e.At text) : ∃ c, text[e.position]? = some c ∧ isBlank c = false := by
  cases e with
  | invalidCharacter c position => exact ⟨c, h.1, h.2.1⟩
  | overflow literal position =>
    obtain ⟨⟨c, hc, hdigit⟩, -⟩ := h.1.bounds
    exact ⟨c, hc, isBlank_of_isDigit hdigit⟩

theorem run_of_digit (h : e.At text) {c : Char} (hc : text[e.position]? = some c)
    (hdigit : c.isDigit = true) :
    ∃ run, RunAt text e.position run ∧ maxInteger < Digits.toNat run ∧
      e = .overflow (String.ofList run) e.position := by
  cases e with
  | invalidCharacter d position =>
    obtain ⟨hd, -, hnot, -⟩ := h
    obtain rfl : d = c := Option.some.inj (hd.symm.trans hc)
    rw [hdigit] at hnot
    cases hnot
  | overflow literal position =>
    exact ⟨literal.toList, h.1, h.2, by rw [String.ofList_toList]; rfl⟩

theorem invalid_of_not_digit (h : e.At text) {c : Char} (hc : text[e.position]? = some c)
    (hdigit : c.isDigit = false) :
    Token.ofChar? c = none ∧ e = .invalidCharacter c e.position := by
  cases e with
  | invalidCharacter d position =>
    obtain ⟨hd, -, -, hnone⟩ := h
    obtain rfl : d = c := Option.some.inj (hd.symm.trans hc)
    exact ⟨hnone, rfl⟩
  | overflow literal position =>
    obtain ⟨⟨d, hd, hdigit'⟩, -⟩ := h.1.bounds
    obtain rfl : d = c := Option.some.inj (hd.symm.trans hc)
    rw [hdigit] at hdigit'
    cases hdigit'

theorem eq_of_position (h : e.At text) (h' : other.At text)
    (hposition : e.position = other.position) : e = other := by
  obtain ⟨c, hc, -⟩ := h.not_blank
  have hc' : text[other.position]? = some c := hposition ▸ hc
  cases hdigit : c.isDigit with
  | true =>
    obtain ⟨run, hrun, -, he⟩ := h.run_of_digit hc hdigit
    obtain ⟨run', hrun', -, hother⟩ := h'.run_of_digit hc' hdigit
    rw [he, hother, ← hrun.unique (hposition ▸ hrun'), hposition]
  | false =>
    rw [(h.invalid_of_not_digit hc hdigit).2, (h'.invalid_of_not_digit hc' hdigit).2, hposition]

/-- In a whole run of digits an error can be about that run only. -/
theorem eq_or_behind_run {left run right : List Char} (hrun : ∀ c ∈ run, c.isDigit = true)
    (hright : ∀ c ∈ right.head?, c.isDigit = false) (h : e.At (left ++ (run ++ right)))
    (hle : left.length ≤ e.position) :
    (e.position = left.length ∧ maxInteger < Digits.toNat run) ∨
      left.length + run.length ≤ e.position := by
  have hinside : ∀ k, k < run.length → ∃ c, (left ++ (run ++ right))[left.length + k]? = some c ∧
      c.isDigit = true := by
    intro k hk
    refine ⟨run[k], ?_, hrun _ (List.getElem_mem hk)⟩
    rw [List.getElem?_append_right (by omega), Nat.add_sub_cancel_left,
      List.getElem?_append_left hk, List.getElem?_eq_getElem hk]
  obtain ⟨k, hk⟩ : ∃ k, e.position = left.length + k := ⟨_, (Nat.add_sub_cancel' hle).symm⟩
  by_cases hbehind : run.length ≤ k
  · exact .inr (by omega)
  · obtain ⟨c, hc, hdigit⟩ := hinside k (by omega)
    rw [← hk] at hc
    obtain ⟨run', hrunAt, hlarge, -⟩ := h.run_of_digit hc hdigit
    cases k with
    | zero =>
      rw [Nat.add_zero] at hk
      rw [hk] at hrunAt
      exact .inl ⟨hk, hrunAt.eq_of_split hrun hright ▸ hlarge⟩
    | succ k =>
      -- The digit before it belongs to the same run.
      obtain ⟨d, hd, hdigit'⟩ := hinside k (by omega)
      rw [hrunAt.bounds.2 (left.length + k) d hk hd] at hdigit'
      cases hdigit'

/-- Where a character is no digit, an error can be about that character only. -/
theorem eq_or_behind_char {left right : List Char} {c : Char} (hdigit : c.isDigit = false)
    (h : e.At (left ++ c :: right)) (hle : left.length ≤ e.position) :
    (e.position = left.length ∧ isBlank c = false ∧ Token.ofChar? c = none) ∨
      left.length + 1 ≤ e.position := by
  by_cases hhere : e.position = left.length
  · have hc : (left ++ c :: right)[e.position]? = some c := by simp [hhere]
    obtain ⟨d, hd, hblank⟩ := h.not_blank
    obtain rfl : d = c := Option.some.inj (hd.symm.trans hc)
    exact .inl ⟨hhere, hblank, (h.invalid_of_not_digit hc hdigit).1⟩
  · exact .inr (by omega)

end LexError.At

/-- A text in which something breaks is cut with an error, the first of which
stands no later. -/
theorem Cuts.exists_error {position : Nat} {text : List Char} {items : List Item}
    (h : Cuts position text items) {before : List Char} (hbefore : before.length = position)
    {e : LexError} (he : e.At (before ++ text)) (hle : position ≤ e.position) :
    ∃ first, Item.tokens items = .error first ∧ first.position ≤ e.position := by
  -- Along the pieces: an error that is about none of those before is about this piece,
  -- whose item is an error then, or about one behind it.
  induction h generalizing before with
  | nil position =>
    obtain ⟨c, hc, -⟩ := he.not_blank
    obtain ⟨hlt, -⟩ := List.getElem?_eq_some_iff.mp hc
    rw [List.append_nil] at hlt
    omega
  | @blank position c text items hblank _ ih =>
    subst hbefore
    rcases he.eq_or_behind_char (not_isDigit_of_isBlank hblank) hle with ⟨-, hnot, -⟩ | hbehind
    · rw [hblank] at hnot
      cases hnot
    · rw [List.append_cons] at he
      exact ih (by simp) he hbehind
  | @run position run text items hne hrun htext _ ih =>
    subst hbefore
    unfold Item.ofDigits
    by_cases hlimit : Digits.toNat run ≤ maxInteger
    · rw [if_pos hlimit]
      rcases he.eq_or_behind_run hrun htext hle with ⟨-, hlarge⟩ | hbehind
      · omega
      · rw [← List.append_assoc] at he
        obtain ⟨first, hfirst, hposition⟩ := ih (by simp) he hbehind
        exact ⟨first, by rw [Item.tokens, hfirst], hposition⟩
    · rw [if_neg hlimit]
      exact ⟨_, rfl, hle⟩
  | @single position c text items hblank hdigit _ ih =>
    subst hbefore
    unfold Item.ofChar
    cases htoken : Token.ofChar? c with
    | some token =>
      rcases he.eq_or_behind_char hdigit hle with ⟨-, -, hnone⟩ | hbehind
      · rw [htoken] at hnone
        cases hnone
      · rw [List.append_cons] at he
        obtain ⟨first, hfirst, hposition⟩ := ih (by simp) he hbehind
        exact ⟨first, by rw [Item.tokens, hfirst], hposition⟩
    | none => exact ⟨_, rfl, hle⟩

theorem mem_of_tokens_error {items : List Item} {e : LexError}
    (h : Item.tokens items = .error e) : .error e ∈ items := by
  induction items with
  | nil => cases h
  | cons item rest ih =>
    cases item with
    | error first =>
      cases h
      exact List.mem_cons_self
    | ok located =>
      rw [Item.tokens] at h
      cases hrest : Item.tokens rest with
      | ok others => rw [hrest] at h; cases h
      | error first =>
        rw [hrest] at h
        cases h
        exact List.mem_cons_of_mem _ (ih hrest)

/-! ## Lines -/

theorem tokenize_eq_ok_iff_exists_layout {source : String} {ts : List Located} :
    tokenize source = .ok ts ↔
      ∃ layout : Layout, layout.Proper ∧ layout.text = source.toList ∧ layout.tokens = ts := by
  rw [tokenize_eq_ok_iff]
  constructor
  · intro hitems
    obtain ⟨layout, hproper, htext, htokens⟩ := (cuts_ofSource source).exists_layout hitems
    rw [Nat.zero_add] at htokens
    exact ⟨layout, hproper, htext, htokens⟩
  · rintro ⟨layout, hproper, htext, rfl⟩
    have hcuts := hproper.cuts 0
    rw [htext, Nat.zero_add] at hcuts
    exact hcuts.ofChars_eq

theorem exists_error_of_at {source : String} {e : LexError} (h : e.At source.toList) :
    ∃ first, tokenize source = .error first ∧ first.position ≤ e.position := by
  rw [tokenize_eq]
  rw [← List.nil_append source.toList] at h
  exact (cuts_ofSource source).exists_error rfl h (Nat.zero_le _)

theorem at_of_tokenize_error {source : String} {e : LexError} (h : tokenize source = .error e) :
    e.At source.toList := by
  rw [tokenize_eq] at h
  exact itemAt_of_mem_ofSource (mem_of_tokens_error h)

theorem tokenize_eq_error_iff {source : String} {e : LexError} :
    tokenize source = .error e ↔
      e.At source.toList ∧
        ∀ other : LexError, other.At source.toList → e.position ≤ other.position := by
  constructor
  · intro h
    refine ⟨at_of_tokenize_error h, ?_⟩
    intro other hother
    obtain ⟨first, hfirst, hle⟩ := exists_error_of_at hother
    rw [h] at hfirst
    cases hfirst
    exact hle
  · rintro ⟨he, hleast⟩
    obtain ⟨first, hfirst, hle⟩ := exists_error_of_at he
    have hat := at_of_tokenize_error hfirst
    have hposition : first.position = e.position := Nat.le_antisymm hle (hleast first hat)
    rw [hfirst, hat.eq_of_position he hposition]

/-! ## Printing -/

/-- A token as it is printed in a line. -/
def Token.printed : Token → List Char
  | integer value => Digits.ofInt value.toInt
  | operator op => [op.symbol]
  | leftParen => ['(']
  | rightParen => [')']
  | endOfInput => []

/-- Whether a line can hold a token: no integer of a line is negative, and the end
of a line is not in it. -/
def Token.InLine : Token → Prop
  | integer value => 0 ≤ value.toInt
  | operator _ => True
  | leftParen => True
  | rightParen => True
  | endOfInput => False

theorem Token.spells_printed {token : Token} (h : token.InLine) : Spells token.printed token := by
  cases token with
  | integer value =>
    have hdigits : Digits.ofInt value.toInt = Digits.ofNat value.toInt.natAbs :=
      if_neg (Int.not_lt.mpr h)
    rw [printed, hdigits]
    refine .integer (Digits.ofNat_ne_nil _) (fun c hc => Digits.isDigit_of_mem_ofNat hc) ?_
    rw [Digits.toNat_ofNat, Int.natAbs_of_nonneg h]
  | operator op => exact .operator op
  | leftParen => exact .leftParen
  | rightParen => exact .rightParen
  | endOfInput => exact h.elim

/-- Tokens printed behind a margin, each with blanks behind it. -/
def Layout.ofTokens (margin : List Char) (entries : List (Token × List Char)) : Layout :=
  ⟨margin, entries.map fun entry => ⟨entry.1.printed, entry.1, entry.2⟩⟩

theorem Layout.proper_ofTokens {margin : List Char} {entries : List (Token × List Char)}
    (hmargin : ∀ c ∈ margin, isBlank c = true)
    (hentries : ∀ entry ∈ entries, entry.1.InLine ∧ ∀ c ∈ entry.2, isBlank c = true)
    (hapart : Apart (ofTokens margin entries).words) : (ofTokens margin entries).Proper := by
  refine ⟨hmargin, ?_, ?_, hapart⟩
  · intro word hword
    obtain ⟨entry, hentry, rfl⟩ := List.mem_map.mp hword
    exact Token.spells_printed (hentries entry hentry).1
  · intro word hword
    obtain ⟨entry, hentry, rfl⟩ := List.mem_map.mp hword
    exact (hentries entry hentry).2

theorem Layout.Proper.tokenize_eq {layout : Layout} (h : layout.Proper) :
    tokenize (String.ofList layout.text) = .ok layout.tokens :=
  tokenize_eq_ok_iff_exists_layout.mpr ⟨layout, h, String.toList_ofList.symm, rfl⟩

/-- A line has tokens if and only if it has a proper layout, which is the only one
then and tells the tokens with their positions. Otherwise the answer is the
error at the leftmost place that breaks the line: a character that is no blank and
belongs to no token, or a whole run of digits that is too large. So tokens that
are printed with any blanks, some at least between two integers, are read back. -/
theorem tokenize_layouts :
    (∀ source : String,
      (∀ ts, tokenize source = .ok ts ↔
        ∃ layout : Layout, layout.Proper ∧ layout.text = source.toList ∧ layout.tokens = ts) ∧
      (∀ layout other : Layout, layout.Proper → layout.text = source.toList →
        other.Proper → other.text = source.toList → other = layout) ∧
      (∀ e, tokenize source = .error e ↔
        e.At source.toList ∧
          ∀ other : LexError, other.At source.toList → e.position ≤ other.position)) ∧
    ∀ (margin : List Char) (entries : List (Token × List Char)),
      (∀ c ∈ margin, isBlank c = true) →
      (∀ entry ∈ entries, entry.1.InLine ∧ ∀ c ∈ entry.2, isBlank c = true) →
      Apart (Layout.ofTokens margin entries).words →
      ∃ ts, tokenize (String.ofList (Layout.ofTokens margin entries).text) = .ok ts ∧
        ts.map Located.token = entries.map Prod.fst := by
  constructor
  · intro source
    refine ⟨fun ts => tokenize_eq_ok_iff_exists_layout, ?_, fun e => tokenize_eq_error_iff⟩
    intro layout other hlayout htext hother htext'
    exact hother.unique hlayout (htext'.trans htext.symm)
  · intro margin entries hmargin hentries hapart
    refine ⟨_, (Layout.proper_ofTokens hmargin hentries hapart).tokenize_eq, ?_⟩
    rw [Layout.tokens, Layout.map_token_locate, Layout.ofTokens, List.map_map]
    rfl

theorem tokenize_layouts_of_spaced :
    let layout : Layout :=
      ⟨[' '], [⟨['0', '7'], .integer 7, ['\t']⟩, ⟨['1'], .integer 1, []⟩, ⟨[')'], .rightParen, []⟩]⟩
    let entries : List (Token × List Char) :=
      [(.integer 7, ['\x0c', ' ']), (.integer 1, []), (.rightParen, [])]
    (layout.Proper ∧ tokenize " 07\t1)" = .ok layout.tokens ∧
      ∀ other : Layout, other.Proper → other.text = " 07\t1)".toList → other = layout) ∧
    ∃ ts, tokenize (String.ofList (Layout.ofTokens [] entries).text) = .ok ts ∧
      ts.map Located.token = [.integer 7, .integer 1, .rightParen] := by
  intro layout entries
  have hproper : layout.Proper := by
    refine ⟨by simp [layout, isBlank], ?_, by simp [layout, isBlank], ?_⟩
    · simp only [layout, List.forall_mem_cons]
      exact ⟨.integer (by simp) (by simp) rfl, .integer (by simp) (by simp) rfl,
        .rightParen, by simp⟩
    · simp [layout, Apart, Token.isInteger]
  obtain ⟨hlines, hprinted⟩ := tokenize_layouts
  obtain ⟨haccepted, hunique, -⟩ := hlines " 07\t1)"
  refine ⟨⟨hproper, (haccepted _).mpr ⟨layout, hproper, rfl, rfl⟩, ?_⟩, ?_⟩
  · intro other hother htext
    exact hunique layout other hproper rfl hother htext
  · refine hprinted [] entries (List.forall_mem_nil _) ?_ ?_
    · simp [entries, Token.InLine, isBlank]
    · simp [entries, Layout.ofTokens, Apart, Token.isInteger]

end LineCalc
