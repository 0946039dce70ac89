import LineCalc.Proofs.Dialogue
import LineCalc.Proofs.Pointing
/-
  Framing: no line of an answer can be broken by what stands in a line of the input

  A value, a tree and the tokens of a line are written with digits, operators and a few
  letters. A message quotes the text of the line in two places: a literal that is too
  large, which is digits, and a character that starts no token, which is shown as itself
  only if it can be seen. So every answer is one line, and no character that is not seen
  comes through.

  What is proved:
    1. `Value.plain_text`, `Expr.plain_text`, `Session.plain_tokenText` — all that goes
       to the output is printable ASCII;
    2. `shown_inMessage`, `shown_message` — all characters of a message can be seen;
    3. `Session.framed_reply`, `Session.framed_complaint` — the lines that a line is
       answered with;
    4. `Session.run_framed` — both streams of a session.
-/

namespace LineCalc

/-! ## Kinds of characters -/

/-- Whether a character is printable ASCII, the space included. -/
def isPlain (c : Char) : Bool := 0x20 ≤ c.toNat && c.toNat ≤ 0x7e

/-- Whether a character may stand in a message: it has a printed form, and extends no
other character, the sound marks apart. -/
def isShown (c : Char) : Bool :=
  !Unicode.isUnprintable c && (!Unicode.isGraphemeExtend c || Escape.isSoundMark c)

theorem isShown_of_isPlain {c : Char} (h : isPlain c = true) : isShown c = true := by
  have hall : ∀ n : Fin 127, 0x20 ≤ n.val → isShown (Char.ofNat n) = true := by decide +kernel
  simp only [isPlain, Bool.and_eq_true, decide_eq_true_eq] at h
  have hc := hall ⟨c.toNat, Nat.lt_succ_of_le h.2⟩ h.1
  rwa [Char.ofNat_toNat] at hc

theorem isShown_of_isVisible {c : Char} (h : Escape.isVisible c = true) : isShown c = true := by
  simp only [Escape.isVisible, isShown, Bool.not_or, Bool.not_and, Bool.not_not,
    Bool.and_eq_true] at h ⊢
  exact ⟨h.1.1, h.2⟩

/-- Texts that are made of one kind of characters. -/
def Made (kind : Char → Bool) (text : List Char) : Prop := ∀ c ∈ text, kind c = true

namespace Made
variable {kind : Char → Bool} {text more : List Char}

theorem nil : Made kind [] := nofun

theorem cons {c : Char} (h : kind c = true) (h' : Made kind text) : Made kind (c :: text) :=
  List.forall_mem_cons.mpr ⟨h, h'⟩

theorem of_plain (h : Made isPlain text) : Made isShown text :=
  fun c hmem => isShown_of_isPlain (h c hmem)

theorem count_lineFeed (h : Made kind text) (hkind : kind '\n' = false) :
    text.count '\n' = 0 := by
  rw [List.count_eq_zero]
  intro hmem
  rw [h _ hmem] at hkind
  cases hkind

end Made

theorem made_append {kind : Char → Bool} {text more : List Char} :
    Made kind (text ++ more) ↔ Made kind text ∧ Made kind more :=
  List.forall_mem_append

/-- A string of printable ASCII. -/
structure Plain (s : String) : Prop where
  made : Made isPlain s.toList

instance decidablePlain (s : String) : Decidable (Plain s) :=
  decidable_of_iff (s.toList.all isPlain = true)
    ⟨fun h => ⟨List.all_eq_true.mp h⟩, fun h => List.all_eq_true.mpr h.made⟩

/-- A string that may be a message. -/
structure Shown (s : String) : Prop where
  made : Made isShown s.toList

theorem Plain.shown {s : String} (h : Plain s) : Shown s := ⟨.of_plain h.made⟩

@[simp] theorem plain_append {s t : String} : Plain (s ++ t) ↔ Plain s ∧ Plain t := by
  constructor
  · rintro ⟨h⟩
    rw [String.toList_append, made_append] at h
    exact ⟨⟨h.1⟩, ⟨h.2⟩⟩
  · rintro ⟨⟨hs⟩, ⟨ht⟩⟩
    constructor
    rw [String.toList_append]
    exact made_append.mpr ⟨hs, ht⟩

@[simp] theorem shown_append {s t : String} : Shown (s ++ t) ↔ Shown s ∧ Shown t := by
  constructor
  · rintro ⟨h⟩
    rw [String.toList_append, made_append] at h
    exact ⟨⟨h.1⟩, ⟨h.2⟩⟩
  · rintro ⟨⟨hs⟩, ⟨ht⟩⟩
    constructor
    rw [String.toList_append]
    exact made_append.mpr ⟨hs, ht⟩

theorem plain_ofList {text : List Char} (h : Made isPlain text) : Plain (String.ofList text) := by
  constructor
  rwa [String.toList_ofList]

/-! ## Numbers -/

namespace Digits

theorem isPlain_digitChar {d : Nat} (h : d < 16) : isPlain (digitChar d) = true := by
  have hall : ∀ d : Fin 16, isPlain (digitChar d) = true := by decide
  exact hall ⟨d, h⟩

theorem isPlain_of_isDigit {c : Char} (h : c.isDigit = true) : isPlain c = true := by
  simp only [Char.isDigit, Bool.and_eq_true, decide_eq_true_eq, ge_iff_le,
    UInt32.le_iff_toNat_le] at h
  have hlow : '0'.val.toNat = 0x30 := rfl
  have hhigh : '9'.val.toNat = 0x39 := rfl
  simp only [isPlain, Char.toNat, Bool.and_eq_true, decide_eq_true_eq]
  omega

theorem made_ofNat (n : Nat) : Made isPlain (ofNat n) :=
  fun _ hmem => isPlain_of_isDigit (isDigit_of_mem_ofNat hmem)

theorem made_hex (n : Nat) : Made isPlain (hex n) := by
  fun_induction hex n with
  | case1 n h => exact .cons (isPlain_digitChar h) .nil
  | case2 n _ ih =>
    exact made_append.mpr ⟨ih, .cons (isPlain_digitChar (Nat.mod_lt n (by decide))) .nil⟩

theorem made_fixed (count n : Nat) : Made isPlain (fixed count n) := by
  induction count generalizing n with
  | zero => exact .nil
  | succ count ih =>
    have hdigit : n % 10 < 16 := Nat.lt_trans (Nat.mod_lt n (by decide)) (by decide)
    exact made_append.mpr ⟨ih _, .cons (isPlain_digitChar hdigit) .nil⟩

@[simp] theorem plain_text (n : Nat) : Plain (text n) := plain_ofList (made_ofNat n)

@[simp] theorem plain_intText (n : Int64) : Plain (intText n) := by
  apply plain_ofList
  unfold ofInt
  split
  · exact .cons (by decide) (made_ofNat _)
  · exact made_ofNat _

end Digits

theorem Decimal.made_text (d : Decimal) : Made isPlain d.text :=
  made_append.mpr ⟨Digits.made_ofNat _, .cons (by decide) (Digits.made_fixed _ _)⟩

@[simp] theorem Binary64.plain_text (r : Binary64) : Plain r.text := by
  have hwords : Plain "inf" ∧ Plain "-inf" ∧ Plain "NaN" := by decide
  obtain ⟨hinf, hminus, hnan⟩ := hwords
  cases r with
  | finite negative size =>
    apply plain_ofList
    rw [made_append]
    refine ⟨?_, size.decimal.made_text⟩
    cases negative with
    | false => exact .nil
    | true => exact .cons (by decide) .nil
  | infinite negative =>
    cases negative with
    | false => exact hinf
    | true => exact hminus
  | nan => exact hnan

@[simp] theorem Value.plain_text (value : Value) : Plain value.text := by
  cases value with
  | integer n => exact Digits.plain_intText n
  | real r => exact r.plain_text

/-! ## Tokens and trees -/

@[simp] theorem Operator.plain_text (op : Operator) : Plain op.text := by
  apply plain_ofList
  cases op <;> exact .cons (by decide) .nil

@[simp] theorem TokenKind.plain_text (kind : TokenKind) : Plain kind.text := by
  have hwords : Plain "integer" ∧ Plain "'" ∧ Plain "'('" ∧ Plain "')'" ∧ Plain "end of input" := by
    decide
  cases kind <;> simp only [text, plain_append, Operator.plain_text, hwords, and_self]

@[simp] theorem Token.plain_text (token : Token) : Plain token.text := by
  have hwords : Plain "Integer(" ∧ Plain ")" := by decide
  cases token with
  | integer value => simp only [text, plain_append, Digits.plain_intText, hwords, and_self]
  | operator op => exact TokenKind.plain_text (.operator op)
  | leftParen => exact TokenKind.plain_text .leftParen
  | rightParen => exact TokenKind.plain_text .rightParen
  | endOfInput => exact TokenKind.plain_text .endOfInput

theorem plain_separated {separator : String} {texts : List String} (h : Plain separator)
    (htexts : ∀ text ∈ texts, Plain text) : Plain (separated separator texts) := by
  fun_induction separated separator texts with
  | case1 => exact ⟨.nil⟩
  | case2 text => exact htexts text List.mem_cons_self
  | case3 text rest _ ih =>
    obtain ⟨htext, hrest⟩ := List.forall_mem_cons.mp htexts
    exact plain_append.mpr ⟨plain_append.mpr ⟨htext, h⟩, ih hrest⟩

@[simp] theorem Session.plain_tokenText (tokens : List Located) : Plain (tokenText tokens) := by
  have hspace : Plain " " := by decide
  apply plain_separated hspace
  intro text hmem
  obtain ⟨located, -, rfl⟩ := List.mem_map.mp hmem
  exact located.token.plain_text

@[simp] theorem Expr.plain_text (tree : Expr) : Plain tree.text := by
  have hwords : Plain "(" ∧ Plain " " ∧ Plain ")" := by decide
  induction tree with
  | literal value position => exact Digits.plain_intText value
  | binary left op right position ihl ihr =>
    simp only [text, plain_append, Operator.plain_text, ihl, ihr, hwords, and_self]

/-! ## Messages -/

theorem Escape.made_codePoint (c : Char) : Made isPlain (codePoint c) := by
  have hbehind : Made isPlain ['\x7d'] := .cons (by decide) .nil
  have hdigits : Made isPlain ('\x7b' :: Digits.hex c.toNat) :=
    .cons (by decide) (Digits.made_hex _)
  exact made_append.mpr ⟨.cons (by decide) (.cons (by decide) hdigits), hbehind⟩

theorem Escape.made_char (c : Char) : Made isShown (char ['\'', '"'] c) := by
  have hbackslash {d : Char} (h : isPlain d = true) : Made isShown (backslash d) :=
    .of_plain (.cons (by decide) (.cons h .nil))
  fun_cases char ['\'', '"'] c with
  | case1 => exact hbackslash (by decide)
  | case2 => exact hbackslash (by decide)
  | case3 => exact hbackslash (by decide)
  | case4 => exact hbackslash (by decide)
  | case5 _ _ _ _ hquoted =>
    apply hbackslash
    simp only [Bool.or_eq_true, decide_eq_true_eq, List.contains_iff_mem, List.mem_cons,
      List.not_mem_nil, or_false] at hquoted
    rcases hquoted with rfl | rfl | rfl <;> decide
  | case6 _ _ _ _ _ hvisible => exact .cons (isShown_of_isVisible hvisible) .nil
  | case7 => exact .of_plain (made_codePoint c)

theorem shown_inMessage (c : Char) : Shown (Escape.inMessage c) := by
  constructor
  rw [Escape.inMessage, String.toList_ofList]
  exact Escape.made_char c

theorem plain_describeExpected (expected : List TokenKind) : Plain (describeExpected expected) := by
  have hwords : Plain "nothing" ∧ Plain ", " ∧ Plain " or " := by decide
  obtain ⟨hnothing, hcomma, hor⟩ := hwords
  unfold describeExpected
  split
  · exact hnothing
  · rename_i last _
    split
    · exact last.plain_text
    · simp only [plain_append, hor, last.plain_text, and_true]
      apply plain_separated hcomma
      intro text hmem
      obtain ⟨kind, -, rfl⟩ := List.mem_map.mp hmem
      exact kind.plain_text

theorem SyntaxError.plain_message (e : SyntaxError) : Plain e.message := by
  have hwords : Plain "Syntax error at position " ∧ Plain ": Expected " ∧ Plain ", found " ∧
      Plain "." ∧ Plain ": Extra tokens after expression, found " ∧
      Plain ": Parentheses nest deeper than " ∧ Plain " levels." ∧
      Plain "Expression too large at position " ∧ Plain ": A line may hold at most " ∧
      Plain " operators." := by
    decide
  unfold message
  split <;> simp only [plain_append, Digits.plain_text, plain_describeExpected,
    TokenKind.plain_text, hwords, and_self]

theorem RuntimeError.plain_message (e : RuntimeError) : Plain e.message := by
  have hwords : Plain "Division by zero at position " ∧ Plain "." ∧
      Plain "Overflow at position " ∧ Plain ": Result is too large to represent." := by
    decide
  unfold message
  split <;> simp only [plain_append, Digits.plain_text, hwords, and_self]

/-- A lexical error of a line shows a character, or a run of digits as it is written. -/
theorem LexError.shown_message {text : List Char} {e : LexError} (h : e.At text) :
    Shown e.message := by
  have hwords : Plain "Lex error at position " ∧ Plain ": Invalid character '" ∧ Plain "'." ∧
      Plain "Overflow at position " ∧ Plain ": Integer literal " ∧ Plain " is too large." := by
    decide
  obtain ⟨hlex, hinvalid, hquote, hrest⟩ := hwords
  unfold message
  split
  · simp only [shown_append, shown_inMessage, (Digits.plain_text _).shown, hlex.shown,
      hinvalid.shown, hquote.shown, and_self]
  · rename_i literal position
    obtain ⟨⟨_, _, -, -, -, hdigits, -⟩, -⟩ := h
    have hliteral : Plain literal := ⟨fun c hmem => Digits.isPlain_of_isDigit (hdigits c hmem)⟩
    apply Plain.shown
    simp only [plain_append, Digits.plain_text, hliteral, hrest, and_self]

/-- What a line fails with is a message that can be seen. -/
theorem shown_message {line : String} {e : Error} (h : evaluateLine line = .error e) :
    Shown e.message := by
  cases hparse : parseLine line with
  | error e' =>
    rw [evaluateLine, hparse] at h
    cases h
    have hpoints := points_of_parseLine hparse
    cases e with
    | lexical e => exact LexError.shown_message hpoints
    | syntactic e => exact e.plain_message.shown
    | runtime e => exact e.plain_message.shown
  | ok tree =>
    rw [evaluateLine_of_parseLine hparse] at h
    obtain ⟨failure, rfl, -⟩ := Expr.exists_of_answer h
    exact failure.plain_message.shown

/-! ## The lines of an answer -/

namespace Session

/-- Whether a line has a tree. -/
def parses (line : String) : Bool := (parseLine line).isOk

/-- Whether a line is not empty and has tokens, be it none. -/
def tokenizes (line : String) : Bool := !line.isEmpty && (tokenize line).isOk

/-- The number of lines that a line is answered with on the output. -/
def linesShown (o : Options) (line : String) : Nat :=
  (if o.showTokens && tokenizes line then 1 else 0) + (if o.showTree && parses line then 1 else 0) +
    (if verdictOf line = .evaluated then 1 else 0)

/-- Whether a text has so many line feeds, and no other characters than of a kind. -/
def Framed (kind : Char → Bool) (count : Nat) (text : String) : Prop :=
  text.toList.count '\n' = count ∧ ∀ c ∈ text.toList, c = '\n' ∨ kind c = true

namespace Framed
variable {kind : Char → Bool} {count more : Nat} {text other : String}

theorem empty : Framed kind 0 "" := ⟨rfl, nofun⟩

theorem append (h : Framed kind count text) (h' : Framed kind more other) :
    Framed kind (count + more) (text ++ other) := by
  obtain ⟨hcount, hmade⟩ := h
  obtain ⟨hcount', hmade'⟩ := h'
  rw [Framed, String.toList_append, List.count_append, hcount, hcount']
  refine ⟨rfl, fun c hmem => ?_⟩
  rcases List.mem_append.mp hmem with hmem | hmem
  · exact hmade c hmem
  · exact hmade' c hmem

theorem lineOf (h : Made kind text.toList) (hkind : kind '\n' = false) :
    Framed kind 1 (Session.lineOf text) := by
  have hend : "\n".toList = ['\n'] := rfl
  rw [Framed, Session.lineOf, String.toList_append, hend, List.count_append,
    h.count_lineFeed hkind]
  refine ⟨rfl, fun c hmem => ?_⟩
  rcases List.mem_append.mp hmem with hmem | hmem
  · exact .inr (h c hmem)
  · exact .inl (List.mem_singleton.mp hmem)

end Framed

theorem framed_line {text : String} (h : Plain text) : Framed isPlain 1 (lineOf text) :=
  .lineOf h.made (by decide)

section
variable (o : Options) {line : String} (hline : line.isEmpty = false)
include hline

theorem framed_tokensShown :
    Framed isPlain (if o.showTokens && tokenizes line then 1 else 0) (tokensShown o line) := by
  unfold tokensShown tokenizes
  cases o.showTokens with
  | false => exact .empty
  | true =>
    rw [hline]
    cases tokenize line with
    | ok tokens => exact framed_line (plain_tokenText tokens)
    | error e => exact .empty

theorem framed_valueShown :
    Framed isPlain (if verdictOf line = .evaluated then 1 else 0) (valueShown line) := by
  unfold verdictOf valueShown
  rw [hline]
  cases evaluateLine line with
  | ok value => exact framed_line value.plain_text
  | error e => exact .empty

end

theorem framed_treeShown (o : Options) (line : String) :
    Framed isPlain (if o.showTree && parses line then 1 else 0) (treeShown o line) := by
  unfold treeShown parses
  cases o.showTree with
  | false => exact .empty
  | true =>
    cases parseLine line with
    | ok tree => exact framed_line tree.plain_text
    | error e => exact .empty

theorem framed_reply (o : Options) (line : String) :
    Framed isPlain (linesShown o line) (reply o line) := by
  unfold reply linesShown
  cases hline : line.isEmpty with
  | true =>
    -- An empty line is not tried, and it would give neither a tree nor a value.
    obtain rfl : line = "" := String.isEmpty_iff.mp hline
    have hparses : parses "" = false := by decide +kernel
    have hverdict : verdictOf "" ≠ .evaluated := by decide +kernel
    have htokenizes : tokenizes "" = false := rfl
    simp only [hparses, htokenizes, Bool.and_false, if_neg hverdict]
    exact .empty
  | false =>
    exact ((framed_tokensShown o hline).append (framed_treeShown o line)).append
      (framed_valueShown hline)

theorem framed_complaint (line : String) :
    Framed isShown (if verdictOf line = .failed then 1 else 0) (complaint line) := by
  unfold verdictOf complaint
  cases line.isEmpty with
  | true => exact .empty
  | false =>
    simp only [Bool.false_eq_true, if_false]
    cases hvalue : evaluateLine line with
    | ok value => exact .empty
    | error e => exact .lineOf (shown_message hvalue).made (by decide +kernel)

/-! ## A session -/

/-- The number of lines that lines are answered with on the output. -/
def allShown (o : Options) (lines : List String) : Nat :=
  (lines.map verdictOf).count .evaluated + (if o.showTree then lines.countP parses else 0) +
    if o.showTokens then lines.countP tokenizes else 0

theorem allShown_nil (o : Options) : allShown o [] = 0 := by
  simp [allShown]

theorem allShown_cons (o : Options) (line : String) (lines : List String) :
    allShown o (line :: lines) = linesShown o line + allShown o lines := by
  simp only [allShown, linesShown, List.map_cons, List.count_cons, List.countP_cons, beq_iff_eq]
  cases o.showTree <;> cases o.showTokens <;> simp <;> omega

/-- The number of lines that fail. -/
def allFailed (lines : List String) : Nat := (lines.map verdictOf).count .failed

theorem allFailed_cons (line : String) (lines : List String) :
    allFailed (line :: lines) = (if verdictOf line = .failed then 1 else 0) + allFailed lines := by
  simp only [allFailed, List.map_cons, List.count_cons, beq_iff_eq]
  exact Nat.add_comm _ _

/-- The texts that lines are answered with, one behind the other. -/
theorem exists_framed {kind : Char → Bool} {answer : String → String} {count : String → Nat}
    {total : List String → Nat} (hanswer : ∀ line, Framed kind (count line) (answer line))
    (hnil : total [] = 0) (hcons : ∀ line lines, total (line :: lines) = count line + total lines)
    (lines : List String) :
    ∃ text, lines.flatMap (fun line => Bytes.ofString (answer line)) = Bytes.ofString text ∧
      Framed kind (total lines) text := by
  induction lines with
  | nil =>
    rw [hnil]
    exact ⟨"", rfl, .empty⟩
  | cons line lines ih =>
    obtain ⟨text, hbytes, hframed⟩ := ih
    refine ⟨answer line ++ text, ?_, ?_⟩
    · rw [List.flatMap_cons, hbytes, Bytes.ofString_append]
    · rw [hcons]
      exact (hanswer line).append hframed

/-- A session without a greeting and a prompt keeps to its lines, whatever stands in the
text: each failed line is one line of the errors, each value, each tree and each list of
tokens is one line of the output. All else on the output is printable ASCII, and all else
among the errors has a printed form and extends no other character, but for the sound
marks, which stand in a cell of their own. -/
theorem run_framed (showTree showTokens : Bool) (text : String) :
    let o : Options := { showTree, showTokens }
    let lines := linesOf text
    let session := run o none none (Bytes.ofString text)
    ∃ out err summary, session.out = Bytes.ofString out ∧ session.err = Bytes.ofString err ∧
      session.ending = .finished summary ∧
      err.toList.count '\n' = summary.failed ∧
      out.toList.count '\n' =
        summary.evaluated + (if showTree then lines.countP parses else 0) +
          (if showTokens then lines.countP tokenizes else 0) ∧
      (∀ c ∈ out.toList, c = '\n' ∨ isPlain c = true) ∧
      ∀ c ∈ err.toList, c = '\n' ∨
        Unicode.isUnprintable c = false ∧
          (Unicode.isGraphemeExtend c = true → Escape.isSoundMark c = true) := by
  intro o lines session
  obtain ⟨hout, herr, hending⟩ := run_ofString o text
  obtain ⟨out, hbytes, hcount, hplain⟩ :=
    exists_framed (framed_reply o) (allShown_nil o) (allShown_cons o) (linesOf text)
  obtain ⟨err, hbytes', hcount', hshown⟩ :=
    exists_framed framed_complaint rfl allFailed_cons (linesOf text)
  refine ⟨out, err, summaryOf (linesOf text), ?_, herr.trans hbytes', hending, hcount', hcount,
    hplain, ?_⟩
  · have hquiet : bannerText o = "" ∧ promptText o = "" ∧ closingText o = "" := ⟨rfl, rfl, rfl⟩
    simp only [hquiet, Bytes.ofString_empty, List.nil_append, List.append_nil,
      String.empty_append] at hout
    exact hout.trans hbytes
  · intro c hmem
    refine (hshown c hmem).imp id fun hc => ?_
    simp only [isShown, Bool.and_eq_true, Bool.not_eq_true', Bool.or_eq_true] at hc
    obtain ⟨hprinted, hextends⟩ := hc
    refine ⟨hprinted, fun hextend => hextends.resolve_left ?_⟩
    rw [hextend]
    exact Bool.noConfusion

/-- A halfwidth sound mark extends the character before it, and is shown as it is. -/
theorem run_shows_sound_mark :
    let session := run {} none none (Bytes.ofString "\uff9e\n")
    let message := "Lex error at position 0: Invalid character '\uff9e'.\n"
    session.err = Bytes.ofString message ∧ session.ending = .finished ⟨0, 1, 0⟩ ∧
      '\uff9e' ∈ message.toList ∧ Unicode.isGraphemeExtend '\uff9e' = true := by
  decide +kernel

end Session

end LineCalc
