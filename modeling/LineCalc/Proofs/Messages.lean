import LineCalc.Proofs.Decoding
/-
  Messages: the message of an error holds all of it

  A message says where the error is, in digits before which there are none, then what
  is the matter, in words that are different for each of the eight causes, and then
  the fields of the cause: a character as it is shown, a literal as it is written,
  kinds of tokens, or a limit. `Error.ofMessage?` reads them back. In a sentence about
  kinds of tokens the words between them tell nothing: the last kind is the one found
  and those before it were expected.

  What is proved:
    1. `Escape.ofShown?_inMessage` — a character is known from how it is shown;
    2. `kindsOf_describeExpected` — the expected kinds are known from their sentence;
    3. `Error.message_determines` — an error is read back from its message.
-/

namespace LineCalc

/-! ## Characters -/

/-- The character that is shown so, if it is one. -/
def Escape.ofShown? : List Char → Option Char
  | [c] => some c
  | ['\\', '0'] => some '\x00'
  | ['\\', 't'] => some '\t'
  | ['\\', 'r'] => some '\r'
  | ['\\', 'n'] => some '\n'
  | ['\\', c] => some c
  | '\\' :: 'u' :: '\x7b' :: digits => some (Char.ofNat (Digits.ofHex digits.dropLast))
  | _ => none

theorem Escape.ofShown?_inMessage (c : Char) : ofShown? (inMessage c).toList = some c := by
  rw [inMessage, String.toList_ofList]
  fun_cases char ['\'', '"'] c with
  | case1 h => rw [h]; rfl
  | case2 _ h => rw [h]; rfl
  | case3 _ _ h => rw [h]; rfl
  | case4 _ _ _ h => rw [h]; rfl
  | case5 _ _ _ _ hquoted =>
    simp only [Bool.or_eq_true, decide_eq_true_eq, List.contains_iff_mem, List.mem_cons,
      List.not_mem_nil, or_false] at hquoted
    rcases hquoted with rfl | rfl | rfl <;> rfl
  | case6 => rfl
  | case7 =>
    have hdigits : (Digits.hex c.toNat ++ ['\x7d']).dropLast = Digits.hex c.toNat :=
      List.dropLast_concat
    show some (Char.ofNat (Digits.ofHex (Digits.hex c.toNat ++ ['\x7d']).dropLast)) = some c
    rw [hdigits, Digits.ofHex_hex, Char.ofNat_toNat]

/-! ## Kinds of tokens -/

/-- The kind that a word stands for, if it is one. The end of the input has three words,
and the first of them stands for it. -/
def TokenKind.ofWord? : List Char → Option TokenKind
  | ['\'', '(', '\''] => some leftParen
  | ['\'', ')', '\''] => some rightParen
  | ['\'', c, '\''] => (Operator.ofChar? c).map operator
  | ['i', 'n', 't', 'e', 'g', 'e', 'r'] => some integer
  | ['e', 'n', 'd'] => some endOfInput
  | _ => none

/-- The kinds of tokens that a text tells of, one after the other. -/
def kindsOf (text : List Char) : List TokenKind :=
  (wordsOf (· == ',') text).filterMap TokenKind.ofWord?

theorem kindsOf_space (text more : List Char) :
    kindsOf (text ++ ' ' :: more) = kindsOf text ++ kindsOf more := by
  rw [kindsOf, wordsOf_space rfl, List.filterMap_append]
  rfl

theorem kindsOf_comma (text : List Char) : kindsOf (text ++ [',']) = kindsOf text := by
  rw [kindsOf, wordsOf_concat rfl]
  rfl

theorem kindsOf_text (kind : TokenKind) : kindsOf kind.text.toList = [kind] := by
  cases kind with
  | operator op => cases op <;> rfl
  | integer => rfl
  | leftParen => rfl
  | rightParen => rfl
  | endOfInput => rfl

theorem TokenKind.text_injective {kind other : TokenKind} (h : kind.text = other.text) :
    kind = other := by
  have hkinds := kindsOf_text kind
  rw [h, kindsOf_text other] at hkinds
  exact (List.cons.inj hkinds).1.symm

theorem kindsOf_separated (kinds : List TokenKind) :
    kindsOf (separated ", " (kinds.map TokenKind.text)).toList = kinds := by
  induction kinds with
  | nil => rfl
  | cons kind rest ih =>
    cases rest with
    | nil => exact kindsOf_text kind
    | cons next rest =>
      have htext : (separated ", " ((kind :: next :: rest).map TokenKind.text)).toList =
          (kind.text.toList ++ [',']) ++
            ' ' :: (separated ", " ((next :: rest).map TokenKind.text)).toList := by
        simp [separated, String.toList_append]
      rw [htext, kindsOf_space, kindsOf_comma, kindsOf_text, ih]
      rfl

/-- A sentence about expected kinds tells of just these, be it of none. -/
theorem kindsOf_describeExpected (expected : List TokenKind) :
    kindsOf (describeExpected expected).toList = expected := by
  unfold describeExpected
  split
  · rename_i hlast
    rw [List.getLast?_eq_none_iff.mp hlast]
    rfl
  · rename_i last hlast
    obtain ⟨front, rfl⟩ := List.getLast?_eq_some_iff.mp hlast
    rw [List.dropLast_concat]
    split
    · exact kindsOf_text last
    · have htext : (separated ", " (front.map TokenKind.text) ++ " or " ++ last.text).toList =
          (separated ", " (front.map TokenKind.text)).toList ++
            ' ' :: (['o', 'r'] ++ ' ' :: last.text.toList) := by
        simp [String.toList_append]
      have hor : kindsOf ['o', 'r'] = [] := rfl
      rw [htext, kindsOf_space, kindsOf_space, kindsOf_separated, kindsOf_text, hor]
      rfl

/-! ## Numbers -/

theorem Digits.dropWhile_not_isDigit (n : Nat) {front : List Char} (text : List Char)
    (hfront : ∀ c ∈ front, c.isDigit = false) :
    (front ++ (ofNat n ++ text)).dropWhile (fun c => !c.isDigit) = ofNat n ++ text := by
  rw [List.dropWhile_append_of_pos (by simpa using hfront)]
  obtain ⟨c, run, hrun⟩ := List.exists_cons_of_ne_nil (ofNat_ne_nil n)
  have hc : c.isDigit = true := isDigit_of_mem_ofNat (hrun ▸ List.mem_cons_self)
  rw [hrun]
  simp [hc]

theorem Digits.takeWhile_isDigit (n : Nat) {text : List Char}
    (htext : ∀ c ∈ text.head?, c.isDigit = false) :
    (ofNat n ++ text).takeWhile Char.isDigit = ofNat n := by
  rw [List.takeWhile_append_of_pos fun c hmem => isDigit_of_mem_ofNat hmem,
    takeWhile_eq_nil htext, List.append_nil]

theorem Digits.dropWhile_isDigit (n : Nat) {text : List Char}
    (htext : ∀ c ∈ text.head?, c.isDigit = false) :
    (ofNat n ++ text).dropWhile Char.isDigit = text := by
  rw [List.dropWhile_append_of_pos fun c hmem => isDigit_of_mem_ofNat hmem,
    dropWhile_eq_self htext]

/-! ## Causes -/

/-- What is the matter, apart from the place and the fields. -/
inductive Cause where
  | invalidCharacter
  | literalTooLarge
  | unexpectedToken
  | trailingTokens
  | nestingTooDeep
  | expressionTooLarge
  | divisionByZero
  | resultTooLarge

namespace Cause

/-- The words before the position. -/
def opening : Cause → String
  | invalidCharacter => "Lex error at position "
  | literalTooLarge => "Overflow at position "
  | unexpectedToken => "Syntax error at position "
  | trailingTokens => "Syntax error at position "
  | nestingTooDeep => "Syntax error at position "
  | expressionTooLarge => "Expression too large at position "
  | divisionByZero => "Division by zero at position "
  | resultTooLarge => "Overflow at position "

/-- The words between the position and the fields. -/
def matter : Cause → String
  | invalidCharacter => ": Invalid character '"
  | literalTooLarge => ": Integer literal "
  | unexpectedToken => ": Expected "
  | trailingTokens => ": Extra tokens after expression, found "
  | nestingTooDeep => ": Parentheses nest deeper than "
  | expressionTooLarge => ": A line may hold at most "
  | divisionByZero => "."
  | resultTooLarge => ": Result is too large to represent."

/-- The words behind the fields. -/
def ending : Cause → String
  | invalidCharacter => "'."
  | literalTooLarge => " is too large."
  | unexpectedToken => "."
  | trailingTokens => "."
  | nestingTooDeep => " levels."
  | expressionTooLarge => " operators."
  | divisionByZero => ""
  | resultTooLarge => ""

/-- The cause that a text behind a position begins to tell, if it is one. -/
def ofMatter? : List Char → Option Cause
  | '.' :: _ => some divisionByZero
  | ':' :: ' ' :: 'A' :: _ => some expressionTooLarge
  | ':' :: ' ' :: 'P' :: _ => some nestingTooDeep
  | ':' :: ' ' :: 'R' :: _ => some resultTooLarge
  | ':' :: ' ' :: 'I' :: 'n' :: 'v' :: _ => some invalidCharacter
  | ':' :: ' ' :: 'I' :: 'n' :: 't' :: _ => some literalTooLarge
  | ':' :: ' ' :: 'E' :: 'x' :: 'p' :: _ => some unexpectedToken
  | ':' :: ' ' :: 'E' :: 'x' :: 't' :: _ => some trailingTokens
  | _ => none

theorem ofMatter?_matter (cause : Cause) (text : List Char) :
    ofMatter? (cause.matter.toList ++ text) = some cause := by
  cases cause <;> rfl

theorem not_isDigit_matter (cause : Cause) (text : List Char) :
    ∀ c ∈ (cause.matter.toList ++ text).head?, c.isDigit = false := by
  intro c hc
  cases cause <;> cases hc <;> rfl

theorem not_isDigit_opening (cause : Cause) : ∀ c ∈ cause.opening.toList, c.isDigit = false := by
  have hall : cause.opening.toList.all (fun c => !c.isDigit) = true := by
    cases cause <;> rfl
  intro c hmem
  simpa using List.all_eq_true.mp hall c hmem

/-- The error of a cause at a position, from the text of its fields. -/
def error? (cause : Cause) (position : Nat) (fields : List Char) : Option Error :=
  match cause with
  | invalidCharacter =>
    (Escape.ofShown? fields).map fun character => .lexical (.invalidCharacter character position)
  | literalTooLarge => some (.lexical (.overflow (String.ofList fields) position))
  | unexpectedToken =>
    (kindsOf fields).getLast?.map fun found =>
      .syntactic (.unexpectedToken found (kindsOf fields).dropLast position)
  | trailingTokens =>
    (kindsOf fields).getLast?.map fun found => .syntactic (.trailingTokens found position)
  | nestingTooDeep => some (.syntactic (.nestingTooDeep (Digits.toNat fields) position))
  | expressionTooLarge => some (.syntactic (.expressionTooLarge (Digits.toNat fields) position))
  | divisionByZero => some (.runtime (.divisionByZero position))
  | resultTooLarge => some (.runtime (.overflow position))

end Cause

namespace Error

/-- The cause of an error. -/
def cause : Error → Cause
  | lexical (.invalidCharacter ..) => .invalidCharacter
  | lexical (.overflow ..) => .literalTooLarge
  | syntactic (.unexpectedToken ..) => .unexpectedToken
  | syntactic (.trailingTokens ..) => .trailingTokens
  | syntactic (.nestingTooDeep ..) => .nestingTooDeep
  | syntactic (.expressionTooLarge ..) => .expressionTooLarge
  | runtime (.divisionByZero _) => .divisionByZero
  | runtime (.overflow _) => .resultTooLarge

/-- The fields of an error, the position apart, as the message shows them. -/
def fields : Error → String
  | lexical (.invalidCharacter character _) => Escape.inMessage character
  | lexical (.overflow literal _) => literal
  | syntactic (.unexpectedToken found expected _) =>
    describeExpected expected ++ ", found " ++ found.text
  | syntactic (.trailingTokens found _) => found.text
  | syntactic (.nestingTooDeep limit _) => Digits.text limit
  | syntactic (.expressionTooLarge limit _) => Digits.text limit
  | runtime _ => ""

/-- Every message is made of the words of its cause, the position and the fields. -/
theorem message_eq (e : Error) :
    e.message = e.cause.opening ++ Digits.text e.position ++ e.cause.matter ++ e.fields ++
      e.cause.ending := by
  have hphrase (front a b c d : String) :
      front ++ a ++ b ++ c ++ d = front ++ (a ++ b ++ c) ++ d := by
    simp only [String.append_assoc]
  have hnone (front : String) : front = front ++ "" ++ "" := by
    simp only [String.append_empty]
  rcases e with (e | e) | (e | e | e | e) | (e | e)
  · rfl
  · rfl
  · exact hphrase _ _ _ _ _
  · rfl
  · rfl
  · rfl
  · exact hnone _
  · exact hnone _

theorem kindsOf_unexpected (found : TokenKind) (expected : List TokenKind) :
    kindsOf (describeExpected expected ++ ", found " ++ found.text).toList =
      expected ++ [found] := by
  have htext : (describeExpected expected ++ ", found " ++ found.text).toList =
      ((describeExpected expected).toList ++ [',']) ++
        ' ' :: (['f', 'o', 'u', 'n', 'd'] ++ ' ' :: found.text.toList) := by
    simp [String.toList_append]
  have hfound : kindsOf ['f', 'o', 'u', 'n', 'd'] = [] := rfl
  rw [htext, kindsOf_space, kindsOf_space, kindsOf_comma, kindsOf_describeExpected, kindsOf_text,
    hfound]
  rfl

theorem error?_fields (e : Error) : e.cause.error? e.position e.fields.toList = some e := by
  have hlimit (limit : Nat) : Digits.toNat (Digits.text limit).toList = limit := by
    rw [Digits.text, String.toList_ofList, Digits.toNat_ofNat]
  rcases e with (⟨character, position⟩ | ⟨literal, position⟩) |
    (⟨found, expected, position⟩ | ⟨found, position⟩ | ⟨limit, position⟩ | ⟨limit, position⟩) |
    (position | position)
  · simp only [cause, fields, Cause.error?, Escape.ofShown?_inMessage, Option.map_some]
    rfl
  · simp only [cause, fields, Cause.error?, String.ofList_toList]
    rfl
  · simp only [cause, fields, Cause.error?, kindsOf_unexpected, List.getLast?_concat,
      List.dropLast_concat, Option.map_some]
    rfl
  · simp only [cause, fields, Cause.error?, kindsOf_text]
    rfl
  · simp only [cause, fields, Cause.error?, hlimit]
    rfl
  · simp only [cause, fields, Cause.error?, hlimit]
    rfl
  · rfl
  · rfl

/-- The error that a message tells of, if it tells of one: the position is the first run
of digits, and the words behind it are those of the cause. -/
def ofMessage? (message : String) : Option Error :=
  let numbered := message.toList.dropWhile fun c => !c.isDigit
  let behind := numbered.dropWhile Char.isDigit
  (Cause.ofMatter? behind).bind fun cause =>
    let told := behind.drop cause.matter.length
    cause.error? (Digits.toNat (numbered.takeWhile Char.isDigit))
      (told.take (told.length - cause.ending.length))

theorem ofMessage?_message (e : Error) : ofMessage? e.message = some e := by
  have htext : e.message.toList = e.cause.opening.toList ++ (Digits.ofNat e.position ++
      (e.cause.matter.toList ++ (e.fields.toList ++ e.cause.ending.toList))) := by
    rw [message_eq]
    simp only [String.toList_append, Digits.text, String.toList_ofList, List.append_assoc]
  -- No digit stands before the position, and none is next to it.
  have hbehind := e.cause.not_isDigit_matter (e.fields.toList ++ e.cause.ending.toList)
  simp only [ofMessage?, htext, Digits.dropWhile_not_isDigit _ _ e.cause.not_isDigit_opening,
    Digits.takeWhile_isDigit _ hbehind, Digits.dropWhile_isDigit _ hbehind, Digits.toNat_ofNat,
    Cause.ofMatter?_matter, Option.bind_some]
  have htold : (e.cause.matter.toList ++ (e.fields.toList ++ e.cause.ending.toList)).drop
      e.cause.matter.length = e.fields.toList ++ e.cause.ending.toList :=
    List.drop_left' String.length_toList
  have hfields : (e.fields.toList ++ e.cause.ending.toList).take
      ((e.fields.toList ++ e.cause.ending.toList).length - e.cause.ending.length) =
        e.fields.toList := by
    apply List.take_left'
    simp only [List.length_append, String.length_toList]
    omega
  rw [htold, hfields]
  exact error?_fields e

/-- An error is read back from its message with all its fields, so two errors have the
same message only if they are the same. -/
theorem message_determines :
    (∀ e : Error, ofMessage? e.message = some e) ∧
      ∀ e other : Error, e.message = other.message ↔ e = other := by
  refine ⟨ofMessage?_message, ?_⟩
  intro e other
  constructor
  · intro h
    have hread := congrArg ofMessage? h
    rw [ofMessage?_message, ofMessage?_message] at hread
    exact Option.some.inj hread
  · intro h
    rw [h]

example : ofMessage? "Syntax error at position 7: Expected nothing, found ')'." =
    some (.syntactic (.unexpectedToken .rightParen [] 7)) := by
  decide

end Error

end LineCalc
