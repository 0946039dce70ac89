import LineCalc.Error
/-
  Items: a line cut into tokens and lexical errors

  `Item.ofSource` lists everything that a line holds besides blanks, from left
  to right: a token for each operator, parenthesis and run of digits, and an
  error for each character that starts no token and for each run of digits
  that exceeds the 64-bit integers. Every item knows the number of characters
  before it, and an error covers no more than its own character or run, so the
  items behind an error are there as well.

  `Item.tokens` is the list of tokens if no item is an error, and otherwise the
  first error.
-/

namespace LineCalc

/-- A token of a line with its position, or a lexical error. -/
abbrev Item := Except LexError Located

/-- Results are equal if they hold the same. -/
instance decidableEqExcept {ε α : Type} [DecidableEq ε] [DecidableEq α] :
    DecidableEq (Except ε α)
  | .ok a, .ok b =>
    if h : a = b then isTrue (congrArg Except.ok h) else isFalse fun heq => h (Except.ok.inj heq)
  | .error a, .error b =>
    if h : a = b then isTrue (congrArg Except.error h)
    else isFalse fun heq => h (Except.error.inj heq)
  | .ok _, .error _ => isFalse fun heq => by cases heq
  | .error _, .ok _ => isFalse fun heq => by cases heq

/-- Whether a character only separates tokens: space, tab, carriage return,
line feed, vertical tab or form feed. -/
def isBlank (c : Char) : Bool :=
  c = ' ' || c = '\t' || c = '\r' || c = '\n' || c = '\x0b' || c = '\x0c'

/-- The largest 64-bit integer. -/
def maxInteger : Nat := 2 ^ 63 - 1

namespace Item

/-- The item of a run of digits. Leading zeros count for nothing. -/
def ofDigits (run : List Char) (position : Nat) : Item :=
  if Digits.toNat run ≤ maxInteger then
    .ok ⟨.integer (Int64.ofInt (Digits.toNat run)), position⟩
  else
    .error (.overflow (String.ofList run) position)

/-- The item of a single character that is neither a blank nor a digit. -/
def ofChar (c : Char) (position : Nat) : Item :=
  match Token.ofChar? c with
  | some token => .ok ⟨token, position⟩
  | none => .error (.invalidCharacter c position)

/-- The items of a text that starts at a position. A digit takes the whole run
of digits it begins. -/
def ofChars (position : Nat) : List Char → List Item
  | [] => []
  | c :: rest =>
    if isBlank c then ofChars (position + 1) rest
    else if c.isDigit then
      ofDigits (c :: rest.takeWhile Char.isDigit) position
        :: ofChars (position + 1 + (rest.takeWhile Char.isDigit).length)
          (rest.dropWhile Char.isDigit)
    else ofChar c position :: ofChars (position + 1) rest
termination_by cs => cs.length
decreasing_by
  all_goals simp only [List.length_cons]
  · omega
  · have : (rest.dropWhile Char.isDigit).length ≤ rest.length :=
      (List.dropWhile_suffix Char.isDigit).length_le
    omega
  · omega

/-- The items of a line. -/
def ofSource (source : String) : List Item := ofChars 0 source.toList

/-- The token of an item, if it is one. -/
def token? : Item → Option Located
  | .ok located => some located
  | .error _ => none

/-- The tokens of a list of items, or its first error. -/
def tokens : List Item → Except LexError (List Located)
  | [] => .ok []
  | .error e :: _ => .error e
  | .ok located :: rest =>
    match tokens rest with
    | .ok others => .ok (located :: others)
    | .error e => .error e

/-- The tokens before the first error. -/
def leadingTokens : List Item → List Located
  | .ok located :: rest => located :: leadingTokens rest
  | _ => []

end Item

end LineCalc
