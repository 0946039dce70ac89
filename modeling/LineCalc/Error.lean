import LineCalc.Escape
import LineCalc.Token
/-
  Errors: why a line has no value

  An error is a cause with the position it is about. There are three groups,
  one for each stage a line passes through: its tokens, its grammar and its
  evaluation. `Error.message` is the one place where the wording stands,
  `Error.kind` sorts the eight causes into the four kinds that are reported,
  and `Error.detail` lists the fields of an error for a diagnostic record.
-/

namespace LineCalc

/-- Why the text has no token at a position. -/
inductive LexError where
  /-- No token starts with this character. -/
  | invalidCharacter (character : Char) (position : Nat)
  /-- The literal, given as written, exceeds the 64-bit integers. -/
  | overflow (literal : String) (position : Nat)
  deriving DecidableEq, Repr

/-- Why the tokens are not an expression. -/
inductive SyntaxError where
  /-- The token found is none of those that could follow. -/
  | unexpectedToken (found : TokenKind) (expected : List TokenKind) (position : Nat)
  /-- The expression is complete and a token follows it. -/
  | trailingTokens (found : TokenKind) (position : Nat)
  /-- The parenthesis at the position is open inside too many others. -/
  | nestingTooDeep (limit : Nat) (position : Nat)
  /-- The operator at the position is one too many for a line. -/
  | expressionTooLarge (limit : Nat) (position : Nat)
  deriving DecidableEq, Repr

/-- Why the operator at a position has no result. -/
inductive RuntimeError where
  | divisionByZero (position : Nat)
  | overflow (position : Nat)
  deriving DecidableEq, Repr

/-- Any error that a line can end with. -/
inductive Error where
  | lexical (error : LexError)
  | syntactic (error : SyntaxError)
  | runtime (error : RuntimeError)
  deriving DecidableEq, Repr

/-- The four kinds of failure. -/
inductive ErrorKind where
  | lex
  | grammar
  | divisionByZero
  | overflow
  deriving DecidableEq, Repr

/-- The name of a kind of failure. -/
def ErrorKind.text : ErrorKind → String
  | lex => "LexError"
  | grammar => "SyntaxError"
  | divisionByZero => "DivisionByZero"
  | overflow => "Overflow"

/-! ## Positions and kinds -/

/-- The position a lexical error is about. -/
def LexError.position : LexError → Nat
  | invalidCharacter _ position => position
  | overflow _ position => position

/-- The position a syntax error is about. -/
def SyntaxError.position : SyntaxError → Nat
  | unexpectedToken _ _ position => position
  | trailingTokens _ position => position
  | nestingTooDeep _ position => position
  | expressionTooLarge _ position => position

/-- The position of the operator that has no result. -/
def RuntimeError.position : RuntimeError → Nat
  | divisionByZero position => position
  | overflow position => position

/-- The position an error is about. -/
def Error.position : Error → Nat
  | lexical e => e.position
  | syntactic e => e.position
  | runtime e => e.position

/-- The kind of failure an error belongs to. A literal and a result that are
too large are failures of the same kind. -/
def Error.kind : Error → ErrorKind
  | lexical (.invalidCharacter ..) => .lex
  | lexical (.overflow ..) => .overflow
  | syntactic _ => .grammar
  | runtime (.divisionByZero _) => .divisionByZero
  | runtime (.overflow _) => .overflow

/-! ## Messages -/

/-- Texts with a separator between each two. -/
def separated (separator : String) : List String → String
  | [] => ""
  | [text] => text
  | text :: rest => text ++ separator ++ separated separator rest

/-- The expected kinds as they read in a sentence: nothing, `a`, `a or b`,
`a, b or c`. -/
def describeExpected (expected : List TokenKind) : String :=
  match expected.getLast? with
  | none => "nothing"
  | some last =>
    match expected.dropLast with
    | [] => last.text
    | init => separated ", " (init.map TokenKind.text) ++ " or " ++ last.text

/-- The message of a lexical error. -/
def LexError.message : LexError → String
  | invalidCharacter character position =>
    "Lex error at position " ++ Digits.text position ++ ": Invalid character '"
      ++ Escape.inMessage character ++ "'."
  | overflow literal position =>
    "Overflow at position " ++ Digits.text position ++ ": Integer literal "
      ++ literal ++ " is too large."

/-- The message of a syntax error. -/
def SyntaxError.message : SyntaxError → String
  | unexpectedToken found expected position =>
    "Syntax error at position " ++ Digits.text position ++ ": Expected "
      ++ describeExpected expected ++ ", found " ++ found.text ++ "."
  | trailingTokens found position =>
    "Syntax error at position " ++ Digits.text position
      ++ ": Extra tokens after expression, found " ++ found.text ++ "."
  | nestingTooDeep limit position =>
    "Syntax error at position " ++ Digits.text position
      ++ ": Parentheses nest deeper than " ++ Digits.text limit ++ " levels."
  | expressionTooLarge limit position =>
    "Expression too large at position " ++ Digits.text position
      ++ ": A line may hold at most " ++ Digits.text limit ++ " operators."

/-- The message of a runtime error. -/
def RuntimeError.message : RuntimeError → String
  | divisionByZero position =>
    "Division by zero at position " ++ Digits.text position ++ "."
  | overflow position =>
    "Overflow at position " ++ Digits.text position
      ++ ": Result is too large to represent."

/-- The message of an error, one sentence without a line end. -/
def Error.message : Error → String
  | lexical e => e.message
  | syntactic e => e.message
  | runtime e => e.message

/-! ## Diagnostic records -/

/-- A named constructor with its named fields. -/
def withFields (name : String) (fields : List (String × String)) : String :=
  name ++ " \x7b " ++ separated ", " (fields.map fun (field, text) => field ++ ": " ++ text)
    ++ " \x7d"

/-- The fields of a lexical error. -/
def LexError.detail : LexError → String
  | invalidCharacter character position =>
    withFields "InvalidCharacter"
      [("character", Escape.quotedChar character), ("position", Digits.text position)]
  | overflow literal position =>
    withFields "Overflow"
      [("literal", Escape.quotedString literal), ("position", Digits.text position)]

/-- The fields of a syntax error. -/
def SyntaxError.detail : SyntaxError → String
  | unexpectedToken found expected position =>
    withFields "UnexpectedToken"
      [("found", found.name),
        ("expected", "[" ++ separated ", " (expected.map TokenKind.name) ++ "]"),
        ("position", Digits.text position)]
  | trailingTokens found position =>
    withFields "UnexpectedTrailingTokens"
      [("found", found.name), ("position", Digits.text position)]
  | nestingTooDeep limit position =>
    withFields "NestingTooDeep"
      [("limit", Digits.text limit), ("position", Digits.text position)]
  | expressionTooLarge limit position =>
    withFields "ExpressionTooLarge"
      [("limit", Digits.text limit), ("position", Digits.text position)]

/-- The fields of a runtime error. -/
def RuntimeError.detail : RuntimeError → String
  | divisionByZero position =>
    withFields "DivisionByZero" [("position", Digits.text position)]
  | overflow position =>
    withFields "Overflow" [("position", Digits.text position)]

/-- The group, the cause and the fields of an error. -/
def Error.detail : Error → String
  | lexical e => "Lex(" ++ e.detail ++ ")"
  | syntactic e => "Syntax(" ++ e.detail ++ ")"
  | runtime e => "Runtime(" ++ e.detail ++ ")"

end LineCalc
