import LineCalc.Digits
/-
  Tokens

  A line is made of integer literals, the four operators and parentheses. A
  literal token carries its value, an operator token its operator. The end of
  the line is a token too: it is what a reader sees behind the last one.
  `TokenKind` is a token without the value of its literal.
-/

namespace LineCalc

/-- The four binary operators. -/
inductive Operator where
  | add
  | sub
  | mul
  | div
  deriving DecidableEq, Repr

namespace Operator

/-- The character an operator is written with. -/
def symbol : Operator → Char
  | add => '+'
  | sub => '-'
  | mul => '*'
  | div => '/'

/-- The text of an operator. -/
def text (op : Operator) : String := String.ofList [op.symbol]

/-- The operator a character denotes. -/
def ofChar? : Char → Option Operator
  | '+' => some add
  | '-' => some sub
  | '*' => some mul
  | '/' => some div
  | _ => none

theorem ofChar?_symbol (op : Operator) : ofChar? op.symbol = some op := by
  cases op <;> rfl

/-- A character denotes no operator but the one it is the symbol of. -/
theorem symbol_of_ofChar? {c : Char} {op : Operator} (h : ofChar? c = some op) :
    op.symbol = c := by
  unfold ofChar? at h
  split at h <;> cases h <;> rfl

end Operator

/-- A unit of the input, or its end. -/
inductive Token where
  | integer (value : Int64)
  | operator (op : Operator)
  | leftParen
  | rightParen
  | endOfInput
  deriving DecidableEq, Repr

/-- The kind of a token: what it is, without the value of a literal. -/
inductive TokenKind where
  | integer
  | operator (op : Operator)
  | leftParen
  | rightParen
  | endOfInput
  deriving DecidableEq, Repr

namespace TokenKind

/-- How a kind reads in a message. -/
def text : TokenKind → String
  | integer => "integer"
  | operator op => "'" ++ op.text ++ "'"
  | leftParen => "'('"
  | rightParen => "')'"
  | endOfInput => "end of input"

/-- The name of a kind in a diagnostic record. -/
def name : TokenKind → String
  | integer => "Integer"
  | operator .add => "Plus"
  | operator .sub => "Minus"
  | operator .mul => "Multiply"
  | operator .div => "Divide"
  | leftParen => "LeftParen"
  | rightParen => "RightParen"
  | endOfInput => "EndOfInput"

end TokenKind

namespace Token

/-- The kind of a token. -/
def kind : Token → TokenKind
  | integer _ => .integer
  | operator op => .operator op
  | leftParen => .leftParen
  | rightParen => .rightParen
  | endOfInput => .endOfInput

/-- How a token prints: a literal shows its value, any other token its kind. -/
def text : Token → String
  | integer value => "Integer(" ++ Digits.intText value ++ ")"
  | token => token.kind.text

/-- The operator that a token stands for, if it is one. -/
def operator? : Token → Option Operator
  | operator op => some op
  | _ => none

/-- The token that a single character makes, digits apart. -/
def ofChar? (c : Char) : Option Token :=
  if c = '(' then some leftParen
  else if c = ')' then some rightParen
  else (Operator.ofChar? c).map operator

end Token

/-- A token and the number of characters before it. -/
structure Located where
  token : Token
  position : Nat
  deriving DecidableEq, Repr

end LineCalc
