import LineCalc.Cursor
import LineCalc.Expr
/-
  Parser: expressions from tokens, by recursive descent

  The grammar has two levels of operators:

      expression := product (('+' | '-') product)*
      product    := primary (('*' | '/') primary)*
      primary    := INTEGER | '(' expression ')'

  A parser holds a cursor, the one token it looks at, the number of open
  parentheses and the number of operators taken. Every call answers a result
  and the parser it leaves behind, and it leaves one after an error too: a
  token that could not be pulled keeps the look-ahead, and the counts stay as
  the failed call left them.

  Both limits carry the recursion. A parser that may open `n + 1` more
  parentheses reads the inside of one with `n` left, and a chain of operators
  goes on while the line may hold one more. With none left the answer is the
  error of that limit, so nothing is cut short that the limits allow.
-/

namespace LineCalc

/-- The most parentheses that may be open at once. -/
def maxNesting : Nat := 256

/-- The most operators that a line may hold. -/
def maxOperators : Nat := 4096

/-- The two levels of binary operators. -/
inductive Level where
  | sum
  | product
  deriving DecidableEq, Repr

/-- The level an operator belongs to. -/
def Operator.level : Operator → Level
  | add => .sum
  | sub => .sum
  | mul => .product
  | div => .product

/-- The operator of a level that a token stands for, if it is one. -/
def Token.operatorAt? (level : Level) (token : Token) : Option Operator :=
  token.operator?.filter fun op => op.level = level

/-- A parser in the middle of a line. -/
structure Parser where
  /-- What follows the look-ahead. -/
  cursor : Cursor
  /-- The look-ahead: the token to be taken next. -/
  current : Located
  /-- The number of parentheses open. -/
  depth : Nat
  /-- The number of operators taken. -/
  operators : Nat

/-- The answer of a call, and the parser it leaves behind. -/
abbrev Reply (α : Type) := Except Error α × Parser

/-- Goes on after a success; an error is the answer of the whole. -/
def Reply.andThen {α β : Type} (reply : Reply α) (next : α → Parser → Reply β) : Reply β :=
  match reply with
  | (.ok a, parser) => next a parser
  | (.error e, parser) => (.error e, parser)

@[simp] theorem Reply.andThen_ok {α β : Type} (a : α) (parser : Parser)
    (next : α → Parser → Reply β) : Reply.andThen (.ok a, parser) next = next a parser := rfl

@[simp] theorem Reply.andThen_error {α β : Type} (e : Error) (parser : Parser)
    (next : α → Parser → Reply β) :
    Reply.andThen (.error e, parser) next = (.error e, parser) := rfl

namespace Parser

/-- The parser that looks at the first token of a line. -/
def ofSource (source : String) : Except Error Parser :=
  match (Cursor.ofSource source).nextToken with
  | (.ok first, cursor) => .ok ⟨cursor, first, 0, 0⟩
  | (.error e, _) => .error (.lexical e)

/-! ## Taking tokens -/

/-- Takes the look-ahead, whatever it is, and pulls the next token. If that
fails the look-ahead stays, and the error has been passed. -/
def advance (parser : Parser) : Reply Located :=
  match parser.cursor.nextToken with
  | (.ok next, cursor) => (.ok parser.current, { parser with cursor, current := next })
  | (.error e, cursor) => (.error (.lexical e), { parser with cursor })

/-- The error of a look-ahead that is none of the expected kinds. -/
def unexpected (parser : Parser) (expected : List TokenKind) : Error :=
  .syntactic (.unexpectedToken parser.current.token.kind expected parser.current.position)

/-- Takes the look-ahead if it is of the expected kind. -/
def eat (expected : TokenKind) (parser : Parser) : Reply Located :=
  if parser.current.token.kind = expected then parser.advance
  else (.error (parser.unexpected [expected]), parser)

/-- Counts the operator at a position; it may be one too many. -/
def countOperator (position : Nat) (parser : Parser) : Reply Unit :=
  let counted := { parser with operators := parser.operators + 1 }
  if counted.operators > maxOperators then
    (.error (.syntactic (.expressionTooLarge maxOperators position)), counted)
  else (.ok (), counted)

/-! ## Chains of operators -/

/-- The rest of a chain: as long as the look-ahead is an operator of the level,
takes it and the operand behind it, and joins them to what stands left. -/
def chainRest (level : Level) (operand : Parser → Reply Expr) :
    Nat → Expr → Parser → Reply Expr
  | room, left, parser =>
    match parser.current.token.operatorAt? level with
    | none => (.ok left, parser)
    | some op =>
      Reply.andThen parser.advance fun taken parser =>
        match room with
        | 0 =>
          (.error (.syntactic (.expressionTooLarge maxOperators taken.position)),
            { parser with operators := parser.operators + 1 })
        | room + 1 =>
          Reply.andThen (parser.countOperator taken.position) fun _ parser =>
            Reply.andThen (operand parser) fun right parser =>
              chainRest level operand room (.binary left op right taken.position) parser

/-- A chain: operands with operators of one level between them, grouped to the
left. -/
def chain (level : Level) (operand : Parser → Reply Expr) (parser : Parser) : Reply Expr :=
  Reply.andThen (operand parser) fun left parser =>
    chainRest level operand (maxOperators - parser.operators) left parser

/-! ## The grammar -/

/-- A primary where `nesting` more parentheses may be opened: a literal, or an
expression in parentheses. -/
def primaryWithin : Nat → Parser → Reply Expr
  | nesting, parser =>
    match parser.current.token with
    | .integer value =>
      Reply.andThen (parser.eat .integer) fun taken parser =>
        (.ok (.literal value taken.position), parser)
    | .leftParen =>
      Reply.andThen (parser.eat .leftParen) fun taken parser =>
        let opened := { parser with depth := parser.depth + 1 }
        match nesting with
        | 0 => (.error (.syntactic (.nestingTooDeep maxNesting taken.position)), opened)
        | nesting + 1 =>
          Reply.andThen (chain .sum (chain .product (primaryWithin nesting)) opened)
            fun inner parser =>
              Reply.andThen (parser.eat .rightParen) fun _ parser =>
                (.ok inner, { parser with depth := parser.depth - 1 })
    | .operator _ | .rightParen | .endOfInput =>
      (.error (parser.unexpected [.integer, .leftParen]), parser)

/-- The number of parentheses that may still be opened. -/
def nesting (parser : Parser) : Nat := maxNesting - parser.depth

/-- A literal, or an expression in parentheses. -/
def primary (parser : Parser) : Reply Expr :=
  primaryWithin parser.nesting parser

/-- Primaries joined by `*` and `/`. -/
def product (parser : Parser) : Reply Expr :=
  chain .product (primaryWithin parser.nesting) parser

/-- Products joined by `+` and `-`. -/
def expression (parser : Parser) : Reply Expr :=
  chain .sum (chain .product (primaryWithin parser.nesting)) parser

/-- A whole line: an expression and nothing behind it. -/
def line (parser : Parser) : Reply Expr :=
  Reply.andThen parser.expression fun tree parser =>
    match parser.current.token with
    | .endOfInput => (.ok tree, parser)
    | token =>
      (.error (.syntactic (.trailingTokens token.kind parser.current.position)), parser)

end Parser

/-- The tree of a line, or its first error. -/
def parseLine (source : String) : Except Error Expr :=
  match Parser.ofSource source with
  | .ok parser => parser.line.1
  | .error e => .error e

end LineCalc
