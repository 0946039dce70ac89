import LineCalc.Line
/-
  Records: what each call reports about its work

  A record has a verbosity, the part of the program it comes from and a text.
  Records are no part of a call's work: they are read off its result and off
  the items that its cursor has passed. Every token pulled gives one, an error
  and the end of input give none; a parsed line gives one behind its tokens,
  and an evaluated line one more.
-/

namespace LineCalc

/-- How much a reader of records wants to see, from little to all. -/
inductive Verbosity where
  | info
  | debug
  | trace
  deriving DecidableEq, Repr

namespace Verbosity

/-- The name of a verbosity in a record. -/
def text : Verbosity → String
  | info => "INFO"
  | debug => "DEBUG"
  | trace => "TRACE"

/-- The verbosities in order. -/
def rank : Verbosity → Nat
  | info => 0
  | debug => 1
  | trace => 2

end Verbosity

/-- The parts of the program that report. -/
inductive Part where
  | lexer
  | parser
  | line
  | session
  deriving DecidableEq, Repr

/-- The name of a part in a record. -/
def Part.text : Part → String
  | lexer => "spi::interpreter::lexer"
  | parser => "spi::interpreter::parser::core"
  | line => "spi"
  | session => "spi::repl"

/-- A report. -/
structure Record where
  verbosity : Verbosity
  part : Part
  message : String
  deriving DecidableEq, Repr

namespace Record

/-- A record as one line of text. -/
def text (r : Record) : String :=
  r.verbosity.text ++ " " ++ r.part.text ++ " " ++ r.message

/-- The records that a reader with a verbosity sees. -/
def upTo (v : Verbosity) (records : List Record) : List Record :=
  records.filter fun r => r.verbosity.rank ≤ v.rank

/-- The record of a token pulled. -/
def token (located : Located) : Record :=
  ⟨.trace, .lexer,
    "token " ++ located.token.text ++ " at " ++ Digits.text located.position⟩

/-- The record of a line parsed. -/
def parsed (tree : Expr) : Record := ⟨.debug, .parser, "parsed " ++ tree.text⟩

/-- The record of a line evaluated. -/
def evaluated (tree : Expr) (value : Value) : Record :=
  ⟨.debug, .line, tree.text ++ " evaluated to " ++ value.text⟩

/-- The records of items passed: one for each token. -/
def ofItems (items : List Item) : List Record :=
  items.filterMap fun item => item.token?.map token

end Record

/-! ## The records of each call -/

/-- The items between two places of one line. -/
def Cursor.passed (before after : Cursor) : List Item :=
  before.pending.take (before.pending.length - after.pending.length)

/-- The records of one call of `Cursor.nextToken` or `Cursor.next?`, which
answers at most the first pending item. -/
def Cursor.stepRecords (before : Cursor) : List Record :=
  Record.ofItems (before.pending.take 1)

/-- The records of a call that parses a whole line or a part of one: the tokens
pulled, and the tree if it is a whole line's. -/
def Parser.records (before after : Parser) : List Record :=
  Record.ofItems (before.cursor.passed after.cursor)

/-- The records of `Parser.line`. -/
def Parser.lineRecords (parser : Parser) : List Record :=
  match parser.line with
  | (.ok tree, after) => parser.records after ++ [.parsed tree]
  | (.error _, after) => parser.records after

/-- The records of `Parser.ofSource`: the first token, if it can be pulled. -/
def firstTokenRecords (source : String) : List Record :=
  (Cursor.ofSource source).stepRecords

/-- The records of `tokenize`: the tokens before the first error. -/
def tokenizeRecords (source : String) : List Record :=
  (Item.leadingTokens (Item.ofSource source)).map .token

/-- The records of `parseLine`. -/
def parseLineRecords (source : String) : List Record :=
  firstTokenRecords source ++
    match Parser.ofSource source with
    | .ok parser => parser.lineRecords
    | .error _ => []

/-- The records of `evaluateLine`. -/
def evaluateLineRecords (source : String) : List Record :=
  parseLineRecords source ++
    match parseLine source with
    | .ok tree =>
      match tree.value with
      | .ok value => [.evaluated tree value]
      | .error _ => []
    | .error _ => []

end LineCalc
