import LineCalc.Bytes
import LineCalc.Record
/-
  Sessions: a line in, an answer out, until the input ends

  A session is a list of events: text for the output, text for the errors, and
  records. Every non-empty line is answered by itself. Its tokens and its tree
  are shown on request, then its value goes to the output, or its error to the
  errors. `Session.script` is everything a session over some input does when
  every write succeeds, and how it ends: with a summary, or at the first line
  that is not UTF-8.
-/

namespace LineCalc

namespace Session

/-- What a session shows besides values and errors. -/
structure Options where
  /-- Shown once, before the first line. -/
  banner : Option String := none
  /-- Shown before each line is read. -/
  prompt : Option String := none
  /-- Whether each tree is shown before its value. -/
  showTree : Bool := false
  /-- Whether the tokens of each line are shown before its value. -/
  showTokens : Bool := false

/-- A thing that a session does. -/
inductive Event where
  | out (text : String)
  | err (text : String)
  | log (record : Record)
  deriving DecidableEq, Repr

/-- What became of a line. -/
inductive Verdict where
  | evaluated
  | failed
  | skipped
  deriving DecidableEq, Repr

/-- The number of lines of each verdict. -/
structure Summary where
  evaluated : Nat := 0
  failed : Nat := 0
  skipped : Nat := 0
  deriving DecidableEq, Repr

/-- The summary after one more line. -/
def Summary.count (s : Summary) : Verdict → Summary
  | .evaluated => { s with evaluated := s.evaluated + 1 }
  | .failed => { s with failed := s.failed + 1 }
  | .skipped => { s with skipped := s.skipped + 1 }

/-- Why a session ended early. -/
inductive Problem where
  | notUtf8
  | writeLimit
  deriving DecidableEq, Repr

/-- The message of a problem. -/
def Problem.message : Problem → String
  | notUtf8 => "stream did not contain valid UTF-8"
  | writeLimit => "write limit reached"

/-- How a session ended. -/
inductive Ending where
  | finished (summary : Summary)
  | stopped (problem : Problem)
  deriving DecidableEq, Repr

/-! ## One line -/

/-- A text and a line end. -/
def lineOf (text : String) : String := text ++ "\n"

/-- A record of the session itself. -/
def report (verbosity : Verbosity) (message : String) : Event :=
  .log ⟨verbosity, .session, message⟩

/-- The events of records. -/
def logs (records : List Record) : List Event := records.map .log

/-- The beginning of every record about a line. -/
def lineLabel (number : Nat) : String := "line " ++ Digits.text number ++ ": "

/-- Shows the error of a line, behind a record of its fields. -/
def failure (number : Nat) (e : Error) : List Event :=
  [report .debug (lineLabel number ++ e.kind.text ++ " (" ++ e.detail ++ ")"),
    .err (lineOf e.message)]

/-- The tokens of a line on one line. -/
def tokenText (tokens : List Located) : String :=
  separated " " (tokens.map fun located => located.token.text)

/-- Shows the tokens of a line, if there is no lexical error in it. -/
def showTokens (source : String) : List Event :=
  logs (tokenizeRecords source) ++
    match tokenize source with
    | .ok tokens => [.out (lineOf (tokenText tokens))]
    | .error _ => []

/-- Answers a line that is not empty. -/
def answer (o : Options) (number : Nat) (source : String) : List Event × Verdict :=
  let before :=
    (if o.showTokens then showTokens source else []) ++ logs (parseLineRecords source)
  match parseLine source with
  | .error e => (before ++ failure number e, .failed)
  | .ok tree =>
    let shown := before ++ if o.showTree then [.out (lineOf tree.text)] else []
    match tree.value with
    | .ok value => (shown ++ [.out (lineOf value.text)], .evaluated)
    | .error e => (shown ++ failure number (.runtime e), .failed)

/-- A line without the line feeds and carriage returns at its end. -/
def trimEnd (source : String) : String :=
  String.ofList (source.toList.reverse.dropWhile fun c => c = '\n' || c = '\r').reverse

/-- Answers a line as it was read. An empty line is skipped. -/
def turn (o : Options) (number : Nat) (source : String) : List Event × Verdict :=
  if (trimEnd source).isEmpty then
    ([report .debug (lineLabel number ++ "empty, skipped")], .skipped)
  else answer o number (trimEnd source)

/-! ## A whole session -/

/-- What comes before the first line. -/
def opening (o : Options) : List Event :=
  report .info "session started" ::
    match o.banner with
    | some banner => [.out (lineOf banner)]
    | none => []

/-- What comes before each line, and before the end of the input. -/
def prompt (o : Options) : List Event :=
  match o.prompt with
  | some text => [.out text]
  | none => []

/-- What comes behind the last line: a prompt without an answer is ended by a
line end of its own. -/
def closing (o : Options) (s : Summary) : List Event :=
  (match o.prompt with
    | some _ => [.out "\n"]
    | none => []) ++
  [report .info
    ("session ended: " ++ Digits.text s.evaluated ++ " evaluated, " ++ Digits.text s.failed
      ++ " failed, " ++ Digits.text s.skipped ++ " skipped")]

/-- What a session does about the bytes of a line, and the summary with which it goes on,
or how it ends there. -/
def step (o : Options) (number : Nat) (summary : Summary) (line : Bytes) :
    List Event × Except Ending Summary :=
  match Bytes.toString? line with
  | none => ([], .error (.stopped .notUtf8))
  | some source =>
    let answered := turn o number source
    (answered.1, .ok (summary.count answered.2))

/-- The events of the lines from one on, and how the session ends. -/
def turns (o : Options) : Nat → Summary → List Bytes → List Event × Ending
  | _, summary, [] => (prompt o ++ closing o summary, .finished summary)
  | number, summary, line :: rest =>
    match step o number summary line with
    | (events, .error ending) => (prompt o ++ events, ending)
    | (events, .ok counted) =>
      let later := turns o (number + 1) counted rest
      (prompt o ++ events ++ later.1, later.2)

/-- Everything that a session over an input does, and how it ends. -/
def script (o : Options) (input : Bytes) : List Event × Ending :=
  let all := turns o 1 {} (Bytes.lines input)
  (opening o ++ all.1, all.2)

end Session

end LineCalc
