import LineCalc.CommandLine.Arguments
import LineCalc.CommandLine.Directory
import LineCalc.Session.Delivery
/-
  Program: from arguments, files and standard input to an answer

  `CommandLine.run` is the whole program over a directory of files and an input
  that is no terminal: an exit code and the bytes of its two streams. Help and
  version leave 0, a session that ends leaves 0, one that is stopped leaves 1,
  and so does a file that cannot be read; misused arguments leave 2.
-/

namespace LineCalc

namespace CommandLine

/-! ## Texts -/

/-- The version of the program. -/
def versionText : String := "spi 0.1.0\n"

/-- The help of the program. -/
def helpText : String :=
  "A line-oriented arithmetic calculator built on a lexer, a recursive-descent parser and a tree-walking evaluator.\n"
    ++ "\n"
    ++ "Usage: spi [OPTIONS]\n"
    ++ "\n"
    ++ "Options:\n"
    ++ "  -f, --file <FILE>  Reads expressions from a file instead of standard input\n"
    ++ "  -t, --tree         Prints the parse tree of each line, in prefix form, before its value\n"
    ++ "      --tokens       Prints the tokens of each line before its value\n"
    ++ "  -q, --quiet        Never prints the banner and the prompt\n"
    ++ "  -h, --help         Print help\n"
    ++ "  -V, --version      Print version\n"

/-- What is shown where the arguments are misused. -/
def misuseText : String := "Usage: spi [OPTIONS]\n\nFor more information, try '--help'.\n"

/-- The banner of a session on a terminal. -/
def banner : String := "spi: enter an arithmetic expression per line (Ctrl+D to exit)"

/-- The prompt of a session on a terminal. -/
def terminalPrompt : String := "spi> "

/-- The options of a session. Banner and prompt are for a terminal only, where
nothing asks for quiet and no file is read. -/
def Settings.options (s : Settings) (terminal : Bool) : Session.Options :=
  let interactive := terminal && !s.quiet && s.file.isNone
  { banner := if interactive then some banner else none
    prompt := if interactive then some terminalPrompt else none
    showTree := s.tree
    showTokens := s.tokens }

/-! ## The whole program -/

/-- What a run of the program leaves behind. -/
structure Answer where
  exit : Nat
  out : Bytes
  err : Bytes

/-- The answer of a program that only says something. -/
def Answer.saying (exit : Nat) (out err : String) : Answer :=
  ⟨exit, Bytes.ofString out, Bytes.ofString err⟩

/-- The answer of a session. A problem is the last thing said, and the run has
failed. -/
def Answer.ofTranscript (t : Session.Transcript) : Answer :=
  match t.ending with
  | .finished _ => ⟨0, t.out, t.err⟩
  | .stopped problem => ⟨1, t.out, t.err ++ Bytes.ofString (Session.lineOf problem.message)⟩

/-- The answer of a session over an input. -/
def Settings.run (s : Settings) (input : Bytes) : Answer :=
  .ofTranscript (Session.run (s.options false) none none input)

/-- The whole program: arguments, files and standard input to an answer. -/
def run (arguments : List String) (files : List (String × Bytes)) (input : Bytes) : Answer :=
  match request arguments with
  | .help => .saying 0 helpText ""
  | .version => .saying 0 versionText ""
  | .misuse => .saying 2 "" misuseText
  | .session s =>
    match s.file with
    | none => s.run input
    | some name =>
      match (Directory.ofFiles files).openPath input name with
      | .file contents => s.run contents
      | .directory => .saying 1 "" (Session.lineOf FileProblem.isADirectory.message)
      | .missing problem =>
        .saying 1 "" (Session.lineOf (openFailure name problem.message))

end CommandLine

end LineCalc
