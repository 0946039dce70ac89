/-
  Arguments: what a list of arguments asks for

  The program runs a session over its standard input or over a file, or shows
  its help or its version. `CommandLine.request` reads the arguments from left
  to right, and the first of them that asks for help or the version, or that is
  misused, decides.

  Options may be given once each and no other arguments are taken. Short
  options may share one argument. The file may stand in the same argument,
  behind an equals sign or not, or in the next one; there it must not look like
  an option.
-/

namespace LineCalc

namespace CommandLine

/-- What a session is asked to do. -/
structure Settings where
  file : Option String := none
  tree : Bool := false
  tokens : Bool := false
  quiet : Bool := false
  deriving DecidableEq, Repr

/-- What a list of arguments asks for. -/
inductive Request where
  | session (settings : Settings)
  | help
  | version
  | misuse
  deriving DecidableEq, Repr

/-- The options. -/
inductive Flag where
  | file
  | tree
  | tokens
  | quiet
  | help
  | version
  deriving DecidableEq, Repr

namespace Flag

/-- The option with a one-letter name. -/
def ofLetter? : Char → Option Flag
  | 'f' => some file
  | 't' => some tree
  | 'q' => some quiet
  | 'h' => some help
  | 'V' => some version
  | _ => none

/-- The option with a full name. -/
def ofName? : String → Option Flag
  | "file" => some file
  | "tree" => some tree
  | "tokens" => some tokens
  | "quiet" => some quiet
  | "help" => some help
  | "version" => some version
  | _ => none

end Flag

/-! ## Reading arguments -/

/-- The settings with a file, unless there is one already or it has no name. -/
def Settings.withFile? (s : Settings) (name : String) : Option Settings :=
  if name.isEmpty || s.file.isSome then none else some { s with file := some name }

/-- The settings with an option that takes no value, unless it is given
already. -/
def Settings.withFlag? (s : Settings) : Flag → Option Settings
  | .tree => if s.tree then none else some { s with tree := true }
  | .tokens => if s.tokens then none else some { s with tokens := true }
  | .quiet => if s.quiet then none else some { s with quiet := true }
  | _ => none

/-- Whether an argument cannot be the value of the option before it: it begins
with a hyphen and is more than a hyphen. -/
def looksLikeOption (argument : String) : Bool :=
  match argument.toList with
  | '-' :: _ :: _ => true
  | _ => false

/-- What an argument leads to. -/
inductive Step where
  /-- The settings so far. -/
  | settings (s : Settings)
  /-- The next argument is the file. -/
  | awaitFile (s : Settings)
  /-- The answer, whatever follows. -/
  | decided (r : Request)

/-- The settings if they are allowed, and otherwise misuse. -/
def Step.ofSettings? : Option Settings → Step
  | some s => .settings s
  | none => .decided .misuse

/-- Reads short options that share an argument. Behind the option for a file,
and an equals sign if there is one, the rest is the file. -/
def readLetters (s : Settings) : List Char → Step
  | [] => .settings s
  | c :: rest =>
    match Flag.ofLetter? c with
    | none => .decided .misuse
    | some .help => .decided .help
    | some .version => .decided .version
    | some .file =>
      match rest with
      | [] => .awaitFile s
      | '=' :: name => .ofSettings? (s.withFile? (String.ofList name))
      | name => .ofSettings? (s.withFile? (String.ofList name))
    | some flag =>
      match s.withFlag? flag with
      | some s => readLetters s rest
      | none => .decided .misuse

/-- Reads an option with a full name, and its value if it has one. -/
def readName (s : Settings) (name : String) (value : Option String) : Step :=
  match Flag.ofName? name, value with
  | some .help, none => .decided .help
  | some .version, none => .decided .version
  | some .file, none => .awaitFile s
  | some .file, some value => .ofSettings? (s.withFile? value)
  | some flag, none => .ofSettings? (s.withFlag? flag)
  | _, _ => .decided .misuse

/-- Cuts a text at its first equals sign. -/
def cutAtEquals (cs : List Char) : String × Option String :=
  match cs.dropWhile (· ≠ '=') with
  | [] => (String.ofList cs, none)
  | _ :: value => (String.ofList (cs.takeWhile (· ≠ '=')), some (String.ofList value))

/-- Reads one argument, which is not the value of the option before it. -/
def readArgument (s : Settings) (argument : String) : Step :=
  match argument.toList with
  | '-' :: '-' :: name =>
    let (name, value) := cutAtEquals name
    readName s name value
  | '-' :: c :: rest => readLetters s (c :: rest)
  | _ => .decided .misuse

/-- Reads the arguments. Two hyphens end the options, and nothing may follow
them. -/
def read : Settings → List String → Request
  | s, [] => .session s
  | s, ["--"] => .session s
  | s, argument :: rest =>
    match readArgument s argument with
    | .decided r => r
    | .settings s => read s rest
    | .awaitFile s =>
      match rest with
      | [] => .misuse
      | name :: rest =>
        if looksLikeOption name then .misuse
        else
          match s.withFile? name with
          | some s => read s rest
          | none => .misuse

/-- What a list of arguments asks for. -/
def request (arguments : List String) : Request := read {} arguments

end CommandLine

end LineCalc
