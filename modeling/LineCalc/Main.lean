import LineCalc.CommandLine.Program
/-
  Main: the program on a real terminal, files and streams

  Reads the arguments, opens the input, and performs the events of a session one
  line at a time, so that a reader at a terminal has each answer before the
  next line. `serve` goes from line to line as `Session.turns` does over a list of
  lines: both do what `Session.step` says of a line.
-/

namespace LineCalc.Main

open Session CommandLine

/-- Performs an event. Records have no reader here. -/
def perform : Event → IO Unit
  | .out text => do (← IO.getStdout).putStr text
  | .err text => do (← IO.getStderr).putStr text
  | .log _ => pure ()

/-- The message of a failure to open or read a file. -/
def failureMessage : IO.Error → String
  | .noFileOrDirectory .. => FileProblem.notFound.message
  | .inappropriateType _ 20 _ => FileProblem.notADirectory.message
  | .inappropriateType _ 21 _ => FileProblem.isADirectory.message
  | .invalidArgument _ 36 _ => FileProblem.nameTooLong.message
  | e => toString e

/-- Says why the program fails. -/
def fail (message : String) : IO UInt32 := do
  (← IO.getStderr).putStr (lineOf message)
  return 1

/-- The bytes up to the next line feed or the end, behind those read so far. -/
partial def readLine (input : IO.FS.Stream) (reversed : Bytes) : IO Bytes := do
  match (← input.read 1).data.toList with
  | [] => return reversed.reverse
  | b :: _ =>
    if b = Bytes.lineFeed then return (b :: reversed).reverse
    else readLine input (b :: reversed)

/-- Leaves the program the way a session has ended. -/
def leave : Ending → IO UInt32
  | .finished _ => return 0
  | .stopped problem => fail problem.message

/-- Performs what the lines of the input from one on make a session do. -/
partial def serve (o : Options) (input : IO.FS.Stream) (number : Nat) (summary : Summary) :
    IO UInt32 := do
  (prompt o).forM perform
  (← IO.getStdout).flush
  match ← readLine input [] with
  | [] =>
    (closing o summary).forM perform
    leave (.finished summary)
  | line =>
    let (events, next) := step o number summary line
    events.forM perform
    match next with
    | .error ending => leave ending
    | .ok counted => serve o input (number + 1) counted

/-- Runs a session on an input. A stream that fails ends it. -/
def session (o : Options) (input : IO.FS.Stream) : IO UInt32 := do
  try
    (opening o).forM perform
    serve o input 1 {}
  catch e => fail (failureMessage e)

/-- Opens the input that is asked for and runs a session on it. -/
def start (s : Settings) : IO UInt32 := do
  let input ← IO.getStdin
  match s.file with
  | none => session (s.options (← input.isTty)) input
  | some name =>
    match ← (IO.FS.Handle.mk name .read).toBaseIO with
    | .ok handle => session (s.options false) (IO.FS.Stream.ofHandle handle)
    | .error e => fail (openFailure name (failureMessage e))

end LineCalc.Main

/-- The program. -/
def main (arguments : List String) : IO UInt32 := do
  match LineCalc.CommandLine.request arguments with
  | .help =>
    (← IO.getStdout).putStr LineCalc.CommandLine.helpText
    return 0
  | .version =>
    (← IO.getStdout).putStr LineCalc.CommandLine.versionText
    return 0
  | .misuse =>
    (← IO.getStderr).putStr LineCalc.CommandLine.misuseText
    return 2
  | .session s => LineCalc.Main.start s
