import LineCalc.Bytes
/-
  Directories: what a path leads to

  A directory has named entries: files, and directories again. A path is
  followed part by part: `.` and an empty part stay, `..` goes up and stays at
  the root, and a name leads to an entry. Nothing may follow a file, not even
  an empty part. Neither a part nor a whole path may be too long, and the whole
  path is looked at first.

  The program runs in a directory of its own below the one for temporary files.
  Of what lies around it only what every system has is known: the directories at
  the root, the empty device and the standard input by its names.
-/

namespace LineCalc

namespace CommandLine

/-- Why a file cannot be read. -/
inductive FileProblem where
  | notFound
  | notADirectory
  | isADirectory
  | nameTooLong
  deriving DecidableEq, Repr

/-- The message of a problem with a file. -/
def FileProblem.message : FileProblem → String
  | notFound => "No such file or directory (os error 2)"
  | notADirectory => "Not a directory (os error 20)"
  | isADirectory => "Is a directory (os error 21)"
  | nameTooLong => "File name too long (os error 36)"

/-- What is said of a file that cannot be opened. -/
def openFailure (name : String) (message : String) : String :=
  "Failed to read the input file '" ++ name ++ "': " ++ message

/-- What a name in a directory stands for. -/
inductive Entry where
  | file (contents : Bytes)
  | directory (entries : List (String × Entry))

/-- The entries of a directory. -/
abbrev Directory := List (String × Entry)

/-- What a path leads to. -/
inductive Opened where
  | file (contents : Bytes)
  | directory
  | missing (problem : FileProblem)

/-- The most bytes that one part of a path may have. -/
def maxPartBytes : Nat := 255

/-- The most bytes that a whole path may have. -/
def maxPathBytes : Nat := 4095

/-- Follows the parts of a path from a directory with others above it, the
nearest first. The last of those is the root. -/
def Directory.follow : Directory → List Directory → List String → Opened
  | _, _, [] => .directory
  | here, above, part :: rest =>
    if part = "" || part = "." then follow here above rest
    else if part = ".." then
      match above with
      | [] => follow here [] rest
      | parent :: others => follow parent others rest
    else if part.utf8ByteSize > maxPartBytes then .missing .nameTooLong
    else
      match here.lookup part with
      | none => .missing .notFound
      | some (.file contents) => if rest.isEmpty then .file contents else .missing .notADirectory
      | some (.directory entries) => follow entries (here :: above) rest

/-- The parts of a path, between its slashes. -/
def pathParts (path : String) : List String :=
  let step (c : Char) (parts : List (List Char)) : List (List Char) :=
    match c, parts with
    | '/', _ => [] :: parts
    | _, part :: others => (c :: part) :: others
    | _, [] => [[c]]
  (path.toList.foldr step [[]]).map String.ofList

/-! ## The surroundings of the program -/

/-- The devices that are known by name, for a standard input. -/
def Directory.devices (input : Bytes) : Directory :=
  [("null", .file []), ("stdin", .file input), ("fd", .directory [("0", .file input)])]

/-- The directory for temporary files, without those of other programs. -/
def Directory.temporary : Directory := []

/-- The root, for a standard input. -/
def Directory.root (input : Bytes) : Directory :=
  ("dev", .directory (Directory.devices input)) :: ("tmp", .directory Directory.temporary) ::
    ["bin", "boot", "etc", "home", "lib", "media", "mnt", "opt", "proc", "root", "run", "sbin",
      "srv", "sys", "usr", "var"].map fun name => (name, .directory [])

/-- The files of a program that runs in a directory with no directories in it. -/
def Directory.ofFiles (files : List (String × Bytes)) : Directory :=
  files.map fun (name, contents) => (name, .file contents)

/-- What a path leads to from the directory that a program runs in. A path that
begins with a slash is followed from the root. -/
def Directory.openPath (here : Directory) (input : Bytes) (path : String) : Opened :=
  if path.utf8ByteSize > maxPathBytes then .missing .nameTooLong
  else if path.startsWith "/" then (root input).follow [] (pathParts path)
  else here.follow [temporary, root input] (pathParts path)

end CommandLine

end LineCalc
