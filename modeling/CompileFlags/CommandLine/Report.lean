import CompileFlags.CommandLine.Reader
import CompileFlags.Json.Writer
import CompileFlags.Project
import CompileFlags.Text.Words

/-!
# What the tools print

A run ends with an exit status and what it wrote to the two output streams. The tool that prints
flags accounts for every file it was given: the file is found, or it is missing. Any other failure
ends the run before anything is printed.
-/

namespace CompileFlags.CommandLine

structure Outcome where
  exit : Nat
  stdout : String
  stderr : String
  deriving DecidableEq, Repr

namespace Outcome

/-- A failure, told with its causes. -/
def fatal (chain : List String) : Outcome :=
  ⟨2, "", "error: " ++ ": ".intercalate chain ++ "\n"⟩

/-- The cause when the current directory is needed and cannot be told. -/
def noCurrentDir : Outcome :=
  fatal ["failed to read the current directory", ReadFault.notFound.message]

end Outcome

structure Findings where
  /-- The flags of the names that were found, sorted by name, each name once. -/
  files : List (String × List String)
  /-- The occurrences that were not found, in order. -/
  missing : List String
  deriving DecidableEq, Repr

namespace Findings

def empty : Findings := ⟨[], []⟩

def get? (f : Findings) (name : String) : Option (List String) :=
  (f.files.find? (·.1 == name)).map Prod.snd

/-- Insert into a list sorted by name; an equal name is replaced. -/
def insertSorted (name : String) (flags : List String) :
    List (String × List String) → List (String × List String)
  | [] => [(name, flags)]
  | (n, fs) :: rest =>
    if name = n then (name, flags) :: rest
    else if name < n then (name, flags) :: (n, fs) :: rest
    else (n, fs) :: insertSorted name flags rest

def found (f : Findings) (name : String) (flags : List String) : Findings :=
  { f with files := insertSorted name flags f.files }

def miss (f : Findings) (name : String) : Findings :=
  { f with missing := f.missing ++ [name] }

def json (f : Findings) : String :=
  Json.Writer.object 0
    [("files", Json.Writer.object 1 (f.files.map fun (name, flags) ↦
        (name, Json.Writer.strings 2 flags))),
      ("missing", Json.Writer.strings 1 f.missing)] ++ "\n"

def line (f : Findings) (single : Bool) (name : String) : String :=
  match f.get? name with
  | none => ""
  | some flags => (if single then "" else name ++ ": ") ++ Words.join flags ++ "\n"

def text (f : Findings) (names : List String) : String :=
  String.join (names.map (f.line (names.length == 1)))

def complaints (f : Findings) : String :=
  String.join (f.missing.map fun name ↦ "error: " ++ (LoadError.noCommand name).message ++ "\n")

def outcome (f : Findings) (format : Format) (names : List String) : Outcome :=
  let exit := if f.missing.isEmpty then 0 else 1
  match format with
  | .json => ⟨exit, f.json, ""⟩
  | .text => ⟨exit, f.text names, f.complaints⟩

end Findings

/-- Look up files one after the other. A failure other than a missing command ends the run. -/
def lookupAll : Session → Findings → List String → Except Outcome Findings × Session
  | s, f, [] => (.ok f, s)
  | s, f, name :: names =>
    match s.lookup name with
    | (.ok flags, s) => lookupAll s (f.found name flags) names
    | (.error (.noCommand _), s) => lookupAll s (f.miss name) names
    | (.error e, s) => (.error (.fatal (("failed to look up " ++ name) :: e.chain)), s)

/-- A project with the options of a command line. -/
def DatabaseArgs.project (a : DatabaseArgs) (root : Path) : Project :=
  { Project.new root with options := a.options }

/-- Look up all files and print what was found, once loading the database has ended. -/
def FlagsArgs.report (a : FlagsArgs) (root : Path) : Except LoadError Nat × Session → Outcome
  | (.error e, _) => .fatal (("failed to load compile flags for " ++ root) :: e.chain)
  | (.ok _, s) =>
    match (lookupAll s .empty a.files).1 with
    | .error outcome => outcome
    | .ok f => f.outcome a.format a.files

def FlagsArgs.run (a : FlagsArgs) (w : World) : Outcome :=
  match a.database.effectiveRoot w.currentDir with
  | none => .noCurrentDir
  | some root =>
    a.report root <| Session.populate ⟨a.database.project root, w⟩ a.database.database
      (a.database.candidates root)

/-- Print where the database is, once the search for it has ended. -/
def LocateArgs.report (a : LocateArgs) : Except Search.NotFound Path → Outcome
  | .error why => ⟨1, "", "error: " ++ why.message ++ "\n"⟩
  | .ok directory =>
    let path := if a.file then directory.join a.database.database else directory
    ⟨0, path ++ "\n", ""⟩

def LocateArgs.run (a : LocateArgs) (w : World) : Outcome :=
  match a.database.effectiveRoot w.currentDir with
  | none => .noCurrentDir
  | some root =>
    a.report (Search.find w a.database.database (a.database.candidates root))

inductive Effect where
  | outcome (o : Outcome)
  | completions (shell : Shell)
  | stop (why : Stop)
  deriving DecidableEq, Repr

def Tool.run (t : Tool) (args : List String) (w : World) : Effect :=
  match t with
  | .flags =>
    match FlagsArgs.parse args with
    | .error why => .stop why
    | .ok a => match a.completions with
      | some shell => .completions shell
      | none => .outcome (a.run w)
  | .locate =>
    match LocateArgs.parse args with
    | .error why => .stop why
    | .ok a => match a.completions with
      | some shell => .completions shell
      | none => .outcome (a.run w)

end CompileFlags.CommandLine
