import CompileFlags.CommandLine.Arguments

/-!
# Reading a command line

Arguments are read from left to right. An option whose value is a separate argument stays pending:
it takes effect when the next option or file is met, or at the end, and is refused there if the
value never came. An argument that no option knows is reported before a pending option is.
-/

namespace CompileFlags.CommandLine

structure Draft where
  root : Option Path
  database : Option String
  searchDirs : List Path
  buildDir : Option String
  timeout : Option Nat
  format : Option Format
  completions : Option Shell
  file : Bool
  verbose : Bool
  files : List String
  deriving DecidableEq, Repr

namespace Draft

def empty : Draft := ⟨none, none, [], none, none, none, none, false, false, []⟩

def refuse {α : Type} (why : UsageError) : Except Stop α :=
  .error (.usage why)

/-- Give an option its value; twice is a conflict, whatever the second value is. -/
def once {α : Type} (old : Option α) (new : Except Stop α) : Except Stop (Option α) :=
  if old.isSome then refuse .argumentConflict else new.map some

def pathValue (v : String) : Except Stop Path :=
  if v.isEmpty then refuse .invalidValue else .ok v

def choice {α : Type} (value : Option α) : Except Stop α :=
  match value with
  | some a => .ok a
  | none => refuse .invalidValue

/-- A decimal number, perhaps after a plus sign. -/
def decimal? (v : String) : Option Nat :=
  let digits := match v.toList with
    | '+' :: cs => cs
    | cs => cs
  if digits.isEmpty || !digits.all Char.isDigit then none
  else some (digits.foldl (fun n c ↦ n * 10 + (c.toNat - '0'.toNat)) 0)

/-- A number that 64 bits hold. -/
def countValue (v : String) : Except Stop Nat :=
  match decimal? v with
  | some n => if n < UInt64.size then .ok n else refuse .valueValidation
  | none => refuse .valueValidation

def setValue (d : Draft) (k : Key) (v : String) : Except Stop Draft :=
  match k with
  | .root => (once d.root (pathValue v)).map fun x ↦ { d with root := x }
  | .database => (once d.database (.ok v)).map fun x ↦ { d with database := x }
  | .searchDir => (pathValue v).map fun x ↦ { d with searchDirs := d.searchDirs ++ [x] }
  | .buildDir => (once d.buildDir (.ok v)).map fun x ↦ { d with buildDir := x }
  | .timeout => (once d.timeout (countValue v)).map fun x ↦ { d with timeout := x }
  | .format => (once d.format (choice (Format.ofName? v))).map fun x ↦ { d with format := x }
  | .completions =>
    (once d.completions (choice (Shell.ofName? v))).map fun x ↦ { d with completions := x }
  | .file | .verbose | .help | .version => refuse .tooManyValues

/-- Switch an option on that takes no value. -/
def setFlag (d : Draft) (k : Key) : Except Stop Draft :=
  match k with
  | .file => if d.file then refuse .argumentConflict else .ok { d with file := true }
  | .verbose => if d.verbose then refuse .argumentConflict else .ok { d with verbose := true }
  | .help => .error .help
  | .version => .error .version
  | _ => refuse .invalidValue

def databaseArgs (d : Draft) : DatabaseArgs :=
  ⟨d.root, d.database.getD Options.defaultDatabaseName, d.searchDirs,
    d.buildDir.getD Options.defaultBuildDir, d.timeout.getD Options.defaultTimeout⟩

end Draft

structure Progress where
  draft : Draft
  /-- An option whose value is, or will be, a separate argument. -/
  pending : Option (Key × Option String)
  deriving DecidableEq, Repr

namespace Progress

def start : Progress := ⟨.empty, none⟩

def settle (p : Progress) : Except Stop Draft :=
  match p.pending with
  | none => .ok p.draft
  | some (k, some v) => p.draft.setValue k v
  | some (_, none) => Draft.refuse .invalidValue

/-- An option with its value in the same argument. -/
def attach (p : Progress) (k : Key) (v : String) : Except Stop Progress := do
  let d ← p.settle
  return ⟨← d.setValue k v, none⟩

/-- An option whose value is the next argument. -/
def await (p : Progress) (k : Key) : Except Stop Progress := do
  return ⟨← p.settle, some (k, none)⟩

def switch (p : Progress) (k : Key) : Except Stop Progress := do
  let d ← p.settle
  return ⟨← d.setFlag k, none⟩

def addFile (tool : Tool) (p : Progress) (f : String) : Except Stop Progress :=
  match tool with
  | .flags => p.settle.map fun d ↦ ⟨{ d with files := d.files ++ [f] }, none⟩
  | .locate => Draft.refuse .unknownArgument

/-- The name of a long option and the value after its first equals sign. -/
def splitLong (cs : List Char) : String × Option String :=
  match cs.dropWhile (· != '=') with
  | [] => (String.ofList cs, none)
  | _ :: v => (String.ofList (cs.takeWhile (· != '=')), some (String.ofList v))

def long (tool : Tool) (p : Progress) (cs : List Char) : Except Stop Progress :=
  let (name, value) := splitLong cs
  match tool.longKey? name, value with
  | none, _ => Draft.refuse .unknownArgument
  | some k, some v => if k.takesValue then p.attach k v else Draft.refuse .tooManyValues
  | some k, none => if k.takesValue then p.await k else p.switch k

/-- The letters of an argument with one dash. The first letter of an option with a value takes
all that follows it, less one equals sign. -/
def shorts (tool : Tool) (p : Progress) : List Char → Except Stop Progress
  | [] => .ok p
  | c :: cs =>
    match tool.shortKey? c with
    | none => Draft.refuse .unknownArgument
    | some k =>
      if k.takesValue then
        match cs with
        | [] => p.await k
        | '=' :: v => p.attach k (String.ofList v)
        | v => p.attach k (String.ofList v)
      else do shorts tool (← p.switch k) cs

/-- An argument that does not look like an option. -/
def plain (tool : Tool) (p : Progress) (arg : String) : Except Stop Progress :=
  match p.pending with
  | some (k, none) => .ok { p with pending := some (k, some arg) }
  | _ => p.addFile tool arg

/-- One argument, before the two dashes that end the options. -/
def next (tool : Tool) (p : Progress) (arg : String) : Except Stop Progress :=
  match arg.toList with
  | '-' :: '-' :: cs => p.long tool cs
  | '-' :: c :: cs => p.shorts tool (c :: cs)
  | _ => p.plain tool arg

/-- All arguments; after two dashes alone every argument is a file. -/
def run (tool : Tool) : Progress → List String → Except Stop Progress
  | p, [] => .ok p
  | p, arg :: rest => do
    if arg = "--" then rest.foldlM (addFile tool) p else run tool (← p.next tool arg) rest

end Progress

def Draft.ofArgs (tool : Tool) (args : List String) : Except Stop Draft := do
  let p ← Progress.start.run tool args
  p.settle

/-- The arguments of the tool that prints flags: at least one file, unless completions are asked
for. -/
def FlagsArgs.parse (args : List String) : Except Stop FlagsArgs := do
  let d ← Draft.ofArgs .flags args
  if d.files.isEmpty && d.completions.isNone then Draft.refuse .missingRequiredArgument
  else return ⟨d.files, d.databaseArgs, d.format.getD .text, d.verbose, d.completions⟩

def LocateArgs.parse (args : List String) : Except Stop LocateArgs := do
  let d ← Draft.ofArgs .locate args
  return ⟨d.file, d.databaseArgs, d.verbose, d.completions⟩

end CompileFlags.CommandLine
