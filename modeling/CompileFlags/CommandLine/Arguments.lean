import CompileFlags.Search

/-!
# What the command line says

The options of the two tools and the values that a command line gives them.
-/

namespace CompileFlags.CommandLine

/-- The tool that prints flags and the one that prints where the database is. -/
inductive Tool where
  | flags
  | locate
  deriving DecidableEq, Repr

inductive Format where
  | text
  | json
  deriving DecidableEq, Repr

inductive Shell where
  | bash
  | zsh
  | fish
  | powershell
  | elvish
  deriving DecidableEq, Repr

inductive Key where
  | root
  | database
  | searchDir
  | buildDir
  | timeout
  | format
  | completions
  | file
  | verbose
  | help
  | version
  deriving DecidableEq, Repr

namespace Format

def name : Format → String
  | text => "text"
  | json => "json"

def ofName? (s : String) : Option Format :=
  [text, json].find? (·.name == s)

end Format

namespace Shell

def name : Shell → String
  | bash => "bash"
  | zsh => "zsh"
  | fish => "fish"
  | powershell => "powershell"
  | elvish => "elvish"

def ofName? (s : String) : Option Shell :=
  [bash, zsh, fish, powershell, elvish].find? (·.name == s)

end Shell

namespace Key

/-- The name after two dashes. -/
def long : Key → String
  | root => "root"
  | database => "database"
  | searchDir => "search-dir"
  | buildDir => "build-dir"
  | timeout => "timeout-ms"
  | format => "format"
  | completions => "generate-completions"
  | file => "file"
  | verbose => "verbose"
  | help => "help"
  | version => "version"

/-- The letter after one dash. -/
def short? : Key → Option Char
  | root => some 'r'
  | database => some 'd'
  | searchDir => some 's'
  | format => some 'f'
  | verbose => some 'v'
  | help => some 'h'
  | version => some 'V'
  | _ => none

def takesValue : Key → Bool
  | root | database | searchDir | buildDir | timeout | format | completions => true
  | file | verbose | help | version => false

end Key

namespace Tool

def name : Tool → String
  | flags => "ccflags"
  | locate => "ccflags-locate"

/-- Both tools report the version under one name. -/
def versionText : String := "ccflags 0.1.0"

/-- The options that both tools have. -/
def sharedKeys : List Key :=
  [.root, .database, .searchDir, .buildDir, .timeout, .completions, .verbose, .help, .version]

def keys : Tool → List Key
  | flags => .format :: sharedKeys
  | locate => .file :: sharedKeys

def longKey? (t : Tool) (name : String) : Option Key :=
  t.keys.find? (·.long == name)

def shortKey? (t : Tool) (c : Char) : Option Key :=
  t.keys.find? (·.short? == some c)

/-- All long options with their dashes, sorted. -/
def longOptions (t : Tool) : List String :=
  (t.keys.map fun k ↦ "--" ++ k.long).mergeSort (· ≤ ·)

def usage : Tool → String
  | flags => "Usage: ccflags [OPTIONS] <FILE>..."
  | locate => "Usage: ccflags-locate [OPTIONS]"

end Tool

structure DatabaseArgs where
  root : Option Path
  database : String
  searchDirs : List Path
  buildDir : String
  timeout : Nat
  deriving DecidableEq, Repr

namespace DatabaseArgs

/-- The root given, or else the current directory. -/
def effectiveRoot (a : DatabaseArgs) (cwd : Option Path) : Option Path :=
  a.root <|> cwd

def options (a : DatabaseArgs) : Options :=
  ⟨a.database, a.buildDir, a.timeout⟩

def candidates (a : DatabaseArgs) (root : Path) : List Path :=
  if a.searchDirs.isEmpty then Search.defaultCandidates root a.buildDir else a.searchDirs

/-- Every path that a run may look at. -/
def paths (a : DatabaseArgs) (cwd : Option Path) : List Path :=
  match a.effectiveRoot cwd with
  | none => []
  | some root =>
    (a.candidates root).flatMap fun d ↦
      [d.join (Search.effectiveName a.database), d.join a.database]

end DatabaseArgs

/-- What the tool that prints flags is asked for. -/
structure FlagsArgs where
  files : List String
  database : DatabaseArgs
  format : Format
  verbose : Bool
  completions : Option Shell
  deriving DecidableEq, Repr

/-- What the tool that prints the place of the database is asked for. -/
structure LocateArgs where
  file : Bool
  database : DatabaseArgs
  verbose : Bool
  completions : Option Shell
  deriving DecidableEq, Repr

inductive UsageError where
  | unknownArgument
  | invalidValue
  | valueValidation
  | missingRequiredArgument
  | argumentConflict
  | tooManyValues
  deriving DecidableEq, Repr

/-- Why a command line gives no arguments to run with. -/
inductive Stop where
  | usage (why : UsageError)
  | help
  | version
  deriving DecidableEq, Repr

def UsageError.message : UsageError → String
  | unknownArgument => "unexpected argument"
  | invalidValue => "invalid or missing value"
  | valueValidation => "value is not a number of milliseconds"
  | missingRequiredArgument => "a file is required"
  | argumentConflict => "option given twice"
  | tooManyValues => "option takes no value"

namespace Stop

def exit : Stop → Nat
  | usage _ => 2
  | help | version => 0

end Stop

end CompileFlags.CommandLine
