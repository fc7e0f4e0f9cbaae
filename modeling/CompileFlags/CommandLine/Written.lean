import CompileFlags.CommandLine.Reader

/-!
# Writing a command line

A set of arguments can be written as groups, one for every option that is given and one for every
file, in any order that keeps the search directories and the files in theirs. A value stands after
an equals sign or as an argument of its own; files may also stand after two dashes.
-/

namespace CompileFlags.CommandLine

/-- The options that say where the database is. -/
def DatabaseArgs.keys : List Key :=
  [.root, .database, .searchDir, .buildDir, .timeout]

def LooksLikeOption (arg : String) : Prop :=
  arg.toList.head? = some '-'

/-- One option with its value, one switch, or one file. -/
inductive Group where
  | setting (k : Key) (value : String) (attached : Bool)
  | switch (k : Key)
  | file (name : String)
  deriving DecidableEq, Repr

namespace Group

def args : Group → List String
  | setting k v true => ["--" ++ k.long ++ "=" ++ v]
  | setting k v false => ["--" ++ k.long, v]
  | switch k => ["--" ++ k.long]
  | file f => [f]

/-- A separate value and a file must not look like options. -/
def Valid : Group → Prop
  | setting k v attached => k.takesValue ∧ (attached = false → ¬ LooksLikeOption v)
  | switch k => k = .verbose ∨ k = .file
  | file f => ¬ LooksLikeOption f

def valueOf (k : Key) : Group → Option String
  | setting k' v _ => if k' = k then some v else none
  | _ => none

def file? : Group → Option String
  | file f => some f
  | _ => none

/-- Does the group give one of the options for the database? -/
def isDatabase : Group → Bool
  | setting k _ _ => DatabaseArgs.keys.contains k
  | _ => false

end Group

/-- A command line before it is put together: groups, and the files after two dashes. -/
structure Line where
  groups : List Group
  trailing : List String
  deriving DecidableEq, Repr

namespace Line

/-- The arguments; the two dashes may be left out where nothing follows them. -/
inductive Writes (l : Line) : List String → Prop
  | plain : l.trailing = [] → Writes l (l.groups.flatMap Group.args)
  | dashed : Writes l (l.groups.flatMap Group.args ++ "--" :: l.trailing)

/-- The options for the database on a line, as they are written there. -/
def databasePart (l : Line) : Line :=
  ⟨l.groups.filter Group.isDatabase, []⟩

def values (l : Line) (k : Key) : List String :=
  l.groups.filterMap (Group.valueOf k)

/-- An option is given once, or left out where it has its default. -/
def Gives {α : Type} (given : List String) (text : α → String) (value default : α) : Prop :=
  given = [text value] ∨ given = [] ∧ value = default

/-- A switch is given once or not at all. -/
def Switches (l : Line) (k : Key) (on : Bool) : Prop :=
  l.groups.count (.switch k) = if on then 1 else 0

structure GivesDatabase (l : Line) (a : DatabaseArgs) : Prop where
  root : l.values .root = a.root.toList
  database : Gives (l.values .database) id a.database Options.defaultDatabaseName
  searchDirs : l.values .searchDir = a.searchDirs
  buildDir : Gives (l.values .buildDir) id a.buildDir Options.defaultBuildDir
  timeout : Gives (l.values .timeout) toString a.timeout Options.defaultTimeout

structure GivesFlags (l : Line) (a : FlagsArgs) : Prop where
  valid : ∀ g ∈ l.groups, g.Valid
  database : l.GivesDatabase a.database
  format : Gives (l.values .format) Format.name a.format .text
  completions : l.values .completions = (a.completions.map Shell.name).toList
  verbose : l.Switches .verbose a.verbose
  file : l.Switches .file false
  files : l.groups.filterMap Group.file? ++ l.trailing = a.files

structure GivesLocate (l : Line) (a : LocateArgs) : Prop where
  valid : ∀ g ∈ l.groups, g.Valid
  database : l.GivesDatabase a.database
  format : l.values .format = []
  completions : l.values .completions = (a.completions.map Shell.name).toList
  verbose : l.Switches .verbose a.verbose
  file : l.Switches .file a.file
  files : l.groups.filterMap Group.file? ++ l.trailing = []

end Line

/-- Values that a command line can give: paths are not empty and numbers fit 64 bits. -/
def DatabaseArgs.Valid (a : DatabaseArgs) : Prop :=
  (∀ p ∈ a.root, p ≠ "") ∧ (∀ p ∈ a.searchDirs, p ≠ "") ∧ a.timeout < UInt64.size

/-- There are files to look up, unless completions are asked for. -/
def FlagsArgs.Valid (a : FlagsArgs) : Prop :=
  a.database.Valid ∧ (a.completions = none → a.files ≠ [])

/-! ## One line for all arguments -/

namespace Group

def settings (k : Key) (values : List String) : List Group :=
  values.map fun v ↦ .setting k v true

def switches (k : Key) (on : Bool) : List Group :=
  if on then [.switch k] else []

/-- Every option that is given, in the order of the keys, with its value attached. -/
def all (a : DatabaseArgs) (format : Option Format) (completions : Option Shell)
    (verbose file : Bool) : List Group :=
  settings .root a.root.toList ++ settings .database [a.database] ++
    settings .searchDir a.searchDirs ++ settings .buildDir [a.buildDir] ++
    settings .timeout [toString a.timeout] ++ settings .format (format.map Format.name).toList ++
    settings .completions (completions.map Shell.name).toList ++ switches .verbose verbose ++
    switches .file file

end Group

/-- The files stand after two dashes, whatever they look like. -/
def FlagsArgs.line (a : FlagsArgs) : Line :=
  ⟨Group.all a.database (some a.format) a.completions a.verbose false, a.files⟩

def LocateArgs.line (b : LocateArgs) : Line :=
  ⟨Group.all b.database none b.completions b.verbose b.file, []⟩

end CompileFlags.CommandLine
