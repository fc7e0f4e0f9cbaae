import CompileFlags.Database
import CompileFlags.Flags
import CompileFlags.Search

/-!
# Compile flags of a project

A project remembers where its database was found and the flags of every source file it has met.
Loading the database fills the cache; a file that is not in the cache is looked up by opening the
located database once more. A database is opened, used and released within one operation; what is
done with it is counted as it is done.
-/

namespace CompileFlags

structure Located where
  directory : Path
  name : String
  deriving DecidableEq, Repr

/-- Which databases were opened, and how often databases were read whole, queried and released. -/
structure Tally where
  /-- The files that were opened, or could not be, latest first. -/
  opened : List Path
  alls : Nat
  queries : Nat
  releases : Nat
  deriving DecidableEq, Repr

/-- Flags by the name of the source file; of two entries with one name the first counts. -/
abbrev Cache := List (String × List String)

namespace Cache

def get? (c : Cache) (name : String) : Option (List String) :=
  (c.find? (·.1 == name)).map Prod.snd

def insert (c : Cache) (name : String) (flags : List String) : Cache :=
  (name, flags) :: c

@[simp] theorem get?_nil (name : String) : Cache.get? [] name = none := rfl

theorem get?_insert (c : Cache) (n m : String) (flags : List String) :
    (c.insert n flags).get? m = if n = m then some flags else c.get? m := by
  by_cases h : n = m <;> simp [insert, get?, h]

end Cache

structure Project where
  root : Path
  options : Options
  located : Option Located
  cache : Cache
  tally : Tally

inductive LoadError where
  | notFound (why : Search.NotFound)
  | databaseOpen (directory : Path) (why : Database.OpenError)
  | noCommand (filename : String)
  | notLocated (filename : String)
  deriving DecidableEq, Repr

namespace LoadError

def message : LoadError → String
  | notFound why => why.message
  | databaseOpen directory why =>
    "failed to open compilation database in " ++ directory ++ ": " ++ why.message
  | noCommand filename => "no compile command for " ++ filename
  | notLocated filename => "no compilation database located; cannot look up " ++ filename

/-- The error's text and those of its causes, outermost first. -/
def chain (e : LoadError) : List String :=
  match e with
  | databaseOpen _ why => e.message :: why.chain
  | _ => [e.message]

end LoadError

inductive Use where
  | readAll
  | query
  deriving DecidableEq, Repr

/-- What is done with a database, one thing at a time. -/
inductive Deed where
  | refused (file : Path)
  | opened (file : Path)
  | used (use : Use)
  | released
  deriving DecidableEq, Repr

namespace Tally

def zero : Tally := ⟨[], 0, 0, 0⟩

/-- How often a database was to be opened. -/
def opens (t : Tally) : Nat :=
  t.opened.length

/-- Count one deed. -/
def note (t : Tally) : Deed → Tally
  | .refused file | .opened file => { t with opened := file :: t.opened }
  | .used .readAll => { t with alls := t.alls + 1 }
  | .used .query => { t with queries := t.queries + 1 }
  | .released => { t with releases := t.releases + 1 }

end Tally

namespace Project

def new (root : Path) : Project :=
  ⟨root, .default, none, [], .zero⟩

/-- The file name meant: an empty one stands for the option. -/
def nameOf (p : Project) (name : String) : String :=
  if name.isEmpty then p.options.databaseName else name

/-- The directories meant: none stands for the default ones. -/
def candidatesOf (p : Project) (candidates : List Path) : List Path :=
  if candidates.isEmpty then Search.defaultCandidates p.root p.options.buildDir else candidates

def publish (p : Project) (l : Located) : Project :=
  { p with located := some l }

def record (cwd : Option Path) (cache : Cache) (c : Command) : Cache :=
  cache.insert c.filename (c.flags cwd)

/-- Cache the flags of all commands, in order, so that the last one of a name stays. -/
def absorb (p : Project) (cwd : Option Path) (commands : List Command) : Project :=
  { p with cache := commands.foldl (record cwd) p.cache }

end Project

structure Session where
  project : Project
  world : World

namespace Session

def note (s : Session) (d : Deed) : Session :=
  { s with project.tally := s.project.tally.note d }

/-- Open the database at a place. An open database has been read whole. -/
def openAt (s : Session) (l : Located) : Except LoadError Database × Session :=
  match Database.load s.world l.directory l.name with
  | (.error why, w) =>
    (.error (.databaseOpen l.directory why), note { s with world := w } (.refused why.path))
  | (.ok db, w) => (.ok db, note { s with world := w } (.opened db.path))

def take {α : Type} (s : Session) (db : Database) (use : Use) (answer : Database → α) :
    α × Session :=
  (answer db, s.note (.used use))

def release (s : Session) : Session :=
  s.note .released

/-- Open a database, take an answer from it and release it. -/
def consult {α : Type} (s : Session) (l : Located) (use : Use) (answer : Database → α) :
    Except LoadError α × Session :=
  match s.openAt l with
  | (.error e, s) => (.error e, s)
  | (.ok db, s) =>
    let (a, s) := s.take db use answer
    (.ok a, s.release)

def readAll (s : Session) (l : Located) : Except LoadError (List Command) × Session :=
  s.consult l .readAll (·.commands)

/-- Find the project's database, read it and cache the flags of every command. The place is kept
even if the database found there cannot be opened. The answer is the number of commands. Which
directory is found hangs on the signals that the search hears. -/
def populateHearing (s : Session) (signals : List Search.Signal) (name : String)
    (candidates : List Path) : Except LoadError Nat × Session :=
  let name := s.project.nameOf name
  match Search.settle name (s.project.candidatesOf candidates) signals with
  | .error why => (.error (.notFound why), s)
  | .ok directory =>
    let l : Located := ⟨directory, name⟩
    match readAll { s with project := s.project.publish l } l with
    | (.error e, s) => (.error e, s)
    | (.ok commands, s) =>
      (.ok commands.length, { s with project := s.project.absorb s.world.currentDir commands })

/-- Find and read the project's database, with all reports of the search in time and in order. -/
def populate (s : Session) (name : String) (candidates : List Path) :
    Except LoadError Nat × Session :=
  s.populateHearing
    (Search.inOrder s.world (s.project.nameOf name) (s.project.candidatesOf candidates))
    name candidates

/-- The flags of a source file: from the cache, or of the first command that the located database
has for it, which then go into the cache. -/
def flags (s : Session) (name : String) : Except LoadError (List String) × Session :=
  match s.project.cache.get? name with
  | some flags => (.ok flags, s)
  | none =>
    match s.project.located with
    | none => (.error (.notLocated name), s)
    | some l =>
      match s.consult l .query (fun db ↦ (db.query name).head?) with
      | (.error e, s) => (.error e, s)
      | (.ok none, s) => (.error (.noCommand name), s)
      | (.ok (some c), s) =>
        let flags := c.flags s.world.currentDir
        (.ok flags, { s with project.cache := s.project.cache.insert name flags })

/-- The same failure, told of the name that was asked for. -/
def rename (name : String) : LoadError → LoadError
  | .noCommand _ => .noCommand name
  | e => e

/-- The flags of a source file as recorded, or else, for a relative name, of the file of that name
below the current directory. -/
def lookup (s : Session) (name : String) : Except LoadError (List String) × Session :=
  match s.flags name with
  | (.error (.noCommand n), s) =>
    if Path.isAbsolute name then (.error (.noCommand n), s)
    else match s.world.currentDir with
      | none => (.error (.noCommand name), s)
      | some cwd =>
        let (answer, s) := s.flags (cwd.join name).clean
        (answer.mapError (rename name), s)
  | (answer, s) => (answer, s)

end Session

end CompileFlags
