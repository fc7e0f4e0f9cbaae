import CompileFlags.Database.Entry
import CompileFlags.World

/-!
# Compilation databases

Opening a database reads the whole document first and then turns every entry into a compile
command, or fails at the first entry that names no compiler run. An open database answers with all
of its commands or with those recorded for one source file.
-/

namespace CompileFlags

structure Database where
  path : Path
  commands : List Command
  deriving DecidableEq, Repr

namespace Database

inductive Fault where
  | unreadable (why : ReadFault)
  | malformed (why : Json.Error)
  | badEntry (index : Nat) (why : Entry.Fault)
  deriving DecidableEq, Repr

structure OpenError where
  path : Path
  why : Fault
  deriving DecidableEq, Repr

namespace OpenError

def message (e : OpenError) : String :=
  match e.why with
  | .unreadable why => "failed to read " ++ e.path ++ ": " ++ why.message
  | .malformed why => "malformed compilation database " ++ e.path ++ ": " ++ why.message
  | .badEntry index why =>
    "invalid entry #" ++ toString index ++ " in " ++ e.path ++ ": " ++ why.message

/-- The error's text and those of its causes, outermost first. -/
def chain (e : OpenError) : List String :=
  match e.why with
  | .unreadable why => [e.message, why.message]
  | .malformed why => [e.message, why.message]
  | .badEntry _ _ => [e.message]

end OpenError

/-- The commands of entries, the first of which stands at position `index`. -/
def commandsFrom : Nat → List Entry → Except Fault (List Command)
  | _, [] => .ok []
  | index, e :: es =>
    match e.toCommand with
    | .error why => .error (.badEntry index why)
    | .ok c => (commandsFrom (index + 1) es).map (c :: ·)

def ofBytes (content : List UInt8) : Except Fault (List Command) :=
  match Entry.readDocument content with
  | .error why => .error (.malformed why)
  | .ok entries => commandsFrom 0 entries

def file (directory : Path) (name : String) : Path :=
  Path.join directory name

def load (w : World) (directory : Path) (name : String) : Except OpenError Database × World :=
  let path := file directory name
  match w.read path with
  | (.error why, w) => (.error ⟨path, .unreadable why⟩, w)
  | (.ok content, w) =>
    match ofBytes content with
    | .error why => (.error ⟨path, why⟩, w)
    | .ok commands => (.ok ⟨path, commands⟩, w)

/-- Does a command belong to a source file? It is recorded under that name, or both names lead to
the same place. -/
def Matches (name : String) (c : Command) : Prop :=
  c.filename = name ∨ c.sourcePath.clean = Path.clean name

instance (name : String) (c : Command) : Decidable (Matches name c) :=
  inferInstanceAs (Decidable (_ ∨ _))

/-- The commands recorded for a source file, in the order of the document. -/
def query (db : Database) (name : String) : List Command :=
  db.commands.filter (Matches name ·)

end Database

end CompileFlags
