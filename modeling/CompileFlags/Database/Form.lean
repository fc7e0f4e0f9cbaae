import CompileFlags.Database.Entry
import CompileFlags.Json.Form

/-!
# The form of a compilation database

The rules for the document, without reading it: one list of entries. An entry is an object in which
the directory and the file are given once and the arguments and the command at most once, or a list
of these four values.
-/

namespace CompileFlags.Database.Form

open Json Json.Form

inductive Member where
  | directory (p : Path)
  | file (name : String)
  | arguments (a : Option (List String))
  | command (c : Option String)
  /-- A member under any other name. -/
  | other (name : String)
  deriving DecidableEq, Repr

namespace Member

def name : Member → String
  | directory _ => Field.directory.name
  | file _ => Field.file.name
  | arguments _ => Field.arguments.name
  | command _ => Field.command.name
  | other n => n

def directory? : Member → Option Path
  | directory p => some p
  | _ => none

def file? : Member → Option String
  | file n => some n
  | _ => none

def arguments? : Member → Option (Option (List String))
  | arguments a => some a
  | _ => none

def command? : Member → Option (Option String)
  | command c => some c
  | _ => none

end Member

abbrev ListForm : List String → Bytes → Prop :=
  Bracketed '[' ']' TextForm

inductive ValueForm : Member → Bytes → Prop
  | directory {p : Path} {s : Bytes} : TextForm p s → ValueForm (.directory p) s
  | file {n : String} {s : Bytes} : TextForm n s → ValueForm (.file n) s
  | arguments {a : Option (List String)} {s : Bytes} : OptionForm ListForm a s →
      ValueForm (.arguments a) s
  | command {c : Option String} {s : Bytes} : OptionForm TextForm c s → ValueForm (.command c) s
  | other {n : String} {s : Bytes} : Field.ofName? n = none → Value s → ValueForm (.other n) s

/-- The spellings of a member: its name, a colon and its value. -/
inductive MemberForm : Member → Bytes → Prop
  | mk {m : Member} {k a b v : Bytes} : TextForm m.name k → Blank a → Blank b →
      ValueForm m v → MemberForm m (k ++ a ++ byte ':' :: b ++ v)

/-- A member that may be left out, which is as good as giving none. -/
def AtMostOnce {α : Type} (given : List (Option α)) (value : Option α) : Prop :=
  given = [value] ∨ given = [] ∧ value = none

/-- The members of an object make up an entry. -/
structure Gives (ms : List Member) (e : Entry) : Prop where
  directory : ms.filterMap Member.directory? = [e.directory]
  file : ms.filterMap Member.file? = [e.file]
  arguments : AtMostOnce (ms.filterMap Member.arguments?) e.arguments
  command : AtMostOnce (ms.filterMap Member.command?) e.command

inductive EntryForm : Entry → Bytes → Prop
  | object {ms : List Member} {e : Entry} {s : Bytes} :
      Bracketed '\x7b' '\x7d' MemberForm ms s → Gives ms e → EntryForm e s
  | list {e : Entry} {s : Bytes} :
      Bracketed '[' ']' ValueForm
        [.directory e.directory, .file e.file, .arguments e.arguments, .command e.command] s →
      EntryForm e s

inductive DocumentForm : List Entry → Bytes → Prop
  | mk {es : List Entry} {a m b : Bytes} : Blank a → Bracketed '[' ']' EntryForm es m → Blank b →
      DocumentForm es (a ++ m ++ b)

end CompileFlags.Database.Form
