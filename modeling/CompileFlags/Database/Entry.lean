import CompileFlags.Json.Skip
import CompileFlags.Command
import CompileFlags.Text.Words

/-!
# Entries of a compilation database

A database is a list of entries. An entry is an object with a directory, a file and the compiler's
arguments, given as a list or as one command string; or a list of these four values in that order.
Reading goes strictly from left to right, so the error reported is the first one in the text, a
value of the wrong kind included.

Readers of lists and objects take a budget that bounds their rounds. Every round takes at least one
byte, so a budget above the number of bytes left is never used up, and the length of the document
serves all of its readers.
-/

namespace CompileFlags.Database

open Json

/-- One record of a database, before its invocation is looked at. -/
structure Entry where
  directory : Path
  file : String
  arguments : Option (List String)
  command : Option String
  deriving DecidableEq, Repr

namespace Entry

/-- What a value that is not of the expected kind is. Its own errors come first; a list or an
object is known by its bracket. -/
def found (b : UInt8) (s : Bytes) : Except Error Found :=
  if b = byte 'n' then (literal ['u', 'l', 'l'] s).map fun _ ↦ .null
  else if b = byte 't' then (literal ['r', 'u', 'e'] s).map fun _ ↦ .boolean true
  else if b = byte 'f' then (literal ['a', 'l', 's', 'e'] s).map fun _ ↦ .boolean false
  else if b = byte '-' then (Number.readUnsigned true s).map (.number ·.1)
  else if isDigit b then (Number.readUnsigned false (b :: s)).map (.number ·.1)
  else if b = byte '"' then (Text.read s).map (.string ·.1)
  else if b = byte '[' then .ok .list
  else if b = byte '\x7b' then .ok .object
  else .error (.malformed .expectedValue)

def unexpected (expected : Expected) (b : UInt8) (s : Bytes) : Error :=
  match found b s with
  | .ok f => .mismatch (.wrongType f expected)
  | .error e => e

/-- Read a string, at a place where `expected` names what must stand there. -/
def readText (expected : Expected) (s : Bytes) : Except Error (String × Bytes) :=
  match skipBlanks s with
  | [] => .error (.eof .value)
  | b :: r => if b = byte '"' then Text.read r else .error (unexpected expected b r)

def readList (budget : Nat) (s : Bytes) : Except Error (List String × Bytes) :=
  match skipBlanks s with
  | [] => .error (.eof .value)
  | b :: r =>
    if b = byte '[' then readItems (fun _ ↦ readText .string) budget [] r
    else .error (unexpected .list b r)

/-- Read a value that may be `null`. -/
def readOptional {α : Type} (read : Reader α) (s : Bytes) : Except Error (Option α × Bytes) :=
  match skipBlanks s with
  | [] => .error (.eof .value)
  | b :: r =>
    if b = byte 'n' then (literal ['u', 'l', 'l'] r).map (none, ·)
    else (read (b :: r)).map fun (a, rest) ↦ (some a, rest)

/-- The members of an entry that have been read. -/
structure Draft where
  directory : Option Path
  file : Option String
  arguments : Option (Option (List String))
  command : Option (Option String)
  deriving DecidableEq, Repr

namespace Draft

def empty : Draft := ⟨none, none, none, none⟩

def has (d : Draft) : Field → Bool
  | .directory => d.directory.isSome
  | .file => d.file.isSome
  | .arguments => d.arguments.isSome
  | .command => d.command.isSome

def read (budget : Nat) (d : Draft) (field : Field) (s : Bytes) : Except Error (Draft × Bytes) :=
  match field with
  | .directory => (readText .path s).map fun (v, rest) ↦ ({ d with directory := some v }, rest)
  | .file => (readText .string s).map fun (v, rest) ↦ ({ d with file := some v }, rest)
  | .arguments =>
    (readOptional (readList budget) s).map fun (v, rest) ↦
      ({ d with arguments := some v }, rest)
  | .command =>
    (readOptional (readText .string) s).map fun (v, rest) ↦ ({ d with command := some v }, rest)

/-- The entry, once its object has ended. -/
def finish (d : Draft) : Except Error Entry :=
  match d.directory, d.file with
  | none, _ => .error (.mismatch (.missing .directory))
  | some _, none => .error (.mismatch (.missing .file))
  | some directory, some file => .ok ⟨directory, file, d.arguments.join, d.command.join⟩

end Draft

/-- Read one member after the quote that opens its name. A known name may stand once. -/
def readMember (budget : Nat) (d : Draft) (s : Bytes) : Except Error (Draft × Bytes) := do
  let (name, s) ← Text.read s
  match Field.ofName? name with
  | some field =>
    if d.has field then .error (.mismatch (.duplicate field))
    else d.read budget field (← colon s)
  | none => return (d, ← Skip.value budget (← colon s))

def readMembers : Nat → Bool → Draft → Bytes → Except Error (Entry × Bytes)
  | 0, _, _, _ => .error (.eof .object)
  | n + 1, first, d, s => do
    match ← nextMember first s with
    | .ended rest => return (← d.finish, rest)
    | .item s =>
      let (d, s) ← readMember n d s
      readMembers n false d s

/-- Read the element at position `n` of an entry written as a list. -/
def readPart {α : Type} (n : Nat) (read : Reader α) (s : Bytes) : Except Error (α × Bytes) := do
  match ← nextElement (n == 0) s with
  | .ended _ => .error (.mismatch (.tooShort n))
  | .item s => read s

/-- Go past the end of an entry written as a list. -/
def endParts (s : Bytes) : Except Error Bytes :=
  match skipBlanks s with
  | [] => .error (.eof .list)
  | b :: r =>
    if b = byte ']' then .ok r
    else if b = byte ',' ∧ (skipBlanks r).head? = some (byte ']') then
      .error (.malformed .trailingComma)
    else .error (.malformed .trailingCharacters)

def readParts (budget : Nat) (s : Bytes) : Except Error (Entry × Bytes) := do
  let (directory, s) ← readPart 0 (readText .path) s
  let (file, s) ← readPart 1 (readText .string) s
  let (arguments, s) ← readPart 2 (readOptional (readList budget)) s
  let (command, s) ← readPart 3 (readOptional (readText .string)) s
  return (⟨directory, file, arguments, command⟩, ← endParts s)

def read (budget : Nat) (s : Bytes) : Except Error (Entry × Bytes) :=
  match skipBlanks s with
  | [] => .error (.eof .value)
  | b :: r =>
    if b = byte '\x7b' then readMembers budget true .empty r
    else if b = byte '[' then readParts budget r
    else .error (unexpected .entry b r)

/-- Read a whole document: one list of entries with nothing but blanks after it. -/
def readDocument (s : Bytes) : Except Error (List Entry) :=
  match skipBlanks s with
  | [] => .error (.eof .value)
  | b :: r =>
    if b = byte '[' then
      match readItems read s.length [] r with
      | .error e => .error e
      | .ok (entries, rest) =>
        if (skipBlanks rest).isEmpty then .ok entries
        else .error (.malformed .trailingCharacters)
    else .error (unexpected .document b r)

inductive Fault where
  | noInvocation
  | openQuote
  deriving DecidableEq, Repr

def Fault.message : Fault → String
  | noInvocation => "entry has neither `arguments` nor `command`"
  | openQuote => "cannot split command: missing closing quote"

/-- The arguments of an entry: the list if there is one, else the words of the command. -/
def invocation (e : Entry) : Except Fault (List String) :=
  match e.arguments, e.command with
  | some arguments, _ => .ok arguments
  | none, some command =>
    match Words.split command with
    | some words => .ok words
    | none => .error .openQuote
  | none, none => .error .noInvocation

def toCommand (e : Entry) : Except Fault Command :=
  e.invocation.map fun arguments ↦ ⟨e.directory, e.file, arguments⟩

end Entry

end CompileFlags.Database
