import CompileFlags.Path

/-!
# What a run can see

Looking up flags needs little of its surroundings: the current directory, what a path leads to, and
the bytes behind it. A path may lead to standard input, which can be read once.
-/

namespace CompileFlags

/-- Why a path cannot be looked at or read. -/
inductive ReadFault where
  | notFound
  | notPermitted
  | accessDenied
  | notDirectory
  | isDirectory
  | nameTooLong
  | tooManyLinks
  | nulInName
  | other (text : String)
  deriving DecidableEq, Repr

namespace ReadFault

def message : ReadFault → String
  | notFound => "No such file or directory (os error 2)"
  | notPermitted => "Operation not permitted (os error 1)"
  | accessDenied => "Permission denied (os error 13)"
  | notDirectory => "Not a directory (os error 20)"
  | isDirectory => "Is a directory (os error 21)"
  | nameTooLong => "File name too long (os error 36)"
  | tooManyLinks => "Too many levels of symbolic links (os error 40)"
  | nulInName => "file name contained an unexpected NUL byte"
  | other text => text

/-- Is it for lack of permission? -/
def isDenial : ReadFault → Bool
  | notPermitted | accessDenied => true
  | _ => false

end ReadFault

/-- Where the bytes behind a path come from. -/
inductive Source where
  | file (content : List UInt8)
  | input
  deriving DecidableEq, Repr

structure World where
  /-- The current directory, where it can be told. -/
  currentDir : Option Path
  /-- Whether a path leads somewhere, links followed. -/
  status : Path → Except ReadFault Unit
  source : Path → Except ReadFault Source
  /-- What is left of standard input. -/
  input : List UInt8

namespace World

/-- Ask whether a path leads somewhere. That it leads nowhere is an answer; where the question
cannot be settled there is none. -/
def tryExists (w : World) (p : Path) : Except ReadFault Bool :=
  match w.status p with
  | .ok _ => .ok true
  | .error .notFound => .ok false
  | .error why => .error why

def read (w : World) (p : Path) : Except ReadFault (List UInt8) × World :=
  match w.source p with
  | .error e => (.error e, w)
  | .ok (.file content) => (.ok content, w)
  | .ok .input => (.ok w.input, { w with input := [] })

/-- Surroundings in which one path leads to a file and no other path leads anywhere. -/
def ofFile (cwd : Path) (p : Path) (content : String) : World where
  currentDir := some cwd
  status q := if q = p then .ok () else .error .notFound
  source q := if q = p then .ok (.file content.toUTF8.toList) else .error .notFound
  input := []

def Steady (w : World) (p : Path) : Prop :=
  (w.read p).2 = w

end World

end CompileFlags
