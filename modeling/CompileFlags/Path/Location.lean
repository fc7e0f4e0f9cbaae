import CompileFlags.Path

/-!
# Lexical locations

A path read from some directory leads to a place that depends on its text alone. `Location` is
that place in its only form: names below the root, or names below a number of steps up from
wherever the reader stands. `clean` writes the form down; `walk` follows a path from a concrete
start and is what two spellings of one place have in common.
-/

namespace CompileFlags.Path

/-- Where a path leads. Names are listed innermost first. -/
inductive Location where
  | rooted (names : List Segment)
  | relative (ups : Nat) (names : List Segment)
  deriving DecidableEq, Repr

namespace Location

/-- One step: idle segments stay, `..` leaves the innermost name, any other segment enters it.
Above the root there is nothing to leave. -/
def enter (l : Location) (s : Segment) : Location :=
  if s.isIdle then l
  else if s = up then
    match l with
    | rooted names => rooted names.tail
    | relative ups [] => relative (ups + 1) []
    | relative ups (_ :: names) => relative ups names
  else
    match l with
    | rooted names => rooted (s :: names)
    | relative ups names => relative ups (s :: names)

def ofPath (p : Path) : Location :=
  (segments p.toList).foldl enter (if p.isAbsolute then rooted [] else relative 0 [])

def components : Location → List Segment
  | rooted names => names.reverse
  | relative ups names => List.replicate ups up ++ names.reverse

/-- The shortest text of a place; `.` where nothing is left. -/
def text : Location → Path
  | rooted names => String.ofList ('/' :: ofSegments (rooted names).components)
  | relative 0 [] => "."
  | relative ups names => String.ofList (ofSegments (relative ups names).components)

end Location

/-- The canonical text of the place to which a path leads. -/
def clean (p : Path) : Path :=
  (Location.ofPath p).text

/-- One step from a list of names, innermost first. -/
def step (names : List Segment) (s : Segment) : List Segment :=
  if s.isIdle then names else if s = up then names.tail else s :: names

/-- Follow a path from a start directory, both given by names, innermost first. -/
def walk (start : List Segment) (p : Path) : List Segment :=
  (segments p.toList).foldl step (if p.isAbsolute then [] else start)

end CompileFlags.Path
