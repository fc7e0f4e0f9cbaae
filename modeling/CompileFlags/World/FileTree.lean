import CompileFlags.World

/-!
# A tree of files

Files, directories and symbolic links by their place below the root, and a current directory that
may have been removed. Following a path asks for a directory at every step, expands links, and
stops at names, paths and link chains that are too long. The tree gives the view that a `World` is.
-/

namespace CompileFlags.FileTree

abbrev Name := String

inductive Node where
  | file (content : List UInt8)
  | directory
  | link (target : Path)
  | input
  deriving DecidableEq, Repr

/-- A place is given by the names that lead to it from the root, innermost first. -/
abbrev Place := List Name

/-- Where one stands: a place, and how many removed directories lie between it and the directory
in which one stands. -/
structure Standing where
  place : Place
  removed : Nat
  deriving DecidableEq, Repr

end FileTree

structure FileTree where
  nodes : List (FileTree.Place × FileTree.Node)
  cwd : FileTree.Standing

namespace FileTree

def maxName : Nat := 255

/-- Every path must be shorter than this, in bytes. -/
def maxPath : Nat := 4096

def maxLinks : Nat := 40

def empty : FileTree := ⟨[([], .directory)], ⟨[], 0⟩⟩

def get? (t : FileTree) (p : Place) : Option Node :=
  (t.nodes.find? (·.1 == p)).map Prod.snd

def set (t : FileTree) (p : Place) (n : Node) : FileTree :=
  { t with nodes := (p, n) :: t.nodes.filter (·.1 != p) }

/-- The names on the way that a path describes; a name that says to stay is empty. -/
def steps (p : Path) : List Name :=
  (Path.segments p.toList).map fun s ↦ if s.isIdle then "" else String.ofList s

inductive Arrival where
  | at (s : Standing)
  | missing (s : Standing) (name : Name)
  | link (target : Path) (s : Standing)
  | fault (why : ReadFault)
  deriving DecidableEq, Repr

def isDirectory (t : FileTree) (s : Standing) : Bool :=
  s.removed != 0 || t.get? s.place == some .directory

/-- Take one step. Only a directory can be stepped from; in a removed one nothing is found. -/
def step (t : FileTree) (s : Standing) (name : Name) : Arrival :=
  if !t.isDirectory s then .fault .notDirectory
  else if name.isEmpty then .at s
  else if name = ".." then
    .at (if s.removed = 0 then ⟨s.place.tail, 0⟩ else ⟨s.place, s.removed - 1⟩)
  else if s.removed != 0 then .fault .notFound
  else if maxName < name.utf8ByteSize then .fault .nameTooLong
  else match t.get? (name :: s.place) with
    | some (.link target) => .link target s
    | some _ => .at ⟨name :: s.place, 0⟩
    | none => .missing s name

inductive Outcome where
  | arrived (s : Standing)
  /-- All but the last name lead to a directory, which does not hold that name. -/
  | absent (s : Standing) (name : Name)
  | fault (why : ReadFault)
  deriving DecidableEq, Repr

def origin (s : Standing) (p : Path) : Standing :=
  if p.isAbsolute then ⟨[], 0⟩ else s

/-- Take steps up to the next link, of which the target and the steps left are returned. -/
def advance (t : FileTree) : Standing → List Name → Outcome ⊕ (Path × Standing × List Name)
  | s, [] => .inl (.arrived s)
  | s, name :: rest =>
    match t.step s name with
    | .at s => advance t s rest
    | .missing s name => .inl (if rest.isEmpty then .absent s name else .fault .notFound)
    | .link target s => .inr (target, s, rest)
    | .fault why => .inl (.fault why)

/-- Take steps, following at most so many links. -/
def follow (t : FileTree) : Nat → Standing → List Name → Outcome
  | links, s, names =>
    match t.advance s names with
    | .inl outcome => outcome
    | .inr (target, s, rest) =>
      match links with
      | 0 => .fault .tooManyLinks
      | links + 1 => follow t links (origin s target) (steps target ++ rest)

def resolve (t : FileTree) (p : Path) : Outcome :=
  if p.toList.contains '\x00' then .fault .nulInName
  else if p.isEmpty then .fault .notFound
  else if maxPath ≤ p.utf8ByteSize then .fault .nameTooLong
  else t.follow maxLinks (origin t.cwd p) (steps p)

def placeText (p : Place) : Path :=
  "/" ++ "/".intercalate p.reverse

def currentDir (t : FileTree) : Option Path :=
  if t.cwd.removed = 0 then some (placeText t.cwd.place) else none

def status (t : FileTree) (p : Path) : Except ReadFault Unit :=
  match t.resolve p with
  | .arrived _ => .ok ()
  | .absent _ _ => .error .notFound
  | .fault why => .error why

def source (t : FileTree) (p : Path) : Except ReadFault Source :=
  match t.resolve p with
  | .fault why => .error why
  | .absent _ _ => .error .notFound
  | .arrived s =>
    if t.isDirectory s then .error .isDirectory
    else match t.get? s.place with
      | some (.file content) => .ok (.file content)
      | some .input => .ok .input
      | _ => .error .notFound

def world (t : FileTree) (input : List UInt8) : World :=
  ⟨t.currentDir, t.status, t.source, input⟩

/-- Take steps and make the directories that are missing on the way. -/
def makeWay (t : FileTree) : Nat → Standing → List Name → FileTree × Standing
  | 0, s, _ => (t, s)
  | _ + 1, s, [] => (t, s)
  | fuel + 1, s, name :: rest =>
    match t.step s name with
    | .at s => makeWay t fuel s rest
    | .missing s name =>
      makeWay (t.set (name :: s.place) .directory) fuel ⟨name :: s.place, 0⟩ rest
    | .link target s => makeWay t fuel (origin s target) (steps target ++ rest)
    | .fault _ => (t, s)

/-- Enough steps for any path with all the links it may meet. -/
def makeFuel : Nat := maxPath * (maxLinks + 1)

def makeDirectory (t : FileTree) (p : Path) : FileTree × Standing :=
  t.makeWay makeFuel (origin t.cwd p) (steps p)

/-- Put a node where a path leads, with the directories on the way; a link at the end of the path
is followed, unless it is a link that is put there. -/
def put (t : FileTree) (p : Path) (n : Node) : FileTree :=
  match n with
  | .directory => (t.makeDirectory p).1
  | _ =>
    let names := steps p
    let (t, s) := t.makeWay makeFuel (origin t.cwd p) names.dropLast
    match n, t.follow maxLinks s (names.drop (names.length - 1)) with
    | .link _, .absent s name => t.set (name :: s.place) n
    | .link _, _ => t
    | _, .absent s name => t.set (name :: s.place) n
    | _, .arrived s => if s.removed = 0 then t.set s.place n else t
    | _, .fault _ => t

/-- Remove what a path names, with everything below it. Separators at the end do not matter. -/
def remove (t : FileTree) (p : Path) : FileTree :=
  let names := (steps p).reverse.dropWhile String.isEmpty |>.reverse
  match t.follow maxLinks (origin t.cwd p) names.dropLast, names.getLast? with
  | .arrived ⟨place, 0⟩, some name =>
    let gone := name :: place
    let cwd :=
      if gone.isSuffixOf t.cwd.place then
        ⟨place, t.cwd.removed + (t.cwd.place.length - place.length)⟩
      else t.cwd
    ⟨t.nodes.filter fun n ↦ !gone.isSuffixOf n.1, cwd⟩
  | _, _ => t

def changeDir (t : FileTree) (p : Path) : FileTree :=
  match t.resolve p with
  | .arrived s => if t.isDirectory s then { t with cwd := s } else t
  | _ => t

def removeCurrent (t : FileTree) : FileTree :=
  t.remove (placeText t.cwd.place)

end FileTree

end CompileFlags
