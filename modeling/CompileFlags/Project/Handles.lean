import CompileFlags.Project.Chronicle

/-!
# Handles on databases

Opening a database is refused or gives a handle, which is used and then released. Which databases a
run opens depends on what it remembers and on the surroundings at that moment: the ledger of a run
lists what is done with them, in order.
-/

namespace CompileFlags

namespace Deed

def isRefusal : Deed → Bool
  | refused _ => true
  | _ => false

def isOpening : Deed → Bool
  | opened _ => true
  | _ => false

def isUse : Deed → Bool
  | used _ => true
  | _ => false

def isRelease : Deed → Bool
  | released => true
  | _ => false

end Deed

/-- Every handle is used once, and released before anything else is opened. -/
inductive Tidy : List Deed → Prop
  | nil : Tidy []
  | refused {file : Path} {ds : List Deed} : Tidy ds → Tidy (.refused file :: ds)
  | handled {file : Path} {use : Use} {ds : List Deed} :
      Tidy ds → Tidy (.opened file :: .used use :: .released :: ds)

namespace World

/-- What opening the database at a place amounts to. -/
def openingAt (w : World) (l : Located) : Deed :=
  let file := Database.file l.directory l.name
  match (Database.load w l.directory l.name).1 with
  | .error _ => .refused file
  | .ok _ => .opened file

/-- Only a database that has been opened is used and released. -/
def deedsAt (w : World) (l : Located) (use : Use) : List Deed :=
  w.openingAt l :: if (w.openingAt l).isOpening then [.used use, .released] else []

end World

namespace Session

def populateDeeds (s : Session) (signals : List Search.Signal) (name : String)
    (candidates : List Path) : List Deed :=
  let name := s.project.nameOf name
  match Search.settle name (s.project.candidatesOf candidates) signals with
  | .error _ => []
  | .ok directory => s.world.deedsAt ⟨directory, name⟩ .readAll

/-- A name that the cache does not know is asked for at the place of the database. -/
def missDeeds (s : Session) : List Deed :=
  match s.project.located with
  | none => []
  | some l => s.world.deedsAt l .query

def flagsDeeds (s : Session) (name : String) : List Deed :=
  if (s.project.cache.get? name).isSome then [] else s.missDeeds

/-- The deeds of a call that is no look-up. -/
def deeds (s : Session) : Call → List Deed
  | .populate name candidates =>
    s.populateDeeds
      (Search.inOrder s.world (s.project.nameOf name) (s.project.candidatesOf candidates))
      name candidates
  | .populateHearing signals name candidates => s.populateDeeds signals name candidates
  | .flags name => s.flagsDeeds name
  | .readAll l => s.world.deedsAt l .readAll
  | _ => []

/-- The deeds of a run, look-ups spelled out. -/
def ledger (s : Session) (cs : List Call) : List Deed :=
  (s.before (s.spellAll cs)).flatMap fun (s, c) ↦ s.deeds c

end Session

end CompileFlags
