import CompileFlags.Project

/-!
# Runs of a session

What can happen to a project one thing at a time: calls on it, free searches and readings beside
it, and changes of its surroundings. A run takes a list of these steps and keeps what each of them
answered.
-/

namespace CompileFlags

inductive Call where
  | populate (name : String) (candidates : List Path)
  /-- Populate, where the search hears these signals in this order. -/
  | populateHearing (signals : List Search.Signal) (name : String) (candidates : List Path)
  | flags (name : String)
  | lookup (name : String)
  /-- Search without touching the project. -/
  | find (name : String) (candidates : List Path)
  /-- Read a database without touching the cache. -/
  | readAll (l : Located)
  | setOptions (o : Options)
  /-- Files or the current directory have changed. -/
  | surroundings (w : World)

inductive Answer where
  | count (a : Except LoadError Nat)
  | flags (a : Except LoadError (List String))
  | directory (a : Except LoadError Path)
  | commands (a : Except LoadError (List Command))
  | done

namespace Session

def start (root : Path) (options : Options) (w : World) : Session :=
  ⟨{ Project.new root with options := options }, w⟩

def step (s : Session) : Call → Answer × Session
  | .populate name candidates =>
    let (a, s) := s.populate name candidates
    (.count a, s)
  | .populateHearing signals name candidates =>
    let (a, s) := s.populateHearing signals name candidates
    (.count a, s)
  | .flags name =>
    let (a, s) := s.flags name
    (.flags a, s)
  | .lookup name =>
    let (a, s) := s.lookup name
    (.flags a, s)
  | .find name candidates =>
    (.directory ((Search.find s.world name candidates).mapError .notFound), s)
  | .readAll l =>
    let (a, s) := s.readAll l
    (.commands a, s)
  | .setOptions o => (.done, { s with project.options := o })
  | .surroundings w => (.done, { s with world := w })

/-- The answers of a list of steps, in order, and the session after them. -/
def run (s : Session) : List Call → List Answer × Session
  | [] => ([], s)
  | c :: cs =>
    let (a, s) := s.step c
    let (as, s) := run s cs
    (a :: as, s)

def before (s : Session) : List Call → List (Session × Call)
  | [] => []
  | c :: cs => (s, c) :: before (s.step c).2 cs

@[simp] theorem run_nil (s : Session) : s.run [] = ([], s) := rfl

@[simp] theorem run_cons (s : Session) (c : Call) (cs : List Call) :
    s.run (c :: cs) = ((s.step c).1 :: ((s.step c).2.run cs).1, ((s.step c).2.run cs).2) := rfl

theorem run_append (s : Session) (cs ds : List Call) :
    s.run (cs ++ ds) = ((s.run cs).1 ++ ((s.run cs).2.run ds).1, ((s.run cs).2.run ds).2) := by
  induction cs generalizing s with
  | nil => rfl
  | cons c cs ih => simp [ih]

end Session

end CompileFlags
