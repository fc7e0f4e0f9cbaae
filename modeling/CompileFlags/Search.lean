import CompileFlags.Options
import CompileFlags.World

/-!
# Finding a database

Every candidate directory is probed for the file and reports what it found. The first report of
a hit decides; once all probes have reported, or the deadline has passed, the search has failed.
-/

namespace CompileFlags

/-- Existence only. A path that may not be looked at counts as held; opening it reports the real
problem. -/
def World.holds (w : World) (p : Path) : Bool :=
  match w.tryExists p with
  | .ok found => found
  | .error why => why.isDenial

namespace Search

/-- The file that is searched for: an empty name stands for the conventional one. -/
def effectiveName (name : String) : String :=
  if name.isEmpty then Options.defaultDatabaseName else name

/-- The directory that encloses the root, as its text has it. -/
def enclosing (root : Path) : Path :=
  match Path.parent? root with
  | some p => if p.isEmpty then "." else p
  | none => root

/-- The directories searched when none are given: the root, the directory around it and the build
directory below it. -/
def defaultCandidates (root : Path) (buildDir : String) : List Path :=
  [root, enclosing root, Path.join root buildDir]

structure Report where
  directory : Path
  found : Bool
  deriving DecidableEq, Repr

inductive Signal where
  | report (r : Report)
  /-- All probes have reported and gone. -/
  | done
  | expired
  deriving DecidableEq, Repr

/-- Listen until a hit is reported or nothing more will come. -/
def listen : List Signal → Option Path
  | .report r :: rest => if r.found then some r.directory else listen rest
  | .done :: _ | .expired :: _ | [] => none

def probe (w : World) (name : String) (directory : Path) : Report :=
  ⟨directory, w.holds (directory.join name)⟩

/-- The path whose existence the probe of a directory confirms. -/
def target (name : String) (directory : Path) : Path :=
  directory.join (effectiveName name)

/-- Every report that is heard comes from the probe of a candidate. -/
def Heard (w : World) (name : String) (candidates : List Path) (signals : List Signal) : Prop :=
  ∀ r, .report r ∈ signals → ∃ d ∈ candidates, r = probe w (effectiveName name) d

structure NotFound where
  filename : String
  searched : List Path
  deriving DecidableEq, Repr

def NotFound.message (e : NotFound) : String :=
  "couldn't find the " ++ e.filename ++ " file in " ++
    if e.searched.isEmpty then "(no directories)" else ", ".intercalate e.searched

/-- The outcome of a search, given the signals in the order in which they come. -/
def settle (name : String) (candidates : List Path) (signals : List Signal) :
    Except NotFound Path :=
  match listen signals with
  | some d => .ok d
  | none => .error ⟨effectiveName name, candidates⟩

/-- The signals of a search whose probes all report in time and in order. -/
def inOrder (w : World) (name : String) (candidates : List Path) : List Signal :=
  candidates.map (fun d ↦ .report (probe w (effectiveName name) d)) ++ [.done]

/-- Search the candidates, with all reports in time and in order. -/
def find (w : World) (name : String) (candidates : List Path) : Except NotFound Path :=
  settle name candidates (inOrder w name candidates)

/-- With all reports in time, the first hit decides. -/
theorem listen_reports (rs : List Report) :
    listen (rs.map .report ++ [.done]) = (rs.find? Report.found).map Report.directory := by
  induction rs with
  | nil => rfl
  | cons r rs ih => cases h : r.found <;> simp [listen, h, ih]

end Search

end CompileFlags
