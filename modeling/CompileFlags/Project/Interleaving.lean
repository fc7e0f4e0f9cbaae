import CompileFlags.Project.Chronicle

/-!
# Callers that share a project

Several callers may use one project at a time. Loading the database takes two sections during which
the project is held: one that publishes the place found, one that puts all flags into the cache.
The search before the first section and the reading between the two do not hold the project. Asking
for flags is one section. A log tells which caller established what, in the order in which it
happened.
-/

namespace CompileFlags.Shared

inductive Caller where
  | populating (name : String) (candidates : List Path)
  /-- The place is found and not yet published. -/
  | found (l : Located)
  /-- The place is published, the database not yet read. -/
  | reading (l : Located)
  /-- All commands are read; their flags are not in the cache yet. -/
  | absorbing (commands : List Command)
  | populated (commands : List Command)
  | asking (name : String)
  | answered (name : String) (answer : Except LoadError (List String))
  | failed (why : LoadError)

def Caller.IsStarting : Caller → Prop
  | .populating _ _ | .asking _ => True
  | _ => False

structure State where
  session : Session
  callers : List Caller

/-- What one section of a caller does to the session and to the caller, and what it establishes.
A search may hear anything. -/
inductive Section : Session → Caller → Option Event → Session → Caller → Prop
  | notFound {s : Session} {name : String} {candidates : List Path}
      {signals : List Search.Signal} {why : Search.NotFound} :
      Search.settle (s.project.nameOf name) (s.project.candidatesOf candidates) signals =
        .error why →
      Section s (.populating name candidates) none s (.failed (.notFound why))
  | find {s : Session} {name : String} {candidates : List Path}
      {signals : List Search.Signal} {directory : Path} :
      Search.settle (s.project.nameOf name) (s.project.candidatesOf candidates) signals =
        .ok directory →
      Section s (.populating name candidates) none s
        (.found ⟨directory, s.project.nameOf name⟩)
  | publish {s : Session} {l : Located} :
      Section s (.found l) (some (.located l)) { s with project := s.project.publish l }
        (.reading l)
  | unreadable {s t : Session} {l : Located} {e : LoadError} :
      s.readAll l = (.error e, t) → Section s (.reading l) none t (.failed e)
  | read {s t : Session} {l : Located} {commands : List Command} :
      s.readAll l = (.ok commands, t) →
      Section s (.reading l) none t (.absorbing commands)
  | absorb {s : Session} {commands : List Command} :
      Section s (.absorbing commands) (some (.read s.world.currentDir commands))
        { s with project := s.project.absorb s.world.currentDir commands } (.populated commands)
  | flags {s t : Session} {name : String} {answer : Except LoadError (List String)} :
      s.flags name = (answer, t) →
      Section s (.asking name) (answer.toOption.map (.answered name)) t (.answered name answer)

/-- What has been established, and by which caller. -/
abbrev Log := List (Nat × Event)

namespace Log

def events (log : Log) : Chronicle :=
  log.map Prod.snd

/-- The readings of the database that a caller has put into the cache. -/
def readings (log : Log) (i : Nat) : List (Option Path × List Command) :=
  log.filterMap fun (j, e) ↦
    match e with
    | .read cwd commands => if j = i then some (cwd, commands) else none
    | _ => none

end Log

/-- One section of any caller, or a change of the surroundings. -/
inductive Step : State → Log → State → Prop
  | caller {s t : Session} {callers : List Caller} {i : Nat} {c d : Caller} {e : Option Event} :
      callers[i]? = some c → Section s c e t d →
      Step ⟨s, callers⟩ (e.toList.map (i, ·)) ⟨t, callers.set i d⟩
  | surroundings {s : Session} {callers : List Caller} {w : World} :
      Step ⟨s, callers⟩ [] ⟨{ s with world := w }, callers⟩

/-- A run of sections, in the order in which they happen. -/
inductive Run : State → Log → State → Prop
  | nil {a : State} : Run a [] a
  | snoc {a b c : State} {log more : Log} : Run a log b → Step b more c → Run a (log ++ more) c

end CompileFlags.Shared
