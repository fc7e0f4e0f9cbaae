import CompileFlags.Project.History

/-!
# What a run establishes

The history of a session, told as a list of events: places found, databases read, flags given. A
look-up is told by the calls for flags that it makes. What a project remembers at the end of a run
can be read off this list alone.
-/

namespace CompileFlags

def Command.lastRecorded (commands : List Command) (name : String) : Option Command :=
  commands.reverse.find? (·.filename == name)

/-- What a call on a project establishes. -/
inductive Event where
  | located (l : Located)
  /-- The database has been read, in a current directory. -/
  | read (cwd : Option Path) (commands : List Command)
  | answered (name : String) (flags : List String)

namespace Event

def place? : Event → Option Located
  | located l => some l
  | _ => none

def recorded? (name : String) : Event → Option (List String)
  | read cwd commands => (Command.lastRecorded commands name).map (·.flags cwd)
  | _ => none

def answer? (name : String) : Event → Option (List String)
  | answered n flags => if n = name then some flags else none
  | _ => none

end Event

/-- Events in the order in which they happened. -/
abbrev Chronicle := List Event

namespace Chronicle

def place? (es : Chronicle) : Option Located :=
  es.reverse.findSome? Event.place?

/-- The flags recorded by the latest reading that knows a name. -/
def recorded? (es : Chronicle) (name : String) : Option (List String) :=
  es.reverse.findSome? (Event.recorded? name)

/-- The flags first given for a name. -/
def answer? (es : Chronicle) (name : String) : Option (List String) :=
  es.findSome? (Event.answer? name)

/-- The flags by which a name is remembered: a recording stands above every answer. -/
def remembered? (es : Chronicle) (name : String) : Option (List String) :=
  (es.recorded? name).or (es.answer? name)

@[simp] theorem place?_snoc (es : Chronicle) (e : Event) :
    Chronicle.place? (es ++ [e]) = e.place?.or (place? es) := by
  cases h : e.place? <;> simp [place?, h]

@[simp] theorem recorded?_snoc (es : Chronicle) (e : Event) (name : String) :
    Chronicle.recorded? (es ++ [e]) name = (e.recorded? name).or (recorded? es name) := by
  cases h : e.recorded? name <;> simp [recorded?, h]

@[simp] theorem answer?_snoc (es : Chronicle) (e : Event) (name : String) :
    Chronicle.answer? (es ++ [e]) name = (answer? es name).or (e.answer? name) := by
  simp [answer?, List.findSome?_append]

@[simp] theorem remembered?_snoc_located (es : Chronicle) (l : Located) (name : String) :
    Chronicle.remembered? (es ++ [.located l]) name = remembered? es name := by
  simp [remembered?, Event.recorded?, Event.answer?]

/-- A reading of the database stands above all that came before it. -/
@[simp] theorem remembered?_snoc_read (es : Chronicle) (cwd : Option Path) (cs : List Command)
    (name : String) :
    Chronicle.remembered? (es ++ [.read cwd cs]) name =
      ((Command.lastRecorded cs name).map (·.flags cwd)).or (remembered? es name) := by
  simp [remembered?, Event.recorded?, Event.answer?, Option.or_assoc]

/-- An answer counts only where nothing is remembered yet. -/
@[simp] theorem remembered?_snoc_answered (es : Chronicle) (n : String) (flags : List String)
    (name : String) :
    Chronicle.remembered? (es ++ [.answered n flags]) name =
      (remembered? es name).or (if n = name then some flags else none) := by
  simp [remembered?, Event.recorded?, Event.answer?, Option.or_assoc]

end Chronicle

namespace Session

/-- The names for which a look-up asks for flags. -/
def lookupNames (s : Session) (name : String) : List String :=
  match s.flags name with
  | (.error (.noCommand _), s) =>
    if Path.isAbsolute name then [name]
    else match s.world.currentDir with
      | none => [name]
      | some cwd => [name, (cwd.join name).clean]
  | _ => [name]

def spell (s : Session) : Call → List Call
  | .lookup name => (s.lookupNames name).map .flags
  | c => [c]

def spellAll (s : Session) : List Call → List Call
  | [] => []
  | c :: cs => s.spell c ++ spellAll (s.step c).2 cs

def populateEvents (s : Session) (signals : List Search.Signal) (name : String)
    (candidates : List Path) : Chronicle :=
  let name := s.project.nameOf name
  match Search.settle name (s.project.candidatesOf candidates) signals with
  | .error _ => []
  | .ok directory =>
    .located ⟨directory, name⟩ ::
      match (Database.load s.world directory name).1 with
      | .error _ => []
      | .ok db => [.read s.world.currentDir db.commands]

/-- The events of a call that is no look-up. -/
def events (s : Session) : Call → Chronicle
  | .populate name candidates =>
    s.populateEvents
      (Search.inOrder s.world (s.project.nameOf name) (s.project.candidatesOf candidates))
      name candidates
  | .populateHearing signals name candidates => s.populateEvents signals name candidates
  | .flags name =>
    match (s.flags name).1 with
    | .error _ => []
    | .ok flags => [.answered name flags]
  | _ => []

/-- The events of a run, look-ups spelled out. -/
def chronicle (s : Session) (cs : List Call) : Chronicle :=
  (s.before (s.spellAll cs)).flatMap fun (s, c) ↦ s.events c

end Session

end CompileFlags
