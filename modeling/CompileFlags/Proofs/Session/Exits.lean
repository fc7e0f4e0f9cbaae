import CompileFlags.Project.History

/-!
# How the operations of a session end

One rule for every way in which loading a database, populating and asking for flags can end, with
the answer and the session that are left. Statements about a session go through these rules and do
not open the operations themselves.
-/

namespace CompileFlags

/-- Reading leaves everything but standard input as it was. -/
theorem World.read_snd (w : World) (p : Path) :
    ∃ input, (w.read p).2 = { w with input := input } := by
  unfold World.read
  split
  · exact ⟨w.input, rfl⟩
  · exact ⟨w.input, rfl⟩
  · exact ⟨[], rfl⟩

namespace Database

theorem load_snd (w : World) (directory : Path) (name : String) :
    (load w directory name).2 = (w.read (file directory name)).2 := by
  rcases hread : w.read (file directory name) with ⟨answer, v⟩
  cases answer with
  | error why => simp [load, hread]
  | ok content => cases h : ofBytes content <;> simp [load, hread, h]

theorem currentDir_of_load {w v : World} {directory : Path} {name : String}
    {answer : Except OpenError Database} (h : load w directory name = (answer, v)) :
    v.currentDir = w.currentDir := by
  obtain ⟨input, hw⟩ := w.read_snd (file directory name)
  have hv : v = { w with input := input } := by rw [← hw, ← load_snd, h]
  rw [hv]

/-- A failure tells which file was to be opened. -/
theorem path_of_load_error {w v : World} {directory : Path} {name : String} {why : OpenError}
    (h : load w directory name = (.error why, v)) : why.path = file directory name := by
  unfold load at h
  dsimp only at h
  split at h
  · cases h
    rfl
  · split at h <;> cases h
    rfl

/-- An open database tells from which file it was read. -/
theorem path_of_load_ok {w v : World} {directory : Path} {name : String} {db : Database}
    (h : load w directory name = (.ok db, v)) : db.path = file directory name := by
  unfold load at h
  dsimp only at h
  split at h
  · cases h
  · split at h <;> cases h
    rfl

end Database

/-- The counts once a database has been opened, used and released. -/
def Tally.visited (t : Tally) (file : Path) (use : Use) : Tally :=
  ((t.note (.opened file)).note (.used use)).note .released

namespace Session

/-- How opening a database ends. -/
inductive Opens (s : Session) (l : Located) : Except LoadError Database → Session → Prop
  | refused {why : Database.OpenError} {w : World} :
      Database.load s.world l.directory l.name = (.error why, w) →
      Opens s l (.error (.databaseOpen l.directory why))
        (note { s with world := w } (.refused (Database.file l.directory l.name)))
  | opened {db : Database} {w : World} :
      Database.load s.world l.directory l.name = (.ok db, w) →
      Opens s l (.ok db)
        (note { s with world := w } (.opened (Database.file l.directory l.name)))

theorem openAt_exit (s : Session) (l : Located) : Opens s l (s.openAt l).1 (s.openAt l).2 := by
  rcases hload : Database.load s.world l.directory l.name with ⟨answer, w⟩
  cases answer with
  | error why =>
      have h : Opens s l _ _ := .refused hload
      simpa [openAt, hload, Database.path_of_load_error hload] using h
  | ok db =>
      have h : Opens s l _ _ := .opened hload
      simpa [openAt, hload, Database.path_of_load_ok hload] using h

/-- How a visit to a database ends. -/
inductive Consults {α : Type} (s : Session) (l : Located) (use : Use) (answer : Database → α) :
    Except LoadError α → Session → Prop
  | unreadable {why : Database.OpenError} {w : World} :
      Database.load s.world l.directory l.name = (.error why, w) →
      Consults s l use answer (.error (.databaseOpen l.directory why))
        ⟨{ s.project with
            tally := s.project.tally.note (.refused (Database.file l.directory l.name)) }, w⟩
  | opened {db : Database} {w : World} :
      Database.load s.world l.directory l.name = (.ok db, w) →
      Consults s l use answer (.ok (answer db))
        ⟨{ s.project with
            tally := s.project.tally.visited (Database.file l.directory l.name) use }, w⟩

theorem consult_exit {α : Type} (s : Session) (l : Located) (use : Use) (answer : Database → α) :
    Consults s l use answer (s.consult l use answer).1 (s.consult l use answer).2 := by
  have hexit := s.openAt_exit l
  rw [consult]
  generalize s.openAt l = result at hexit ⊢
  obtain ⟨opening, t⟩ := result
  cases hexit with
  | refused hload => exact .unreadable hload
  | opened hload => exact .opened hload

/-- Reading a database changes nothing of the project but its counts. -/
theorem readAll_project (s : Session) (l : Located) :
    ∃ tally, (s.readAll l).2.project = { s.project with tally := tally } := by
  have hexit := s.consult_exit l .readAll (·.commands)
  rw [readAll]
  generalize s.consult l .readAll (·.commands) = result at hexit ⊢
  obtain ⟨answer, t⟩ := result
  cases hexit <;> exact ⟨_, rfl⟩

/-- How populating ends. -/
inductive Populates (s : Session) (signals : List Search.Signal) (name : String)
    (candidates : List Path) : Except LoadError Nat → Session → Prop
  | notFound {why : Search.NotFound} :
      Search.settle (s.project.nameOf name) (s.project.candidatesOf candidates) signals =
        .error why →
      Populates s signals name candidates (.error (.notFound why)) s
  | unreadable {directory : Path} {why : Database.OpenError} {w : World} :
      Search.settle (s.project.nameOf name) (s.project.candidatesOf candidates) signals =
        .ok directory →
      Database.load s.world directory (s.project.nameOf name) = (.error why, w) →
      Populates s signals name candidates (.error (.databaseOpen directory why))
        ⟨{ s.project with
            located := some ⟨directory, s.project.nameOf name⟩
            tally := s.project.tally.note
              (.refused (Database.file directory (s.project.nameOf name))) }, w⟩
  | read {directory : Path} {db : Database} {w : World} :
      Search.settle (s.project.nameOf name) (s.project.candidatesOf candidates) signals =
        .ok directory →
      Database.load s.world directory (s.project.nameOf name) = (.ok db, w) →
      Populates s signals name candidates (.ok db.commands.length)
        ⟨{ s.project with
            located := some ⟨directory, s.project.nameOf name⟩
            cache := db.commands.foldl (Project.record s.world.currentDir) s.project.cache
            tally := s.project.tally.visited
              (Database.file directory (s.project.nameOf name)) .readAll }, w⟩

theorem populateHearing_exit (s : Session) (signals : List Search.Signal) (name : String)
    (candidates : List Path) :
    Populates s signals name candidates (s.populateHearing signals name candidates).1
      (s.populateHearing signals name candidates).2 := by
  cases hfind : Search.settle (s.project.nameOf name) (s.project.candidatesOf candidates)
      signals with
  | error why =>
      simpa [populateHearing, hfind] using Populates.notFound hfind
  | ok directory =>
      let l : Located := ⟨directory, s.project.nameOf name⟩
      have hexit := consult_exit { s with project := s.project.publish l } l .readAll (·.commands)
      simp only [populateHearing, hfind, readAll]
      generalize consult { s with project := s.project.publish l } l .readAll (·.commands) =
        result at hexit ⊢
      obtain ⟨answer, t⟩ := result
      cases hexit with
      | unreadable hload => exact .unreadable hfind hload
      | opened hload =>
          have h := Populates.read hfind hload
          rwa [← Database.currentDir_of_load hload] at h

/-- How asking for flags ends. -/
inductive Asks (s : Session) (name : String) : Except LoadError (List String) → Session → Prop
  | cached {flags : List String} :
      s.project.cache.get? name = some flags → Asks s name (.ok flags) s
  | notLocated :
      s.project.cache.get? name = none → s.project.located = none →
      Asks s name (.error (.notLocated name)) s
  | unreadable {l : Located} {why : Database.OpenError} {w : World} :
      s.project.cache.get? name = none → s.project.located = some l →
      Database.load s.world l.directory l.name = (.error why, w) →
      Asks s name (.error (.databaseOpen l.directory why))
        ⟨{ s.project with
            tally := s.project.tally.note (.refused (Database.file l.directory l.name)) }, w⟩
  | unknown {l : Located} {db : Database} {w : World} :
      s.project.cache.get? name = none → s.project.located = some l →
      Database.load s.world l.directory l.name = (.ok db, w) →
      (db.query name).head? = none →
      Asks s name (.error (.noCommand name))
        ⟨{ s.project with
            tally := s.project.tally.visited (Database.file l.directory l.name) .query }, w⟩
  | looked {l : Located} {db : Database} {w : World} {c : Command} :
      s.project.cache.get? name = none → s.project.located = some l →
      Database.load s.world l.directory l.name = (.ok db, w) →
      (db.query name).head? = some c →
      Asks s name (.ok (c.flags s.world.currentDir))
        ⟨{ s.project with
            cache := s.project.cache.insert name (c.flags s.world.currentDir)
            tally := s.project.tally.visited (Database.file l.directory l.name) .query }, w⟩

theorem flags_exit (s : Session) (name : String) :
    Asks s name (s.flags name).1 (s.flags name).2 := by
  cases hcache : s.project.cache.get? name with
  | some known => simpa [flags, hcache] using Asks.cached hcache
  | none =>
      cases hplace : s.project.located with
      | none => simpa [flags, hcache, hplace] using Asks.notLocated hcache hplace
      | some l =>
          have hexit := s.consult_exit l .query fun db ↦ (db.query name).head?
          simp only [flags, hcache, hplace]
          generalize (s.consult l .query fun db ↦ (db.query name).head?) = result at hexit ⊢
          obtain ⟨answer, t⟩ := result
          cases hexit with
          | unreadable hload => exact .unreadable hcache hplace hload
          | @opened db _ hload =>
              cases hquery : (db.query name).head? with
              | none => exact .unknown hcache hplace hload hquery
              | some c =>
                  have h := Asks.looked hcache hplace hload hquery
                  rwa [← Database.currentDir_of_load hload] at h

end Session

end CompileFlags
