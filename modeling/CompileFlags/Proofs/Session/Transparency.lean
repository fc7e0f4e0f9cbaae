import CompileFlags.Proofs.Session.Memory

/-!
# Cached and uncached answers

A new project that has just read its database answers from two sources. A recorded name is in the
cache with the flags of the last command recorded under it; any other name is looked up, and the
first command found for it counts. An empty cache leaves the second source alone. The two agree
for a name exactly when the last command recorded under it and the first command found for it have
the same flags.
-/

namespace CompileFlags

namespace Database

/-- What the first of the commands found for a name gives. -/
def firstFlags (cwd : Option Path) (db : Database) (name : String) :
    Except LoadError (List String) :=
  match (db.query name).head? with
  | none => .error (.noCommand name)
  | some c => .ok (c.flags cwd)

/-- The last command recorded under one name and the first one found for another have the same
flags. -/
def Consistent (cwd : Option Path) (db : Database) (recorded asked : String) : Prop :=
  ∀ last first, Command.lastRecorded db.commands recorded = some last →
    (db.query asked).head? = some first → last.flags cwd = first.flags cwd

theorem load_of_file {w : World} {directory : Path} {name : String} {content : List UInt8}
    {cs : List Command} (hsource : w.source (file directory name) = .ok (.file content))
    (hopen : ofBytes content = .ok cs) :
    load w directory name = (.ok ⟨file directory name, cs⟩, w) := by
  simp [load, World.read, hsource, hopen]

theorem query_head?_of_mem {db : Database} {name : String} {c : Command} (hc : c ∈ db.commands)
    (hname : Matches name c) : ∃ first, (db.query name).head? = some first := by
  have hmem : c ∈ db.query name := List.mem_filter.mpr ⟨hc, by simpa using hname⟩
  cases hquery : db.query name with
  | nil => simp [hquery] at hmem
  | cons first rest => exact ⟨first, rfl⟩

theorem mem_of_query_head? {db : Database} {name : String} {first : Command}
    (h : (db.query name).head? = some first) : first ∈ db.commands ∧ Matches name first := by
  have hmem := List.mem_of_mem_head? h
  simpa [query] using hmem

end Database

namespace Session

/-- The session with an empty cache. -/
def forget (s : Session) : Session :=
  { s with project := { s.project with cache := [] } }

/-- The answer where the cache knows nothing and the database can be read. -/
theorem flags_of_missing {s : Session} {name : String} {l : Located} {db : Database} {w : World}
    (hcache : s.project.cache.get? name = none) (hplace : s.project.located = some l)
    (hload : Database.load s.world l.directory l.name = (.ok db, w)) :
    (s.flags name).1 = db.firstFlags s.world.currentDir name := by
  have hcwd := Database.currentDir_of_load hload
  cases hquery : (db.query name).head? <;>
    simp [flags, consult, openAt, take, release, note, Database.firstFlags, hcache, hplace, hload,
      hquery, hcwd]

/-- A session that has just read `db` and where it can be read again. -/
structure Fresh (s : Session) (cwd : Option Path) (db : Database) : Prop where
  cwd_eq : s.world.currentDir = cwd
  cache (name : String) : s.project.cache.get? name =
    (Command.lastRecorded db.commands name).map (·.flags cwd)
  reload : ∃ l, s.project.located = some l ∧
    Database.load s.world l.directory l.name = (.ok db, s.world)

namespace Fresh

variable {s : Session} {cwd : Option Path} {db : Database}

theorem flags_recorded (h : s.Fresh cwd db) {name : String} {last : Command}
    (hlast : Command.lastRecorded db.commands name = some last) :
    (s.flags name).1 = .ok (last.flags cwd) := by
  have hcache := h.cache name
  rw [hlast] at hcache
  rw [flags_of_cached hcache]

theorem flags_unrecorded (h : s.Fresh cwd db) {name : String}
    (hlast : Command.lastRecorded db.commands name = none) :
    (s.flags name).1 = db.firstFlags cwd name := by
  obtain ⟨l, hplace, hload⟩ := h.reload
  have hcache := h.cache name
  rw [hlast] at hcache
  rw [flags_of_missing hcache hplace hload, h.cwd_eq]

theorem flags_forget (h : s.Fresh cwd db) (name : String) :
    (s.forget.flags name).1 = db.firstFlags cwd name := by
  obtain ⟨l, hplace, hload⟩ := h.reload
  rw [← h.cwd_eq]
  exact flags_of_missing (s := s.forget) rfl hplace hload

theorem flags_eq_forget_iff (h : s.Fresh cwd db) (name : String) :
    (s.flags name).1 = (s.forget.flags name).1 ↔ db.Consistent cwd name name := by
  rw [h.flags_forget]
  cases hlast : Command.lastRecorded db.commands name with
  | none => simp [h.flags_unrecorded hlast, Database.Consistent, hlast]
  | some last =>
      -- A recorded name is found as well, so the empty cache gives flags and no error.
      obtain ⟨first, hfirst⟩ := Database.query_head?_of_mem
        (Command.mem_of_lastRecorded hlast) (.inl (Command.filename_of_lastRecorded hlast))
      rw [h.flags_recorded hlast, Database.firstFlags, hfirst]
      simp [Database.Consistent, hlast, hfirst]

/-- A name under which only commands recorded as `recorded` are found. -/
theorem flags_alias_iff (h : s.Fresh cwd db) {recorded asked : String} (hne : asked ≠ recorded)
    (hfound : ∃ c ∈ db.commands, Database.Matches asked c)
    (honly : ∀ c ∈ db.commands, Database.Matches asked c → c.filename = recorded) :
    (s.flags recorded).1 = (s.flags asked).1 ↔ db.Consistent cwd recorded asked := by
  have hasked : Command.lastRecorded db.commands asked = none := by
    cases hlast : Command.lastRecorded db.commands asked with
    | none => rfl
    | some c =>
        have hname := Command.filename_of_lastRecorded hlast
        have hrecorded := honly c (Command.mem_of_lastRecorded hlast) (.inl hname)
        exact absurd (hname.symm.trans hrecorded) hne
  obtain ⟨c, hc, hmatches⟩ := hfound
  obtain ⟨first, hfirst⟩ := Database.query_head?_of_mem hc hmatches
  obtain ⟨last, hlast⟩ := Command.exists_lastRecorded hc
  rw [honly c hc hmatches] at hlast
  rw [h.flags_recorded hlast, h.flags_unrecorded hasked, Database.firstFlags, hfirst]
  simp [Database.Consistent, hlast, hfirst]

end Fresh

/-- Populating a new project from a file leaves it fresh. -/
theorem populateHearing_fresh {root : Path} {options : Options} {w : World}
    {signals : List Search.Signal} {name : String} {candidates : List Path} {directory : Path}
    {content : List UInt8} {cs : List Command}
    (hfind : Search.settle ((start root options w).project.nameOf name)
      ((start root options w).project.candidatesOf candidates) signals = .ok directory)
    (hsource : w.source (Database.file directory ((start root options w).project.nameOf name)) =
      .ok (.file content))
    (hopen : Database.ofBytes content = .ok cs) :
    ∃ t, (start root options w).populateHearing signals name candidates = (.ok cs.length, t) ∧
      t.world = w ∧
      t.Fresh w.currentDir
        ⟨Database.file directory ((start root options w).project.nameOf name), cs⟩ := by
  have hload := Database.load_of_file hsource hopen
  have hexit := (start root options w).populateHearing_exit signals name candidates
  generalize (start root options w).populateHearing signals name candidates = result at hexit ⊢
  obtain ⟨answer, t⟩ := result
  cases hexit with
  | notFound h => cases h.symm.trans hfind
  | unreadable h hfail =>
      cases h.symm.trans hfind
      cases hfail.symm.trans hload
  | read h hread =>
      cases h.symm.trans hfind
      cases hread.symm.trans hload
      refine ⟨_, rfl, rfl, rfl, ?_, _, rfl, hload⟩
      intro n
      exact (Project.get?_foldl_record w.currentDir cs [] n).trans (by simp)

/-- After a new project has read its database from a file, the cache gives for every name what an
empty cache would give exactly when the last command recorded under the name and the first command
found for it have the same flags; in the other case the last one counts. -/
theorem cached_eq_uncached_iff {root : Path} {options : Options} {w : World}
    {signals : List Search.Signal} {name : String} {candidates : List Path} {directory : Path}
    {content : List UInt8} {cs : List Command}
    (hfind : Search.settle ((start root options w).project.nameOf name)
      ((start root options w).project.candidatesOf candidates) signals = .ok directory)
    (hsource : w.source (Database.file directory ((start root options w).project.nameOf name)) =
      .ok (.file content))
    (hopen : Database.ofBytes content = .ok cs) :
    let db : Database :=
      ⟨Database.file directory ((start root options w).project.nameOf name), cs⟩
    ∃ t, (start root options w).populateHearing signals name candidates = (.ok cs.length, t) ∧
      t.world = w ∧
      (∀ q, (t.forget.flags q).1 = db.firstFlags w.currentDir q) ∧
      (∀ q, (t.flags q).1 = (t.forget.flags q).1 ↔ db.Consistent w.currentDir q q) ∧
      (∀ q last, Command.lastRecorded cs q = some last →
        (t.flags q).1 = .ok (last.flags w.currentDir)) ∧
      ∀ recorded asked, asked ≠ recorded → (∃ c ∈ cs, Database.Matches asked c) →
        (∀ c ∈ cs, Database.Matches asked c → c.filename = recorded) →
        ((t.flags recorded).1 = (t.flags asked).1 ↔
          db.Consistent w.currentDir recorded asked) := by
  intro db
  obtain ⟨t, hpopulate, hworld, hfresh⟩ := populateHearing_fresh hfind hsource hopen
  refine ⟨t, hpopulate, hworld, hfresh.flags_forget, hfresh.flags_eq_forget_iff, ?_, ?_⟩
  · intro q last hlast
    exact hfresh.flags_recorded hlast
  · intro recorded asked hne hfound honly
    exact hfresh.flags_alias_iff hne hfound honly

/-- A database that records one name twice. -/
def recordedTwice : String :=
  "[[\"/p\",\"a.c\",[\"-DA\"],null],[\"/p\",\"a.c\",[\"-DB\"],null]]"

/-- A new project in front of this database. -/
def twiceStart : Session :=
  start "/p" .default (.ofFile "/w" "/p/compile_commands.json" recordedTwice)

theorem ofBytes_recordedTwice :
    Database.ofBytes recordedTwice.toUTF8.toList =
      .ok [⟨"/p", "a.c", ["-DA"]⟩, ⟨"/p", "a.c", ["-DB"]⟩] := by
  have h : (Database.ofBytes recordedTwice.toUTF8.toList).toOption =
      some [⟨"/p", "a.c", ["-DA"]⟩, ⟨"/p", "a.c", ["-DB"]⟩] := by
    decide +kernel
  generalize Database.ofBytes recordedTwice.toUTF8.toList = opened at h ⊢
  cases opened with
  | error why => cases h
  | ok cs => exact congrArg _ (Option.some.inj h)

theorem find_twiceStart :
    Search.find twiceStart.world (twiceStart.project.nameOf "")
      (twiceStart.project.candidatesOf []) = .ok "/p" := rfl

theorem recordedTwice_not_consistent :
    ¬ Database.Consistent (some "/w")
      ⟨"/p/compile_commands.json", [⟨"/p", "a.c", ["-DA"]⟩, ⟨"/p", "a.c", ["-DB"]⟩]⟩
      "a.c" "a.c" := by
  intro h
  have heq := h ⟨"/p", "a.c", ["-DB"]⟩ ⟨"/p", "a.c", ["-DA"]⟩ (by decide +kernel)
    (by decide +kernel)
  revert heq
  decide +kernel

theorem cached_eq_uncached_iff_twice :
    ∃ t, twiceStart.populate "" [] = (.ok 2, t) ∧
      (t.flags "/p/a.c").1 = (t.forget.flags "/p/a.c").1 ∧
      (t.flags "a.c").1 ≠ (t.forget.flags "a.c").1 := by
  obtain ⟨t, hpopulate, -, -, hiff, -, -⟩ :=
    cached_eq_uncached_iff find_twiceStart rfl ofBytes_recordedTwice
  refine ⟨t, hpopulate, (hiff "/p/a.c").mpr ?_, ?_⟩
  · intro last first hlast
    have hnone : Command.lastRecorded
        [⟨"/p", "a.c", ["-DA"]⟩, ⟨"/p", "a.c", ["-DB"]⟩] "/p/a.c" = none := by decide +kernel
    cases hnone.symm.trans hlast
  · intro heq
    exact recordedTwice_not_consistent ((hiff "a.c").mp heq)

theorem not_cached_eq_uncached :
    ¬ ∀ (root : Path) (options : Options) (w : World) (name : String) (candidates : List Path)
        (n : Nat) (t : Session),
      (start root options w).populate name candidates = (.ok n, t) → t.world = w →
        ∀ q, (t.flags q).1 = (t.forget.flags q).1 := by
  intro h
  obtain ⟨t, hpopulate, hworld, hfresh⟩ :=
    populateHearing_fresh find_twiceStart rfl ofBytes_recordedTwice
  have heq := h "/p" .default _ "" [] 2 t hpopulate hworld "a.c"
  exact recordedTwice_not_consistent ((hfresh.flags_eq_forget_iff "a.c").mp heq)

end Session

end CompileFlags
