import CompileFlags.CommandLine.Report
import CompileFlags.Proofs.Session.Handles
import CompileFlags.Proofs.Session.Steady

/-!
# Both tools find one database

The tool that prints flags finds its database by way of a project, the other one searches for it
directly. With the same options they search the same directories for the same name. If all probes
report in time and no two directories hold the file, the order of the reports does not matter
either, so that both tools come to one directory, or fail alike.
-/

namespace CompileFlags

namespace Session

theorem populateHearing_congr {s : Session} {signals signals' : List Search.Signal}
    {name : String} {candidates : List Path}
    (h : Search.settle (s.project.nameOf name) (s.project.candidatesOf candidates) signals =
      Search.settle (s.project.nameOf name) (s.project.candidatesOf candidates) signals') :
    s.populateHearing signals name candidates = s.populateHearing signals' name candidates := by
  rw [populateHearing, populateHearing, h]

/-! ## What questions open -/

theorem flags_opened_subset {s : Session} {l : Located} (hplace : s.project.located = some l)
    (name : String) {p : Path} (hp : p ∈ (s.flags name).2.project.tally.opened) :
    p ∈ s.project.tally.opened ∨ p = Database.file l.directory l.name := by
  cases hcache : s.project.cache.get? name with
  | some known =>
      rw [flags_of_cached hcache] at hp
      exact .inl hp
  | none =>
      rw [flags_opened hplace hcache, List.mem_cons] at hp
      exact hp.symm

/-- Questions open no other file than the one that has been located. -/
theorem run_flags_opened {s : Session} {l : Located} (hplace : s.project.located = some l)
    {names : List String} {p : Path}
    (hp : p ∈ (s.run (names.map .flags)).2.project.tally.opened) :
    p ∈ s.project.tally.opened ∨ p = Database.file l.directory l.name := by
  induction names generalizing s with
  | nil => exact .inl hp
  | cons name names ih =>
      have hstays : (s.flags name).2.project.located = some l :=
        (s.flags_located name).trans hplace
      rcases ih hstays hp with hp | hp
      · exact flags_opened_subset hplace name hp
      · exact .inr hp

theorem exists_spellAll_eq (s : Session) {calls : List Call} (h : ∀ c ∈ calls, c.IsQuestion) :
    ∃ names : List String, s.spellAll calls = names.map .flags := by
  induction calls generalizing s with
  | nil => exact ⟨[], rfl⟩
  | cons c calls ih =>
      obtain ⟨rest, hrest⟩ := ih (s.step c).2 fun d hd ↦ h d (List.mem_cons_of_mem c hd)
      have hc := h c List.mem_cons_self
      rw [spellAll, hrest]
      cases c with
      | flags name => exact ⟨name :: rest, rfl⟩
      | lookup name => exact ⟨s.lookupNames name ++ rest, List.map_append.symm⟩
      | _ => exact hc.elim

theorem run_questions_opened {s : Session} {l : Located} (hplace : s.project.located = some l)
    {calls : List Call} (hcalls : ∀ c ∈ calls, c.IsQuestion) {p : Path}
    (hp : p ∈ (s.run calls).2.project.tally.opened) :
    p ∈ s.project.tally.opened ∨ p = Database.file l.directory l.name := by
  obtain ⟨names, hnames⟩ := s.exists_spellAll_eq hcalls
  rw [← run_spellAll, hnames] at hp
  exact run_flags_opened hplace hp

end Session

namespace CommandLine

namespace DatabaseArgs

/-- The name on the command line stands in for an empty one, so it is the name that is meant. -/
theorem nameOf_project (a : DatabaseArgs) (root : Path) :
    (a.project root).nameOf a.database = a.database := by
  simp [Project.nameOf, project, options]

/-- There are always directories to search. -/
theorem candidatesOf_project (a : DatabaseArgs) (root : Path) :
    (a.project root).candidatesOf (a.candidates root) = a.candidates root := by
  have hne : (a.candidates root).isEmpty = false := by
    unfold candidates
    split
    · rfl
    · simpa using ‹¬a.searchDirs.isEmpty = true›
  simp [Project.candidatesOf, hne]

end DatabaseArgs

/-- What a run that prints flags has loaded, once its search has heard these signals. -/
def FlagsArgs.loaded (a : FlagsArgs) (w : World) (root : Path) (signals : List Search.Signal) :
    Except LoadError Nat × Session :=
  Session.populateHearing ⟨a.database.project root, w⟩ signals a.database.database
    (a.database.candidates root)

namespace FlagsArgs

variable {a : FlagsArgs} {w : World} {root : Path} {signals : List Search.Signal}

/-- The project searches for the name and in the directories that the options give. -/
theorem settle_project (a : FlagsArgs) (root : Path) (signals : List Search.Signal) :
    Search.settle ((a.database.project root).nameOf a.database.database)
        ((a.database.project root).candidatesOf (a.database.candidates root)) signals =
      Search.settle a.database.database (a.database.candidates root) signals := by
  rw [DatabaseArgs.nameOf_project, DatabaseArgs.candidatesOf_project]

theorem loaded_of_not_found {why : Search.NotFound}
    (h : Search.settle a.database.database (a.database.candidates root) signals = .error why) :
    a.loaded w root signals = (.error (.notFound why), ⟨a.database.project root, w⟩) := by
  rw [← settle_project] at h
  simp only [loaded, Session.populateHearing, h]

theorem loaded_of_found {directory : Path}
    (h : Search.settle a.database.database (a.database.candidates root) signals = .ok directory) :
    (a.loaded w root signals).2.project.located = some ⟨directory, a.database.database⟩ ∧
      (a.loaded w root signals).2.project.tally.opened =
        [Database.file directory a.database.database] := by
  rw [← settle_project] at h
  have hopened := Session.populateHearing_opened (s := ⟨a.database.project root, w⟩) h
  rwa [DatabaseArgs.nameOf_project] at hopened

/-- A file is missing for the run exactly if the search misses it. -/
theorem loaded_eq_notFound_iff (why : Search.NotFound) :
    (a.loaded w root signals).1 = .error (.notFound why) ↔
      Search.settle a.database.database (a.database.candidates root) signals = .error why := by
  refine ⟨fun hmissed ↦ ?_, fun h ↦ by rw [loaded_of_not_found h]⟩
  have hexit := Session.populateHearing_exit ⟨a.database.project root, w⟩ signals
    a.database.database (a.database.candidates root)
  rw [← loaded, hmissed] at hexit
  generalize (a.loaded w root signals).2 = t at hexit
  cases hexit with
  | notFound hfind => rwa [settle_project] at hfind

/-- What a run locates is what the search has come to. -/
theorem located_loaded_iff (l : Located) :
    (a.loaded w root signals).2.project.located = some l ↔
      Search.settle a.database.database (a.database.candidates root) signals = .ok l.directory ∧
        l.name = a.database.database := by
  cases hsettle : Search.settle a.database.database (a.database.candidates root) signals with
  | ok found =>
      rw [(loaded_of_found hsettle).1]
      constructor
      · rintro ⟨⟩
        exact ⟨rfl, rfl⟩
      · rintro ⟨hdirectory, hname⟩
        rw [← hname, Except.ok.inj hdirectory]
  | error why =>
      have hnone : (a.database.project root).located = none := rfl
      rw [loaded_of_not_found hsettle, hnone]
      simp

/-- The file at the place that has been located is the only one that is opened, also by the
questions that follow. -/
theorem opened_of_located {l : Located}
    (h : (a.loaded w root signals).2.project.located = some l) :
    (a.loaded w root signals).2.project.tally.opened = [Database.file l.directory l.name] ∧
      ∀ calls, (∀ c ∈ calls, Call.IsQuestion c) →
        ∀ p ∈ ((a.loaded w root signals).2.run calls).2.project.tally.opened,
          p = Database.file l.directory l.name := by
  obtain ⟨hsettle, hname⟩ := (located_loaded_iff l).mp h
  have hopened := (loaded_of_found (w := w) hsettle).2
  rw [← hname] at hopened
  refine ⟨hopened, fun calls hcalls p hp ↦ ?_⟩
  rcases Session.run_questions_opened h hcalls hp with hp | hp
  · rw [hopened] at hp
    exact List.mem_singleton.mp hp
  · exact hp

theorem report_of_not_found {loaded : Except LoadError Nat × Session} {why : Search.NotFound}
    (h : loaded.1 = .error (.notFound why)) :
    a.report root loaded = .fatal ["failed to load compile flags for " ++ root, why.message] := by
  obtain ⟨answer, s⟩ := loaded
  have hanswer : answer = .error (.notFound why) := h
  rw [hanswer]
  rfl

theorem run_eq_report
    (hroot : a.database.effectiveRoot w.currentDir = some root)
    (hone : Search.Unambiguous w a.database.database (a.database.candidates root))
    (h : Search.InTime w a.database.database (a.database.candidates root) signals) :
    a.run w = a.report root (a.loaded w root signals) := by
  have hsettle := h.settle_eq (Search.inTime_inOrder w _ _) hone
  rw [← settle_project, ← settle_project] at hsettle
  have hloaded := Session.populateHearing_congr (s := ⟨a.database.project root, w⟩) hsettle
  simp only [run, hroot, Session.populate, loaded, hloaded, DatabaseArgs.nameOf_project,
    DatabaseArgs.candidatesOf_project]

end FlagsArgs

namespace LocateArgs

variable {b : LocateArgs}

theorem run_eq_report {w : World} {root : Path} {signals : List Search.Signal}
    (hroot : b.database.effectiveRoot w.currentDir = some root)
    (hone : Search.Unambiguous w b.database.database (b.database.candidates root))
    (h : Search.InTime w b.database.database (b.database.candidates root) signals) :
    b.run w =
      b.report (Search.settle b.database.database (b.database.candidates root) signals) := by
  simp only [run, hroot, Search.find, h.settle_eq (Search.inTime_inOrder w _ _) hone]

theorem report_eq_printed_iff (r : Except Search.NotFound Path) (path : String) :
    b.report r = ⟨0, path ++ "\n", ""⟩ ↔ ∃ directory, r = .ok directory ∧
      path = if b.file then Database.file directory b.database.database else directory := by
  cases r with
  | error why => simp [report]
  | ok directory =>
      simp only [report, Outcome.mk.injEq, String.append_left_inj, true_and, and_true,
        Except.ok.injEq, exists_eq_left', Database.file]
      exact eq_comm

theorem report_exit_eq_one_iff (r : Except Search.NotFound Path) :
    (b.report r).exit = 1 ↔ ∃ why, r = .error why := by
  cases r <;> simp [report]

end LocateArgs

/-- With the same database options both tools look for the same file in the same directories. If
all probes report in time and no two directories hold the file, then one tool locates a directory
exactly if the other one prints it, or the path of the file in it, which is the only path that the
first tool opens, however many files it looks up. Where the file is missing both say so with the
name and the directories that were searched. Both fail in one way where no root is given and the
current directory cannot be told. -/
theorem tools_agree {a : FlagsArgs} {b : LocateArgs} (hshared : a.database = b.database)
    (w : World) :
    (∀ args, FlagsArgs.parse args = .ok a → a.completions = none →
        Tool.flags.run args w = .outcome (a.run w)) ∧
      (∀ args, LocateArgs.parse args = .ok b → b.completions = none →
        Tool.locate.run args w = .outcome (b.run w)) ∧
      (b.database.root = none → w.currentDir = none → a.run w = b.run w ∧ (b.run w).exit = 2) ∧
      ∀ root, b.database.effectiveRoot w.currentDir = some root →
        let name := b.database.database
        let candidates := b.database.candidates root
        Search.Unambiguous w name candidates →
        ∀ signals, Search.InTime w name candidates signals →
          let loaded := a.loaded w root signals
          a.run w = a.report root loaded ∧
            b.run w = b.report (Search.settle name candidates signals) ∧
            (∀ path, b.run w = ⟨0, path ++ "\n", ""⟩ ↔
              ∃ l, loaded.2.project.located = some l ∧
                path = if b.file then Database.file l.directory l.name else l.directory) ∧
            (∀ l, loaded.2.project.located = some l →
              loaded.2.project.tally.opened = [Database.file l.directory l.name] ∧
                ∀ calls, (∀ c ∈ calls, Call.IsQuestion c) →
                  ∀ p ∈ (loaded.2.run calls).2.project.tally.opened,
                    p = Database.file l.directory l.name) ∧
            ((b.run w).exit = 1 ↔ ∃ why, loaded.1 = .error (.notFound why)) ∧
            ∀ why, loaded.1 = .error (.notFound why) →
              why = ⟨Search.effectiveName name, candidates⟩ ∧
                b.run w = ⟨1, "", "error: " ++ why.message ++ "\n"⟩ ∧
                a.run w = .fatal ["failed to load compile flags for " ++ root, why.message] := by
  refine ⟨?_, ?_, ?_, ?_⟩
  · intro args hargs hcompletions
    simp only [Tool.run, hargs, hcompletions]
  · intro args hargs hcompletions
    simp only [Tool.run, hargs, hcompletions]
  · intro hroot hcwd
    have hnone : b.database.effectiveRoot w.currentDir = none := by
      simp [DatabaseArgs.effectiveRoot, hroot, hcwd]
    simp [FlagsArgs.run, LocateArgs.run, hshared, hnone, Outcome.noCurrentDir, Outcome.fatal]
  · intro root hroot name candidates hone signals htime loaded
    have hflags : a.run w = a.report root loaded := by
      rw [← hshared] at hroot
      exact FlagsArgs.run_eq_report hroot (by rwa [hshared]) (by rwa [hshared])
    have hlocate := LocateArgs.run_eq_report hroot hone htime
    have hlocated : ∀ l, loaded.2.project.located = some l ↔
        Search.settle name candidates signals = .ok l.directory ∧ l.name = name := by
      simpa only [hshared] using FlagsArgs.located_loaded_iff (a := a) (w := w)
    have hmissing : ∀ why, loaded.1 = .error (.notFound why) ↔
        Search.settle name candidates signals = .error why := by
      simpa only [hshared] using FlagsArgs.loaded_eq_notFound_iff (a := a) (w := w)
    refine ⟨hflags, hlocate, ?_, fun l ↦ FlagsArgs.opened_of_located, ?_, ?_⟩
    · intro path
      rw [hlocate, LocateArgs.report_eq_printed_iff]
      constructor
      · rintro ⟨directory, hsettle, hpath⟩
        exact ⟨⟨directory, name⟩, (hlocated _).mpr ⟨hsettle, rfl⟩, hpath⟩
      · rintro ⟨l, hplace, hpath⟩
        obtain ⟨hsettle, hname⟩ := (hlocated l).mp hplace
        rw [hname] at hpath
        exact ⟨l.directory, hsettle, hpath⟩
    · rw [hlocate, LocateArgs.report_exit_eq_one_iff]
      simp only [hmissing, name, candidates]
    · intro why hwhy
      have hsettle := (hmissing why).mp hwhy
      refine ⟨(Search.error_of_settle hsettle).1, ?_, ?_⟩
      · rw [hlocate, hsettle, LocateArgs.report]
      · rw [hflags, FlagsArgs.report_of_not_found hwhy]

/-- Surroundings in which one directory holds an empty database. -/
def onlyInP : World :=
  .ofFile "/w" "/p/compile_commands.json" "[]"

/-- The name is left empty, and a directory is given twice. -/
def unnamedTwice : DatabaseArgs :=
  ⟨none, "", ["/p", "/q", "/p"], "build", 0⟩

/-- The probes report in the opposite order. -/
def lastFirst : List Search.Signal :=
  (unnamedTwice.searchDirs.map (Search.probe onlyInP (Search.effectiveName ""))).reverse.map
    .report ++ [.done]

theorem tools_agree_unnamedTwice :
    Search.Unambiguous onlyInP "" unnamedTwice.searchDirs ∧
      Search.InTime onlyInP "" unnamedTwice.searchDirs lastFirst ∧
      FlagsArgs.run ⟨["a.c"], unnamedTwice, .text, false, none⟩ onlyInP =
        FlagsArgs.report ⟨["a.c"], unnamedTwice, .text, false, none⟩ "/w"
          (FlagsArgs.loaded ⟨["a.c"], unnamedTwice, .text, false, none⟩ onlyInP "/w" lastFirst) ∧
      LocateArgs.run ⟨true, unnamedTwice, false, none⟩ onlyInP = ⟨0, "/p/" ++ "\n", ""⟩ := by
  have hone : Search.Unambiguous onlyInP "" unnamedTwice.searchDirs := by
    unfold Search.Unambiguous
    decide +kernel
  have htime : Search.InTime onlyInP "" unnamedTwice.searchDirs lastFirst :=
    ⟨_, List.reverse_perm _, rfl⟩
  obtain ⟨hflags, -, hprinted, -⟩ :=
    (tools_agree (a := ⟨["a.c"], unnamedTwice, .text, false, none⟩)
      (b := ⟨true, unnamedTwice, false, none⟩) rfl onlyInP).2.2.2 "/w" rfl hone lastFirst htime
  refine ⟨hone, htime, hflags, (hprinted "/p/").mpr ⟨⟨"/p", ""⟩, ?_, by decide +kernel⟩⟩
  decide +kernel

end CommandLine

end CompileFlags
