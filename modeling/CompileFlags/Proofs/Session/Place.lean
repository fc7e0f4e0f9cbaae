import CompileFlags.CommandLine.Report
import CompileFlags.Proofs.Search.Settling
import CompileFlags.Proofs.Session.Memory

/-!
# The file confirmed and the file used

A search confirms the existence of one path in the directory that it answers. The project opens the
path made of that directory and the name it was given, now and whenever it comes back to the place,
and the tool prints this path too. Both are one path unless the name that is left after the option
has stood in for an empty one is empty itself: then the search falls back on the conventional name
and the others do not.
-/

namespace CompileFlags

/-- Relative names below one directory are told apart. -/
theorem Path.eq_of_join_eq {directory : Path} {m n : String} (hm : Path.isAbsolute m = false)
    (hn : Path.isAbsolute n = false) (h : directory.join m = directory.join n) : m = n := by
  simp only [Path.join, hm, hn, Bool.false_eq_true, if_false] at h
  split at h
  · exact (String.append_right_inj _).mp h
  · exact (String.append_right_inj _).mp h

namespace Search

/-- The name of a database and the name searched for differ when the former is empty. -/
theorem file_eq_target_iff (directory : Path) (name : String) :
    Database.file directory name = target name directory ↔ name ≠ "" := by
  constructor
  · rintro h rfl
    have hname : "" = Options.defaultDatabaseName :=
      Path.eq_of_join_eq (by decide) (by decide) h
    exact absurd hname (by decide)
  · intro h
    simp [Database.file, target, effectiveName, h]

end Search

theorem Project.nameOf_eq_empty_iff (p : Project) (name : String) :
    p.nameOf name = "" ↔ name = "" ∧ p.options.databaseName = "" := by
  by_cases h : name = "" <;> simp [nameOf, h]

namespace Session

/-- Does the search for the database succeed in a call? -/
def locates (s : Session) : Call → Bool
  | .populate name candidates =>
    (Search.find s.world (s.project.nameOf name) (s.project.candidatesOf candidates)).isOk
  | .populateHearing signals name candidates =>
    (Search.settle (s.project.nameOf name) (s.project.candidatesOf candidates) signals).isOk
  | _ => false

theorem flags_located (s : Session) (name : String) :
    (s.flags name).2.project.located = s.project.located := by
  have hexit := s.flags_exit name
  generalize s.flags name = result at hexit ⊢
  obtain ⟨answer, t⟩ := result
  cases hexit <;> rfl

theorem populateHearing_located {s : Session} {signals : List Search.Signal} {name : String}
    {candidates : List Path}
    (h : (Search.settle (s.project.nameOf name) (s.project.candidatesOf candidates)
      signals).isOk = false) :
    (s.populateHearing signals name candidates).2.project.located = s.project.located := by
  have hexit := s.populateHearing_exit signals name candidates
  generalize s.populateHearing signals name candidates = result at hexit ⊢
  obtain ⟨answer, t⟩ := result
  cases hexit with
  | notFound => rfl
  | unreadable hfind => simp [hfind, Except.isOk, Except.toBool] at h
  | read hfind => simp [hfind, Except.isOk, Except.toBool] at h

theorem step_located {s : Session} {c : Call} (h : s.locates c = false) :
    (s.step c).2.project.located = s.project.located := by
  cases c with
  | populate name candidates => exact populateHearing_located h
  | populateHearing signals name candidates => exact populateHearing_located h
  | flags name => exact s.flags_located name
  | lookup name =>
      have hrun (t : Session) (names : List String) :
          (t.run (names.map .flags)).2.project.located = t.project.located := by
        induction names generalizing t with
        | nil => rfl
        | cons n ns ih => exact (ih _).trans (t.flags_located n)
      exact (congrArg (·.project.located) (s.lookup_snd name)).trans (hrun s _)
  | readAll l =>
      obtain ⟨tally, hproject⟩ := s.readAll_project l
      change (s.readAll l).2.project.located = _
      rw [hproject]
  | find name candidates => rfl
  | setOptions o => rfl
  | surroundings w => rfl

/-- The place stays until a search finds another. -/
theorem run_located {s : Session} {cs : List Call}
    (h : ∀ p ∈ s.before cs, p.1.locates p.2 = false) :
    (s.run cs).2.project.located = s.project.located := by
  induction cs generalizing s with
  | nil => rfl
  | cons c cs ih =>
      have hstep := step_located (h (s, c) List.mem_cons_self)
      exact (ih fun p hp ↦ h p (List.mem_cons_of_mem _ hp)).trans hstep

/-- A successful search is remembered, and the path made of its answer is opened. -/
theorem populateHearing_opened {s : Session} {signals : List Search.Signal} {name : String}
    {candidates : List Path} {directory : Path}
    (h : Search.settle (s.project.nameOf name) (s.project.candidatesOf candidates) signals =
      .ok directory) :
    let t := (s.populateHearing signals name candidates).2
    t.project.located = some ⟨directory, s.project.nameOf name⟩ ∧
      t.project.tally.opened =
        Database.file directory (s.project.nameOf name) :: s.project.tally.opened := by
  have hexit := s.populateHearing_exit signals name candidates
  generalize s.populateHearing signals name candidates = result at hexit ⊢
  obtain ⟨answer, t⟩ := result
  cases hexit with
  | notFound hfind => cases hfind.symm.trans h
  | unreadable hfind =>
      cases hfind.symm.trans h
      exact ⟨rfl, rfl⟩
  | read hfind =>
      cases hfind.symm.trans h
      exact ⟨rfl, rfl⟩

/-- What the cache does not know is asked for at the place that was found. -/
theorem flags_opened {s : Session} {l : Located} (hplace : s.project.located = some l)
    {name : String} (hcache : s.project.cache.get? name = none) :
    (s.flags name).2.project.tally.opened =
      Database.file l.directory l.name :: s.project.tally.opened := by
  have hexit := s.flags_exit name
  generalize s.flags name = result at hexit ⊢
  obtain ⟨answer, t⟩ := result
  cases hexit with
  | cached h => cases h.symm.trans hcache
  | notLocated _ h => cases h.symm.trans hplace
  | unreadable _ h =>
      cases h.symm.trans hplace
      rfl
  | unknown _ h =>
      cases h.symm.trans hplace
      rfl
  | looked _ h =>
      cases h.symm.trans hplace
      rfl

end Session

open CommandLine in
/-- The path that a search confirms is the path that the project opens, at once and for every name
missing in the cache until another search succeeds, exactly when the name that was meant is not
empty; and it is the path that the tool prints exactly when the name on the command line is not
empty. -/
theorem opened_eq_target_iff (w : World) (signals : List Search.Signal) (directory : Path) :
    (∀ (p : Project) (name : String) (candidates : List Path) (after : List Call),
      let s : Session := ⟨p, w⟩
      let asked := s.project.nameOf name
      let searched := s.project.candidatesOf candidates
      let t := (s.populateHearing signals name candidates).2
      let u := (t.run after).2
      Search.Heard w asked searched signals →
      Search.settle asked searched signals = .ok directory →
      (∀ p ∈ t.before after, p.1.locates p.2 = false) →
      directory ∈ searched ∧ w.holds (Search.target asked directory) = true ∧
        ∃ opened, t.project.tally.opened = opened :: s.project.tally.opened ∧
          (∀ q, u.project.cache.get? q = none →
            (u.flags q).2.project.tally.opened = opened :: u.project.tally.opened) ∧
          (opened = Search.target asked directory ↔
            ¬ (name = "" ∧ s.project.options.databaseName = ""))) ∧
    ∀ (args : List String) (a : LocateArgs) (root : Path),
      let asked := a.database.database
      let searched := a.database.candidates root
      LocateArgs.parse args = .ok a → a.file = true → a.completions = none →
      a.database.effectiveRoot w.currentDir = some root →
      Search.Heard w asked searched signals →
      Search.settle asked searched signals = .ok directory →
      Tool.locate.run args w = .outcome (a.report (Search.find w asked searched)) ∧
        directory ∈ searched ∧ w.holds (Search.target asked directory) = true ∧
        ∃ printed, a.report (Search.settle asked searched signals) = ⟨0, printed ++ "\n", ""⟩ ∧
          (printed = Search.target asked directory ↔ asked ≠ "") := by
  constructor
  · intro p name candidates after s asked searched t u hheard hfind hafter
    obtain ⟨hmem, hholds⟩ := hheard.of_settle hfind
    obtain ⟨hplace, hopened⟩ := Session.populateHearing_opened hfind
    refine ⟨hmem, hholds, _, hopened, ?_, ?_⟩
    · intro q hq
      have hstays := Session.run_located hafter
      exact Session.flags_opened (hstays.trans hplace) hq
    · rw [Search.file_eq_target_iff, ne_eq, Project.nameOf_eq_empty_iff]
  · intro args a root asked searched hparse hfile hshell hroot hheard hfind
    obtain ⟨hmem, hholds⟩ := hheard.of_settle hfind
    refine ⟨?_, hmem, hholds, Database.file directory asked, ?_,
      Search.file_eq_target_iff directory asked⟩
    · simp [Tool.run, hparse, hshell, LocateArgs.run, hroot, asked, searched]
    · simp [hfind, LocateArgs.report, hfile, Database.file, asked]

/-- A project before an empty database, where `name` stands in for an empty name. -/
def Session.beforeEmpty (name : String) : Session :=
  start "/p" ⟨name, "build", 5000⟩ (.ofFile "/w" "/p/compile_commands.json" "[]")

theorem Session.find_beforeEmpty :
    Search.find (beforeEmpty "").world ((beforeEmpty "").project.nameOf "")
      ((beforeEmpty "").project.candidatesOf []) = .ok "/p" := rfl

open CommandLine in
theorem opened_eq_target_iff_empty :
    (∃ opened, ((Session.beforeEmpty "").populate "" []).2.project.tally.opened = [opened] ∧
      opened ≠ "/p/compile_commands.json") ∧
      (∃ opened,
        ((Session.beforeEmpty "compile_commands.json").populate "" []).2.project.tally.opened =
          [opened] ∧ opened = "/p/compile_commands.json") ∧
      ∃ printed, Tool.locate.run ["--file", "-r", "/p", "--database="]
          (.ofFile "/w" "/p/compile_commands.json" "[]") = .outcome ⟨0, printed ++ "\n", ""⟩ ∧
        printed ≠ "/p/compile_commands.json" := by
  refine ⟨?_, ?_, ?_⟩
  · obtain ⟨-, -, opened, hopened, -, hiff⟩ :=
      (opened_eq_target_iff _ _ "/p").1 (Session.beforeEmpty "").project "" [] []
        (Search.inOrder_heard _ _ _) Session.find_beforeEmpty (by simp [Session.before])
    exact ⟨opened, hopened, fun h ↦ hiff.mp h ⟨rfl, rfl⟩⟩
  · obtain ⟨-, -, opened, hopened, -, hiff⟩ :=
      (opened_eq_target_iff (Session.beforeEmpty "compile_commands.json").world _ "/p").1
        (Session.beforeEmpty "compile_commands.json").project "" [] []
        (Search.inOrder_heard _ _ _) rfl (by simp [Session.before])
    exact ⟨opened, hopened, hiff.mpr (by decide)⟩
  · obtain ⟨hrun, -, -, printed, hprinted, hiff⟩ :=
      (opened_eq_target_iff (.ofFile "/w" "/p/compile_commands.json" "[]") _ "/p").2
        ["--file", "-r", "/p", "--database="]
        ⟨true, ⟨some "/p", "", [], "build", 5000⟩, false, none⟩ "/p" rfl rfl rfl rfl
        (Search.inOrder_heard _ _ _) rfl
    exact ⟨printed, hrun.trans (congrArg _ hprinted), fun h ↦ hiff.mp h rfl⟩

theorem not_opened_eq_target :
    ¬ ∀ (s : Session) (signals : List Search.Signal) (name : String) (candidates : List Path)
        (directory : Path),
      let asked := s.project.nameOf name
      Search.Heard s.world asked (s.project.candidatesOf candidates) signals →
      Search.settle asked (s.project.candidatesOf candidates) signals = .ok directory →
      (s.populateHearing signals name candidates).2.project.tally.opened =
        Search.target asked directory :: s.project.tally.opened := by
  intro h
  have hclaimed := h (Session.beforeEmpty "") _ "" [] "/p" (Search.inOrder_heard _ _ _)
    Session.find_beforeEmpty
  have hopened := (Session.populateHearing_opened Session.find_beforeEmpty).2
  have hpath := (List.cons.inj (hopened.symm.trans hclaimed)).1
  exact (Search.file_eq_target_iff _ _).mp hpath rfl

end CompileFlags
