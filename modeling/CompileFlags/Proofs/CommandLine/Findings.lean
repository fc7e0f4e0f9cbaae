import CompileFlags.CommandLine.Report
import CompileFlags.Database.Form
import CompileFlags.Proofs.Json.Writing
import CompileFlags.Proofs.Session.Steady
import Mathlib.Data.List.Perm.Basic
import Mathlib.Data.String.Basic

/-!
# What is found and what is missing

A run that has loaded its database opens it again for every file that is not in the cache. As long
as the surroundings do not change this succeeds as it did before, so that a file has flags or has
none, whichever files are looked up before it. The loop over the files collects the flags in a table
sorted by name, and what is printed is read off the table and the list of missing files.
-/

namespace CompileFlags

theorem World.steady_ofFile (cwd p : Path) (content : String) (q : Path) :
    (World.ofFile cwd p content).Steady q := by
  by_cases h : q = p <;> simp [World.Steady, World.read, World.ofFile, h]

namespace Session

variable {s t : Session}

/-- The located database opens, and opening it leaves the surroundings as they are. -/
def Readable (s : Session) : Prop :=
  ∃ l db, s.project.located = some l ∧
    Database.load s.world l.directory l.name = (.ok db, s.world)

/-- The flags that looking up a file gives, if it has any. -/
def found? (s : Session) (name : String) : Option (List String) :=
  (s.lookup name).1.toOption

def foundAmong (s : Session) (names : List String) : List (String × List String) :=
  names.filterMap fun name ↦ (s.found? name).map (name, ·)

def missingAmong (s : Session) (names : List String) : List String :=
  names.filter fun name ↦ (s.found? name).isNone

theorem populateHearing_load {signals : List Search.Signal} {name : String}
    {candidates : List Path} {n : Nat}
    (h : s.populateHearing signals name candidates = (.ok n, t)) :
    ∃ l db, t.project.located = some l ∧
      Database.load s.world l.directory l.name = (.ok db, t.world) := by
  have hexit := s.populateHearing_exit signals name candidates
  rw [h] at hexit
  cases hexit with
  | read _ hload => exact ⟨_, _, rfl, hload⟩

namespace Readable

theorem steady (h : s.Readable) : s.Steady := by
  obtain ⟨l, db, hplace, hload⟩ := h
  intro m hm
  obtain rfl : l = m := Option.some.inj (hplace.symm.trans hm)
  rw [World.Steady, ← Database.load_snd, hload]

theorem of_answer_error (h : s.Readable) {name : String} {why : LoadError}
    (hanswer : s.answer name = .error why) : why = .noCommand name := by
  obtain ⟨l, db, hplace, hload⟩ := h
  have hreply : s.reply name = db.firstFlags s.world.currentDir name := by
    simp [reply, hplace, hload]
  rw [answer, hreply, Database.firstFlags] at hanswer
  split at hanswer
  · cases hanswer
  · split at hanswer <;> cases hanswer
    rfl

theorem of_lookup_error (h : s.Readable) {name : String} {why : LoadError}
    (hlookup : (s.lookup name).1 = .error why) : why = .noCommand name := by
  rw [h.steady.lookup_fst] at hlookup
  split at hlookup
  · rename_i below _
    cases hbelow : s.answer below with
    | ok flags =>
        rw [hbelow] at hlookup
        cases hlookup
    | error e =>
        rw [hbelow, h.of_answer_error hbelow] at hlookup
        cases hlookup
        rfl
  · exact h.of_answer_error hlookup

/-- Looking up a file can only fail for want of a command. -/
theorem lookup_fst (h : s.Readable) (name : String) :
    (s.lookup name).1 =
      match s.found? name with
      | some flags => .ok flags
      | none => .error (.noCommand name) := by
  rw [found?]
  cases hlookup : (s.lookup name).1 with
  | ok flags => rfl
  | error why => rw [h.of_lookup_error hlookup, Except.toOption]

end Readable

theorem map_fst_foundAmong (s : Session) (names : List String) :
    (s.foundAmong names).map Prod.fst = names.filter fun name ↦ (s.found? name).isSome := by
  induction names with
  | nil => rfl
  | cons name names ih => cases h : s.found? name <;> simpa [foundAmong, h] using ih

theorem mem_foundAmong {s : Session} {names : List String} {name : String}
    {flags : List String} :
    (name, flags) ∈ s.foundAmong names ↔ name ∈ names ∧ s.found? name = some flags := by
  simp [foundAmong, List.mem_filterMap]

/-- Every occurrence is found or missing, and is so once. -/
theorem foundAmong_append_perm (s : Session) (names : List String) :
    ((s.foundAmong names).map Prod.fst ++ s.missingAmong names).Perm names := by
  have hmissing : s.missingAmong names = names.filter fun name ↦ !(s.found? name).isSome := by
    simp [missingAmong]
  rw [map_fst_foundAmong, hmissing]
  exact List.filter_append_perm _ _

theorem notMem_missingAmong {s : Session} {names ms : List String} {p : String × List String}
    (h : p ∈ s.foundAmong names) : p.1 ∉ s.missingAmong ms := by
  intro hmissing
  have hfound := List.mem_map_of_mem (f := Prod.fst) h
  rw [map_fst_foundAmong, List.mem_filter] at hfound
  obtain ⟨-, hnone⟩ := List.mem_filter.mp hmissing
  simp [Option.isNone_iff_eq_none.mp hnone] at hfound

end Session

namespace CommandLine

open Json Json.Form

namespace Findings

variable {name : String} {flags : List String} {files : List (String × List String)}

/-- Sorted by name, each name once. -/
abbrev Sorted (files : List (String × List String)) : Prop :=
  files.Pairwise (·.1 < ·.1)

theorem mem_insertSorted (h : Sorted files) {p : String × List String} :
    p ∈ insertSorted name flags files ↔ p = (name, flags) ∨ p ∈ files ∧ p.1 ≠ name := by
  induction files with
  | nil => simp [insertSorted]
  | cons q rest ih =>
      obtain ⟨n, fs⟩ := q
      have hrest : ∀ r ∈ rest, n < r.1 := fun r hr ↦ List.rel_of_pairwise_cons h hr
      rw [insertSorted]
      split_ifs with hname hlt
      · subst hname
        have hold : ¬(p = (name, fs) ∧ p.1 ≠ name) := by
          rintro ⟨rfl, hp⟩
          exact hp rfl
        have hne : p ∈ rest → p.1 ≠ name := fun hp ↦ (hrest p hp).ne'
        simp only [List.mem_cons, or_and_right, and_iff_left_of_imp hne, hold, false_or]
      · have hne : p ∈ (n, fs) :: rest → p.1 ≠ name := by
          intro hp
          rcases List.mem_cons.mp hp with rfl | hp
          · exact hlt.ne'
          · exact (hlt.trans (hrest p hp)).ne'
        rw [List.mem_cons, and_iff_left_of_imp hne]
      · have hold : p = (n, fs) → p.1 ≠ name := by
          rintro rfl
          exact Ne.symm hname
        rw [List.mem_cons, ih h.of_cons, List.mem_cons, or_and_right, and_iff_left_of_imp hold,
          or_left_comm]

theorem sorted_insertSorted (h : Sorted files) : Sorted (insertSorted name flags files) := by
  induction files with
  | nil => simp [insertSorted]
  | cons q rest ih =>
      obtain ⟨n, fs⟩ := q
      have hrest : ∀ r ∈ rest, n < r.1 := fun r hr ↦ List.rel_of_pairwise_cons h hr
      rw [insertSorted]
      split_ifs with hname hlt
      · subst hname
        exact h.of_cons.cons hrest
      · refine h.cons fun r hr ↦ ?_
        rcases List.mem_cons.mp hr with rfl | hr
        · exact hlt
        · exact hlt.trans (hrest r hr)
      · refine (ih h.of_cons).cons fun r hr ↦ ?_
        rcases (mem_insertSorted h.of_cons).mp hr with rfl | ⟨hr, -⟩
        · exact lt_of_le_of_ne (not_lt.mp hlt) (Ne.symm hname)
        · exact hrest r hr

/-- What has been collected once these occurrences are looked up. -/
structure Collects (find? : String → Option (List String)) (names : List String)
    (f : Findings) : Prop where
  sorted : Sorted f.files
  mem_files (name : String) (flags : List String) :
    (name, flags) ∈ f.files ↔ name ∈ names ∧ find? name = some flags
  missing : f.missing = names.filter fun name ↦ (find? name).isNone

namespace Collects

variable {find? : String → Option (List String)} {names : List String} {f : Findings}

theorem empty : Collects find? [] .empty :=
  ⟨.nil, by simp [Findings.empty], rfl⟩

theorem found (h : Collects find? names f) (hfind : find? name = some flags) :
    Collects find? (names ++ [name]) (f.found name flags) := by
  refine ⟨sorted_insertSorted h.sorted, fun n fs ↦ ?_, ?_⟩
  · rw [Findings.found, mem_insertSorted h.sorted, h.mem_files, List.mem_append,
      List.mem_singleton]
    by_cases hn : n = name
    · subst hn
      simp [hfind, eq_comm]
    · simp [hn]
  · simp [Findings.found, h.missing, hfind]

theorem miss (h : Collects find? names f) (hfind : find? name = none) :
    Collects find? (names ++ [name]) (f.miss name) := by
  refine ⟨h.sorted, fun n fs ↦ ?_, ?_⟩
  · rw [Findings.miss, h.mem_files, List.mem_append, List.mem_singleton]
    by_cases hn : n = name
    · subst hn
      simp [hfind]
    · simp [hn]
  · simp [Findings.miss, h.missing, hfind]

/-- A name is found in the table with the flags that it was looked up to have. -/
theorem get? (h : Collects find? names f) (hname : name ∈ names) : f.get? name = find? name := by
  rw [Findings.get?]
  cases hentry : f.files.find? (·.1 == name) with
  | some p =>
      have hmem := List.mem_of_find?_eq_some hentry
      have hkey : p.1 = name := by simpa using List.find?_some hentry
      simpa [hkey] using ((h.mem_files p.1 p.2).mp hmem).2.symm
  | none =>
      cases hfind : find? name with
      | none => rfl
      | some flags =>
          have hmem := (h.mem_files name flags).mpr ⟨hname, hfind⟩
          simpa using List.find?_eq_none.mp hentry _ hmem

end Collects

/-! ## The loop over the files -/

/-- Each file is looked up in a session that answers as the first one does. -/
theorem lookupAll_collects {s t : Session} (hs : s.Readable) (ht : s.Agrees t) {f : Findings}
    {before : List String} (h : Collects s.found? before f) (names : List String) :
    ∃ g, (lookupAll t f names).1 = .ok g ∧ Collects s.found? (before ++ names) g := by
  induction names generalizing t f before with
  | nil => exact ⟨f, rfl, by simpa using h⟩
  | cons name names ih =>
      -- The cache may have grown since, but every answer is still that of the first session.
      have hanswer := (hs.steady.lookup_congr ht name).trans (hs.lookup_fst name)
      have hnext := ht.trans ((ht.steady hs.steady).lookup_agrees name)
      rcases hlookup : t.lookup name with ⟨answer, u⟩
      rw [hlookup] at hanswer hnext
      obtain rfl := hanswer
      cases hfind : s.found? name with
      | some flags =>
          obtain ⟨g, hg, hcollects⟩ := ih hnext (h.found hfind)
          exact ⟨g, by simpa [lookupAll, hlookup, hfind] using hg, by simpa using hcollects⟩
      | none =>
          obtain ⟨g, hg, hcollects⟩ := ih hnext (h.miss hfind)
          exact ⟨g, by simpa [lookupAll, hlookup, hfind] using hg, by simpa using hcollects⟩

/-! ## What is printed -/

/-- The line for one file: its flags, after its name where several files were given. -/
def record (names : List String) : String × List String → String
  | (name, flags) =>
    (if 1 < names.length then name ++ ": " else "") ++ Words.join flags ++ "\n"

def complaint (name : String) : String :=
  "error: " ++ ("no compile command for " ++ name) ++ "\n"

theorem join_filterMap {α β : Type} (g : α → Option β) (write : β → String) (xs : List α) :
    String.join ((xs.filterMap g).map write) =
      String.join (xs.map fun x ↦ ((g x).map write).getD "") := by
  induction xs with
  | nil => rfl
  | cons x xs ih => cases h : g x <;> simp [h, ih]

theorem Collects.text_eq {s : Session} {names : List String} {f : Findings}
    (h : Collects s.found? names f) :
    f.text names = String.join ((s.foundAmong names).map (record names)) := by
  rw [Session.foundAmong, join_filterMap, text]
  congr 1
  refine List.map_congr_left fun name hname ↦ ?_
  have hpos : 0 < names.length := List.length_pos_of_mem hname
  rw [line, h.get? hname]
  cases s.found? name with
  | none => rfl
  | some flags =>
      by_cases hone : names.length = 1
      · simp [record, hone]
      · have hseveral : 1 < names.length := by omega
        simp [record, hone, hseveral]

theorem complaints_eq (f : Findings) : f.complaints = String.join (f.missing.map complaint) :=
  rfl

abbrev TableForm : List (String × List String) → Bytes → Prop :=
  Bracketed '\x7b' '\x7d' (Keyed Database.Form.ListForm)

/-- The document that tells what was found and what is missing, on a line of its own. -/
def Form (f : Findings) (content : Bytes) : Prop :=
  ∃ document, content = document ++ [byte '\n'] ∧
    Bracketed '\x7b' '\x7d' (Keyed fun (form : Bytes → Prop) s ↦ form s)
      [("files", TableForm f.files), ("missing", Database.Form.ListForm f.missing)] document

theorem form_json (f : Findings) : f.Form (utf8Bytes f.json) := by
  have hlists : List.Forall₂
      (fun (m : String × List String) v ↦
        m.1 = v.1 ∧ Database.Form.ListForm m.2 (utf8Bytes v.2))
      f.files (f.files.map fun (name, flags) ↦ (name, Writer.strings 2 flags)) := by
    rw [List.forall₂_map_right_iff, List.forall₂_same]
    exact fun p _ ↦ ⟨rfl, Writer.bracketed_strings 2 p.2⟩
  have hfiles := Writer.bracketed_object hlists 1
  have hmissing := Writer.bracketed_strings 1 f.missing
  have hnewline : utf8Bytes "\n" = [byte '\n'] := by decide
  refine ⟨_, by rw [json, utf8Bytes_append, hnewline], Writer.bracketed_object ?_ 0⟩
  exact .cons ⟨rfl, hfiles⟩ (.cons ⟨rfl, hmissing⟩ .nil)

end Findings

/-- In surroundings that do not change a run that has loaded its database accounts for every file.
Whatever was looked up before, a file is found or there is no command for it. The documents of both
formats hold the same flags: each occurrence of a file counts among the found or among the missing,
and the exit status tells whether any are missing. -/
theorem report_accounts {args : List String} {a : FlagsArgs} {w : World} {root : Path}
    {signals : List Search.Signal} {n : Nat} {s : Session}
    (hargs : FlagsArgs.parse args = .ok a) (hcompletions : a.completions = none)
    (hroot : a.database.effectiveRoot w.currentDir = some root)
    (hload : Session.populateHearing ⟨a.database.project root, w⟩ signals a.database.database
      (a.database.candidates root) = (.ok n, s))
    (hworld : s.world = w) :
    (signals = Search.inOrder w ((a.database.project root).nameOf a.database.database)
        ((a.database.project root).candidatesOf (a.database.candidates root)) →
      Tool.flags.run args w = .outcome (a.report root (.ok n, s))) ∧
    (∀ cs, (∀ c ∈ cs, Call.IsQuestion c) → ∀ name,
      ((s.run cs).2.lookup name).1 =
        match s.found? name with
        | some flags => .ok flags
        | none => .error (.noCommand name)) ∧
    let found := s.foundAmong a.files
    let missing := s.missingAmong a.files
    (found.map Prod.fst ++ missing).Perm a.files ∧
      (∀ p ∈ found, p.1 ∉ missing) ∧
      ∃ files document,
        Findings.Sorted files ∧ (∀ p, p ∈ files ↔ p ∈ found) ∧
        Findings.Form ⟨files, missing⟩ (utf8Bytes document) ∧
        ∀ format, FlagsArgs.report { a with format } root (.ok n, s) =
          let exit := if missing = [] then 0 else 1
          match format with
          | .json => ⟨exit, document, ""⟩
          | .text =>
            ⟨exit, String.join (found.map (Findings.record a.files)),
              String.join (missing.map Findings.complaint)⟩ := by
  -- What populating has done once, it leaves for every look-up to do again.
  have hs : s.Readable := by
    obtain ⟨l, db, hplace, hopened⟩ := Session.populateHearing_load hload
    exact ⟨l, db, hplace, hworld.symm ▸ hopened⟩
  refine ⟨?_, ?_, s.foundAmong_append_perm a.files,
    fun p hp ↦ Session.notMem_missingAmong hp, ?_⟩
  · rintro rfl
    simp only [Tool.run, hargs, hcompletions, FlagsArgs.run, hroot, Session.populate, hload]
  · intro cs hcs name
    rw [hs.steady.lookup_congr (hs.steady.run_agrees hcs), hs.lookup_fst]
  · obtain ⟨f, hlookup, hf⟩ := Findings.lookupAll_collects hs (.refl s) .empty a.files
    rw [List.nil_append] at hf
    have hmissing : s.missingAmong a.files = f.missing := hf.missing.symm
    refine ⟨f.files, f.json, hf.sorted, ?_, ?_, ?_⟩
    · rintro ⟨name, flags⟩
      rw [hf.mem_files, Session.mem_foundAmong]
    · rw [hmissing]
      exact f.form_json
    · intro format
      have hreport : FlagsArgs.report { a with format } root (.ok n, s) =
          f.outcome format a.files := by
        simp only [FlagsArgs.report, hlookup]
      rw [hreport, hmissing, ← hf.text_eq, ← f.complaints_eq]
      cases format <;> simp [Findings.outcome]

/-- One file under two spellings, the first of them below the current directory. -/
theorem report_accounts_spellings :
    let w := Session.besideDatabase.world
    let args := ["-r", "/p", "../a.c", "b.c", "a.c"]
    ∃ a n s, FlagsArgs.parse args = .ok a ∧ a.completions = none ∧
      a.database.effectiveRoot w.currentDir = some "/p" ∧
      Session.populate ⟨a.database.project "/p", w⟩ a.database.database
        (a.database.candidates "/p") = (.ok n, s) ∧
      s.world = w ∧
      Tool.flags.run args w = .outcome
        ⟨1, "../a.c: -DA\na.c: -DA\n", "error: no compile command for b.c\n"⟩ := by
  intro w args
  let a : FlagsArgs := ⟨["../a.c", "b.c", "a.c"],
    ⟨some "/p", Options.defaultDatabaseName, [], Options.defaultBuildDir, Options.defaultTimeout⟩,
    .text, false, none⟩
  let loaded := Session.populate ⟨a.database.project "/p", w⟩ a.database.database
    (a.database.candidates "/p")
  have hargs : FlagsArgs.parse args = .ok a := rfl
  obtain ⟨s, hload⟩ : ∃ s, loaded = (.ok 1, s) := Session.exists_ok (by decide +kernel)
  have hworld : s.world = w := by
    obtain ⟨l, db, -, hopened⟩ := Session.populateHearing_load hload
    have hleft := Database.load_snd w l.directory l.name
    rw [hopened] at hleft
    exact hleft.trans (World.steady_ofFile _ _ _ _)
  obtain ⟨hrun, -, -, -, _, _, -, -, -, hreport⟩ := report_accounts hargs rfl rfl hload hworld
  refine ⟨a, 1, s, hargs, rfl, rfl, hload, hworld, (hrun rfl).trans (congrArg Effect.outcome ?_)⟩
  have hs : s = loaded.2 := (congrArg Prod.snd hload).symm
  have hfound : s.foundAmong a.files = [("../a.c", ["-DA"]), ("a.c", ["-DA"])] := by
    rw [hs]
    decide +kernel
  have hmissing : s.missingAmong a.files = ["b.c"] := by
    rw [hs]
    decide +kernel
  have htext := hreport .text
  rw [hfound, hmissing] at htext
  exact htext.trans (congrArg₂ (Outcome.mk 1) (by decide +kernel) (by decide +kernel))

end CommandLine

end CompileFlags
