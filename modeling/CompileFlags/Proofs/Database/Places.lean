import CompileFlags.Database
import CompileFlags.Proofs.Flags.Resolution

/-!
# Queries by absolute names

An absolute name stands for a place, and a query by it gives the commands whose source file has that
place, however the two are spelled. A source file that is relative, because its command gives both a
relative directory and a relative file, has no such place. The current directory would give it one,
as it does for the include directories of the command, but a query does not look at it.
-/

namespace CompileFlags

namespace Path

variable {p q : Path}

/-- Two paths lead to one place, wherever they are read from. -/
def SamePlace (p q : Path) : Prop :=
  ∀ start, (∀ s ∈ start, Segment.IsName s) → walk start p = walk start q

theorem samePlace_iff : p.SamePlace q ↔ p.clean = q.clean := by
  constructor
  · intro h
    have hview : (Location.ofPath p).SameView (Location.ofPath q) := by
      intro start hstart
      rw [Location.seenFrom_ofPath, Location.seenFrom_ofPath, h start hstart]
    exact clean_eq_clean_iff.mpr hview.eq
  · intro h start _
    rw [← walk_clean start p, h, walk_clean]

instance (p q : Path) : Decidable (p.SamePlace q) :=
  decidable_of_iff (p.clean = q.clean) samePlace_iff.symm

theorem SamePlace.isAbsolute_eq (h : p.SamePlace q) : p.isAbsolute = q.isAbsolute := by
  rw [← isAbsolute_clean p, samePlace_iff.mp h, isAbsolute_clean]

end Path

theorem Command.isAbsolute_sourcePath (c : Command) : c.sourcePath.isAbsolute = true ↔
    c.directory.isAbsolute = true ∨ Path.isAbsolute c.filename = true := by
  rw [sourcePath]
  cases hfile : Path.isAbsolute c.filename with
  | true =>
      rw [Path.join, if_pos hfile]
      simp [hfile]
  | false => simp [Path.isAbsolute_join_of_relative c.directory hfile]

namespace Database

/-- For an absolute name the source file alone decides. -/
theorem matches_iff_of_isAbsolute {name : String} (h : Path.isAbsolute name = true)
    (c : Command) : Matches name c ↔ c.sourcePath.clean = Path.clean name := by
  refine or_iff_right_of_imp fun hrecorded ↦ ?_
  rw [Command.sourcePath, hrecorded, Path.join, if_pos h]

theorem query_eq_filter (db : Database) {name : String} (h : Path.isAbsolute name = true) :
    db.query name = db.commands.filter (fun c ↦ c.sourcePath.SamePlace name) := by
  refine List.filter_congr fun c _ ↦ ?_
  rw [decide_eq_decide, matches_iff_of_isAbsolute h, Path.samePlace_iff]

/-- A query by an absolute name gives the commands whose source file has the place of the name, in
their order and each as often as it is there. No source file of theirs is relative, and a file
recorded under the name has its place anyhow. Names of one place give the same commands, and names
of two places have none in common. -/
theorem query_absolute (db : Database) {name : String} (h : Path.isAbsolute name = true) :
    db.query name = db.commands.filter (fun c ↦ c.sourcePath.SamePlace name) ∧
      (∀ p : Path, p.SamePlace name → p.isAbsolute = true) ∧
      (∀ c : Command, c.filename = name → c.sourcePath.SamePlace name) ∧
      (∀ c ∈ db.commands, c.sourcePath.SamePlace name → c ∈ db.query name) ∧
      (∀ other : String, Path.SamePlace name other → db.query other = db.query name) ∧
      ∀ other : String, Path.isAbsolute other = true → ¬ Path.SamePlace name other →
        ∀ c ∈ db.query name, c ∉ db.query other := by
  have hmem {other : String} (hother : Path.isAbsolute other = true) (c : Command) :
      c ∈ db.query other ↔ c ∈ db.commands ∧ c.sourcePath.SamePlace other := by
    rw [query_eq_filter db hother, List.mem_filter, decide_eq_true_iff]
  refine ⟨query_eq_filter db h, ?_, ?_, ?_, ?_, ?_⟩
  · intro p hp
    rw [hp.isAbsolute_eq, h]
  · intro c hrecorded
    have hmatches : Matches name c := .inl hrecorded
    exact Path.samePlace_iff.mpr ((matches_iff_of_isAbsolute h c).mp hmatches)
  · intro c hc hplace
    exact (hmem h c).mpr ⟨hc, hplace⟩
  · intro other hplace
    have hother : Path.isAbsolute other = true := by rw [← hplace.isAbsolute_eq, h]
    rw [query_eq_filter db h, query_eq_filter db hother]
    refine List.filter_congr fun c _ ↦ ?_
    rw [decide_eq_decide, Path.samePlace_iff, Path.samePlace_iff, Path.samePlace_iff.mp hplace]
  · intro other hother hplaces c hname hcommon
    have hfirst := Path.samePlace_iff.mp ((hmem h c).mp hname).2
    have hsecond := Path.samePlace_iff.mp ((hmem hother c).mp hcommon).2
    exact hplaces (Path.samePlace_iff.mpr (hfirst.symm.trans hsecond))

/-- Two spellings of one source file, a third command for it, and a file that is relative. -/
def fourCommands : Database where
  path := "/p/compile_commands.json"
  commands := [⟨"/p/build", "../src/a.c", ["-DA"]⟩, ⟨"/p", "/p/src//a.c", ["-DB"]⟩,
    ⟨"p", "src/a.c", ["-DC"]⟩, ⟨"/p/build", "../src/a.c", ["-DA"]⟩]

theorem query_absolute_spellings :
    Path.isAbsolute "/p/src/../src/a.c" = true ∧ Path.isAbsolute "/p/a.c" = true ∧
      fourCommands.query "/p/src/../src/a.c" = [⟨"/p/build", "../src/a.c", ["-DA"]⟩,
        ⟨"/p", "/p/src//a.c", ["-DB"]⟩, ⟨"/p/build", "../src/a.c", ["-DA"]⟩] ∧
      fourCommands.query "/p/src/./a.c" = fourCommands.query "/p/src/../src/a.c" ∧
      ∀ c ∈ fourCommands.query "/p/src/../src/a.c", c ∉ fourCommands.query "/p/a.c" := by
  have habs : Path.isAbsolute "/p/src/../src/a.c" = true := by decide
  have hother : Path.isAbsolute "/p/a.c" = true := by decide
  obtain ⟨hquery, -, -, -, hsame, hdifferent⟩ := query_absolute fourCommands habs
  refine ⟨habs, hother, ?_, hsame "/p/src/./a.c" (by decide), hdifferent _ hother (by decide)⟩
  rw [hquery]
  decide +kernel

/-! ## Source files and include directories -/

/-- Resolving a file as include directories are resolved leads to the source file as it is seen from
the current directory. -/
theorem resolveInclude_filename (cwd : Path) (c : Command) :
    resolveInclude (some cwd) c.directory c.filename = (cwd.join c.sourcePath).clean := by
  rw [resolveInclude_eq_clean_join, Command.sourcePath]
  apply Path.clean_eq_of_walk_eq
  intro start
  simp only [Path.walk_join]

/-- The file of a command, resolved as its include directories are, is an absolute name. A query by
that name gives the command exactly if its directory or its file is absolute. -/
theorem mem_query_resolved_iff {cwd : Path} (hcwd : cwd.isAbsolute = true) {db : Database}
    {c : Command} (hc : c ∈ db.commands) :
    let name := resolveInclude (some cwd) c.directory c.filename
    Path.isAbsolute name = true ∧ name = (cwd.join c.sourcePath).clean ∧
      (c ∈ db.query name ↔ c.directory.isAbsolute = true ∨ Path.isAbsolute c.filename = true) := by
  intro name
  have habs : Path.isAbsolute name = true :=
    (resolveInclude_canonical (.inr ⟨cwd, rfl, hcwd⟩) c.filename).1
  have hname : name = (cwd.join c.sourcePath).clean := resolveInclude_filename cwd c
  refine ⟨habs, hname, ?_⟩
  rw [query_eq_filter db habs, List.mem_filter, decide_eq_true_iff, ← c.isAbsolute_sourcePath]
  constructor
  · rintro ⟨-, hplace⟩
    rw [hplace.isAbsolute_eq, habs]
  · intro hsource
    refine ⟨hc, Path.samePlace_iff.mpr ?_⟩
    rw [hname, Path.join, if_pos hsource, Path.clean_clean]

/-- A command in an absolute directory, and one in a relative directory. -/
theorem mem_query_resolved_iff_directories :
    let c : Command := ⟨"/p/build", "../src/a.c", []⟩
    let d : Command := ⟨"build", "../../a.c", []⟩
    let db : Database := ⟨"/p/compile_commands.json", [c, d]⟩
    Path.isAbsolute "/w" = true ∧ c ∈ db.commands ∧ d ∈ db.commands ∧
      c ∈ db.query (resolveInclude (some "/w") c.directory c.filename) ∧
      d ∉ db.query (resolveInclude (some "/w") d.directory d.filename) := by
  intro c d db
  have hcwd : Path.isAbsolute "/w" = true := by decide
  have hc : c ∈ db.commands := List.mem_cons_self
  have hd : d ∈ db.commands := List.mem_cons_of_mem c List.mem_cons_self
  refine ⟨hcwd, hc, hd, ?_, ?_⟩
  · exact (mem_query_resolved_iff hcwd hc).2.2.mpr (.inl (by decide))
  · intro hquery
    have hgiven := (mem_query_resolved_iff hcwd hd).2.2.mp hquery
    revert hgiven
    decide

/-- The source file of a command with a relative directory and a relative file is not found under
the absolute name to which its directory leads. -/
theorem not_mem_query_resolved :
    ¬ ∀ {cwd : Path} {db : Database} {c : Command}, cwd.isAbsolute = true → c ∈ db.commands →
      c ∈ db.query (resolveInclude (some cwd) c.directory c.filename) := by
  intro h
  have hquery := @h "/w" ⟨"/w/compile_commands.json", [⟨"build", "a.c", ["-Iinc"]⟩]⟩ _
    (by decide) List.mem_cons_self
  revert hquery
  decide +kernel

end Database

end CompileFlags
