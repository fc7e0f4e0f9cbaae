import CompileFlags.Proofs.Database.Places
import CompileFlags.Proofs.Session.Handles
import CompileFlags.Proofs.Session.Steady

/-!
# What a look-up finds

As long as every database that a project locates has one content, and neither the files nor the
current directory change, whatever is in the cache under a name comes from a command of that
content that belongs to the name. So it makes no difference to what can be found which calls came
before: a look-up finds the commands for the name as it was given, or else those whose source file
is the one of that name below the current directory, and fails only where there are neither.
-/

namespace CompileFlags

/-- The places that have been located, in order. -/
def Chronicle.places (es : Chronicle) : List Located :=
  es.filterMap Event.place?

theorem Chronicle.places_append (es fs : Chronicle) :
    Chronicle.places (es ++ fs) = es.places ++ fs.places :=
  List.filterMap_append

namespace Database

/-- A clean path below an absolute directory is a name for which the source file alone decides. -/
theorem matches_join_iff {cwd : Path} (h : cwd.isAbsolute = true) (name : String) (c : Command) :
    Matches (cwd.join name).clean c ↔ c.sourcePath.clean = (cwd.join name).clean := by
  have habs : (cwd.join name).clean.isAbsolute = true :=
    (Path.isAbsolute_clean _).trans (Path.isAbsolute_join h)
  rw [matches_iff_of_isAbsolute habs, Path.clean_clean]

end Database

/-- Is the source file of a command the one of a relative name below the current directory? -/
def Command.IsBelow (cwd : Option Path) (name : String) (c : Command) : Prop :=
  Path.isAbsolute name = false ∧ ∃ d, cwd = some d ∧ c.sourcePath.clean = (d.join name).clean

namespace Session

/-- How looking up a name among commands ends. -/
inductive Finds (cwd : Option Path) (cs : List Command) (name : String) :
    Except LoadError (List String) → Prop
  | named {c : Command} : c ∈ cs → Database.Matches name c → Finds cwd cs name (.ok (c.flags cwd))
  | below {c : Command} : (∀ e ∈ cs, ¬ Database.Matches name e) → c ∈ cs → c.IsBelow cwd name →
      Finds cwd cs name (.ok (c.flags cwd))
  | nothing : (∀ e ∈ cs, ¬ Database.Matches name e) → (∀ e ∈ cs, ¬ e.IsBelow cwd name) →
      Finds cwd cs name (.error (.noCommand name))

/-- The flags of no command are cached under a name to which it does not belong, and all places
have one content in these surroundings. -/
structure Serves (s : Session) (w : World) (content : List UInt8) (cs : List Command) : Prop where
  currentDir : s.world.currentDir = w.currentDir
  source : s.world.source = w.source
  place (l : Located) : s.project.located = some l →
    w.source (Database.file l.directory l.name) = .ok (.file content)
  cache (name : String) (flags : List String) : s.project.cache.get? name = some flags →
    ∃ c ∈ cs, Database.Matches name c ∧ flags = c.flags w.currentDir

/-- The calls that a run makes are its own calls and the questions of its look-ups. -/
theorem mem_spellAll {s : Session} {calls : List Call} {c : Call} (h : c ∈ s.spellAll calls) :
    c ∈ calls ∨ ∃ name, c = .flags name := by
  induction calls generalizing s with
  | nil => exact absurd h List.not_mem_nil
  | cons d calls ih =>
      rcases List.mem_append.mp h with h | h
      · cases d with
        | lookup name =>
            obtain ⟨n, -, rfl⟩ := List.mem_map.mp h
            exact .inr ⟨n, rfl⟩
        | _ => exact .inl (List.mem_cons.mpr (.inl (List.mem_singleton.mp h)))
      · exact (ih h).imp_left (List.mem_cons_of_mem d)

theorem readAll_spares (s : Session) (l : Located) : s.Spares (s.readAll l).2 := by
  have hexit := s.consult_exit l .readAll (·.commands)
  rw [readAll]
  generalize s.consult l .readAll (·.commands) = result at hexit ⊢
  obtain ⟨answer, t⟩ := result
  cases hexit with
  | unreadable hload | opened hload =>
      obtain ⟨input, rfl⟩ := input_of_load hload
      exact ⟨_, input, rfl⟩

/-! ## Before a database is located -/

theorem populateHearing_snd_of_not_found {s : Session} {signals : List Search.Signal}
    {name : String} {candidates : List Path}
    (h : (Search.settle (s.project.nameOf name) (s.project.candidatesOf candidates)
      signals).isOk = false) :
    (s.populateHearing signals name candidates).2 = s := by
  have hexit := s.populateHearing_exit signals name candidates
  generalize s.populateHearing signals name candidates = result at hexit ⊢
  obtain ⟨answer, t⟩ := result
  cases hexit with
  | notFound => rfl
  | unreadable hfind | read hfind => simp [hfind, Except.isOk, Except.toBool] at h

theorem step_cache_of_not_located {s : Session} {c : Call}
    (hempty : ∀ name, s.project.cache.get? name = none)
    (hnone : (s.step c).2.project.located = none) (name : String) :
    (s.step c).2.project.cache.get? name = none := by
  obtain ⟨hplace, hlocates⟩ := (s.step_located_eq_none_iff c).mp hnone
  cases c with
  | populate n candidates =>
      have hstep : (s.step (.populate n candidates)).2 = s :=
        populateHearing_snd_of_not_found hlocates
      rw [hstep, hempty]
  | populateHearing signals n candidates =>
      have hstep : (s.step (.populateHearing signals n candidates)).2 = s :=
        populateHearing_snd_of_not_found hlocates
      rw [hstep, hempty]
  | flags n => simp [step, flags, hempty, hplace]
  | lookup n => simp [step, lookup, flags, hempty, hplace]
  | readAll l =>
      obtain ⟨tally, hproject⟩ := s.readAll_project l
      have hstep : (s.step (.readAll l)).2.project = { s.project with tally := tally } := hproject
      rw [hstep, hempty]
  | find | setOptions | surroundings => exact hempty name

/-- Nothing gets into the cache before a database is located. -/
theorem run_cache_of_not_located {s : Session} {calls : List Call}
    (hempty : ∀ name, s.project.cache.get? name = none)
    (hnone : (s.run calls).2.project.located = none) (name : String) :
    (s.run calls).2.project.cache.get? name = none := by
  induction calls generalizing s with
  | nil => exact hempty name
  | cons c calls ih =>
      have hstep : (s.step c).2.project.located = none :=
        ((run_located_eq_none_iff _ calls).mp hnone).1
      exact ih (step_cache_of_not_located hempty hstep) hnone

/-! ## While there is one content -/

namespace Serves

variable {s t : Session} {w : World} {content : List UInt8} {cs : List Command}

theorem of_spares (h : s.Serves w content cs) (hst : s.Spares t) : t.Serves w content cs := by
  obtain ⟨tally, input, rfl⟩ := hst
  exact ⟨h.currentDir, h.source, h.place, h.cache⟩

section Reading

variable (hopen : Database.ofBytes content = .ok cs)

include hopen

theorem load (h : s.Serves w content cs) {directory : Path} {name : String}
    (hsource : w.source (Database.file directory name) = .ok (.file content)) :
    Database.load s.world directory name = (.ok ⟨Database.file directory name, cs⟩, s.world) :=
  Database.load_of_file (h.source ▸ hsource) hopen

theorem populateHearing (h : s.Serves w content cs) {signals : List Search.Signal}
    {name : String} {candidates : List Path}
    (honly : ∀ l ∈ Chronicle.places (s.populateEvents signals name candidates),
      w.source (Database.file l.directory l.name) = .ok (.file content)) :
    (s.populateHearing signals name candidates).2.Serves w content cs := by
  have hfound {directory : Path}
      (hfind : Search.settle (s.project.nameOf name) (s.project.candidatesOf candidates) signals =
        .ok directory) :
      w.source (Database.file directory (s.project.nameOf name)) = .ok (.file content) :=
    honly ⟨directory, s.project.nameOf name⟩
      (by simp [populateEvents, hfind, Chronicle.places, Event.place?])
  have hexit := s.populateHearing_exit signals name candidates
  generalize s.populateHearing signals name candidates = result at hexit ⊢
  obtain ⟨answer, t⟩ := result
  cases hexit with
  | notFound => exact h
  | unreadable hfind hload => cases hload.symm.trans (h.load hopen (hfound hfind))
  | read hfind hload =>
      cases hload.symm.trans (h.load hopen (hfound hfind))
      refine ⟨h.currentDir, h.source, ?_, ?_⟩
      · rintro l ⟨⟩
        exact hfound hfind
      · intro n flags hknown
        rw [Project.get?_foldl_record] at hknown
        cases hlast : Command.lastRecorded cs n with
        | none => exact h.cache n flags (by simpa [hlast] using hknown)
        | some last =>
            have hflags : last.flags s.world.currentDir = flags := by
              simpa [hlast] using hknown
            have hname := Command.filename_of_lastRecorded hlast
            exact ⟨last, Command.mem_of_lastRecorded hlast, .inl hname,
              h.currentDir ▸ hflags.symm⟩

theorem flags (h : s.Serves w content cs) (name : String) :
    (s.flags name).2.Serves w content cs := by
  have hexit := s.flags_exit name
  generalize s.flags name = result at hexit ⊢
  obtain ⟨answer, t⟩ := result
  cases hexit with
  | cached | notLocated => exact h
  | unreadable _ hplace hload => cases hload.symm.trans (h.load hopen (h.place _ hplace))
  | unknown _ hplace hload =>
      cases hload.symm.trans (h.load hopen (h.place _ hplace))
      exact ⟨h.currentDir, h.source, h.place, h.cache⟩
  | @looked _ _ _ c _ hplace hload hquery =>
      cases hload.symm.trans (h.load hopen (h.place _ hplace))
      refine ⟨h.currentDir, h.source, h.place, ?_⟩
      intro n flags hknown
      rw [Cache.get?_insert] at hknown
      by_cases hn : name = n
      · rw [if_pos hn] at hknown
        obtain ⟨hmem, hmatches⟩ := Database.mem_of_query_head? hquery
        exact ⟨c, hmem, hn ▸ hmatches, h.currentDir ▸ (Option.some.inj hknown).symm⟩
      · rw [if_neg hn] at hknown
        exact h.cache n flags hknown

theorem step (h : s.Serves w content cs) {c : Call} (hlookup : ∀ name, c ≠ .lookup name)
    (hstill : ∀ v, c ≠ .surroundings v)
    (honly : ∀ l ∈ Chronicle.places (s.events c),
      w.source (Database.file l.directory l.name) = .ok (.file content)) :
    (s.step c).2.Serves w content cs := by
  cases c with
  | populate name candidates => exact h.populateHearing hopen honly
  | populateHearing signals name candidates => exact h.populateHearing hopen honly
  | flags name => exact h.flags hopen name
  | lookup name => exact absurd rfl (hlookup name)
  | readAll l => exact h.of_spares (s.readAll_spares l)
  | find => exact h
  | setOptions o => exact ⟨h.currentDir, h.source, h.place, h.cache⟩
  | surroundings v => exact absurd rfl (hstill v)

theorem run_of_calls (h : s.Serves w content cs) {calls : List Call}
    (hlookup : ∀ c ∈ calls, ∀ name, c ≠ .lookup name)
    (hstill : ∀ c ∈ calls, ∀ v, c ≠ .surroundings v)
    (honly : ∀ l ∈ Chronicle.places ((s.before calls).flatMap fun (s, c) ↦ s.events c),
      w.source (Database.file l.directory l.name) = .ok (.file content)) :
    (s.run calls).2.Serves w content cs := by
  induction calls generalizing s with
  | nil => exact h
  | cons c calls ih =>
      rw [before, List.flatMap_cons, Chronicle.places_append] at honly
      have hstep := h.step hopen (hlookup c List.mem_cons_self) (hstill c List.mem_cons_self)
        fun l hl ↦ honly l (List.mem_append_left _ hl)
      exact ih hstep (fun d hd ↦ hlookup d (List.mem_cons_of_mem _ hd))
        (fun d hd ↦ hstill d (List.mem_cons_of_mem _ hd))
        fun l hl ↦ honly l (List.mem_append_right _ hl)

theorem run (h : s.Serves w content cs) {calls : List Call}
    (hstill : ∀ c ∈ calls, ∀ v, c ≠ .surroundings v)
    (honly : ∀ l ∈ Chronicle.places (s.chronicle calls),
      w.source (Database.file l.directory l.name) = .ok (.file content)) :
    (s.run calls).2.Serves w content cs := by
  rw [← run_spellAll]
  refine h.run_of_calls hopen (fun c hc ↦ not_lookup_of_mem_spellAll hc) ?_ honly
  intro c hc v
  rcases mem_spellAll hc with hc | ⟨name, rfl⟩
  · exact hstill c hc v
  · exact Call.noConfusion

/-- A name is answered with the flags of a command that belongs to it, where there is one. -/
theorem answer_cases (h : s.Serves w content cs) (hplace : s.project.located ≠ none)
    (name : String) :
    (∃ c ∈ cs, Database.Matches name c ∧ s.answer name = .ok (c.flags w.currentDir)) ∨
      (∀ c ∈ cs, ¬ Database.Matches name c) ∧ s.answer name = .error (.noCommand name) := by
  obtain ⟨l, hl⟩ := Option.ne_none_iff_exists'.mp hplace
  cases hcache : s.project.cache.get? name with
  | some flags =>
      obtain ⟨c, hmem, hmatches, rfl⟩ := h.cache name flags hcache
      exact .inl ⟨c, hmem, hmatches, by rw [answer, hcache]⟩
  | none =>
      have hanswer : s.answer name =
          Database.firstFlags w.currentDir ⟨Database.file l.directory l.name, cs⟩ name := by
        simp [answer, hcache, reply, hl, h.load hopen (h.place l hl), h.currentDir]
      rw [hanswer, Database.firstFlags]
      cases hquery : (Database.query ⟨Database.file l.directory l.name, cs⟩ name).head? with
      | some c =>
          obtain ⟨hmem, hmatches⟩ := Database.mem_of_query_head? hquery
          exact .inl ⟨c, hmem, hmatches, rfl⟩
      | none =>
          refine .inr ⟨fun c hc hmatches ↦ ?_, rfl⟩
          have hread : c ∈ (Database.mk (Database.file l.directory l.name) cs).commands := hc
          obtain ⟨first, hfirst⟩ := Database.query_head?_of_mem hread hmatches
          cases hfirst.symm.trans hquery

theorem steady (h : s.Serves w content cs) : s.Steady := by
  intro l hl
  rw [World.Steady, ← Database.load_snd, h.load hopen (h.place l hl)]

theorem lookup_finds (h : s.Serves w content cs) (hplace : s.project.located ≠ none)
    (hcwd : ∀ d, w.currentDir = some d → d.isAbsolute = true) (name : String) :
    Finds w.currentDir cs name (s.lookup name).1 := by
  rw [(h.steady hopen).lookup_fst, fallback?, h.currentDir]
  rcases h.answer_cases hopen hplace name with
    ⟨c, hmem, hmatches, hanswer⟩ | ⟨hnone, hanswer⟩
  · rw [hanswer]
    exact .named hmem hmatches
  rw [hanswer]
  cases habs : Path.isAbsolute name with
  | true => exact .nothing hnone fun c _ hbelow ↦ by simp [habs, Command.IsBelow] at hbelow
  | false =>
      cases hdir : w.currentDir with
      | none => exact .nothing hnone fun c _ hbelow ↦ by simp [Command.IsBelow] at hbelow
      | some d =>
          -- The second question is for a clean absolute name, to which only source files belong.
          have hsame := Database.matches_join_iff (hcwd d hdir) name
          rcases h.answer_cases hopen hplace (d.join name).clean with
            ⟨c, hmem, hmatches, hbelow⟩ | ⟨hnowhere, hbelow⟩
          · have hfound : Finds (some d) cs name (.ok (c.flags (some d))) :=
              .below hnone hmem ⟨habs, d, rfl, (hsame c).mp hmatches⟩
            simp only [hbelow, hdir]
            exact hfound
          · have hmissed : Finds (some d) cs name (.error (.noCommand name)) := by
              refine .nothing hnone fun c hc ↦ ?_
              rintro ⟨-, e, ⟨⟩, hclean⟩
              exact hnowhere c hc ((hsame c).mpr hclean)
            simp only [hbelow]
            exact hmissed

end Reading

end Serves

/-- While all databases that are located have one content, and neither the files nor the current
directory change, a look-up depends on that content alone, whatever was asked for before. It gives
flags exactly if some command is recorded under the name or has the place of the name for its source
file, or has the place below the current directory of a relative name; commands of the first kind
come first. Otherwise it fails for want of a command, and tells the name as it was given. -/
theorem lookup_finds_command {root : Path} {options : Options} {v : World}
    {before after : List Call} {s : Session} {content : List UInt8} {cs : List Command}
    (hstart : ((start root options v).run before).2 = s) (hnone : s.project.located = none)
    (hcwd : ∀ d, s.world.currentDir = some d → d.isAbsolute = true)
    (hopen : Database.ofBytes content = .ok cs)
    (hstill : ∀ c ∈ after, ∀ u, c ≠ .surroundings u)
    (honly : ∀ l ∈ Chronicle.places (s.chronicle after),
      s.world.source (Database.file l.directory l.name) = .ok (.file content))
    (hplace : (s.run after).2.project.located ≠ none) (name : String) :
    let cwd := s.world.currentDir
    let answer := ((s.run after).2.lookup name).1
    ((∃ flags, answer = .ok flags) ↔
        ∃ c ∈ cs, Database.Matches name c ∨ c.IsBelow cwd name) ∧
      (∀ flags, answer = .ok flags →
        (∃ c ∈ cs, Database.Matches name c ∧ flags = c.flags cwd) ∨
          (∀ c ∈ cs, ¬ Database.Matches name c) ∧
            ∃ c ∈ cs, c.IsBelow cwd name ∧ flags = c.flags cwd) ∧
      ((∀ c ∈ cs, ¬ (Database.Matches name c ∨ c.IsBelow cwd name)) →
        answer = .error (.noCommand name)) := by
  intro cwd answer
  have hempty (n : String) : s.project.cache.get? n = none := by
    subst hstart
    exact run_cache_of_not_located (fun _ ↦ rfl) hnone n
  have hserves : s.Serves s.world content cs := by
    refine ⟨rfl, rfl, fun l hl ↦ ?_, fun n flags hknown ↦ ?_⟩
    · cases hnone.symm.trans hl
    · cases (hempty n).symm.trans hknown
  have hfinds : Finds cwd cs name answer :=
    (hserves.run hopen hstill honly).lookup_finds hopen hplace hcwd name
  generalize answer = result at hfinds ⊢
  cases hfinds with
  | @named c hmem hmatches =>
      refine ⟨⟨fun _ ↦ ⟨c, hmem, .inl hmatches⟩, fun _ ↦ ⟨_, rfl⟩⟩, ?_, ?_⟩
      · rintro flags ⟨⟩
        exact .inl ⟨c, hmem, hmatches, rfl⟩
      · intro hno
        exact absurd (.inl hmatches) (hno c hmem)
  | @below c hno hmem hbelow =>
      refine ⟨⟨fun _ ↦ ⟨c, hmem, .inr hbelow⟩, fun _ ↦ ⟨_, rfl⟩⟩, ?_, ?_⟩
      · rintro flags ⟨⟩
        exact .inr ⟨hno, c, hmem, hbelow, rfl⟩
      · intro hneither
        exact absurd (.inr hbelow) (hneither c hmem)
  | nothing hno hnowhere =>
      refine ⟨⟨?_, ?_⟩, ?_, fun _ ↦ rfl⟩
      · rintro ⟨flags, ⟨⟩⟩
      · rintro ⟨c, hmem, hmatches | hbelow⟩
        · exact absurd hmatches (hno c hmem)
        · exact absurd hbelow (hnowhere c hmem)
      · rintro flags ⟨⟩

/-- Look-ups before and after the database is read. -/
def lookupCalls : List Call :=
  [.lookup "../p/a.c", .populate "" [], .lookup "b.c", .flags "/p/a.c"]

theorem lookup_finds_command_below :
    twiceStart.project.located = none ∧
      (twiceStart.run lookupCalls).2.project.located ≠ none ∧
      (∃ flags, ((twiceStart.run lookupCalls).2.lookup "../p/a.c").1 = .ok flags) ∧
      ((twiceStart.run lookupCalls).2.lookup "b.c").1 = .error (.noCommand "b.c") := by
  have hstill : ∀ c ∈ lookupCalls, ∀ u, c ≠ .surroundings u := by simp [lookupCalls]
  have hplaces : Chronicle.places (twiceStart.chronicle lookupCalls) =
      [⟨"/p", "compile_commands.json"⟩] := by
    decide +kernel
  have honly : ∀ l ∈ Chronicle.places (twiceStart.chronicle lookupCalls),
      twiceStart.world.source (Database.file l.directory l.name) =
        .ok (.file recordedTwice.toUTF8.toList) := by
    intro l hl
    rw [hplaces, List.mem_singleton] at hl
    subst hl
    rfl
  have hcwd : ∀ d, twiceStart.world.currentDir = some d → d.isAbsolute = true := by
    rintro d ⟨⟩
    rfl
  have hplace : (twiceStart.run lookupCalls).2.project.located ≠ none := by decide +kernel
  have hstart : (twiceStart.run []).2 = twiceStart := rfl
  have hfinds (name : String) := lookup_finds_command hstart rfl hcwd ofBytes_recordedTwice hstill
    honly hplace name
  refine ⟨rfl, hplace, (hfinds "../p/a.c").1.mpr ?_, (hfinds "b.c").2.2 ?_⟩
  · exact ⟨_, List.mem_cons_self, .inr ⟨rfl, "/w", rfl, by decide +kernel⟩⟩
  · have hnone : ∀ c ∈ [⟨"/p", "a.c", ["-DA"]⟩, ⟨"/p", "a.c", ["-DB"]⟩],
        ¬ Database.Matches "b.c" c ∧ c.sourcePath.clean ≠ Path.clean (Path.join "/w" "b.c") := by
      decide +kernel
    intro c hc
    rintro (hmatches | ⟨-, d, ⟨⟩, hclean⟩)
    · exact (hnone c hc).1 hmatches
    · exact (hnone c hc).2 hclean

end Session

end CompileFlags
