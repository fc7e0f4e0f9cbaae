import CompileFlags.Proofs.Session.Exits

/-!
# What a call leaves behind

A call that fails spares the cache, and spares the place of the database too unless a new place
has been found. A call that gives flags leaves them in the cache under one name and changes no
other entry. Both are read off the ways in which the operations end.
-/

namespace CompileFlags.Session

/-- Nothing differs but the tally of database uses and what is left of standard input. -/
def Spares (s t : Session) : Prop :=
  ∃ tally input, t = ⟨{ s.project with tally := tally }, { s.world with input := input }⟩

namespace Spares

variable {s t u : Session}

theorem refl (s : Session) : s.Spares s :=
  ⟨s.project.tally, s.world.input, rfl⟩

theorem trans (hst : s.Spares t) (htu : t.Spares u) : s.Spares u := by
  obtain ⟨_, _, rfl⟩ := hst
  obtain ⟨tally, input, rfl⟩ := htu
  exact ⟨tally, input, rfl⟩

theorem cache_eq (h : s.Spares t) : t.project.cache = s.project.cache := by
  obtain ⟨_, _, rfl⟩ := h
  rfl

theorem currentDir_eq (h : s.Spares t) : t.world.currentDir = s.world.currentDir := by
  obtain ⟨_, _, rfl⟩ := h
  rfl

end Spares

/-- The flags are in the cache under the name, where they were before or are the only new entry.
Nothing else differs but what may differ after a failure. -/
structure Gains (s t : Session) (name : String) (flags : List String) : Prop where
  cache : s.project.cache.get? name = some flags ∧ t.project.cache = s.project.cache ∨
    s.project.cache.get? name = none ∧
      t.project.cache = s.project.cache.insert name flags
  others : s.Spares { t with project.cache := s.project.cache }

theorem Gains.of_spares {s t u : Session} {name : String} {flags : List String}
    (hst : s.Spares t) (htu : t.Gains u name flags) : s.Gains u name flags := by
  obtain ⟨hcache, hothers⟩ := htu
  rw [hst.cache_eq] at hcache hothers
  exact ⟨hcache, hst.trans hothers⟩

theorem input_of_load {w v : World} {directory : Path} {name : String}
    {answer : Except Database.OpenError Database}
    (h : Database.load w directory name = (answer, v)) :
    ∃ input, v = { w with input := input } := by
  obtain ⟨input, hread⟩ := w.read_snd (Database.file directory name)
  have hload := Database.load_snd w directory name
  rw [h, hread] at hload
  exact ⟨input, hload⟩

/-- Populating fails in two ways: nothing has been found, or what has been found is no database.
The place found is kept in the second case. -/
theorem populateHearing_error {s t : Session} {signals : List Search.Signal} {name : String}
    {candidates : List Path} {why : LoadError}
    (h : s.populateHearing signals name candidates = (.error why, t)) :
    (∃ missing, why = .notFound missing ∧ t = s) ∨
      ∃ directory fault input, why = .databaseOpen directory fault ∧
        Search.settle (s.project.nameOf name) (s.project.candidatesOf candidates) signals =
          .ok directory ∧
        t = ⟨{ s.project with
            located := some ⟨directory, s.project.nameOf name⟩
            tally := s.project.tally.note
              (.refused (Database.file directory (s.project.nameOf name))) },
          { s.world with input := input }⟩ := by
  have hexit := s.populateHearing_exit signals name candidates
  rw [h] at hexit
  cases hexit with
  | notFound => exact .inl ⟨_, rfl, rfl⟩
  | @unreadable directory fault w hfind hload =>
      -- The place is remembered before the database is read, and stays when that fails.
      obtain ⟨input, rfl⟩ := input_of_load hload
      exact .inr ⟨directory, fault, input, rfl, hfind, rfl⟩

theorem flags_error {s t : Session} {name : String} {why : LoadError}
    (h : s.flags name = (.error why, t)) : s.Spares t := by
  have hexit := s.flags_exit name
  rw [h] at hexit
  cases hexit with
  | notLocated => exact .refl _
  | unreadable _ _ hload | unknown _ _ hload =>
      obtain ⟨input, rfl⟩ := input_of_load hload
      exact ⟨_, input, rfl⟩

theorem flags_ok {s t : Session} {name : String} {flags : List String}
    (h : s.flags name = (.ok flags, t)) : s.Gains t name flags := by
  have hexit := s.flags_exit name
  rw [h] at hexit
  cases hexit with
  | cached hcache => exact ⟨.inl ⟨hcache, rfl⟩, .refl _⟩
  | looked hcache _ hload =>
      obtain ⟨input, rfl⟩ := input_of_load hload
      exact ⟨.inr ⟨hcache, rfl⟩, _, input, rfl⟩

/-- How looking up ends: as asking for the name does, or as asking for the path of the name below
the current directory does, once the name itself has turned out to be unknown. -/
inductive LooksUp (s : Session) (name : String) : Except LoadError (List String) → Session → Prop
  | asked {answer : Except LoadError (List String)} {t : Session} :
      s.flags name = (answer, t) → LooksUp s name answer t
  | nowhere {n : String} {t : Session} :
      s.flags name = (.error (.noCommand n), t) → s.world.currentDir = none →
      LooksUp s name (.error (.noCommand name)) t
  | below {n : String} {cwd : Path} {answer : Except LoadError (List String)} {t u : Session} :
      s.flags name = (.error (.noCommand n), t) → s.world.currentDir = some cwd →
      t.flags (cwd.join name).clean = (answer, u) →
      LooksUp s name (answer.mapError (rename name)) u

theorem lookup_exit (s : Session) (name : String) :
    LooksUp s name (s.lookup name).1 (s.lookup name).2 := by
  rcases hflags : s.flags name with ⟨first, t⟩
  cases first with
  | ok flags => simpa [lookup, hflags] using LooksUp.asked hflags
  | error why =>
      have hcwd := (flags_error hflags).currentDir_eq
      cases why with
      | noCommand n =>
          cases habs : Path.isAbsolute name with
          | true => simpa [lookup, hflags, habs] using LooksUp.asked hflags
          | false =>
              cases hdir : t.world.currentDir with
              | none =>
                  simpa [lookup, hflags, habs, hdir]
                    using LooksUp.nowhere hflags (hcwd.symm.trans hdir)
              | some cwd =>
                  rcases hbelow : t.flags (cwd.join name).clean with ⟨answer, u⟩
                  simpa [lookup, hflags, habs, hdir, hbelow]
                    using LooksUp.below hflags (hcwd.symm.trans hdir) hbelow
      | _ => simpa [lookup, hflags] using LooksUp.asked hflags

theorem lookup_error {s t : Session} {name : String} {why : LoadError}
    (h : s.lookup name = (.error why, t)) : s.Spares t := by
  have hexit := s.lookup_exit name
  rw [h] at hexit
  generalize hanswer : (Except.error why, t).1 = answer at hexit
  cases hexit with
  | asked hflags =>
      cases hanswer
      exact flags_error hflags
  | nowhere hflags => exact flags_error hflags
  | @below _ _ second _ _ hflags _ hbelow =>
      -- Both questions fail, and only the name in the answer to the second one is put right.
      cases second with
      | ok flags => cases hanswer
      | error why => exact (flags_error hflags).trans (flags_error hbelow)

theorem lookup_ok {s t : Session} {name : String} {flags : List String}
    (h : s.lookup name = (.ok flags, t)) :
    s.Gains t name flags ∨ ∃ cwd, s.world.currentDir = some cwd ∧
      s.Gains t (cwd.join name).clean flags := by
  have hexit := s.lookup_exit name
  rw [h] at hexit
  generalize hanswer : (Except.ok flags, t).1 = answer at hexit
  cases hexit with
  | asked hflags =>
      cases hanswer
      exact .inl (flags_ok hflags)
  | nowhere => cases hanswer
  | @below _ cwd second _ _ hflags hcwd hbelow =>
      cases second with
      | error why => cases hanswer
      | ok given =>
          cases hanswer
          exact .inr ⟨cwd, hcwd, (flags_ok hbelow).of_spares (flags_error hflags)⟩

/-- Populating, whatever its search hears, fails without a trace or keeps no more than the place
found; asking for flags and looking up fail without a trace in what the project remembers, and
where they give flags they add no entry but the one for the name that was asked for in the end. -/
theorem calls_spare (s : Session) :
    (∀ signals name candidates why t,
      s.populateHearing signals name candidates = (.error why, t) →
      (∃ missing, why = .notFound missing ∧ t = s) ∨
        ∃ directory fault input, why = .databaseOpen directory fault ∧
          Search.settle (s.project.nameOf name) (s.project.candidatesOf candidates) signals =
            .ok directory ∧
          t = ⟨{ s.project with
              located := some ⟨directory, s.project.nameOf name⟩
              tally := s.project.tally.note
                (.refused (Database.file directory (s.project.nameOf name))) },
            { s.world with input := input }⟩) ∧
      (∀ name why t, s.flags name = (.error why, t) ∨ s.lookup name = (.error why, t) →
        s.Spares t) ∧
      (∀ name flags t, s.flags name = (.ok flags, t) → s.Gains t name flags) ∧
      ∀ name flags t, s.lookup name = (.ok flags, t) →
        s.Gains t name flags ∨ ∃ cwd, s.world.currentDir = some cwd ∧
          s.Gains t (cwd.join name).clean flags := by
  refine ⟨?_, ?_, ?_, ?_⟩
  · intro signals name candidates why t h
    exact populateHearing_error h
  · intro name why t h
    rcases h with h | h
    · exact flags_error h
    · exact lookup_error h
  · intro name flags t h
    exact flags_ok h
  · intro name flags t h
    exact lookup_ok h

/-- A project that knows one file, in front of a database whose last entry names no compiler
run. -/
def beforeBadEntry : Session :=
  ⟨{ Project.new "/p" with cache := [("a.c", ["-DOLD"])] },
    .ofFile "/w" "/p/compile_commands.json"
      "[[\"/p\",\"a.c\",[\"-DA\"],null],[\"/p\",\"b.c\",null,null]]"⟩

/-- A project that has located its database and read nothing yet. -/
def besideDatabase : Session :=
  ⟨{ Project.new "/p" with located := some ⟨"/p", "compile_commands.json"⟩ },
    .ofFile "/p/src" "/p/compile_commands.json" "[[\"/p\",\"a.c\",[\"-DA\"],null]]"⟩

/-- The outcome of a call, once it has been computed whether the call succeeds. -/
theorem exists_ok {α : Type} {r : Except LoadError α × Session} {a : α}
    (h : r.1.toOption = some a) : ∃ t, r = (.ok a, t) := by
  obtain ⟨_ | b, t⟩ := r
  · cases h
  · cases h
    exact ⟨t, rfl⟩

theorem exists_error {α : Type} {r : Except LoadError α × Session}
    (h : r.1.toOption.isNone) : ∃ why t, r = (.error why, t) := by
  obtain ⟨why | b, t⟩ := r
  · exact ⟨why, t, rfl⟩
  · cases h

theorem calls_spare_badEntry :
    (∃ missing, beforeBadEntry.populate "absent.json" [] =
        (.error (.notFound missing), beforeBadEntry)) ∧
      (∃ fault t, beforeBadEntry.populate "" [] = (.error (.databaseOpen "/p" fault), t) ∧
        t.project.cache = [("a.c", ["-DOLD"])] ∧
        t.project.located = some ⟨"/p", "compile_commands.json"⟩) ∧
      (∃ why t, beforeBadEntry.flags "b.c" = (.error why, t) ∧ beforeBadEntry.Spares t) ∧
      (∃ t, besideDatabase.flags "a.c" = (.ok ["-DA"], t) ∧
        besideDatabase.Gains t "a.c" ["-DA"]) ∧
      ∃ t, besideDatabase.lookup "../a.c" = (.ok ["-DA"], t) ∧
        besideDatabase.Gains t "/p/a.c" ["-DA"] := by
  obtain ⟨hpopulate, hfail, -, -⟩ := calls_spare beforeBadEntry
  obtain ⟨-, -, hflags, hlookup⟩ := calls_spare besideDatabase
  refine ⟨?_, ?_, ?_, ?_, ?_⟩
  · obtain ⟨why, t, h⟩ : ∃ why t, beforeBadEntry.populate "absent.json" [] = (.error why, t) :=
      exists_error (by decide +kernel)
    rcases hpopulate _ _ _ _ _ h with ⟨missing, rfl, rfl⟩ | ⟨_, _, _, _, hfind, _⟩
    · exact ⟨missing, h⟩
    · cases hfind
  · obtain ⟨why, t, h⟩ : ∃ why t, beforeBadEntry.populate "" [] = (.error why, t) :=
      exists_error (by decide +kernel)
    rcases hpopulate _ _ _ _ _ h with ⟨_, rfl, rfl⟩ | ⟨directory, fault, _, rfl, hfind, rfl⟩
    · have hplace : (beforeBadEntry.populate "" []).2.project.located.isSome := by
        decide +kernel
      rw [h] at hplace
      cases hplace
    · cases hfind
      exact ⟨fault, _, h, rfl, rfl⟩
  · obtain ⟨why, t, h⟩ : ∃ why t, beforeBadEntry.flags "b.c" = (.error why, t) :=
      exists_error (by decide +kernel)
    exact ⟨why, t, h, hfail _ _ _ (.inl h)⟩
  · obtain ⟨t, h⟩ : ∃ t, besideDatabase.flags "a.c" = (.ok ["-DA"], t) :=
      exists_ok (by decide +kernel)
    exact ⟨t, h, hflags _ _ _ h⟩
  · obtain ⟨t, h⟩ : ∃ t, besideDatabase.lookup "../a.c" = (.ok ["-DA"], t) :=
      exists_ok (by decide +kernel)
    rcases hlookup _ _ _ h with hgains | ⟨_, hcwd, hgains⟩
    · have hnew : t.project.cache.get? "../a.c" = none := by
        rw [show t = (besideDatabase.lookup "../a.c").2 by rw [h]]
        decide +kernel
      rcases hgains.cache with ⟨hold, -⟩ | ⟨-, hcache⟩
      · cases hold
      · rw [hcache, Cache.get?_insert, if_pos rfl] at hnew
        cases hnew
    · cases hcwd
      have hpath : Path.clean (Path.join "/p/src" "../a.c") = "/p/a.c" := by decide +kernel
      exact ⟨t, h, hpath ▸ hgains⟩

end CompileFlags.Session
