import CompileFlags.Project.Chronicle
import CompileFlags.Proofs.Session.Exits

/-!
# What a project remembers

The place and the cache of a project are functions of the events of its run: the place found last,
and for every name the flags of its latest recording or, without one, of the first answer. Each
call extends the events by its own, and keeps the agreement of both; look-ups are covered by the
calls that they make.
-/

namespace CompileFlags

namespace Command

theorem lastRecorded_cons (c : Command) (cs : List Command) (name : String) :
    lastRecorded (c :: cs) name =
      (lastRecorded cs name).or (if c.filename = name then some c else none) := by
  by_cases h : c.filename = name <;> simp [lastRecorded, List.find?_append, h]

theorem filename_of_lastRecorded {cs : List Command} {name : String} {c : Command}
    (h : lastRecorded cs name = some c) : c.filename = name := by
  simpa using List.find?_some h

theorem mem_of_lastRecorded {cs : List Command} {name : String} {c : Command}
    (h : lastRecorded cs name = some c) : c ∈ cs := by
  simpa using List.mem_of_find?_eq_some h

theorem exists_lastRecorded {cs : List Command} {c : Command} (h : c ∈ cs) :
    ∃ last, lastRecorded cs c.filename = some last := by
  rw [← Option.isSome_iff_exists, lastRecorded, List.find?_isSome]
  exact ⟨c, by simpa using h, by simp⟩

end Command

/-- Of several commands with one name the last one stays. -/
theorem Project.get?_foldl_record (cwd : Option Path) (cs : List Command) (cache : Cache)
    (name : String) :
    Cache.get? (cs.foldl (record cwd) cache) name =
      ((Command.lastRecorded cs name).map (·.flags cwd)).or (cache.get? name) := by
  induction cs generalizing cache with
  | nil => rfl
  | cons c cs ih =>
      rw [List.foldl_cons, ih, record, Cache.get?_insert, Command.lastRecorded_cons]
      cases hlast : Command.lastRecorded cs name with
      | some d => simp
      | none => by_cases h : c.filename = name <;> simp [h]

/-- A project remembers what the events tell. -/
structure Project.Remembers (p : Project) (es : Chronicle) : Prop where
  place : p.located = es.place?
  cache (name : String) : p.cache.get? name = es.remembered? name

namespace Session

open Project

theorem populateHearing_remembers {s : Session} {es : Chronicle} (h : s.project.Remembers es)
    (signals : List Search.Signal) (name : String) (candidates : List Path) :
    (s.populateHearing signals name candidates).2.project.Remembers
      (es ++ s.populateEvents signals name candidates) := by
  have hexit := s.populateHearing_exit signals name candidates
  generalize s.populateHearing signals name candidates = result at hexit ⊢
  obtain ⟨answer, t⟩ := result
  cases hexit with
  | notFound hfind => simpa [populateEvents, hfind] using h
  | unreadable hfind hload =>
      constructor
      · simp [populateEvents, hfind, hload, Event.place?]
      · simp [populateEvents, hfind, hload, h.cache]
  | @read directory db w hfind hload =>
      have hevents : s.populateEvents signals name candidates =
          [.located ⟨directory, s.project.nameOf name⟩] ++
            [.read s.world.currentDir db.commands] := by
        simp [populateEvents, hfind, hload]
      rw [hevents, ← List.append_assoc]
      constructor
      · rw [Chronicle.place?_snoc, Chronicle.place?_snoc]
        rfl
      · intro n
        rw [get?_foldl_record, h.cache, Chronicle.remembered?_snoc_read,
          Chronicle.remembered?_snoc_located]

theorem flags_remembers {s : Session} {es : Chronicle} (h : s.project.Remembers es)
    (name : String) :
    (s.flags name).2.project.Remembers (es ++ s.events (.flags name)) := by
  have hexit := s.flags_exit name
  rw [events]
  generalize s.flags name = result at hexit ⊢
  obtain ⟨answer, t⟩ := result
  cases hexit with
  | cached hcache =>
      -- The name is remembered already, so the answer adds nothing.
      rw [h.cache] at hcache
      constructor
      · simpa [Event.place?] using h.place
      · intro n
        rw [Chronicle.remembered?_snoc_answered, h.cache]
        by_cases hn : name = n
        · subst hn
          simp [hcache]
        · simp [hn]
  | notLocated => simpa using h
  | unreadable => exact ⟨by simpa using h.place, by simpa using h.cache⟩
  | unknown => exact ⟨by simpa using h.place, by simpa using h.cache⟩
  | looked hcache =>
      rw [h.cache] at hcache
      constructor
      · simpa [Event.place?] using h.place
      · intro n
        rw [Cache.get?_insert, Chronicle.remembered?_snoc_answered, h.cache]
        by_cases hn : name = n
        · subst hn
          simp [hcache]
        · simp [hn]

/-! ## Look-ups -/

theorem lookup_snd (s : Session) (name : String) :
    (s.lookup name).2 = (s.run ((s.lookupNames name).map .flags)).2 := by
  rcases hflags : s.flags name with ⟨answer, t⟩
  cases answer with
  | ok flags => simp [lookup, lookupNames, hflags, step]
  | error why =>
      cases why with
      | noCommand n =>
          cases habs : Path.isAbsolute name with
          | true => simp [lookup, lookupNames, hflags, habs, step]
          | false =>
              cases hcwd : t.world.currentDir <;>
                simp [lookup, lookupNames, hflags, habs, hcwd, step]
      | _ => simp [lookup, lookupNames, hflags, step]

theorem run_spell (s : Session) (c : Call) : (s.run (s.spell c)).2 = (s.step c).2 := by
  cases c with
  | lookup name => simp [spell, step, lookup_snd]
  | _ => simp [spell]

/-- A run is a run of the calls that its calls make. -/
theorem run_spellAll (s : Session) (cs : List Call) :
    (s.run (s.spellAll cs)).2 = (s.run cs).2 := by
  induction cs generalizing s with
  | nil => rfl
  | cons c cs ih => rw [spellAll, run_append, run_spell, ih, run_cons]

theorem not_lookup_of_mem_spellAll {s : Session} {cs : List Call} {c : Call}
    (h : c ∈ s.spellAll cs) (name : String) : c ≠ .lookup name := by
  induction cs generalizing s with
  | nil => simp [spellAll] at h
  | cons d cs ih =>
      rcases List.mem_append.mp h with h | h
      · cases d with
        | lookup n =>
            obtain ⟨m, -, rfl⟩ := List.mem_map.mp h
            simp
        | _ => simp_all [spell]
      · exact ih h

/-- Each call adds its own events to what is remembered. -/
theorem step_remembers {s : Session} {es : Chronicle} (h : s.project.Remembers es) {c : Call}
    (hc : ∀ name, c ≠ .lookup name) :
    (s.step c).2.project.Remembers (es ++ s.events c) := by
  cases c with
  | populate name candidates => exact populateHearing_remembers h _ name candidates
  | populateHearing signals name candidates =>
      exact populateHearing_remembers h signals name candidates
  | flags name => exact flags_remembers h name
  | lookup name => exact absurd rfl (hc name)
  | readAll l =>
      obtain ⟨tally, hproject⟩ := s.readAll_project l
      have hstep : (s.step (.readAll l)).2.project = { s.project with tally := tally } := hproject
      rw [hstep]
      exact ⟨by simpa [events] using h.place, by simpa [events] using h.cache⟩
  | find name candidates => simpa [step, events] using h
  | setOptions o =>
      exact ⟨by simpa [step, events] using h.place, by simpa [step, events] using h.cache⟩
  | surroundings w => simpa [step, events] using h

theorem run_remembers {s : Session} {es : Chronicle} (h : s.project.Remembers es)
    {cs : List Call} (hcs : ∀ c ∈ cs, ∀ name, c ≠ .lookup name) :
    (s.run cs).2.project.Remembers
      (es ++ (s.before cs).flatMap fun (s, c) ↦ s.events c) := by
  induction cs generalizing s es with
  | nil => simpa [before] using h
  | cons c cs ih =>
      have hstep := step_remembers h (hcs c List.mem_cons_self)
      have hrest := ih hstep fun d hd ↦ hcs d (List.mem_cons_of_mem c hd)
      simpa [before, List.append_assoc] using hrest

theorem start_remembers (root : Path) (options : Options) (w : World) :
    (start root options w).project.Remembers [] :=
  ⟨rfl, fun _ ↦ rfl⟩

/-- What is in the cache is given without looking at the options, the world or the database. -/
theorem flags_of_cached {s : Session} {name : String} {known : List String}
    (h : s.project.cache.get? name = some known) : s.flags name = (.ok known, s) := by
  simp [flags, h]

/-- A project remembers exactly what the events of its run tell, and whatever it remembers it
gives from then on, in any surroundings, and opens nothing. -/
theorem recalls_chronicle (root : Path) (options : Options) (w : World) (cs : List Call) :
    let s := start root options w
    let t := (s.run cs).2
    (s.run (s.spellAll cs)).2 = t ∧
      t.project.located = (s.chronicle cs).place? ∧
      (∀ name, t.project.cache.get? name = (s.chronicle cs).remembered? name) ∧
      ∀ name known, (s.chronicle cs).remembered? name = some known →
        ∀ (o : Options) (v : World),
          let u : Session := ⟨{ t.project with options := o }, v⟩
          u.flags name = (.ok known, u) := by
  intro s t
  have hspell : (s.run (s.spellAll cs)).2 = t := s.run_spellAll cs
  have hmemory : t.project.Remembers (s.chronicle cs) := by
    rw [← hspell]
    exact run_remembers (start_remembers root options w)
      fun c hc ↦ not_lookup_of_mem_spellAll hc
  refine ⟨hspell, hmemory.place, hmemory.cache, ?_⟩
  intro name known hknown o v u
  rw [← hmemory.cache] at hknown
  exact flags_of_cached hknown

/-- A look-up that falls back on the absolute name, after which the file is gone. -/
theorem recalls_chronicle_fallback :
    let w : World := .ofFile "/w" "/p/compile_commands.json"
      "[\x7b\"directory\":\"/p\",\"file\":\"a.c\",\"arguments\":[\"-DA\"]\x7d]"
    let gone : World := .ofFile "/" "/elsewhere" ""
    let cs : List Call :=
      [.populate "" [], .lookup "../p/a.c", .surroundings gone, .populate "" []]
    ((start "/p" .default w).chronicle cs).remembered? "/p/a.c" = some ["-DA"] ∧
      ((start "/p" .default w).run (cs ++ [.flags "/p/a.c"])).1.getLast? =
        some (.flags (.ok ["-DA"])) := by
  intro w gone cs
  have hknown : ((start "/p" .default w).chronicle cs).remembered? "/p/a.c" = some ["-DA"] := by
    decide +kernel
  refine ⟨hknown, ?_⟩
  have hflags := (recalls_chronicle "/p" .default w cs).2.2.2 "/p/a.c" ["-DA"] hknown
    ((start "/p" .default w).run cs).2.project.options ((start "/p" .default w).run cs).2.world
  simp [run_append, step, hflags]

end Session

end CompileFlags
