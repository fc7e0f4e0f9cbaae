import CompileFlags.Project.Handles
import CompileFlags.Project.Interleaving
import CompileFlags.Proofs.Session.Steady

/-!
# Callers that share a project

Between callers only whole events happen: a place is published, a reading is put into the cache
with all of its commands, flags are given. So the cache is at every moment what the log so far tells
of the cache at the start. A caller puts its reading into the cache once, when it has populated the
project, and nothing of it before.
-/

namespace CompileFlags.Shared

/-- What a cache becomes by the events that follow: recordings stand above it, answers below. -/
def cacheAfter (cache : Cache) (es : Chronicle) (name : String) : Option (List String) :=
  (es.recorded? name).or ((cache.get? name).or (es.answer? name))

theorem cacheAfter_append (cache : Cache) (es fs : Chronicle) (name : String) :
    cacheAfter cache (es ++ fs) name =
      (fs.recorded? name).or ((cacheAfter cache es name).or (fs.answer? name)) := by
  simp [cacheAfter, Chronicle.recorded?, Chronicle.answer?, List.findSome?_append, Option.or_assoc]

theorem cacheAfter_ne_none {cache : Cache} {name : String} (h : cache.get? name ≠ none)
    (es : Chronicle) : cacheAfter cache es name ≠ none := by
  simp [cacheAfter, Option.or_eq_none_iff, h]

theorem Section.get? {s t : Session} {c d : Caller} {e : Option Event} (h : Section s c e t d)
    (name : String) : t.project.cache.get? name = cacheAfter s.project.cache e.toList name := by
  cases h with
  | notFound | find => simp [cacheAfter, Chronicle.recorded?, Chronicle.answer?]
  | publish =>
      simp [cacheAfter, Chronicle.recorded?, Chronicle.answer?, Event.recorded?, Event.answer?,
        Project.publish]
  | @unreadable _ l _ hread | @read _ l _ hread =>
      obtain ⟨tally, hproject⟩ := s.readAll_project l
      rw [hread] at hproject
      dsimp only at hproject
      simp [cacheAfter, Chronicle.recorded?, Chronicle.answer?, hproject]
  | absorb =>
      simp [cacheAfter, Chronicle.recorded?, Chronicle.answer?, Event.recorded?, Event.answer?,
        Project.absorb, Project.get?_foldl_record]
  | @flags _ asked answer hflags =>
      have hget := s.flags_get? asked name
      rw [← s.flags_fst, hflags] at hget
      rw [hget]
      cases answer <;>
        simp [cacheAfter, Chronicle.recorded?, Chronicle.answer?, Event.recorded?, Event.answer?,
          Except.toOption]

theorem Log.events_append (log more : Log) : (log ++ more).events = log.events ++ more.events :=
  List.map_append

theorem Log.events_of (i : Nat) (es : List Event) : Log.events (es.map (i, ·)) = es := by
  simp [Log.events, Function.comp_def]

/-- The cache is what the log tells. -/
theorem Run.get? {a b : State} {log : Log} (h : Run a log b) (name : String) :
    b.session.project.cache.get? name = cacheAfter a.session.project.cache log.events name := by
  induction h with
  | nil => simp [cacheAfter, Log.events, Chronicle.recorded?, Chronicle.answer?]
  | snoc _ hstep ih =>
      rw [Log.events_append, cacheAfter_append, ← ih]
      cases hstep with
      | surroundings => simp [Log.events, Chronicle.recorded?, Chronicle.answer?]
      | caller _ hsection =>
          rw [Log.events_of]
          exact hsection.get? name

namespace Log

theorem readings_append (log more : Log) (i : Nat) :
    (log ++ more).readings i = log.readings i ++ more.readings i :=
  List.filterMap_append

/-- Of the events of another caller none is a reading of this one. -/
theorem readings_other {i j : Nat} (h : j ≠ i) (es : List Event) :
    Log.readings (es.map (j, ·)) i = [] := by
  rw [readings, List.filterMap_eq_nil_iff]
  intro p hp
  obtain ⟨e, -, rfl⟩ := List.mem_map.mp hp
  cases e <;> simp [h]

theorem mem_events_of_readings {log : Log} {i : Nat} {cwd : Option Path} {commands : List Command}
    (h : (cwd, commands) ∈ log.readings i) : .read cwd commands ∈ log.events := by
  obtain ⟨⟨j, e⟩, hmem, he⟩ := List.mem_filterMap.mp h
  cases e with
  | read =>
      simp only [Option.ite_none_right_eq_some, Option.some.injEq, Prod.mk.injEq] at he
      obtain ⟨-, rfl, rfl⟩ := he
      exact List.mem_map.mpr ⟨_, hmem, rfl⟩
  | _ => simp at he

end Log

/-- A caller that has populated the project has put one reading into the cache, and any other none
at all. -/
def Accounts (log : Log) (i : Nat) : Caller → Prop
  | .populated commands => ∃ cwd, log.readings i = [(cwd, commands)]
  | _ => log.readings i = []

theorem Section.accounts {s t : Session} {c d : Caller} {e : Option Event}
    (h : Section s c e t d) {log : Log} {i : Nat} (hc : Accounts log i c) :
    Accounts (log ++ e.toList.map (i, ·)) i d := by
  cases h with
  | absorb =>
      refine ⟨s.world.currentDir, ?_⟩
      rw [Log.readings_append, show log.readings i = [] from hc]
      simp [Log.readings]
  | @flags _ _ answer _ =>
      change (log ++ _).readings i = []
      rw [Log.readings_append, show log.readings i = [] from hc]
      cases answer <;> simp [Log.readings, Except.toOption]
  | publish =>
      change (log ++ _).readings i = []
      rw [Log.readings_append, show log.readings i = [] from hc]
      simp [Log.readings]
  | _ => simpa [Accounts] using hc

theorem Accounts.other {log : Log} {i j : Nat} {c : Caller} (hc : Accounts log i c) (h : j ≠ i)
    (es : List Event) : Accounts (log ++ es.map (j, ·)) i c := by
  have hsame : (log ++ es.map (j, ·)).readings i = log.readings i := by
    rw [Log.readings_append, Log.readings_other h, List.append_nil]
  cases c <;> simpa only [Accounts, hsame] using hc

theorem Run.accounts {a b : State} {log : Log} (hstart : ∀ c ∈ a.callers, c.IsStarting)
    (h : Run a log b) {i : Nat} {c : Caller} (hc : b.callers[i]? = some c) : Accounts log i c := by
  induction h generalizing i c with
  | nil =>
      have hc := hstart c (List.mem_of_getElem? hc)
      cases c with
      | populating | asking => rfl
      | _ => exact hc.elim
  | snoc _ hstep ih =>
      cases hstep with
      | surroundings => simpa using ih hc
      | @caller _ _ callers j before after e hj hsection =>
          by_cases hij : j = i
          · subst hij
            have hafter : after = c := by
              rw [List.getElem?_set_self (List.getElem?_eq_some_iff.mp hj).1] at hc
              exact Option.some.inj hc
            exact hafter ▸ hsection.accounts (ih hj)
          · rw [List.getElem?_set_ne hij] at hc
            exact (ih hc).other hij _

theorem recorded?_ne_none {es : Chronicle} {cwd : Option Path} {commands : List Command}
    {name : String} (hmem : .read cwd commands ∈ es)
    (hname : Command.lastRecorded commands name ≠ none) : es.recorded? name ≠ none := by
  rw [Chronicle.recorded?, ne_eq, List.findSome?_eq_none_iff]
  intro hnone
  have hread := hnone _ (List.mem_reverse.mpr hmem)
  exact hname (by simpa [Event.recorded?] using hread)

/-- However callers take turns, no name ever leaves the cache, and the cache is what the log tells.
A caller's reading is in the log once it has populated the project, and then all of its names are in
the cache; before that nothing of it is. A name recorded by a caller that has populated the project
is from then on answered with the flags of the latest recording, and nothing else happens. -/
theorem run_shared {a b : State} {log : Log} (hstart : ∀ c ∈ a.callers, c.IsStarting)
    (hrun : Run a log b) :
    (∀ (later : Log) (u : State), Run b later u → ∀ name,
        b.session.project.cache.get? name ≠ none → u.session.project.cache.get? name ≠ none) ∧
      (∀ name, b.session.project.cache.get? name =
        cacheAfter a.session.project.cache log.events name) ∧
      (∀ (i : Nat) (c : Caller), b.callers[i]? = some c →
        (∃ cwd commands, c = .populated commands ∧ log.readings i = [(cwd, commands)] ∧
          ∀ d ∈ commands, b.session.project.cache.get? d.filename ≠ none) ∨
        (∀ commands, c ≠ .populated commands) ∧ log.readings i = []) ∧
      ∀ (i : Nat) (commands : List Command) (name : String),
        b.callers[i]? = some (.populated commands) →
        Command.lastRecorded commands name ≠ none →
        ∃ flags, log.events.recorded? name = some flags ∧ b.session.flagsDeeds name = [] ∧
          ∀ e t d, Section b.session (.asking name) e t d →
            d = .answered name (.ok flags) ∧ t = b.session := by
  have hknown {i : Nat} {commands : List Command} {name : String}
      (hi : b.callers[i]? = some (.populated commands))
      (hname : Command.lastRecorded commands name ≠ none) :
      ∃ flags, log.events.recorded? name = some flags ∧
        b.session.project.cache.get? name = some flags := by
    obtain ⟨cwd, hreadings⟩ := hrun.accounts hstart hi
    have hmem : .read cwd commands ∈ log.events :=
      Log.mem_events_of_readings (i := i) (by simp [hreadings])
    obtain ⟨flags, hflags⟩ := Option.ne_none_iff_exists'.mp (recorded?_ne_none hmem hname)
    exact ⟨flags, hflags, by rw [hrun.get?, cacheAfter, hflags]; rfl⟩
  refine ⟨?_, hrun.get?, ?_, ?_⟩
  · intro later u hlater name hname
    rw [hlater.get?]
    exact cacheAfter_ne_none hname _
  · intro i c hc
    have haccounts := hrun.accounts hstart hc
    cases c with
    | populated commands =>
        obtain ⟨cwd, hreadings⟩ := haccounts
        refine .inl ⟨cwd, commands, rfl, hreadings, fun d hd ↦ ?_⟩
        obtain ⟨last, hlast⟩ := Command.exists_lastRecorded hd
        obtain ⟨flags, -, hcache⟩ := hknown hc (hlast ▸ Option.some_ne_none last)
        simp [hcache]
    | _ => exact .inr ⟨by simp, haccounts⟩
  · intro i commands name hi hname
    obtain ⟨flags, hflags, hcache⟩ := hknown hi hname
    refine ⟨flags, hflags, by simp [Session.flagsDeeds, hcache], fun e t d hsection ↦ ?_⟩
    cases hsection with
    | flags h =>
        rw [Session.flags_of_cached hcache] at h
        cases h
        exact ⟨rfl, rfl⟩

open Session in
/-- Between the two sections of a caller that populates the project another one asks for flags. -/
theorem run_shared_between :
    ∃ (log : Log) (b : State),
      Run ⟨besideDatabase, [.populating "" [], .asking "a.c"]⟩ log b ∧
        b.callers[0]? = some (.populated [⟨"/p", "a.c", ["-DA"]⟩]) ∧
        b.session.flagsDeeds "a.c" = [] ∧
        ∀ e t d, Section b.session (.asking "a.c") e t d →
          d = .answered "a.c" (.ok ["-DA"]) ∧ t = b.session := by
  let l : Located := ⟨"/p", "compile_commands.json"⟩
  let s : Session := { besideDatabase with project := besideDatabase.project.publish l }
  obtain ⟨t, hasked⟩ : ∃ t, s.flags "a.c" = (.ok ["-DA"], t) := exists_ok (by decide +kernel)
  obtain ⟨u, hread⟩ : ∃ u, t.readAll l = (.ok [⟨"/p", "a.c", ["-DA"]⟩], u) := by
    rw [show t = (s.flags "a.c").2 by rw [hasked]]
    exact exists_ok (by decide +kernel)
  have hsearch : Search.settle (besideDatabase.project.nameOf "")
      (besideDatabase.project.candidatesOf [])
      (Search.inOrder besideDatabase.world (besideDatabase.project.nameOf "")
        (besideDatabase.project.candidatesOf [])) = .ok "/p" :=
    rfl
  have hfind : Step ⟨besideDatabase, [.populating "" [], .asking "a.c"]⟩ []
      ⟨besideDatabase, [.found l, .asking "a.c"]⟩ :=
    @Step.caller _ _ _ 0 _ _ none rfl (.find hsearch)
  have hpublish : Step ⟨besideDatabase, [.found l, .asking "a.c"]⟩ [(0, .located l)]
      ⟨s, [.reading l, .asking "a.c"]⟩ :=
    @Step.caller _ _ _ 0 _ _ _ rfl .publish
  have hask : Step ⟨s, [.reading l, .asking "a.c"]⟩ [(1, .answered "a.c" ["-DA"])]
      ⟨t, [.reading l, .answered "a.c" (.ok ["-DA"])]⟩ :=
    @Step.caller _ _ _ 1 _ _ _ rfl (.flags hasked)
  have hreads : Step ⟨t, [.reading l, .answered "a.c" (.ok ["-DA"])]⟩ []
      ⟨u, [.absorbing [⟨"/p", "a.c", ["-DA"]⟩], .answered "a.c" (.ok ["-DA"])]⟩ :=
    @Step.caller _ _ _ 0 _ _ none rfl (.read hread)
  have hrun := ((((Run.nil.snoc hfind).snoc hpublish).snoc hask).snoc hreads).snoc
    (@Step.caller _ _ _ 0 _ _ _ rfl .absorb)
  have hstart : ∀ c ∈ [Caller.populating "" [], .asking "a.c"], c.IsStarting := by
    simp [Caller.IsStarting]
  obtain ⟨flags, hflags, hdeeds, hanswers⟩ :=
    (run_shared hstart hrun).2.2.2 0 [⟨"/p", "a.c", ["-DA"]⟩] "a.c" rfl (by decide +kernel)
  have hsame : flags = ["-DA"] := (Option.some.inj hflags).symm
  exact ⟨_, _, hrun, rfl, hdeeds, hsame ▸ hanswers⟩

end CompileFlags.Shared
