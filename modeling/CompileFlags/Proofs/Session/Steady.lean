import CompileFlags.Proofs.Session.Failure
import CompileFlags.Proofs.Session.Place
import CompileFlags.Proofs.Session.Transparency

/-!
# Answers in steady surroundings

Asking for flags is answered by the cache or by the place of the database. As long as reading the
database leaves the surroundings as they are, a question never changes the answer to another one:
what it adds to the cache is what the place would have answered. So the answers of a run of
questions are those that each of them would get as the first.
-/

namespace CompileFlags

/-- Does a call ask for the flags of a file? -/
def Call.IsQuestion : Call → Prop
  | .flags _ | .lookup _ => True
  | _ => False

namespace Session

/-- Reading the located database leaves the surroundings as they are. -/
def Steady (s : Session) : Prop :=
  ∀ l, s.project.located = some l → s.world.Steady (Database.file l.directory l.name)

/-- What the place of the database answers. -/
def reply (s : Session) (name : String) : Except LoadError (List String) :=
  match s.project.located with
  | none => .error (.notLocated name)
  | some l =>
    match (Database.load s.world l.directory l.name).1 with
    | .error why => .error (.databaseOpen l.directory why)
    | .ok db => db.firstFlags s.world.currentDir name

/-- The cache answers first, and then the place of the database. -/
def answer (s : Session) (name : String) : Except LoadError (List String) :=
  match s.project.cache.get? name with
  | some flags => .ok flags
  | none => s.reply name

theorem flags_fst (s : Session) (name : String) : (s.flags name).1 = s.answer name := by
  have hexit := s.flags_exit name
  rw [answer, reply]
  generalize s.flags name = result at hexit ⊢
  obtain ⟨a, t⟩ := result
  dsimp only at hexit ⊢
  cases hexit with
  | cached hcache => simp [hcache]
  | notLocated hcache hplace => simp [hcache, hplace]
  | unreadable hcache hplace hload => simp [hcache, hplace, hload]
  | unknown hcache hplace hload hquery =>
      simp [hcache, hplace, hload, Database.firstFlags, hquery]
  | looked hcache hplace hload hquery =>
      simp [hcache, hplace, hload, Database.firstFlags, hquery]

/-- A missing command is told of the name that was asked for. -/
theorem eq_of_noCommand {s : Session} {name n : String}
    (h : s.answer name = .error (.noCommand n)) : n = name := by
  rw [answer, reply] at h
  split at h
  · cases h
  · split at h
    · cases h
    · split at h
      · cases h
      · rw [Database.firstFlags] at h
        split at h <;> cases h
        rfl

/-- The second name for which looking up asks: of a relative name without a command, the path below
the current directory. -/
def fallback? (s : Session) (name : String) : Option String :=
  match s.answer name, Path.isAbsolute name, s.world.currentDir with
  | .error (.noCommand _), false, some cwd => some (cwd.join name).clean
  | _, _, _ => none

/-- A question adds its answer to the cache, where that is one and the cache has none. -/
theorem flags_get? (s : Session) (name m : String) :
    (s.flags name).2.project.cache.get? m =
      (s.project.cache.get? m).or (if name = m then (s.answer name).toOption else none) := by
  rw [← flags_fst]
  rcases hflags : s.flags name with ⟨a, t⟩
  cases a with
  | error why => simp [(flags_error hflags).cache_eq, Except.toOption]
  | ok flags =>
      rcases (flags_ok hflags).cache with ⟨hknown, hcache⟩ | ⟨hnew, hcache⟩
      · by_cases hm : name = m
        · subst hm
          simp [hcache, hknown]
        · simp [hcache, hm]
      · rw [hcache, Cache.get?_insert]
        by_cases hm : name = m
        · subst hm
          simp [hnew, Except.toOption]
        · simp [hm]

/-- Another session at the same place in the same surroundings, with the same answers. -/
structure Agrees (s t : Session) : Prop where
  world : t.world = s.world
  located : t.project.located = s.project.located
  answer (name : String) : t.answer name = s.answer name

namespace Agrees

variable {s t u : Session}

theorem refl (s : Session) : s.Agrees s :=
  ⟨rfl, rfl, fun _ ↦ rfl⟩

theorem trans (hst : s.Agrees t) (htu : t.Agrees u) : s.Agrees u :=
  ⟨htu.world.trans hst.world, htu.located.trans hst.located,
    fun name ↦ (htu.answer name).trans (hst.answer name)⟩

theorem steady (h : s.Agrees t) (hs : s.Steady) : t.Steady := by
  intro l hl
  rw [h.world]
  exact hs l (h.located.symm.trans hl)

theorem reply (h : s.Agrees t) (name : String) : t.reply name = s.reply name := by
  rw [Session.reply, Session.reply, h.world, h.located]

theorem fallback? (h : s.Agrees t) (name : String) : t.fallback? name = s.fallback? name := by
  rw [Session.fallback?, Session.fallback?, h.answer, h.world]

end Agrees

namespace Steady

variable {s t : Session}

theorem flags_world (hs : s.Steady) (name : String) : (s.flags name).2.world = s.world := by
  have hload {l : Located} (hl : s.project.located = some l) :
      (Database.load s.world l.directory l.name).2 = s.world :=
    (Database.load_snd ..).trans (hs l hl)
  have hexit := s.flags_exit name
  generalize s.flags name = result at hexit ⊢
  obtain ⟨a, t⟩ := result
  dsimp only at hexit ⊢
  cases hexit with
  | cached | notLocated => rfl
  | unreadable _ hplace hread | unknown _ hplace hread | looked _ hplace hread =>
      exact (congrArg Prod.snd hread).symm.trans (hload hplace)

theorem flags_agrees (hs : s.Steady) (name : String) : s.Agrees (s.flags name).2 := by
  refine ⟨hs.flags_world name, s.flags_located name, fun m ↦ ?_⟩
  have hreply : (s.flags name).2.reply m = s.reply m := by
    rw [reply, reply, hs.flags_world, s.flags_located]
  rw [answer, answer, flags_get?, hreply]
  cases hknown : s.project.cache.get? m with
  | some known => rfl
  | none =>
      by_cases hm : name = m
      · -- The cache has gained the reply itself, or nothing if that is a failure.
        subst hm
        rw [answer, hknown]
        cases s.reply name <;> simp [Except.toOption]
      · simp [hm]

theorem run_flags_agrees (hs : s.Steady) (names : List String) :
    s.Agrees (s.run (names.map .flags)).2 := by
  induction names generalizing s with
  | nil => exact .refl s
  | cons name names ih =>
      have hfirst := hs.flags_agrees name
      exact hfirst.trans (ih (hfirst.steady hs))

theorem lookup_fst (hs : s.Steady) (name : String) :
    (s.lookup name).1 =
      match s.fallback? name with
      | some below => (s.answer below).mapError (rename name)
      | none => s.answer name := by
  have hagrees := hs.flags_agrees name
  have hfirst := s.flags_fst name
  rcases hflags : s.flags name with ⟨a, t⟩
  rw [hflags] at hagrees hfirst
  dsimp only at hagrees hfirst
  rw [fallback?, ← hfirst]
  cases a with
  | ok flags => simp [lookup, hflags]
  | error why =>
      cases why with
      | noCommand n =>
          cases habs : Path.isAbsolute name with
          | true => simp [lookup, hflags, habs]
          | false =>
              cases hcwd : s.world.currentDir with
              | none =>
                  have hn : n = name := eq_of_noCommand hfirst.symm
                  simp [lookup, hflags, habs, hagrees.world, hcwd, hn]
              | some cwd =>
                  simp [lookup, hflags, habs, hagrees.world, hcwd, flags_fst, hagrees.answer]
      | _ => simp [lookup, hflags]

theorem lookupNames_eq (hs : s.Steady) (name : String) :
    s.lookupNames name = name :: (s.fallback? name).toList := by
  have hworld := hs.flags_world name
  have hfirst := s.flags_fst name
  rcases hflags : s.flags name with ⟨a, t⟩
  rw [hflags] at hworld hfirst
  dsimp only at hworld hfirst
  rw [fallback?, ← hfirst]
  cases a with
  | ok flags => simp [lookupNames, hflags]
  | error why =>
      cases why with
      | noCommand n =>
          cases habs : Path.isAbsolute name <;> cases hcwd : s.world.currentDir <;>
            simp [lookupNames, hflags, habs, hworld, hcwd]
      | _ => simp [lookupNames, hflags]

theorem lookup_agrees (hs : s.Steady) (name : String) : s.Agrees (s.lookup name).2 := by
  rw [lookup_snd]
  exact hs.run_flags_agrees (s.lookupNames name)

/-- Where the sessions agree, looking up a file ends in the same way. -/
theorem lookup_congr (hs : s.Steady) (h : s.Agrees t) (name : String) :
    (t.lookup name).1 = (s.lookup name).1 := by
  rw [hs.lookup_fst, (h.steady hs).lookup_fst, h.fallback?]
  simp only [h.answer]

theorem step_agrees (hs : s.Steady) {c : Call} (hc : c.IsQuestion) : s.Agrees (s.step c).2 := by
  cases c with
  | flags name => exact hs.flags_agrees name
  | lookup name => exact hs.lookup_agrees name
  | _ => exact hc.elim

/-- Where the sessions agree, a question gets one answer. -/
theorem step_fst (hs : s.Steady) (h : s.Agrees t) {c : Call} (hc : c.IsQuestion) :
    (t.step c).1 = (s.step c).1 := by
  cases c with
  | flags name =>
      change Answer.flags (t.flags name).1 = .flags (s.flags name).1
      rw [flags_fst, flags_fst, h.answer]
  | lookup name => exact congrArg Answer.flags (hs.lookup_congr h name)
  | _ => exact hc.elim

theorem run_agrees (hs : s.Steady) {cs : List Call} (hcs : ∀ c ∈ cs, c.IsQuestion) :
    s.Agrees (s.run cs).2 := by
  induction cs generalizing s with
  | nil => exact .refl s
  | cons c cs ih =>
      have hfirst := hs.step_agrees (hcs c List.mem_cons_self)
      exact hfirst.trans (ih (hfirst.steady hs) fun d hd ↦ hcs d (List.mem_cons_of_mem _ hd))

/-- Every question of a run is answered as if it came first. -/
theorem run_fst (hs : s.Steady) {cs : List Call} (hcs : ∀ c ∈ cs, c.IsQuestion) :
    (s.run cs).1 = cs.map fun c ↦ (s.step c).1 := by
  induction cs generalizing s with
  | nil => rfl
  | cons c cs ih =>
      have hfirst := hs.step_agrees (hcs c List.mem_cons_self)
      have hrest : ∀ d ∈ cs, d.IsQuestion := fun d hd ↦ hcs d (List.mem_cons_of_mem _ hd)
      rw [run_cons, ih (hfirst.steady hs) hrest]
      exact congrArg _ (List.map_congr_left fun d hd ↦ hs.step_fst hfirst (hrest d hd))

end Steady

end Session

end CompileFlags
