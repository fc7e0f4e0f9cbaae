import CompileFlags.Project.Handles
import CompileFlags.Proofs.Session.Failure
import CompileFlags.Proofs.Session.Place

/-!
# Handles are settled call by call

The counters of a project tell what its ledger lists, and in the ledger every handle is used once
and released before anything else is opened. So the counts balance after every call: releases equal
the openings that succeeded and equal the uses. Each kind of call contributes its own deeds, by the
way in which it ends; a run adds them up.
-/

namespace CompileFlags

namespace Tidy

variable {ds es : List Deed}

theorem append (hds : Tidy ds) (hes : Tidy es) : Tidy (ds ++ es) := by
  induction hds with
  | nil => exact hes
  | refused _ ih => exact .refused ih
  | handled _ ih => exact .handled ih

theorem flatMap {α : Type} {xs : List α} {f : α → List Deed} (h : ∀ x ∈ xs, Tidy (f x)) :
    Tidy (xs.flatMap f) := by
  induction xs with
  | nil => exact .nil
  | cons x xs ih =>
      exact (h x List.mem_cons_self).append (ih fun y hy ↦ h y (List.mem_cons_of_mem _ hy))

theorem countP_isUse (h : Tidy ds) : ds.countP Deed.isUse = ds.countP Deed.isOpening := by
  induction h with
  | nil => rfl
  | refused _ ih => simpa [List.countP_cons, Deed.isUse, Deed.isOpening] using ih
  | handled _ ih => simpa [List.countP_cons, Deed.isUse, Deed.isOpening] using ih

theorem countP_isRelease (h : Tidy ds) : ds.countP Deed.isRelease = ds.countP Deed.isOpening := by
  induction h with
  | nil => rfl
  | refused _ ih => simpa [List.countP_cons, Deed.isRelease, Deed.isOpening] using ih
  | handled _ ih => simpa [List.countP_cons, Deed.isRelease, Deed.isOpening] using ih

end Tidy

namespace Tally

/-- A measure that each deed of one kind raises by one counts the deeds of that kind. -/
theorem foldl_note_count {m : Tally → Nat} {p : Deed → Bool}
    (h : ∀ t d, m (note t d) = m t + if p d then 1 else 0) (ds : List Deed) (t : Tally) :
    m (ds.foldl note t) = m t + ds.countP p := by
  induction ds generalizing t with
  | nil => rfl
  | cons d ds ih => rw [List.foldl_cons, ih, h, List.countP_cons]; omega

theorem foldl_note_releases (ds : List Deed) (t : Tally) :
    (ds.foldl note t).releases = t.releases + ds.countP Deed.isRelease :=
  foldl_note_count (fun t d ↦ by rcases d with _ | _ | (_ | _) | _ <;> rfl) ds t

theorem foldl_note_uses (ds : List Deed) (t : Tally) :
    (ds.foldl note t).alls + (ds.foldl note t).queries =
      t.alls + t.queries + ds.countP Deed.isUse := by
  refine foldl_note_count (m := fun t ↦ t.alls + t.queries) (fun t d ↦ ?_) ds t
  rcases d with _ | _ | (_ | _) | _ <;> simp [note, Deed.isUse] <;> omega

theorem foldl_note_opens (ds : List Deed) (t : Tally) :
    (ds.foldl note t).opens =
      t.opens + ds.countP Deed.isOpening + ds.countP Deed.isRefusal := by
  induction ds generalizing t with
  | nil => rfl
  | cons d ds ih =>
      rw [List.foldl_cons, ih, List.countP_cons, List.countP_cons]
      rcases d with _ | _ | (_ | _) | _ <;>
        simp [note, opens, Deed.isOpening, Deed.isRefusal] <;> omega

end Tally

namespace World

variable {w v : World} {l : Located}

theorem openingAt_error {why : Database.OpenError}
    (h : Database.load w l.directory l.name = (.error why, v)) :
    w.openingAt l = .refused (Database.file l.directory l.name) := by
  rw [openingAt, h]

theorem openingAt_ok {db : Database} (h : Database.load w l.directory l.name = (.ok db, v)) :
    w.openingAt l = .opened (Database.file l.directory l.name) := by
  rw [openingAt, h]

theorem tidy_deedsAt (w : World) (l : Located) (use : Use) : Tidy (w.deedsAt l use) := by
  rcases h : Database.load w l.directory l.name with ⟨answer, v⟩
  cases answer with
  | error why =>
      rw [deedsAt, openingAt_error h]
      exact .refused .nil
  | ok db =>
      rw [deedsAt, openingAt_ok h]
      exact .handled .nil

theorem note_deedsAt_error {why : Database.OpenError}
    (h : Database.load w l.directory l.name = (.error why, v)) (use : Use) (t : Tally) :
    (w.deedsAt l use).foldl Tally.note t =
      t.note (.refused (Database.file l.directory l.name)) := by
  rw [deedsAt, openingAt_error h]
  rfl

theorem note_deedsAt_ok {db : Database}
    (h : Database.load w l.directory l.name = (.ok db, v)) (use : Use) (t : Tally) :
    (w.deedsAt l use).foldl Tally.note t = t.visited (Database.file l.directory l.name) use := by
  rw [deedsAt, openingAt_ok h]
  rfl

theorem opens_deedsAt (w : World) (l : Located) (use : Use) (t : Tally) :
    ((w.deedsAt l use).foldl Tally.note t).opens = t.opens + 1 := by
  rcases h : Database.load w l.directory l.name with ⟨answer, v⟩
  cases answer with
  | error why =>
      rw [note_deedsAt_error h]
      rfl
  | ok db =>
      rw [note_deedsAt_ok h]
      cases use <;> rfl

end World

namespace Session

theorem consult_tally {α : Type} (s : Session) (l : Located) (use : Use) (take : Database → α) :
    (s.consult l use take).2.project.tally =
      (s.world.deedsAt l use).foldl Tally.note s.project.tally := by
  have hexit := s.consult_exit l use take
  generalize s.consult l use take = result at hexit ⊢
  obtain ⟨answer, t⟩ := result
  cases hexit with
  | unreadable hload => exact (World.note_deedsAt_error hload use _).symm
  | opened hload => exact (World.note_deedsAt_ok hload use _).symm

theorem populateHearing_tally (s : Session) (signals : List Search.Signal) (name : String)
    (candidates : List Path) :
    (s.populateHearing signals name candidates).2.project.tally =
      (s.populateDeeds signals name candidates).foldl Tally.note s.project.tally := by
  have hexit := s.populateHearing_exit signals name candidates
  rw [populateDeeds]
  generalize s.populateHearing signals name candidates = result at hexit ⊢
  obtain ⟨answer, t⟩ := result
  cases hexit with
  | notFound hfind => simp [hfind]
  | @unreadable directory _ _ hfind hload =>
      rw [hfind]
      exact (World.note_deedsAt_error (l := ⟨directory, _⟩) hload .readAll _).symm
  | @read directory _ _ hfind hload =>
      rw [hfind]
      exact (World.note_deedsAt_ok (l := ⟨directory, _⟩) hload .readAll _).symm

theorem flags_tally (s : Session) (name : String) :
    (s.flags name).2.project.tally =
      (s.flagsDeeds name).foldl Tally.note s.project.tally := by
  have hexit := s.flags_exit name
  rw [flagsDeeds, missDeeds]
  generalize s.flags name = result at hexit ⊢
  obtain ⟨answer, t⟩ := result
  dsimp only at hexit ⊢
  cases hexit with
  | cached hcache => simp [hcache]
  | notLocated hcache hplace => simp [hcache, hplace]
  | unreadable hcache hplace hload =>
      simpa [hcache, hplace] using (World.note_deedsAt_error hload .query _).symm
  | unknown hcache hplace hload | looked hcache hplace hload =>
      simpa [hcache, hplace] using (World.note_deedsAt_ok hload .query _).symm

theorem tidy_missDeeds (s : Session) : Tidy s.missDeeds := by
  unfold missDeeds
  split
  · exact .nil
  · exact s.world.tidy_deedsAt _ _

theorem tidy_populateDeeds (s : Session) (signals : List Search.Signal) (name : String)
    (candidates : List Path) : Tidy (s.populateDeeds signals name candidates) := by
  unfold populateDeeds
  dsimp only
  split
  · exact .nil
  · exact s.world.tidy_deedsAt _ _

theorem tidy_deeds (s : Session) (c : Call) : Tidy (s.deeds c) := by
  cases c with
  | populate name candidates => exact s.tidy_populateDeeds _ name candidates
  | populateHearing signals name candidates => exact s.tidy_populateDeeds signals name candidates
  | flags name =>
      rw [deeds, flagsDeeds]
      split
      · exact .nil
      · exact s.tidy_missDeeds
  | readAll l => exact s.world.tidy_deedsAt l .readAll
  | _ => exact .nil

/-- A call that is no look-up counts its own deeds. -/
theorem step_tally (s : Session) {c : Call} (hc : ∀ name, c ≠ .lookup name) :
    (s.step c).2.project.tally = (s.deeds c).foldl Tally.note s.project.tally := by
  cases c with
  | populate name candidates => exact s.populateHearing_tally _ name candidates
  | populateHearing signals name candidates =>
      exact s.populateHearing_tally signals name candidates
  | flags name => exact s.flags_tally name
  | lookup name => exact absurd rfl (hc name)
  | readAll l => exact s.consult_tally l .readAll _
  | find => rfl
  | setOptions => rfl
  | surroundings => rfl

theorem run_tally_of_calls {s : Session} {cs : List Call}
    (hcs : ∀ c ∈ cs, ∀ name, c ≠ .lookup name) :
    (s.run cs).2.project.tally =
      ((s.before cs).flatMap fun (s, c) ↦ s.deeds c).foldl Tally.note s.project.tally := by
  induction cs generalizing s with
  | nil => rfl
  | cons c cs ih =>
      have hrest : ∀ d ∈ cs, ∀ name, d ≠ .lookup name :=
        fun d hd ↦ hcs d (List.mem_cons_of_mem _ hd)
      rw [run_cons, ih hrest, step_tally s (hcs c List.mem_cons_self), before, List.flatMap_cons,
        List.foldl_append]

/-- The counters of a run tell what its ledger lists. -/
theorem run_tally (s : Session) (cs : List Call) :
    (s.run cs).2.project.tally = (s.ledger cs).foldl Tally.note s.project.tally := by
  rw [← run_spellAll]
  exact run_tally_of_calls fun c hc ↦ not_lookup_of_mem_spellAll hc

theorem tidy_ledger (s : Session) (cs : List Call) : Tidy (s.ledger cs) :=
  Tidy.flatMap fun p _ ↦ p.1.tidy_deeds p.2

/-! ## How often a call opens a database -/

theorem flags_opens_eq {s : Session} {name : String}
    (h : s.project.cache.get? name ≠ none ∨ s.project.located = none) :
    (s.flags name).2.project.tally = s.project.tally := by
  rw [flags_tally, flagsDeeds, missDeeds]
  rcases h with h | h
  · simp [Option.isSome_iff_ne_none, h]
  · simp [h]

theorem flags_opens_succ {s : Session} {name : String}
    (hcache : s.project.cache.get? name = none) (hplace : s.project.located ≠ none) :
    (s.flags name).2.project.tally.opens = s.project.tally.opens + 1 := by
  obtain ⟨l, hl⟩ := Option.ne_none_iff_exists'.mp hplace
  rw [flags_tally, flagsDeeds, missDeeds, hl]
  simpa [hcache] using s.world.opens_deedsAt l .query s.project.tally

theorem flags_opens_le (s : Session) (name : String) :
    (s.flags name).2.project.tally.opens ≤ s.project.tally.opens + 1 := by
  by_cases h : s.project.cache.get? name ≠ none ∨ s.project.located = none
  · rw [flags_opens_eq h]
    exact Nat.le_succ _
  · obtain ⟨hcache, hplace⟩ := not_or.mp h
    exact Nat.le_of_eq (flags_opens_succ (Decidable.not_not.mp hcache) hplace)

theorem lookup_opens_le (s : Session) (name : String) :
    (s.lookup name).2.project.tally.opens ≤ s.project.tally.opens + 2 := by
  have hexit := s.lookup_exit name
  generalize s.lookup name = result at hexit ⊢
  obtain ⟨answer, t⟩ := result
  have hfirst := s.flags_opens_le name
  cases hexit with
  | asked hflags | nowhere hflags =>
      rw [hflags] at hfirst
      exact Nat.le_succ_of_le hfirst
  | @below _ cwd _ t _ hflags _ hbelow =>
      have hsecond := t.flags_opens_le (cwd.join name).clean
      rw [hflags] at hfirst
      rw [hbelow] at hsecond
      exact Nat.le_trans hsecond (Nat.succ_le_succ hfirst)

/-! ## Before any database is located -/

theorem populateHearing_located_ne_none {s : Session} {signals : List Search.Signal}
    {name : String} {candidates : List Path}
    (h : (Search.settle (s.project.nameOf name) (s.project.candidatesOf candidates)
      signals).isOk = true) :
    (s.populateHearing signals name candidates).2.project.located ≠ none := by
  cases hfind : Search.settle (s.project.nameOf name) (s.project.candidatesOf candidates)
      signals with
  | error why => simp [hfind, Except.isOk, Except.toBool] at h
  | ok directory => simp [(populateHearing_opened hfind).1]

theorem step_located_eq_none_iff (s : Session) (c : Call) :
    (s.step c).2.project.located = none ↔ s.project.located = none ∧ s.locates c = false := by
  cases hfind : s.locates c with
  | false => simp [step_located hfind]
  | true =>
      have hplace : (s.step c).2.project.located ≠ none := by
        cases c with
        | populate name candidates => exact populateHearing_located_ne_none hfind
        | populateHearing signals name candidates => exact populateHearing_located_ne_none hfind
        | _ => cases hfind
      simp [hplace]

theorem run_located_eq_none_iff (s : Session) (cs : List Call) :
    (s.run cs).2.project.located = none ↔
      s.project.located = none ∧ ∀ p ∈ s.before cs, p.1.locates p.2 = false := by
  induction cs generalizing s with
  | nil => simp [before]
  | cons c cs ih => simp [before, ih, step_located_eq_none_iff, and_assoc]

/-- After every run the counters tell what was done with databases, and every handle given has been
used once and released within its call. Asking for flags opens nothing while the name is cached or
before a database has been located, and opens once otherwise; looking up opens at most twice. -/
theorem handles_settled (root : Path) (options : Options) (w : World) (cs : List Call) :
    let s := start root options w
    let t := (s.run cs).2
    let deeds := s.ledger cs
    t.project.tally = deeds.foldl Tally.note .zero ∧
      t.project.tally.releases = deeds.countP Deed.isOpening ∧
      t.project.tally.alls + t.project.tally.queries = t.project.tally.releases ∧
      t.project.tally.opens = t.project.tally.releases + deeds.countP Deed.isRefusal ∧
      (∀ p ∈ s.before cs, Tidy (p.1.ledger [p.2]) ∧
        (p.1.step p.2).2.project.tally =
          (p.1.ledger [p.2]).foldl Tally.note p.1.project.tally) ∧
      (∀ name, t.project.cache.get? name ≠ none ∨
          (∀ p ∈ s.before cs, p.1.locates p.2 = false) →
        (t.flags name).2.project.tally = t.project.tally) ∧
      (∀ name, t.project.cache.get? name = none →
          (∃ p ∈ s.before cs, p.1.locates p.2 = true) →
        (t.flags name).2.project.tally.opens = t.project.tally.opens + 1) ∧
      ∀ name, (t.lookup name).2.project.tally.opens ≤ t.project.tally.opens + 2 := by
  intro s t deeds
  have htally : t.project.tally = deeds.foldl Tally.note .zero := s.run_tally cs
  have htidy : Tidy deeds := s.tidy_ledger cs
  have hplace : t.project.located = none ↔ ∀ p ∈ s.before cs, p.1.locates p.2 = false :=
    (s.run_located_eq_none_iff cs).trans (and_iff_right rfl)
  have hreleases : t.project.tally.releases = deeds.countP Deed.isOpening := by
    rw [htally, Tally.foldl_note_releases, htidy.countP_isRelease]
    exact Nat.zero_add _
  have huses : t.project.tally.alls + t.project.tally.queries = deeds.countP Deed.isOpening := by
    rw [htally, Tally.foldl_note_uses, htidy.countP_isUse]
    exact Nat.zero_add _
  have hopens : t.project.tally.opens =
      deeds.countP Deed.isOpening + deeds.countP Deed.isRefusal := by
    rw [htally, Tally.foldl_note_opens]
    exact congrArg (· + _) (Nat.zero_add _)
  refine ⟨htally, hreleases, huses.trans hreleases.symm, hreleases ▸ hopens, ?_, ?_, ?_,
    t.lookup_opens_le⟩
  · intro p _
    exact ⟨p.1.tidy_ledger [p.2], p.1.run_tally [p.2]⟩
  · intro name h
    exact flags_opens_eq (h.imp_right hplace.mpr)
  · rintro name hcache ⟨p, hp, hlocates⟩
    refine flags_opens_succ hcache fun hnone ↦ ?_
    exact absurd (hplace.mp hnone p hp) (by simp [hlocates])

/-- Surroundings with a database of one command. -/
def oneCommand : World :=
  .ofFile "/w" "/p/compile_commands.json" "[[\"/p\",\"a.c\",[\"-DA\"],null]]"

/-- A database read, a look-up that falls back on the absolute name, a search that finds nothing and
a reading of a file that is not there. -/
def mixedCalls : List Call :=
  [.populate "" [], .lookup "../p/a.c", .populate "absent.json" [], .readAll ⟨"/q", "x.json"⟩]

theorem handles_settled_mixed :
    ((start "/p" .default oneCommand).flags "a.c").2.project.tally = .zero ∧
      let t := ((start "/p" .default oneCommand).run mixedCalls).2
      (t.project.tally.releases = 3 ∧ t.project.tally.alls + t.project.tally.queries = 3 ∧
        t.project.tally.opens = 4) ∧
      (t.flags "/p/a.c").2.project.tally = t.project.tally ∧
      (t.flags "b.c").2.project.tally.opens = t.project.tally.opens + 1 := by
  constructor
  · exact (handles_settled "/p" .default oneCommand []).2.2.2.2.2.1 "a.c"
      (.inr fun p hp ↦ absurd hp List.not_mem_nil)
  obtain ⟨-, hreleases, huses, hopens, -, hcached, hmissed, -⟩ :=
    handles_settled "/p" .default oneCommand mixedCalls
  have hthree : ((start "/p" .default oneCommand).ledger mixedCalls).countP Deed.isOpening = 3 := by
    decide +kernel
  have hone : ((start "/p" .default oneCommand).ledger mixedCalls).countP Deed.isRefusal = 1 := by
    decide +kernel
  rw [hthree] at hreleases
  rw [hreleases] at huses
  rw [hone, hreleases] at hopens
  refine ⟨⟨hreleases, huses, hopens⟩, hcached "/p/a.c" (.inl (by decide +kernel)), ?_⟩
  exact hmissed "b.c" (by decide +kernel)
    ⟨(start "/p" .default oneCommand, .populate "" []), List.mem_cons_self, by decide +kernel⟩

end Session

end CompileFlags
