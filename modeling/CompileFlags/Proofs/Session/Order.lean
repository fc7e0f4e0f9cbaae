import CompileFlags.Proofs.Session.Handles
import CompileFlags.Proofs.Session.Steady
import Mathlib.Data.List.Perm.Basic
import Mathlib.Logic.Function.Basic

/-!
# Questions in any order

In steady surroundings the order of questions does not matter. What a project remembers and has
counted, seen as a function of names and a tally, changes by one update for every name that is asked
for, and two such updates commute: a name gains what the place of the database answers, whenever it
is asked for first, and opening the database costs the same whichever name misses.
-/

namespace CompileFlags

/-- What questions can change. -/
structure Memory where
  known : String → Option (List String)
  tally : Tally

/-- Ask for a name, given what the place of the database answers and what it costs to ask it. -/
def Memory.ask (reply : String → Except LoadError (List String)) (cost : List Deed) (m : Memory)
    (name : String) : Memory :=
  match m.known name, reply name with
  | some _, _ => m
  | none, .error _ => { m with tally := cost.foldl Tally.note m.tally }
  | none, .ok flags =>
    ⟨Function.update m.known name (some flags), cost.foldl Tally.note m.tally⟩

namespace Memory

variable {reply : String → Except LoadError (List String)} {cost : List Deed}

theorem ask_ask (m : Memory) (a b : String) :
    (m.ask reply cost a).ask reply cost b = (m.ask reply cost b).ask reply cost a := by
  by_cases hab : a = b
  · rw [hab]
  have hba : b ≠ a := Ne.symm hab
  cases ha : m.known a <;> cases hb : m.known b <;> cases hra : reply a <;> cases hrb : reply b <;>
    simp [ask, ha, hb, hra, hrb, hab, hba, Function.update_comm hab]

/-- The names may be asked for in any order. -/
theorem foldl_ask_perm {ms ns : List String} (h : ms.Perm ns) (m : Memory) :
    ms.foldl (ask reply cost) m = ns.foldl (ask reply cost) m :=
  h.foldl_eq' (fun a _ b _ m ↦ ask_ask m a b) m

end Memory

namespace Session

def memory (s : Session) : Memory :=
  ⟨s.project.cache.get?, s.project.tally⟩

/-- The names that a question asks for. -/
def namesAsked (s : Session) : Call → List String
  | .flags name => [name]
  | .lookup name => s.lookupNames name
  | _ => []

theorem flags_memory (s : Session) (name : String) :
    (s.flags name).2.memory = s.memory.ask s.reply s.missDeeds name := by
  cases hknown : s.project.cache.get? name with
  | some known => simp [flags_of_cached hknown, memory, Memory.ask, hknown]
  | none =>
      have hmiss : s.memory.known name = none := hknown
      have htally := s.flags_tally name
      have hanswer : s.answer name = s.reply name := by rw [answer, hknown]
      rw [flagsDeeds, hknown] at htally
      rw [Memory.ask, hmiss]
      cases hreply : s.reply name with
      | error why =>
          refine congrArg₂ Memory.mk (funext fun m ↦ ?_) htally
          simp [memory, flags_get?, hanswer, hreply, Except.toOption]
      | ok flags =>
          refine congrArg₂ Memory.mk (funext fun m ↦ ?_) htally
          rw [flags_get?, hanswer, hreply]
          by_cases hm : name = m
          · subst hm
            simp [hknown, Except.toOption]
          · simp [memory, hm, Ne.symm hm]

namespace Steady

variable {s t : Session}

theorem run_flags_memory (hs : s.Steady) (names : List String) :
    (s.run (names.map .flags)).2.memory =
      names.foldl (Memory.ask s.reply s.missDeeds) s.memory := by
  induction names generalizing s with
  | nil => rfl
  | cons name names ih =>
      have hfirst := hs.flags_agrees name
      have hreply : (s.flags name).2.reply = s.reply := funext hfirst.reply
      have hcost : (s.flags name).2.missDeeds = s.missDeeds := by
        rw [missDeeds, missDeeds, hfirst.world, hfirst.located]
      rw [List.map_cons, run_cons, List.foldl_cons, ← flags_memory, ← hreply, ← hcost]
      exact ih (hfirst.steady hs)

theorem spell_eq {c : Call} (hc : c.IsQuestion) :
    s.spell c = (s.namesAsked c).map .flags := by
  cases c with
  | flags name => rfl
  | lookup name => rfl
  | _ => exact hc.elim

theorem namesAsked_eq (hs : s.Steady) (h : s.Agrees t) (c : Call) :
    t.namesAsked c = s.namesAsked c := by
  cases c with
  | lookup name =>
      rw [namesAsked, namesAsked, hs.lookupNames_eq, (h.steady hs).lookupNames_eq, h.fallback?]
  | _ => rfl

/-- The calls for flags that a run of questions makes can be told before it starts. -/
theorem spellAll_eq (hs : s.Steady) {cs : List Call} (hcs : ∀ c ∈ cs, c.IsQuestion) :
    s.spellAll cs = (cs.flatMap s.namesAsked).map .flags := by
  suffices hspell : ∀ t, s.Agrees t →
      t.spellAll cs = (cs.flatMap s.namesAsked).map .flags from hspell s (.refl s)
  induction cs with
  | nil => exact fun _ _ ↦ rfl
  | cons c cs ih =>
      intro t ht
      have hc := hcs c List.mem_cons_self
      have hnext := ht.trans ((ht.steady hs).step_agrees hc)
      rw [spellAll, spell_eq hc, hs.namesAsked_eq ht,
        ih (fun d hd ↦ hcs d (List.mem_cons_of_mem _ hd)) _ hnext, List.flatMap_cons,
        List.map_append]

theorem run_memory (hs : s.Steady) {cs : List Call} (hcs : ∀ c ∈ cs, c.IsQuestion) :
    (s.run cs).2.memory =
      (cs.flatMap s.namesAsked).foldl (Memory.ask s.reply s.missDeeds) s.memory := by
  rw [← run_spellAll, hs.spellAll_eq hcs, hs.run_flags_memory]

end Steady

/-- Questions in steady surroundings may come in any order: each is answered as if it came first,
and the cache, the place of the database and all counts are the same in the end. -/
theorem run_questions_perm {s : Session} (hs : s.Steady) {cs ds : List Call}
    (hcs : ∀ c ∈ cs, c.IsQuestion) (hperm : cs.Perm ds) :
    (s.run cs).1 = cs.map (fun c ↦ (s.step c).1) ∧
      (s.run ds).1 = ds.map (fun c ↦ (s.step c).1) ∧
      let t := (s.run cs).2
      let u := (s.run ds).2
      t.world = s.world ∧ u.world = s.world ∧
        u.project.located = t.project.located ∧
        (∀ name, u.project.cache.get? name = t.project.cache.get? name) ∧
        u.project.tally = t.project.tally := by
  have hds : ∀ c ∈ ds, c.IsQuestion := fun c hc ↦ hcs c (hperm.mem_iff.mpr hc)
  have ht := hs.run_agrees hcs
  have hu := hs.run_agrees hds
  have hmemory : (s.run ds).2.memory = (s.run cs).2.memory := by
    rw [hs.run_memory hcs, hs.run_memory hds]
    exact (Memory.foldl_ask_perm (hperm.flatMap_right _) _).symm
  refine ⟨hs.run_fst hcs, hs.run_fst hds, ht.world, hu.world, hu.located.trans ht.located.symm,
    ?_, congrArg Memory.tally hmemory⟩
  intro name
  exact congrFun (congrArg Memory.known hmemory) name

/-- One order fills the cache by the fallback of a look-up, the other one before it. -/
theorem run_questions_perm_alias :
    let cs : List Call := [.lookup "../a.c", .flags "/p/a.c", .lookup "b.c"]
    let ds : List Call := [.flags "/p/a.c", .lookup "b.c", .lookup "../a.c"]
    besideDatabase.Steady ∧ (∀ c ∈ cs, c.IsQuestion) ∧ cs.Perm ds ∧
      (besideDatabase.run ds).1 = ds.map (fun c ↦ (besideDatabase.step c).1) ∧
      (besideDatabase.run ds).2.project.cache.get? "/p/a.c" = some ["-DA"] ∧
      (besideDatabase.run ds).2.project.tally.opens = 4 := by
  intro cs ds
  have hsteady : besideDatabase.Steady := by
    intro l hl
    cases hl
    rfl
  have hcs : ∀ c ∈ cs, c.IsQuestion := by simp [cs, Call.IsQuestion]
  have hperm : cs.Perm ds :=
    (List.perm_append_singleton _ [Call.flags "/p/a.c", .lookup "b.c"]).symm
  obtain ⟨-, hanswers, -, -, -, hcache, htally⟩ := run_questions_perm hsteady hcs hperm
  refine ⟨hsteady, hcs, hperm, hanswers, ?_, ?_⟩
  · exact (hcache "/p/a.c").trans (by decide +kernel)
  · exact (congrArg Tally.opens htally).trans (by decide +kernel)

end Session

end CompileFlags
