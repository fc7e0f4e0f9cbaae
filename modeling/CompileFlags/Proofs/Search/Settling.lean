import CompileFlags.Search
import Mathlib.Data.List.Perm.Basic

/-!
# What a search settles on

A search answers with a candidate whose probe has confirmed the file, if it answers at all. When
all probes report in time no file is missed. Which of several directories is found depends on the
order of the reports, but where only one holds the file there is nothing to choose from.
-/

namespace CompileFlags.Search

variable {w : World} {name : String} {candidates : List Path} {signals signals' : List Signal}

theorem mem_of_listen {d : Path} (h : listen signals = some d) :
    ∃ r, .report r ∈ signals ∧ r.found = true ∧ r.directory = d := by
  induction signals with
  | nil => simp [listen] at h
  | cons signal rest ih =>
      cases signal with
      | report r =>
          cases hfound : r.found with
          | true =>
              have hd : r.directory = d := by simpa [listen, hfound] using h
              exact ⟨r, List.mem_cons_self, hfound, hd⟩
          | false =>
              obtain ⟨q, hq, hhit⟩ := ih (by simpa [listen, hfound] using h)
              exact ⟨q, List.mem_cons_of_mem _ hq, hhit⟩
      | done => simp [listen] at h
      | expired => simp [listen] at h

/-- An answer is a candidate in which the file has been confirmed. -/
theorem Heard.of_settle (hheard : Heard w name candidates signals) {d : Path}
    (h : settle name candidates signals = .ok d) :
    d ∈ candidates ∧ w.holds (target name d) = true := by
  unfold settle at h
  split at h
  · rename_i e hlisten
    cases h
    obtain ⟨r, hr, hfound, rfl⟩ := mem_of_listen hlisten
    obtain ⟨c, hc, rfl⟩ := hheard r hr
    exact ⟨hc, hfound⟩
  · cases h

theorem inOrder_heard (w : World) (name : String) (candidates : List Path) :
    Heard w name candidates (inOrder w name candidates) := by
  intro r hr
  simpa [inOrder, eq_comm] using hr

/-! ## Reports in time -/

/-- All probes have reported, in some order, and then gone. -/
def InTime (w : World) (name : String) (candidates : List Path) (signals : List Signal) : Prop :=
  ∃ rs : List Report, rs.Perm (candidates.map (probe w (effectiveName name))) ∧
    signals = rs.map .report ++ [.done]

/-- No two candidates hold the file. -/
def Unambiguous (w : World) (name : String) (candidates : List Path) : Prop :=
  ∀ d ∈ candidates, ∀ e ∈ candidates,
    w.holds (target name d) = true → w.holds (target name e) = true → d = e

theorem inTime_inOrder (w : World) (name : String) (candidates : List Path) :
    InTime w name candidates (inOrder w name candidates) :=
  ⟨_, .refl _, by simp [inOrder]⟩

theorem error_of_settle {why : NotFound} (h : settle name candidates signals = .error why) :
    why = ⟨effectiveName name, candidates⟩ ∧ listen signals = none := by
  unfold settle at h
  split at h
  · cases h
  · rename_i hlisten
    cases h
    exact ⟨rfl, hlisten⟩

namespace InTime

theorem heard (h : InTime w name candidates signals) : Heard w name candidates signals := by
  obtain ⟨rs, hperm, rfl⟩ := h
  intro r hr
  have hmem : r ∈ rs := by simpa using hr
  obtain ⟨d, hd, rfl⟩ := List.mem_map.mp (hperm.mem_iff.mp hmem)
  exact ⟨d, hd, rfl⟩

/-- A file that some candidate holds is not missed. -/
theorem settle_ne_error (h : InTime w name candidates signals) {d : Path} (hd : d ∈ candidates)
    (hholds : w.holds (target name d) = true) (why : NotFound) :
    settle name candidates signals ≠ .error why := by
  intro herror
  obtain ⟨-, hlisten⟩ := error_of_settle herror
  obtain ⟨rs, hperm, rfl⟩ := h
  rw [listen_reports, Option.map_eq_none_iff, List.find?_eq_none] at hlisten
  have hreport := hperm.mem_iff.mpr (List.mem_map_of_mem (f := probe w (effectiveName name)) hd)
  exact hlisten _ hreport hholds

/-- A search fails exactly if no candidate holds the file. -/
theorem settle_eq_error_iff (h : InTime w name candidates signals) :
    (∃ why, settle name candidates signals = .error why) ↔
      ∀ d ∈ candidates, w.holds (target name d) = false := by
  constructor
  · rintro ⟨why, herror⟩ d hd
    exact Bool.eq_false_iff.mpr fun hholds ↦ h.settle_ne_error hd hholds why herror
  · intro hnone
    cases hsettle : settle name candidates signals with
    | error why => exact ⟨why, rfl⟩
    | ok d =>
        obtain ⟨hd, hholds⟩ := h.heard.of_settle hsettle
        simp [hnone d hd] at hholds

/-- The directory that holds the file is found, and no other one. -/
theorem settle_eq_ok_iff (h : InTime w name candidates signals)
    (hone : Unambiguous w name candidates) (d : Path) :
    settle name candidates signals = .ok d ↔ d ∈ candidates ∧ w.holds (target name d) = true := by
  refine ⟨h.heard.of_settle, fun ⟨hd, hholds⟩ ↦ ?_⟩
  cases hsettle : settle name candidates signals with
  | error why => exact absurd hsettle (h.settle_ne_error hd hholds why)
  | ok e =>
      obtain ⟨he, hfound⟩ := h.heard.of_settle hsettle
      rw [hone e he d hd hfound hholds]

/-- The order of the reports does not matter. -/
theorem settle_eq (h : InTime w name candidates signals) (h' : InTime w name candidates signals')
    (hone : Unambiguous w name candidates) :
    settle name candidates signals = settle name candidates signals' := by
  cases hsettle : settle name candidates signals with
  | ok d =>
      have hd := (h.settle_eq_ok_iff hone d).mp hsettle
      exact ((h'.settle_eq_ok_iff hone d).mpr hd).symm
  | error why =>
      cases hsettle' : settle name candidates signals' with
      | ok d =>
          have hd := (h'.settle_eq_ok_iff hone d).mp hsettle'
          cases hsettle.symm.trans ((h.settle_eq_ok_iff hone d).mpr hd)
      | error why' => rw [(error_of_settle hsettle).1, (error_of_settle hsettle').1]

end InTime

end CompileFlags.Search
