import CompileFlags.Proofs.Path.Cleaning

/-!
# Clean paths are the names of lexical locations

Walking a path depends on the place that the path leads to and on nothing else of its text, and
two places differ as seen from some start directory. So a clean path is walked as the path itself
is, and two paths have one clean form exactly when no walk tells them apart. The clean forms are
the canonical texts: names below the root, or names below steps up.
-/

namespace CompileFlags.Path

namespace Location

/-! ## Places as they are seen from a directory -/

/-- The names of a place for a reader who stands in `start`. -/
def seenFrom (start : List Segment) : Location → List Segment
  | rooted names => names
  | relative ups names => names ++ start.drop ups

theorem seenFrom_enter (start : List Segment) (l : Location) (s : Segment) :
    (l.enter s).seenFrom start = step (l.seenFrom start) s := by
  unfold Location.enter step
  by_cases hidle : s.isIdle = true
  · rw [if_pos hidle, if_pos hidle]
  rw [if_neg hidle, if_neg hidle]
  by_cases hup : s = up
  · rw [if_pos hup, if_pos hup]
    cases l with
    | rooted names => rfl
    | relative ups names =>
        cases names with
        | nil => simp [seenFrom]
        | cons n names => rfl
  · rw [if_neg hup, if_neg hup]
    cases l <;> rfl

theorem seenFrom_foldl (start : List Segment) (ss : List Segment) (l : Location) :
    (ss.foldl enter l).seenFrom start = ss.foldl step (l.seenFrom start) := by
  induction ss generalizing l with
  | nil => rfl
  | cons s ss ih => rw [List.foldl_cons, ih, seenFrom_enter, List.foldl_cons]

theorem seenFrom_ofPath (start : List Segment) (p : Path) :
    (ofPath p).seenFrom start = walk start p := by
  rw [ofPath, seenFrom_foldl, walk]
  cases p.isAbsolute <;> rfl

/-! ## Different places are told apart -/

/-- Places that no start directory tells apart. -/
def SameView (l m : Location) : Prop :=
  ∀ start, (∀ s ∈ start, Segment.IsName s) → l.seenFrom start = m.seenFrom start

theorem SameView.symm {l m : Location} (h : l.SameView m) : m.SameView l :=
  fun start hstart ↦ (h start hstart).symm

theorem isName_a : Segment.IsName ['a'] :=
  ⟨by decide, by decide, by decide⟩

theorem isName_b : Segment.IsName ['b'] :=
  ⟨by decide, by decide, by decide⟩

/-- From deep enough below one name the view does not change with that name. -/
theorem SameView.replicate {l m : Location} (h : l.SameView m) (k : Nat) {s : Segment}
    (hs : s.IsName) :
    l.seenFrom (List.replicate k s) = m.seenFrom (List.replicate k s) :=
  h _ fun _ ht ↦ List.eq_of_mem_replicate ht ▸ hs

theorem SameView.not_rooted_relative {ns ms : List Segment} {ups : Nat} :
    ¬ (rooted ns).SameView (relative ups ms) := by
  intro h
  -- The relative place ends in whatever the directory begins with, the rooted one does not.
  have hview {s : Segment} (hs : s.IsName) : ns = ms ++ [s] := by
    simpa [seenFrom] using h.replicate (ups + 1) hs
  have hsame := List.append_cancel_left ((hview isName_a).symm.trans (hview isName_b))
  exact absurd hsame (by decide)

theorem SameView.ups_le {ns ms : List Segment} {i j : Nat}
    (h : (relative i ns).SameView (relative j ms)) : j ≤ i := by
  -- From `j` names deep the second place has left all of them, and the first one has not.
  have hview {s : Segment} (hs : s.IsName) : ns ++ List.replicate (j - i) s = ms := by
    simpa [seenFrom] using h.replicate j hs
  have hsame := List.append_cancel_left ((hview isName_a).trans (hview isName_b).symm)
  have hnames : j - i = 0 ∨ ['a'] = ['b'] := List.replicate_inj.mp hsame |>.2
  have hdepth : j - i = 0 := hnames.resolve_right (by decide)
  exact Nat.le_of_sub_eq_zero hdepth

theorem SameView.eq {l m : Location} (h : l.SameView m) : l = m := by
  cases l with
  | rooted ns =>
      cases m with
      | rooted ms => exact congrArg rooted (h [] (by simp))
      | relative ups ms => exact absurd h SameView.not_rooted_relative
  | relative i ns =>
      cases m with
      | rooted ms => exact absurd h.symm SameView.not_rooted_relative
      | relative j ms =>
          obtain rfl : i = j := Nat.le_antisymm h.symm.ups_le h.ups_le
          have hnames : ns = ms := by simpa [seenFrom] using h [] (by simp)
          rw [hnames]

end Location

/-! ## Canonical texts -/

/-- Components joined by single separators, with one more in front in an absolute path. None is
empty or `.`; only a relative path has `..`, and only in front of all names. A path without
components is `.` where it is relative. -/
inductive Canonical : Path → Prop
  | rooted {names : List Segment} : (∀ s ∈ names, Segment.IsName s) →
      Canonical (String.ofList ('/' :: ofSegments names))
  | relative {ups : Nat} {names : List Segment} : (∀ s ∈ names, Segment.IsName s) →
      List.replicate ups up ++ names ≠ [] →
      Canonical (String.ofList (ofSegments (List.replicate ups up ++ names)))
  | here : Canonical "."

theorem canonical_text {l : Location} (h : l.Named) : Canonical l.text := by
  have hnames : ∀ s ∈ l.names.reverse, Segment.IsName s := fun s hs ↦ h s (List.mem_reverse.mp hs)
  cases l with
  | rooted names => exact .rooted hnames
  | relative ups names =>
      by_cases hempty : (Location.relative ups names).components = []
      · obtain ⟨rfl, rfl⟩ : ups = 0 ∧ names = [] := by simpa [Location.components] using hempty
        exact .here
      · rw [Location.text_relative hempty]
        exact .relative hnames hempty

/-- Every canonical text is the text of a place. -/
theorem Canonical.exists_location {p : Path} (h : Canonical p) :
    ∃ l : Location, l.Named ∧ l.text = p := by
  have hnamed {names : List Segment} (hnames : ∀ s ∈ names, Segment.IsName s) :
      ∀ s ∈ names.reverse, Segment.IsName s := fun s hs ↦ hnames s (List.mem_reverse.mp hs)
  cases h with
  | @rooted names hnames =>
      exact ⟨.rooted names.reverse, hnamed hnames, by simp [Location.text, Location.components]⟩
  | @relative ups names hnames hne =>
      have hcomponents : (Location.relative ups names.reverse).components =
          List.replicate ups up ++ names := by
        simp [Location.components]
      refine ⟨.relative ups names.reverse, hnamed hnames, ?_⟩
      rw [Location.text_relative (hcomponents.symm ▸ hne), hcomponents]
  | here => exact ⟨.relative 0 [], by simp [Location.Named, Location.names], rfl⟩

theorem canonical_iff_clean_eq (p : Path) : Canonical p ↔ p.clean = p := by
  constructor
  · intro h
    obtain ⟨l, hl, rfl⟩ := h.exists_location
    rw [clean, Location.ofPath_text hl]
  · intro h
    rw [← h]
    exact canonical_text (Location.named_ofPath p)

theorem walk_clean (start : List Segment) (p : Path) : walk start p.clean = walk start p := by
  rw [← Location.seenFrom_ofPath, ofPath_clean, Location.seenFrom_ofPath]

/-- Cleaning a path gives the canonical text of the place to which it leads: the text is walked as
the path is, absolute exactly when the path is, and in canonical form, where cleaning changes
nothing more. Two paths have one clean form exactly when they lead to one place from every start
directory. -/
theorem clean_eq_iff_walk_eq :
    (∀ (start : List Segment) (p : Path), walk start p.clean = walk start p) ∧
      (∀ p : Path, p.clean.isAbsolute = p.isAbsolute ∧ Canonical p.clean ∧
        p.clean.clean = p.clean ∧ (Canonical p ↔ p.clean = p)) ∧
      ∀ p q : Path, p.clean = q.clean ↔
        ∀ start, (∀ s ∈ start, Segment.IsName s) → walk start p = walk start q := by
  refine ⟨walk_clean, ?_, ?_⟩
  · intro p
    have hcanonical : Canonical p.clean := canonical_text (Location.named_ofPath p)
    exact ⟨isAbsolute_clean p, hcanonical, clean_clean p, canonical_iff_clean_eq p⟩
  · intro p q
    constructor
    · intro h start _
      rw [← walk_clean start p, h, walk_clean]
    · intro h
      have hplace : (Location.ofPath p).SameView (Location.ofPath q) := by
        intro start hstart
        rw [Location.seenFrom_ofPath, Location.seenFrom_ofPath]
        exact h start hstart
      rw [clean, hplace.eq, ← clean]

/-- Two spellings of one place, and two places that only a start directory tells apart. -/
theorem clean_eq_iff_walk_eq_spellings :
    (∀ s ∈ [['d']], Segment.IsName s) ∧
      walk [['d']] "./x/../../y//." = walk [['d']] "../y" ∧
      clean "x/../y" ≠ clean "/y" := by
  have hstart : ∀ s ∈ [['d']], Segment.IsName s := by
    intro s hs
    obtain rfl := List.mem_singleton.mp hs
    exact ⟨by decide, by decide, by decide⟩
  obtain ⟨-, -, hiff⟩ := clean_eq_iff_walk_eq
  refine ⟨hstart, ?_, ?_⟩
  · exact (hiff "./x/../../y//." "../y").mp (by decide) [['d']] hstart
  · intro h
    have hwalk := (hiff "x/../y" "/y").mp h [['d']] hstart
    revert hwalk
    decide

end CompileFlags.Path
