import CompileFlags.Proofs.Path.Joining
import CompileFlags.Search
import Mathlib.Data.List.DropRight

/-!
# The default candidates

The directory around a root is read off its text: the last component is left out. That is one step
up if the component is a name, and then the candidate encloses the root. A root that ends in a step
up has its last component left out all the same, which leads down again, and a relative root without
components encloses itself. So these roots are not enclosed by their candidate, apart from roots
that cannot be left.
-/

namespace CompileFlags

namespace Path

/-! ## Components -/

def moving (ss : List Segment) : List Segment :=
  ss.filter (!·.isIdle)

/-- The components that lead somewhere: names and steps up. -/
def moves (p : Path) : List Segment :=
  moving (segments p.toList)

theorem moving_cons_idle {s : Segment} (h : s.isIdle = true) (ss : List Segment) :
    moving (s :: ss) = moving ss :=
  List.filter_cons_of_neg (by simp [h])

theorem foldl_moving {α : Type} {f : α → Segment → α} (h : ∀ a s, s.isIdle = true → f a s = a)
    (ss : List Segment) (a : α) : (moving ss).foldl f a = ss.foldl f a := by
  induction ss generalizing a with
  | nil => rfl
  | cons s ss ih =>
      cases hs : s.isIdle with
      | true => rw [moving_cons_idle hs, List.foldl_cons, h a s hs, ih]
      | false =>
          have hcons : moving (s :: ss) = s :: moving ss := List.filter_cons_of_pos (by simp [hs])
          rw [hcons, List.foldl_cons, List.foldl_cons, ih]

theorem walk_eq_moves (start : List Segment) (p : Path) :
    walk start p = p.moves.foldl step (if p.isAbsolute then [] else start) := by
  have hidle (names : List Segment) (s : Segment) (hs : s.isIdle = true) :
      step names s = names := by
    rw [step, if_pos hs]
  rw [walk, moves, foldl_moving hidle]

theorem ofPath_eq_moves (p : Path) : Location.ofPath p =
    p.moves.foldl Location.enter (if p.isAbsolute then .rooted [] else .relative 0 []) := by
  have hidle (l : Location) (s : Segment) (hs : s.isIdle = true) : l.enter s = l := by
    rw [Location.enter.eq_def, if_pos hs]
  rw [Location.ofPath, moves, foldl_moving hidle]

/-! ## Leaving out the last component -/

theorem moving_append (ss ts : List Segment) : moving (ss ++ ts) = moving ss ++ moving ts :=
  List.filter_append ss ts

theorem moving_trimIdle (ss : List Segment) : moving (trimIdle ss) = moving ss := by
  have hidle : moving (ss.rtakeWhile Segment.isIdle) = [] := by
    rw [moving, List.filter_eq_nil_iff]
    intro s hs
    simp [List.mem_rtakeWhile_imp hs]
  calc moving (trimIdle ss)
    _ = moving (trimIdle ss ++ ss.rtakeWhile Segment.isIdle) := by
        rw [moving_append, hidle, List.append_nil]
    _ = moving ss := congrArg moving List.rdropWhile_append_rtakeWhile

theorem prefix_trimIdle (ss : List Segment) : trimIdle ss <+: ss :=
  List.rdropWhile_prefix Segment.isIdle ss

/-- The last segment that is kept does lead somewhere. -/
theorem moving_dropLast_trimIdle (ss : List Segment) :
    moving (trimIdle ss).dropLast = (moving ss).dropLast := by
  rw [← moving_trimIdle ss]
  by_cases hne : trimIdle ss = []
  · rw [hne]
    rfl
  · have hlast : ((trimIdle ss).getLast hne).isIdle = false :=
      Bool.eq_false_iff.mpr (List.rdropWhile_last_not Segment.isIdle ss hne)
    have hsingle : moving [(trimIdle ss).getLast hne] = [(trimIdle ss).getLast hne] :=
      List.filter_cons_of_pos (by simp [hlast])
    conv_rhs => rw [← List.dropLast_append_getLast hne, moving_append, hsingle]
    rw [List.dropLast_concat]

/-! ## Segments put together again -/

theorem ofSegments_append {ss ts : List Segment} (hss : ss ≠ []) (hts : ts ≠ []) :
    ofSegments (ss ++ ts) = ofSegments ss ++ '/' :: ofSegments ts := by
  induction ss with
  | nil => exact absurd rfl hss
  | cons s ss ih =>
      cases ss with
      | nil =>
          obtain ⟨t, ts, rfl⟩ := List.exists_cons_of_ne_nil hts
          rfl
      | cons r ss =>
          have hrest := ih (List.cons_ne_nil r ss)
          simp only [List.cons_append] at hrest ⊢
          rw [ofSegments, hrest, ofSegments, List.append_assoc, List.cons_append]

theorem prefix_ofSegments {ss ts : List Segment} (h : ss <+: ts) :
    ofSegments ss <+: ofSegments ts := by
  obtain ⟨rest, rfl⟩ := h
  by_cases hss : ss = []
  · rw [hss]
    exact List.nil_prefix
  by_cases hrest : rest = []
  · simp [hrest]
  · rw [ofSegments_append hss hrest]
    exact List.prefix_append _ _

theorem moving_segments_ofSegments {ss : List Segment} (h : ∀ s ∈ ss, '/' ∉ s) :
    moving (segments (ofSegments ss)) = moving ss := by
  by_cases hss : ss = []
  · rw [hss]
    rfl
  · rw [segments_ofSegments hss h]

/-- The lead of a path and the rest of it. -/
inductive Led : List Char → List Char → List Char → Prop
  | root (cs : List Char) : Led ('/' :: cs) ['/'] cs
  | dot : Led ['.'] ['.'] []
  | dotSlash (cs : List Char) : Led ('.' :: '/' :: cs) ['.'] ('/' :: cs)
  | plain {cs : List Char} : cs.head? ≠ some '/' → Led cs [] cs

theorem led_lead (cs : List Char) : Led cs (lead cs).1 (lead cs).2 := by
  unfold lead
  split
  · exact .root _
  · exact .dot
  · exact .dotSlash _
  · rename_i hroot _ _
    refine .plain fun hhead ↦ ?_
    obtain ⟨ds, rfl⟩ := List.head?_eq_some_iff.mp hhead
    exact hroot ds rfl

namespace Led

variable {cs head body : List Char}

theorem moving_eq (h : Led cs head body) : moving (segments cs) = moving (segments body) := by
  cases h with
  | root cs => rw [segments_slash, moving_cons_idle rfl]
  | dot => rfl
  | dotSlash cs =>
      have hcut : segments ('.' :: '/' :: cs) = here :: segments cs :=
        segments_append_slash (s := here) (by decide) cs
      rw [hcut, segments_slash, moving_cons_idle rfl, moving_cons_idle rfl]
  | plain => rfl

/-- The lead stays in front when segments are left out at the end. -/
theorem moving_shortened (h : Led cs head body) {ss : List Segment} (hss : ss <+: segments body) :
    moving (segments (head ++ ofSegments ss)) = moving ss := by
  have hslash : ∀ s ∈ ss, '/' ∉ s := fun s hs ↦ slash_notMem_of_mem_segments (hss.subset hs)
  cases h with
  | root cs =>
      rw [List.singleton_append, segments_slash, moving_cons_idle rfl,
        moving_segments_ofSegments hslash]
  | dot =>
      rcases List.prefix_cons_iff.mp hss with rfl | ⟨ts, rfl, hts⟩
      · rfl
      · obtain rfl := List.prefix_nil.mp hts
        rfl
  | dotSlash cs =>
      rw [segments_slash] at hss
      rcases List.prefix_cons_iff.mp hss with rfl | ⟨ts, rfl, hts⟩
      · rfl
      cases ts with
      | nil => rfl
      | cons t ts =>
          have hrest : ∀ s ∈ t :: ts, '/' ∉ s := fun s hs ↦ hslash s (List.mem_cons_of_mem [] hs)
          have hcut : segments (here ++ '/' :: ofSegments (t :: ts)) =
              here :: segments (ofSegments (t :: ts)) :=
            segments_append_slash (s := here) (by decide) _
          have htext : ['.'] ++ ofSegments ([] :: t :: ts) = here ++ '/' :: ofSegments (t :: ts) :=
            rfl
          rw [htext, hcut, moving_cons_idle rfl, moving_cons_idle rfl,
            moving_segments_ofSegments hrest]
  | plain => exact moving_segments_ofSegments hslash

theorem head?_shortened (h : Led cs head body) {ss : List Segment} (hss : ss <+: segments body) :
    (head ++ ofSegments ss).head? = some '/' ↔ cs.head? = some '/' := by
  cases h with
  | root | dot | dotSlash => simp
  | plain hhead =>
      have hinit := prefix_ofSegments hss
      rw [ofSegments_segments] at hinit
      refine iff_of_false (fun h ↦ ?_) hhead
      obtain ⟨rest, rfl⟩ := hinit
      exact hhead (by simp_all)

end Led

/-! ## The parent -/

theorem moving_eq_nil {ss : List Segment} (h : trimIdle ss = []) : moving ss = [] := by
  rw [← moving_trimIdle, h]
  rfl

/-- What the textual parent of a path, if it has one, is as a path. -/
theorem moves_parent? (p : Path) : match parent? p with
    | some q => q.moves = p.moves.dropLast ∧ q.isAbsolute = p.isAbsolute
    | none => p.moves = [] := by
  have hlead := led_lead p.toList
  rw [parent?]
  generalize lead p.toList = parts at hlead
  obtain ⟨head, body⟩ := parts
  have hmoves : p.moves = moving (segments body) := hlead.moving_eq
  dsimp only at hlead ⊢
  cases htrim : trimIdle (segments body) with
  | nil =>
      have hnone : p.moves = [] := hmoves.trans (moving_eq_nil htrim)
      dsimp only
      by_cases hdot : head = ['.']
      · subst hdot
        have hrelative : p.isAbsolute = false := by
          rw [isAbsolute]
          generalize p.toList = cs at hlead
          cases hlead <;> rfl
        rw [if_pos rfl, hnone, hrelative]
        exact ⟨rfl, rfl⟩
      · rw [if_neg hdot]
        exact hnone
  | cons s ss =>
      have hinit : trimIdle (s :: ss).dropLast <+: segments body :=
        (prefix_trimIdle _).trans ((List.dropLast_prefix _).trans (htrim ▸ prefix_trimIdle _))
      dsimp only
      constructor
      · rw [moves, String.toList_ofList, hlead.moving_shortened hinit, moving_trimIdle, ← htrim,
          moving_dropLast_trimIdle, hmoves]
      · rw [Bool.eq_iff_iff, isAbsolute, isAbsolute, String.toList_ofList, beq_iff_eq, beq_iff_eq,
          hlead.head?_shortened hinit]

end Path

namespace Search

open CompileFlags.Path

theorem moves_enclosing (root : Path) : (enclosing root).moves = root.moves.dropLast ∧
    (enclosing root).isAbsolute = root.isAbsolute := by
  have hparent := moves_parent? root
  rw [enclosing]
  cases hp : parent? root with
  | none =>
      rw [hp] at hparent
      dsimp only at hparent ⊢
      rw [hparent]
      exact ⟨rfl, rfl⟩
  | some p =>
      rw [hp] at hparent
      dsimp only at hparent ⊢
      split
      · -- The empty path leads where `.` leads.
        obtain rfl : p = "" := String.isEmpty_iff.mp ‹_›
        exact hparent
      · exact hparent

theorem walk_enclosing (root : Path) (start : List Segment) : walk start (enclosing root) =
    root.moves.dropLast.foldl step (if root.isAbsolute then [] else start) := by
  obtain ⟨hmoves, habs⟩ := moves_enclosing root
  rw [walk_eq_moves, hmoves, habs]

theorem ofPath_join_up (root : Path) :
    Location.ofPath (root.join "..") = (Location.ofPath root).enter up := by
  apply Location.SameView.eq
  intro start _
  rw [Location.seenFrom_ofPath, walk_join, Location.seenFrom_enter, Location.seenFrom_ofPath]
  rfl

theorem enter_up_of_isName {s : Segment} (h : s.IsName) (l : Location) :
    (l.enter s).enter up = l := by
  rw [Location.enter_name h]
  cases l <;> rfl

/-- Two steps up lead away from everywhere but the root. -/
theorem enter_up_up_eq_iff (l : Location) : (l.enter up).enter up = l ↔ l = .rooted [] := by
  constructor
  · intro h
    cases l with
    | rooted names =>
        have htail : Location.rooted names.tail.tail = .rooted names := h
        have hlength := congrArg List.length (Location.rooted.inj htail)
        rw [List.length_tail, List.length_tail] at hlength
        rw [List.eq_nil_of_length_eq_zero (by omega : names.length = 0)]
    | relative ups names =>
        rcases names with _ | ⟨n, _ | ⟨m, names⟩⟩
        · have hups : Location.relative (ups + 1 + 1) [] = .relative ups [] := h
          exact absurd (Location.relative.inj hups).1 (by omega)
        · have hnames : Location.relative (ups + 1) [] = .relative ups [n] := h
          cases hnames
        · have hnames : Location.relative ups names = .relative ups (n :: m :: names) := h
          have hlength := congrArg List.length (Location.relative.inj hnames).2
          rw [List.length_cons, List.length_cons] at hlength
          omega
  · rintro rfl
    rfl

theorem eq_root_iff (l : Location) :
    l = .rooted [] ↔ l.isRooted = true ∧ l.seenFrom [] = [] := by
  cases l <;> simp [Location.isRooted, Location.seenFrom]

theorem isName_of_mem_moves {p : Path} {s : Segment} (h : s ∈ p.moves) (hup : s ≠ up) :
    s.IsName := by
  obtain ⟨hmem, hmoves⟩ := List.mem_filter.mp h
  exact ⟨by simpa using hmoves, hup, slash_notMem_of_mem_segments hmem⟩

theorem clean_enclosing_eq_iff (root : Path) :
    (enclosing root).clean = (root.join "..").clean ↔
      (∃ s, root.moves.getLast? = some s ∧ s ≠ up) ∨
        root.isAbsolute = true ∧ root.moves.dropLast.foldl step [] = [] := by
  obtain ⟨hmoves, habs⟩ := moves_enclosing root
  rw [clean_eq_clean_iff, ofPath_join_up, ofPath_eq_moves, ofPath_eq_moves root, hmoves, habs]
  rcases List.eq_nil_or_concat' root.moves with hnil | ⟨init, s, hlast⟩
  · rw [hnil]
    cases root.isAbsolute <;> simp [Location.enter, Segment.isIdle, up, here]
  · rw [hlast, List.dropLast_concat, List.getLast?_concat, List.foldl_append]
    by_cases hup : s = up
    · subst hup
      have hroot : (init.foldl Location.enter
          (if root.isAbsolute then .rooted [] else .relative 0 [])) = .rooted [] ↔
          root.isAbsolute = true ∧ init.foldl step [] = [] := by
        rw [eq_root_iff, Location.isRooted_foldl, Location.seenFrom_foldl]
        cases root.isAbsolute <;> simp [Location.isRooted, Location.seenFrom]
      simpa using eq_comm.trans ((enter_up_up_eq_iff _).trans hroot)
    · have hname : s.IsName := isName_of_mem_moves (hlast ▸ List.mem_append_right init
        List.mem_cons_self) hup
      simp [enter_up_of_isName hname, hup]

/-- The default candidates are the root itself, the place to which its components but the last one
lead, and the build directory seen from the root. The second one is the directory around the root
exactly if the last component is a name, or if the root is absolute and what stands in front of its
last component leads nowhere. -/
theorem defaultCandidates_enclose (root : Path) (buildDir : String) :
    ∃ around below, defaultCandidates root buildDir = [root, around, below] ∧
      (∀ start, walk start below = walk (walk start root) buildDir) ∧
      (∀ start, walk start around =
        root.moves.dropLast.foldl step (if root.isAbsolute then [] else start)) ∧
      (around.clean = (root.join "..").clean ↔
        (∃ s, root.moves.getLast? = some s ∧ s ≠ up) ∨
          root.isAbsolute = true ∧ root.moves.dropLast.foldl step [] = []) := by
  refine ⟨enclosing root, root.join buildDir, rfl, ?_, walk_enclosing root,
    clean_enclosing_eq_iff root⟩
  intro start
  exact walk_join start root buildDir

/-- A root that is a step up is not enclosed by the current directory. -/
theorem not_defaultCandidates_enclose :
    ¬ ∀ (root : Path) (buildDir : String) (around below : Path),
      defaultCandidates root buildDir = [root, around, below] →
        around.clean = (root.join "..").clean := by
  intro h
  have haround := h ".." "build" "." "../build" (by decide)
  revert haround
  decide

end Search

end CompileFlags
