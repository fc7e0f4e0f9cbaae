import CompileFlags.Path.Location

/-!
# Clean paths

The text of a place leads to that place, so cleaning a path again changes nothing. What carries
this is that the names below a place are the segments of a path that neither stay nor leave.
-/

namespace CompileFlags.Path

/-! ## Segments that are put together are cut apart again -/

theorem segments_of_notMem {s : List Char} (h : '/' ∉ s) : segments s = [s] := by
  induction s with
  | nil => rfl
  | cons c s ih =>
      rw [List.mem_cons, not_or] at h
      rw [segments, if_neg (Ne.symm h.1), ih h.2]

theorem segments_ofSegments {ss : List Segment} (hne : ss ≠ []) (h : ∀ s ∈ ss, '/' ∉ s) :
    segments (ofSegments ss) = ss := by
  induction ss with
  | nil => exact absurd rfl hne
  | cons s ss ih =>
      have hs := h s List.mem_cons_self
      cases ss with
      | nil => exact segments_of_notMem hs
      | cons t ss =>
          have hrest := ih (by simp) (fun u hu ↦ h u (List.mem_cons_of_mem s hu))
          rw [ofSegments, segments_append_slash hs, hrest]

/-- A segment that enters a place: no step up, and none that stays. -/
structure Segment.IsName (s : Segment) : Prop where
  moves : s.isIdle = false
  down : s ≠ up
  whole : '/' ∉ s

theorem Segment.IsName.ne_nil {s : Segment} (h : s.IsName) : s ≠ [] := by
  rintro rfl
  exact Bool.noConfusion h.moves

namespace Location

def names : Location → List Segment
  | rooted names => names
  | relative _ names => names

def Named (l : Location) : Prop :=
  ∀ s ∈ l.names, Segment.IsName s

def isRooted : Location → Bool
  | rooted _ => true
  | relative _ _ => false

theorem isRooted_enter (l : Location) (s : Segment) : (l.enter s).isRooted = l.isRooted := by
  unfold Location.enter
  split
  · rfl
  · split <;> split <;> rfl

theorem isRooted_foldl (ss : List Segment) (l : Location) :
    (ss.foldl enter l).isRooted = l.isRooted := by
  induction ss generalizing l with
  | nil => rfl
  | cons s ss ih => exact (ih (l.enter s)).trans (isRooted_enter l s)

theorem isRooted_ofPath (p : Path) : (ofPath p).isRooted = p.isAbsolute := by
  rw [ofPath, isRooted_foldl]
  cases p.isAbsolute <;> rfl

theorem Named.enter {l : Location} (hl : l.Named) {s : Segment} (hs : '/' ∉ s) :
    (l.enter s).Named := by
  intro t ht
  cases hidle : s.isIdle with
  | true =>
      rw [Location.enter.eq_def, if_pos hidle] at ht
      exact hl t ht
  | false =>
      rw [Location.enter.eq_def, hidle, if_neg (by decide)] at ht
      by_cases hup : s = up
      · rw [if_pos hup] at ht
        cases l with
        | rooted names => exact hl t (List.mem_of_mem_tail ht)
        | relative ups names =>
            cases names with
            | nil => exact absurd ht List.not_mem_nil
            | cons n names => exact hl t (List.mem_cons_of_mem n ht)
      · rw [if_neg hup] at ht
        have hnew : Segment.IsName s := ⟨hidle, hup, hs⟩
        cases l <;> rcases List.mem_cons.mp ht with rfl | ht
        · exact hnew
        · exact hl t ht
        · exact hnew
        · exact hl t ht

theorem Named.foldl {ss : List Segment} (h : ∀ s ∈ ss, '/' ∉ s) {l : Location} (hl : l.Named) :
    (ss.foldl Location.enter l).Named := by
  induction ss generalizing l with
  | nil => exact hl
  | cons s ss ih =>
      have hfirst := hl.enter (h s List.mem_cons_self)
      exact ih (fun t ht ↦ h t (List.mem_cons_of_mem s ht)) hfirst

theorem named_ofPath (p : Path) : (ofPath p).Named := by
  apply Named.foldl fun s hs ↦ slash_notMem_of_mem_segments hs
  split <;> exact fun s hs ↦ absurd hs List.not_mem_nil

/-! ## The text of a place leads there -/

theorem enter_name {s : Segment} (h : s.IsName) (l : Location) :
    l.enter s = match l with
      | rooted names => rooted (s :: names)
      | relative ups names => relative ups (s :: names) := by
  have henter := enter.eq_def l s
  rw [h.moves, if_neg (by decide), if_neg h.down] at henter
  exact henter

theorem foldl_rooted {ss : List Segment} (h : ∀ s ∈ ss, Segment.IsName s)
    (names : List Segment) : ss.foldl enter (rooted names) = rooted (ss.reverse ++ names) := by
  induction ss generalizing names with
  | nil => rfl
  | cons s ss ih =>
      rw [List.foldl_cons, enter_name (h s List.mem_cons_self),
        ih fun t ht ↦ h t (List.mem_cons_of_mem s ht)]
      simp

theorem foldl_relative {ss : List Segment} (h : ∀ s ∈ ss, Segment.IsName s) (ups : Nat)
    (names : List Segment) :
    ss.foldl enter (relative ups names) = relative ups (ss.reverse ++ names) := by
  induction ss generalizing names with
  | nil => rfl
  | cons s ss ih =>
      rw [List.foldl_cons, enter_name (h s List.mem_cons_self),
        ih fun t ht ↦ h t (List.mem_cons_of_mem s ht)]
      simp

theorem foldl_ups (n ups : Nat) :
    (List.replicate n up).foldl enter (relative ups []) = relative (ups + n) [] := by
  induction n generalizing ups with
  | zero => rfl
  | succ n ih =>
      have hstep : enter (relative ups []) up = relative (ups + 1) [] := rfl
      rw [List.replicate_succ, List.foldl_cons, hstep, ih, Nat.add_right_comm, Nat.add_assoc]

theorem isAbsolute_rooted (names : List Segment) : (rooted names).text.isAbsolute = true := by
  simp [text, isAbsolute]

theorem ofPath_rooted {names : List Segment} (h : (rooted names).Named) :
    ofPath (rooted names).text = rooted names := by
  have hnames : ∀ s ∈ names.reverse, Segment.IsName s := fun s hs ↦ h s (List.mem_reverse.mp hs)
  rw [ofPath, isAbsolute_rooted, if_pos rfl, text, String.toList_ofList, segments_slash,
    List.foldl_cons]
  -- In front of the first separator is an empty segment, which stays at the root.
  have hroot : enter (rooted []) [] = rooted [] := rfl
  rw [hroot, components]
  cases hc : names.reverse with
  | nil =>
      obtain rfl := List.reverse_eq_nil_iff.mp hc
      rfl
  | cons s ss =>
      have hne : names.reverse ≠ [] := by rw [hc]; exact List.cons_ne_nil s ss
      rw [← hc, segments_ofSegments hne fun t ht ↦ (hnames t ht).whole, foldl_rooted hnames]
      simp

theorem components_relative {ups : Nat} {names : List Segment} (h : (relative ups names).Named) :
    ∀ s ∈ (relative ups names).components, s ≠ [] ∧ '/' ∉ s := by
  intro s hs
  rcases List.mem_append.mp hs with hs | hs
  · obtain rfl := List.eq_of_mem_replicate hs
    decide
  · have hname := h s (List.mem_reverse.mp hs)
    exact ⟨hname.ne_nil, hname.whole⟩

theorem ofSegments_head {ss : List Segment} (h : ∀ s ∈ ss, s ≠ [] ∧ '/' ∉ s) :
    (ofSegments ss).head? ≠ some '/' := by
  cases ss with
  | nil => exact (nomatch ·)
  | cons s ss =>
      obtain ⟨hne, hslash⟩ := h s List.mem_cons_self
      obtain ⟨c, cs, rfl⟩ := List.exists_cons_of_ne_nil hne
      rw [List.mem_cons, not_or] at hslash
      cases ss <;> simpa [ofSegments] using Ne.symm hslash.1

theorem foldl_components (ups : Nat) {names : List Segment} (h : (relative ups names).Named) :
    (relative ups names).components.foldl enter (relative 0 []) = relative ups names := by
  have hnames : ∀ s ∈ names.reverse, Segment.IsName s := fun s hs ↦ h s (List.mem_reverse.mp hs)
  rw [components, List.foldl_append, foldl_ups, foldl_relative hnames]
  simp

/-- Away from where the reader stands, the text of a relative place lists steps up and names. -/
theorem text_relative {ups : Nat} {names : List Segment}
    (h : (relative ups names).components ≠ []) : (relative ups names).text =
      String.ofList (ofSegments (relative ups names).components) := by
  cases ups with
  | zero =>
      cases names with
      | nil => exact absurd rfl h
      | cons n names => rfl
  | succ ups => rfl

theorem isAbsolute_relative {ups : Nat} {names : List Segment}
    (h : (relative ups names).Named) : (relative ups names).text.isAbsolute = false := by
  by_cases hempty : (relative ups names).components = []
  · obtain ⟨rfl, rfl⟩ : ups = 0 ∧ names = [] := by simpa [components] using hempty
    rfl
  · have hhead := ofSegments_head (components_relative h)
    rw [text_relative hempty, isAbsolute, String.toList_ofList]
    exact beq_false_of_ne hhead

theorem ofPath_relative {ups : Nat} {names : List Segment} (h : (relative ups names).Named) :
    ofPath (relative ups names).text = relative ups names := by
  by_cases hempty : (relative ups names).components = []
  · obtain ⟨rfl, rfl⟩ : ups = 0 ∧ names = [] := by simpa [components] using hempty
    rfl
  · have hcut := segments_ofSegments hempty fun s hs ↦ (components_relative h s hs).2
    rw [ofPath, isAbsolute_relative h, text_relative hempty, String.toList_ofList, hcut]
    exact foldl_components ups h

theorem isAbsolute_text {l : Location} (h : l.Named) : l.text.isAbsolute = l.isRooted := by
  cases l with
  | rooted names => exact isAbsolute_rooted names
  | relative ups names => exact isAbsolute_relative h

theorem ofPath_text {l : Location} (h : l.Named) : ofPath l.text = l := by
  cases l with
  | rooted names => exact ofPath_rooted h
  | relative ups names => exact ofPath_relative h

end Location

theorem ofPath_clean (p : Path) : Location.ofPath p.clean = Location.ofPath p :=
  Location.ofPath_text (Location.named_ofPath p)

theorem isAbsolute_clean (p : Path) : p.clean.isAbsolute = p.isAbsolute := by
  rw [clean, Location.isAbsolute_text (Location.named_ofPath p), Location.isRooted_ofPath]

theorem clean_clean (p : Path) : p.clean.clean = p.clean := by
  rw [clean, ofPath_clean, ← clean]

theorem clean_eq_clean_iff {p q : Path} :
    p.clean = q.clean ↔ Location.ofPath p = Location.ofPath q := by
  constructor
  · intro h
    rw [← ofPath_clean p, h, ofPath_clean]
  · intro h
    rw [clean, h, ← clean]

end CompileFlags.Path
