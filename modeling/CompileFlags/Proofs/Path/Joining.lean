import CompileFlags.Proofs.Path.Canonical

/-!
# Joined paths

Walking a joined path is walking its first part and, from there, its second one. So the place of a
joined path depends on the places of its parts and not on how these are spelled.
-/

namespace CompileFlags.Path

variable {name p q : Path}

theorem segments_append (cs ds : List Char) :
    segments (cs ++ '/' :: ds) = segments cs ++ segments ds := by
  induction cs with
  | nil => simp
  | cons c cs ih =>
      by_cases hc : c = '/'
      · subst hc
        rw [List.cons_append, segments_slash, segments_slash, ih, List.cons_append]
      · cases hs : segments cs with
        | nil => exact absurd hs (segments_ne_nil cs)
        | cons s ss =>
            rw [List.cons_append, segments, if_neg hc, segments, if_neg hc, ih, hs]
            rfl

/-- The text of a joined path, where its second part is relative. -/
theorem toList_join (dir : Path) (h : name.isAbsolute = false) :
    (dir.toList = [] ∧ (dir.join name).toList = name.toList) ∨
      ∃ cs, (dir.toList = cs ∧ cs ≠ [] ∨ dir.toList = cs ++ ['/']) ∧
        (dir.join name).toList = cs ++ '/' :: name.toList := by
  rw [join, if_neg (by simp [h])]
  cases hlast : dir.toList.getLast? with
  | none =>
      left
      have hempty : dir.toList = [] := List.getLast?_eq_none_iff.mp hlast
      exact ⟨hempty, by simp [hempty]⟩
  | some c =>
      right
      obtain ⟨cs, hcs⟩ := List.getLast?_eq_some_iff.mp hlast
      by_cases hc : c = '/'
      · subst hc
        exact ⟨cs, .inr hcs, by simp [hcs]⟩
      · exact ⟨dir.toList, .inl ⟨rfl, by simp [hcs]⟩, by simp [hc]⟩

/-! ## Walking -/

theorem walk_of_isAbsolute (h : p.isAbsolute = true) (start start' : List Segment) :
    walk start p = walk start' p := by
  rw [walk, walk, if_pos h, if_pos h]

theorem foldl_join (dir : Path) (h : name.isAbsolute = false) (start : List Segment) :
    (segments (dir.join name).toList).foldl step start =
      (segments name.toList).foldl step ((segments dir.toList).foldl step start) := by
  rcases toList_join dir h with ⟨hdir, hjoin⟩ | ⟨cs, ⟨hdir, -⟩ | hdir, hjoin⟩
  · rw [hjoin, hdir]
    rfl
  · rw [hjoin, hdir, segments_append, List.foldl_append]
  · -- What stands after a trailing separator is an empty segment, which stays where it is.
    rw [hjoin, hdir, segments_append, segments_append, List.foldl_append, List.foldl_append]
    rfl

theorem isAbsolute_join_of_relative (dir : Path) (h : name.isAbsolute = false) :
    (dir.join name).isAbsolute = dir.isAbsolute := by
  rcases toList_join dir h with ⟨hdir, hjoin⟩ | ⟨cs, ⟨hdir, hne⟩ | hdir, hjoin⟩
  · rw [isAbsolute] at h
    rw [isAbsolute, isAbsolute, hjoin, hdir, h]
    rfl
  · obtain ⟨c, cs, rfl⟩ := List.exists_cons_of_ne_nil hne
    rw [isAbsolute, isAbsolute, hjoin, hdir]
    rfl
  · rw [isAbsolute, isAbsolute, hjoin, hdir, List.head?_append, List.head?_append]
    rfl

/-- A joined path is walked part by part. -/
theorem walk_join (start : List Segment) (dir name : Path) :
    walk start (dir.join name) = walk (walk start dir) name := by
  cases h : name.isAbsolute with
  | true =>
      have hjoin : dir.join name = name := by rw [join, if_pos h]
      rw [hjoin]
      exact walk_of_isAbsolute h start (walk start dir)
  | false =>
      rw [walk, foldl_join dir h, isAbsolute_join_of_relative dir h, walk.eq_def _ name, walk, h,
        if_neg Bool.false_ne_true]

theorem clean_eq_of_walk_eq (h : ∀ start, walk start p = walk start q) : p.clean = q.clean := by
  have hplace : (Location.ofPath p).SameView (Location.ofPath q) := by
    intro start _
    rw [Location.seenFrom_ofPath, Location.seenFrom_ofPath, h]
  rw [clean, hplace.eq, ← clean]

/-- Cleaning the parts of a joined path does not move it. -/
theorem clean_join (dir name : Path) :
    (dir.clean.join name.clean).clean = (dir.join name).clean := by
  apply clean_eq_of_walk_eq
  intro start
  rw [walk_join, walk_clean, walk_clean, walk_join]

end CompileFlags.Path
