import CompileFlags.Proofs.Path.Joining
import CompileFlags.Proofs.Search.Probing
import CompileFlags.World.FileTree

/-!
# Searching a tree of files

A path is held in a tree if following it arrives somewhere. Following a name below a directory
follows the directory first and then takes at least one step from there, so only candidates that
lead to a directory can hold the file: missing ones, files and links that lead nowhere cannot.
-/

namespace CompileFlags

namespace FileTree

variable {t : FileTree} {s u : Standing} {names rest : List Name} {links : Nat} {why : ReadFault}

/-! ## What stops a path -/

/-- A tree knows no permissions. -/
theorem isDenial_of_step {name : Name} (h : t.step s name = .fault why) : why.isDenial = false := by
  unfold step at h
  repeat' split at h
  all_goals cases h
  all_goals rfl

theorem isDenial_of_advance (h : t.advance s names = .inl (.fault why)) :
    why.isDenial = false := by
  fun_induction advance t s names with
  | case1 => cases h
  | case2 s name rest s' hstep ih => exact ih h
  | case3 s name rest s' name' hstep =>
      split at h <;> cases h
      rfl
  | case4 => cases h
  | case5 s name rest why' hstep =>
      cases h
      exact isDenial_of_step hstep

theorem isDenial_of_follow (h : t.follow links s names = .fault why) : why.isDenial = false := by
  fun_induction follow t links s names with
  | case1 links s names outcome hadvance => exact isDenial_of_advance (h ▸ hadvance)
  | case2 s names target s' rest hadvance =>
      cases h
      rfl
  | case3 s names target s' rest hadvance links ih => exact ih h

theorem isDenial_of_resolve {p : Path} (h : t.resolve p = .fault why) : why.isDenial = false := by
  unfold resolve at h
  repeat' split at h
  · cases h
    rfl
  · cases h
    rfl
  · cases h
    rfl
  · exact isDenial_of_follow h

/-- What a path leads to is held, and nothing else is. -/
theorem holds_iff (t : FileTree) (input : List UInt8) (p : Path) :
    (t.world input).holds p = true ↔ ∃ s, t.resolve p = .arrived s := by
  have hstatus : (t.world input).status p = t.status p := rfl
  rw [World.holds, World.tryExists, hstatus, status]
  cases hresolve : t.resolve p with
  | arrived s => simp
  | absent s name => simp
  | fault why =>
      have hdenial := isDenial_of_resolve hresolve
      cases why <;> simp_all

theorem resolve_eq_arrived_iff {p : Path} :
    t.resolve p = .arrived s ↔ '\x00' ∉ p.toList ∧ p ≠ "" ∧ p.utf8ByteSize < maxPath ∧
      t.follow maxLinks (origin t.cwd p) (steps p) = .arrived s := by
  rw [resolve]
  by_cases hnul : '\x00' ∈ p.toList
  · simp [hnul]
  by_cases hempty : p = ""
  · simp [hempty]
  by_cases hsize : p.utf8ByteSize < maxPath
  · simp [hnul, hempty, hsize, Nat.not_le.mpr hsize]
  · simp [hnul, hempty, hsize, Nat.not_lt.mp hsize]

/-! ## Following one path and then another -/

theorem advance_append (t : FileTree) (s : Standing) (names rest : List Name) :
    t.advance s (names ++ rest) =
      match t.advance s names with
      | .inl (.arrived s) => t.advance s rest
      | .inl (.absent s name) => .inl (if rest.isEmpty then .absent s name else .fault .notFound)
      | .inl (.fault why) => .inl (.fault why)
      | .inr (target, s, left) => .inr (target, s, left ++ rest) := by
  induction names generalizing s with
  | nil => rfl
  | cons name names ih =>
      rw [List.cons_append, advance, advance]
      cases hstep : t.step s name with
      | «at» s => exact ih s
      | missing s name => cases names <;> simp
      | link target s => rfl
      | fault why => rfl

/-- Where following both paths arrives, following the first one does. -/
theorem exists_arrived_of_append (h : t.follow links s (names ++ rest) = .arrived u) :
    ∃ v, t.follow links s names = .arrived v := by
  fun_induction follow t links s names with
  | case1 links s names outcome hadvance =>
      rw [follow, advance_append, hadvance] at h
      cases outcome with
      | arrived v => exact ⟨v, rfl⟩
      | absent v name => by_cases hrest : rest = [] <;> simp [hrest] at h
      | fault why => cases h
  | case2 s names target s' left hadvance =>
      rw [follow, advance_append, hadvance] at h
      cases h
  | case3 s names target s' left hadvance links ih =>
      rw [follow, advance_append, hadvance] at h
      exact ih (by simpa using h)

/-- The second path goes on from where the first one has arrived, with the links that are left. -/
theorem follow_append (h : t.follow links s names = .arrived u) :
    ∃ left, ∀ rest, t.follow links s (names ++ rest) = t.follow left u rest := by
  fun_induction follow t links s names with
  | case1 links s names outcome hadvance =>
      subst h
      refine ⟨links, fun rest ↦ ?_⟩
      rw [follow, advance_append, hadvance, ← follow]
  | case2 => cases h
  | case3 s names target s' left hadvance links ih =>
      obtain ⟨links', hrest⟩ := ih h
      refine ⟨links', fun rest ↦ ?_⟩
      rw [follow, advance_append, hadvance, ← hrest, List.append_assoc]

theorem isDirectory_of_follow {name : Name} (h : t.follow links s (name :: rest) = .arrived u) :
    t.isDirectory s = true := by
  cases hdirectory : t.isDirectory s with
  | true => rfl
  | false =>
      rw [follow, advance, step, hdirectory] at h
      cases h

/-- Staying where one is takes a directory. -/
theorem follow_stay (h : t.isDirectory s = true) : t.follow links s [""] = .arrived s := by
  rw [follow, advance, step, h]
  rfl

/-! ## Files in a directory -/

/-- The steps below a directory, whether or not its path ends in a separator. -/
theorem steps_join {dir name : Path} (hdir : dir ≠ "") (hname : name.isAbsolute = false) :
    ∃ names, (steps dir = names ∨ steps dir = names ++ [""]) ∧
      steps (dir.join name) = names ++ steps name := by
  rcases Path.toList_join dir hname with ⟨hempty, -⟩ | ⟨cs, hcs, hjoin⟩
  · exact absurd (String.toList_injective hempty) hdir
  · have hsteps : steps (String.ofList cs) ++ steps name = steps (dir.join name) := by
      simp [steps, hjoin, Path.segments_append]
    refine ⟨steps (String.ofList cs), ?_, hsteps.symm⟩
    rcases hcs with ⟨hcs, -⟩ | hcs
    · left
      simp [steps, hcs]
    · right
      simp [steps, hcs, Path.segments_append, Path.Segment.isIdle]

theorem join_eq_append (dir : Path) {name : Path} (hname : name.isAbsolute = false) :
    ∃ more, dir.join name = dir ++ more := by
  rw [Path.join, if_neg (by simp [hname])]
  split
  · exact ⟨name, rfl⟩
  · exact ⟨"/" ++ name, String.append_assoc ..⟩

theorem steps_ne_nil (p : Path) : steps p ≠ [] := by
  simpa [steps] using Path.segments_ne_nil p.toList

/-- Only a directory holds a file. -/
theorem directory_of_holds_join {input : List UInt8} {dir name : Path} (hdir : dir ≠ "")
    (hname : name.isAbsolute = false) (h : (t.world input).holds (dir.join name) = true) :
    ∃ s, t.resolve dir = .arrived s ∧ t.isDirectory s = true := by
  obtain ⟨u, hu⟩ := (holds_iff t input _).mp h
  obtain ⟨names, hnames, hjoin⟩ := steps_join hdir hname
  obtain ⟨more, hmore⟩ := join_eq_append dir hname
  have horigin : origin t.cwd (dir.join name) = origin t.cwd dir := by
    rw [origin, Path.isAbsolute_join_of_relative dir hname, ← origin]
  obtain ⟨hnul, -, hsize, hu⟩ := resolve_eq_arrived_iff.mp hu
  rw [horigin, hjoin] at hu
  obtain ⟨v, hv⟩ := exists_arrived_of_append hu
  obtain ⟨left, hleft⟩ := follow_append hv
  obtain ⟨first, others, hfirst⟩ := List.exists_cons_of_ne_nil (steps_ne_nil name)
  rw [hleft, hfirst] at hu
  have hdirectory : t.isDirectory v = true := isDirectory_of_follow hu
  have harrived : t.follow maxLinks (origin t.cwd dir) (steps dir) = .arrived v := by
    rcases hnames with hnames | hnames
    · rw [hnames, hv]
    · rw [hnames, hleft, follow_stay hdirectory]
  rw [hmore, String.toList_append, List.mem_append, not_or] at hnul
  rw [hmore, String.utf8ByteSize_append] at hsize
  have hshort : dir.utf8ByteSize < maxPath := Nat.lt_of_le_of_lt (Nat.le_add_right ..) hsize
  exact ⟨v, resolve_eq_arrived_iff.mpr ⟨hnul.1, hdir, hshort, harrived⟩, hdirectory⟩

end FileTree

namespace Search

variable {t : FileTree} {input : List UInt8} {name : String} {candidates : List Path} {d : Path}

/-- Whatever reports a search in a tree hears, it answers with a directory. -/
theorem directory_of_settle {signals : List Signal}
    (hheard : Heard (t.world input) name candidates signals)
    (hname : Path.isAbsolute (effectiveName name) = false) (hd : d ≠ "")
    (h : settle name candidates signals = .ok d) :
    ∃ s, t.resolve d = .arrived s ∧ t.isDirectory s = true := by
  obtain ⟨-, hholds⟩ := hheard.of_settle h
  exact FileTree.directory_of_holds_join hd hname hholds

/-- However the searcher, its probes and the deadline take turns, they find a directory. -/
theorem Probing.directory_of_answer {n : Nat} {p : Probing}
    (h : Run (Step (t.world input) name) (start candidates) n p)
    (hname : Path.isAbsolute (effectiveName name) = false) (hd : d ≠ "")
    (hanswer : p.answer? name candidates = some (.ok d)) :
    ∃ s, t.resolve d = .arrived s ∧ t.isDirectory s = true := by
  obtain ⟨heard, haccounts⟩ := h.accounts
  obtain ⟨signals, hheard, hsettle⟩ := haccounts.exists_heard hanswer
  exact directory_of_settle hheard hname hd hsettle

end Search

end CompileFlags
