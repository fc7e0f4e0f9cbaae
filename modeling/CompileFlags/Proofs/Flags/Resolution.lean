import CompileFlags.Proofs.Flags.Settled
import CompileFlags.Proofs.Path.Joining

/-!
# Where include directories are resolved

Include directories are resolved by one rule: the current directory, the directory of the command
and the include directory are joined, and the result is cleaned. An absolute path makes the join
forget what stands before it, so the cases in which less is read are no exceptions. Where the
current directory is not known, whatever would need it stays as it is.
-/

namespace CompileFlags

theorem resolveInclude_canonical {cwd : Option Path} {directory : Path}
    (h : directory.isAbsolute = true ∨ ∃ d, cwd = some d ∧ d.isAbsolute = true) (dir : String) :
    Path.isAbsolute (resolveInclude cwd directory dir) = true ∧
      Path.Canonical (resolveInclude cwd directory dir) := by
  obtain ⟨p, habs, hp⟩ := resolveInclude_eq_clean h dir
  rw [hp]
  constructor
  · rw [Path.isAbsolute_clean, habs]
  · rw [Path.canonical_iff_clean_eq, Path.clean_clean]

theorem resolveInclude_of_absolute {directory : Path} {dir : String}
    (h : Path.isAbsolute dir = true ∨ directory.isAbsolute = true) (cwd cwd' : Option Path) :
    resolveInclude cwd directory dir = resolveInclude cwd' directory dir := by
  unfold resolveInclude
  split
  · rfl
  · rw [if_pos (h.resolve_left ‹_›), if_pos (h.resolve_left ‹_›)]

/-- Without a directory to start from, what is relative stays as it is. -/
theorem resolveInclude_none {directory : Path} (h : directory.isAbsolute = false) (dir : String) :
    resolveInclude none directory dir =
      if Path.isAbsolute dir then Path.clean dir else dir := by
  simp [resolveInclude, h]

theorem resolveInclude_none_again {directory : Path} (h : directory.isAbsolute = false)
    (dir : String) : resolveInclude none directory (resolveInclude none directory dir) =
      resolveInclude none directory dir := by
  rw [resolveInclude_none h dir]
  split
  · have habs := (Path.isAbsolute_clean dir).trans ‹Path.isAbsolute dir = true›
    exact resolveInclude_clean none directory habs (Path.clean_clean dir)
  · rw [resolveInclude_none h, if_neg ‹_›]

theorem resolveInclude_eq_clean_join (cwd directory : Path) (dir : String) :
    resolveInclude (some cwd) directory dir = ((cwd.join directory).join dir).clean := by
  rw [resolveInclude]
  split
  · have hjoin : (cwd.join directory).join dir = dir := by rw [Path.join, if_pos ‹_›]
    rw [hjoin]
  · split
    · have hjoin : cwd.join directory = directory := by rw [Path.join, if_pos ‹_›]
      rw [hjoin]
    · rfl

/-- Include directories are resolved by one rule. Where the current directory is known, the result
is the clean form of the three paths joined, whichever of them is absolute; from an absolute current
directory it is absolute and canonical. It depends on the clean forms of the three paths only, so
any of them may be spelled in another way that is walked alike from every start. -/
theorem resolveInclude_uniform (cwd directory : Path) (dir : String) :
    resolveInclude (some cwd) directory dir = ((cwd.join directory).join dir).clean ∧
      (cwd.isAbsolute = true → Path.isAbsolute (resolveInclude (some cwd) directory dir) = true ∧
        Path.Canonical (resolveInclude (some cwd) directory dir)) ∧
      resolveInclude (some cwd.clean) directory.clean (Path.clean dir) =
        resolveInclude (some cwd) directory dir ∧
      ∀ (cwd' directory' : Path) (dir' : String),
        (∀ start, Path.walk start cwd' = Path.walk start cwd) →
        (∀ start, Path.walk start directory' = Path.walk start directory) →
        (∀ start, Path.walk start dir' = Path.walk start dir) →
          resolveInclude (some cwd') directory' dir' =
            resolveInclude (some cwd) directory dir := by
  refine ⟨resolveInclude_eq_clean_join cwd directory dir, ?_, ?_, ?_⟩
  · intro hcwd
    exact resolveInclude_canonical (.inr ⟨cwd, rfl, hcwd⟩) dir
  · rw [resolveInclude_eq_clean_join, resolveInclude_eq_clean_join]
    calc ((cwd.clean.join directory.clean).join (Path.clean dir)).clean
      _ = ((cwd.clean.join directory.clean).clean.join (Path.clean (Path.clean dir))).clean :=
          (Path.clean_join _ _).symm
      _ = ((cwd.join directory).clean.join (Path.clean dir)).clean := by
          rw [Path.clean_join cwd directory, Path.clean_clean dir]
      _ = ((cwd.join directory).join dir).clean := Path.clean_join _ _
  · intro cwd' directory' dir' hcwd hdirectory hdir
    rw [resolveInclude_eq_clean_join, resolveInclude_eq_clean_join]
    apply Path.clean_eq_of_walk_eq
    intro start
    simp only [Path.walk_join, hcwd, hdirectory, hdir]

/-- The current directory, for which an empty text stands, and steps back up in an include
directory. -/
theorem resolveInclude_uniform_spellings :
    Path.isAbsolute "/w" = true ∧ (∀ start, Path.walk start "/w//v/../" = Path.walk start "/w") ∧
      (∀ start, Path.walk start "." = Path.walk start "") ∧
      (∀ start, Path.walk start ".././x/" = Path.walk start "../x") ∧
      resolveInclude (some "/w//v/../") "." ".././x/" = resolveInclude (some "/w") "" "../x" ∧
      Path.Canonical (resolveInclude (some "/w") "" "../x") := by
  have hcwd (start : List Path.Segment) : Path.walk start "/w//v/../" = Path.walk start "/w" := rfl
  have hdirectory (start : List Path.Segment) : Path.walk start "." = Path.walk start "" := rfl
  have hdir (start : List Path.Segment) : Path.walk start ".././x/" = Path.walk start "../x" := rfl
  obtain ⟨-, habs, -, hrespelled⟩ := resolveInclude_uniform "/w" "" "../x"
  exact ⟨by decide, hcwd, hdirectory, hdir, hrespelled _ _ _ hcwd hdirectory hdir,
    (habs (by decide)).2⟩

end CompileFlags
