import CompileFlags.Flags
import CompileFlags.Proofs.Path.Cleaning

/-!
# Normalized flags are settled

What normalization keeps of a piece is a piece again, and cutting the normalized list finds just
these. An include directory that has been resolved is absolute and clean, so resolving it again,
from wherever, leaves it alone.
-/

namespace CompileFlags

namespace Path

theorem isAbsolute_join {dir name : Path} (h : dir.isAbsolute = true) :
    (dir.join name).isAbsolute = true := by
  obtain ⟨cs, hcs⟩ : ∃ cs, dir.toList = '/' :: cs := by
    simpa [isAbsolute, List.head?_eq_some_iff] using h
  unfold join
  split
  · exact ‹name.isAbsolute = true›
  · split <;> simp [isAbsolute, hcs]

end Path

/-! ## Resolved directories -/

theorem resolveInclude_clean (cwd : Option Path) (directory : Path) {p : Path}
    (habs : p.isAbsolute = true) (hclean : p.clean = p) :
    resolveInclude cwd directory p = p := by
  rw [resolveInclude.eq_def, if_pos habs, hclean]

/-- With an absolute directory to start from, what is resolved is clean. -/
theorem resolveInclude_eq_clean {cwd : Option Path} {directory : Path}
    (h : directory.isAbsolute = true ∨ ∃ d, cwd = some d ∧ d.isAbsolute = true) (dir : String) :
    ∃ p : Path, p.isAbsolute = true ∧ resolveInclude cwd directory dir = p.clean := by
  unfold resolveInclude
  split
  · exact ⟨dir, ‹Path.isAbsolute dir = true›, rfl⟩
  · split
    · exact ⟨directory.join dir, Path.isAbsolute_join ‹directory.isAbsolute = true›, rfl⟩
    · rcases h with h | ⟨d, rfl, hd⟩
      · exact absurd h ‹¬directory.isAbsolute = true›
      · exact ⟨(d.join directory).join dir,
          Path.isAbsolute_join (Path.isAbsolute_join hd), rfl⟩

theorem resolveInclude_again {cwd : Option Path} {directory : Path}
    (h : directory.isAbsolute = true ∨ ∃ d, cwd = some d ∧ d.isAbsolute = true)
    (cwd' : Option Path) (directory' : Path) (dir : String) :
    resolveInclude cwd' directory' (resolveInclude cwd directory dir) =
      resolveInclude cwd directory dir := by
  obtain ⟨p, habs, hp⟩ := resolveInclude_eq_clean h dir
  have hclean : p.clean.isAbsolute = true := (Path.isAbsolute_clean p).trans habs
  rw [hp]
  exact resolveInclude_clean cwd' directory' hclean (Path.clean_clean p)

/-! ## Cutting whole pieces -/

theorem Flag.ofToken_text_append (f : Flag) (v : String) :
    Flag.ofToken (f.text ++ v) = some (f, v) := by
  cases f <;> simp [Flag.ofToken, Flag.text, Flag.letter]

theorem Flag.ofToken_text (f : Flag) : Flag.ofToken f.text = some (f, "") := by
  cases f <;> rfl

namespace Piece

/-- A piece that is cut off from whatever follows it. -/
def Whole : Piece → Prop
  | separate _ _ => True
  | attached _ v => v ≠ ""
  | other t => Flag.ofToken t = none
  | dangling _ => False

theorem pieces_tokens_append {p : Piece} (h : p.Whole) (rest : List String) :
    pieces (p.tokens ++ rest) = p :: pieces rest := by
  cases p with
  | separate f v => simp [tokens, pieces, Flag.ofToken_text]
  | attached f v =>
      have hv : v.isEmpty = false := by simpa [Whole] using h
      simp [tokens, pieces, Flag.ofToken_text_append, hv]
  | other t =>
      have ht : Flag.ofToken t = none := h
      simp [tokens, pieces, ht]
  | dangling f => exact h.elim

theorem pieces_flatMap_tokens {ps : List Piece} (h : ∀ p ∈ ps, p.Whole) (rest : List String) :
    pieces (ps.flatMap tokens ++ rest) = ps ++ pieces rest := by
  induction ps with
  | nil => rfl
  | cons p ps ih =>
      have hrest := ih fun q hq ↦ h q (List.mem_cons_of_mem p hq)
      rw [List.flatMap_cons, List.append_assoc, pieces_tokens_append (h p List.mem_cons_self),
        hrest, List.cons_append]

theorem attached_ne_empty {args : List String} {f : Flag} {v : String}
    (h : .attached f v ∈ pieces args) : v ≠ "" := by
  fun_induction pieces args with
  | case1 => exact absurd h List.not_mem_nil
  | case2 token rest hf ih => exact ih (by simpa using h)
  | case3 token g u hg hu => exact absurd h (by simp)
  | case4 token g u hg hu value rest ih => exact ih (by simpa using h)
  | case5 token rest g u hg hu ih =>
      rcases List.mem_cons.mp h with heq | h
      · cases heq
        simpa using hu
      · exact ih h

/-! ## What is kept -/

/-- What normalization makes of a piece. -/
def kept (resolve : String → String) : Piece → Option Piece
  | separate .define v => some (.separate .define v)
  | separate .includeDir v => some (.separate .includeDir (resolve v))
  | attached .define v => some (.attached .define v)
  | attached .includeDir v => some (.separate .includeDir (resolve v))
  | other _ => none
  | dangling _ => none

variable {resolve again : String → String}

theorem tokens_kept (resolve : String → String) (ps : List Piece) :
    (ps.filterMap (kept resolve)).flatMap tokens = ps.flatMap (flags resolve) := by
  induction ps with
  | nil => rfl
  | cons p ps ih =>
      rw [List.flatMap_cons, ← ih]
      cases p with
      | separate f v => cases f <;> rfl
      | attached f v => cases f <;> rfl
      | other t => rfl
      | dangling f => rfl

theorem whole_of_kept {args : List String} {p q : Piece} (hp : p ∈ pieces args)
    (hq : p.kept resolve = some q) : q.Whole := by
  cases p with
  | separate f v => cases f <;> cases hq <;> trivial
  | attached f v =>
      cases f with
      | define =>
          cases hq
          exact attached_ne_empty hp
      | includeDir =>
          cases hq
          trivial
  | other t => cases hq
  | dangling f => cases hq

theorem flags_of_kept (h : ∀ v, again (resolve v) = resolve v) {p q : Piece}
    (hq : p.kept resolve = some q) : q.flags again = q.tokens := by
  cases p with
  | separate f v =>
      cases f with
      | define => cases hq; rfl
      | includeDir => cases hq; simp [flags, tokens, h]
  | attached f v =>
      cases f with
      | define => cases hq; rfl
      | includeDir => cases hq; simp [flags, tokens, h]
  | other t => cases hq
  | dangling f => cases hq

theorem flags_pieces_flags (h : ∀ v, again (resolve v) = resolve v) (args : List String) :
    (pieces ((pieces args).flatMap (flags resolve))).flatMap (flags again) =
      (pieces args).flatMap (flags resolve) := by
  -- The flags are the tokens of the pieces that are kept, and cutting these gives the same pieces.
  have hwhole : ∀ q ∈ (pieces args).filterMap (kept resolve), q.Whole := by
    intro q hq
    obtain ⟨p, hp, hkept⟩ := List.mem_filterMap.mp hq
    exact whole_of_kept hp hkept
  have hcut := pieces_flatMap_tokens hwhole []
  rw [List.append_nil, pieces, List.append_nil] at hcut
  have hflags : ∀ q ∈ (pieces args).filterMap (kept resolve), q.flags again = q.tokens := by
    intro q hq
    obtain ⟨p, -, hkept⟩ := List.mem_filterMap.mp hq
    exact flags_of_kept h hkept
  rw [← tokens_kept resolve (pieces args), hcut, List.flatMap_def, List.map_congr_left hflags,
    ← List.flatMap_def]

end Piece

/-- Flags that were normalized from an absolute directory are normalized from anywhere. -/
theorem Command.flags_flags {cwd : Option Path} {c : Command}
    (h : c.directory.isAbsolute = true ∨ ∃ d, cwd = some d ∧ d.isAbsolute = true)
    (cwd' : Option Path) (directory : Path) (file : String) :
    Command.flags cwd' ⟨directory, file, c.flags cwd⟩ = c.flags cwd := by
  rw [Command.flags_eq, c.flags_eq cwd]
  exact Piece.flags_pieces_flags (resolveInclude_again h cwd' directory) c.arguments

end CompileFlags
