import CompileFlags.Proofs.Flags.Grammar
import CompileFlags.Proofs.Flags.Resolution

/-!
# Normalized flags stand alone

From a known directory, normalization writes defines and absolute canonical include directories and
nothing else. A list of this form means the same everywhere: it is cut again where it was put
together, whatever the values look like, and its include directories do not ask for any directory.
-/

namespace CompileFlags

/-- Defines, and include directories that are absolute and canonical. -/
inductive Standalone : List String → Prop
  | nil : Standalone []
  | separate (value : String) {rest : List String} :
      Standalone rest → Standalone (Flag.define.text :: value :: rest)
  | attached {value : String} {rest : List String} :
      value ≠ "" → Standalone rest → Standalone ((Flag.define.text ++ value) :: rest)
  | includeDir {p : Path} {rest : List String} :
      p.isAbsolute = true → Path.Canonical p → Standalone rest →
      Standalone (Flag.includeDir.text :: p :: rest)

namespace Piece

theorem length_flags_le (resolve : String → String) (p : Piece) :
    (p.flags resolve).length ≤ 2 * p.tokens.length := by
  cases p with
  | separate f v => cases f <;> simp [flags, tokens]
  | attached f v => cases f <;> simp [flags, tokens]
  | other t => simp [flags]
  | dangling f => simp [flags]

theorem length_flatMap_flags_le (resolve : String → String) (ps : List Piece) :
    (ps.flatMap (flags resolve)).length ≤ 2 * (ps.flatMap tokens).length := by
  induction ps with
  | nil => simp
  | cons p ps ih =>
      have hp := length_flags_le resolve p
      simp only [List.flatMap_cons, List.length_append]
      omega

theorem flags_tokens_append {p : Piece} (h : p.Whole) (resolve : String → String)
    (rest : List String) : (pieces (p.tokens ++ rest)).flatMap (flags resolve) =
      p.flags resolve ++ (pieces rest).flatMap (flags resolve) := by
  rw [pieces_tokens_append h, List.flatMap_cons]

end Piece

/-- What one segment after the other contributes stands alone, once every directory does. -/
theorem Segments.standalone {args : List String} {ps : List Piece} {resolve : String → String}
    (h : Segments args ps)
    (hresolve : ∀ dir, Path.isAbsolute (resolve dir) = true ∧ Path.Canonical (resolve dir)) :
    Standalone (ps.flatMap (Piece.flags resolve)) := by
  induction h with
  | nil => exact .nil
  | separate f value _ ih =>
      cases f with
      | define => exact .separate value ih
      | includeDir => exact .includeDir (hresolve value).1 (hresolve value).2 ih
  | @attached f value _ _ hvalue _ ih =>
      cases f with
      | define => exact .attached hvalue ih
      | includeDir => exact .includeDir (hresolve value).1 (hresolve value).2 ih
  | other _ _ ih => exact ih
  | dangling f => exact .nil

namespace Standalone

variable {flags : List String}

/-- A list that stands alone is normalized to itself. -/
theorem flags_eq (h : Standalone flags) (cwd : Option Path) (directory : Path) (file : String) :
    Command.flags cwd ⟨directory, file, flags⟩ = flags := by
  have hcut {p : Piece} (hp : p.Whole) (rest : List String) :=
    Piece.flags_tokens_append hp (resolveInclude cwd directory) rest
  rw [Command.flags_eq]
  dsimp only
  induction h with
  | nil => rfl
  | @separate value rest _ ih =>
      have hwhole : Piece.Whole (.separate .define value) := trivial
      have hflags := hcut hwhole rest
      exact hflags.trans (congrArg (_ :: value :: ·) ih)
  | @attached value rest hvalue _ ih =>
      have hwhole : Piece.Whole (.attached .define value) := hvalue
      have hflags := hcut hwhole rest
      exact hflags.trans (congrArg (_ :: ·) ih)
  | @includeDir p rest habs hcanonical _ ih =>
      have hp : resolveInclude cwd directory p = p :=
        resolveInclude_clean cwd directory habs ((Path.canonical_iff_clean_eq p).mp hcanonical)
      have hwhole : Piece.Whole (.separate .includeDir p) := trivial
      have hflags := hcut hwhole rest
      rw [Piece.flags, hp] at hflags
      exact hflags.trans (congrArg (_ :: p :: ·) ih)

end Standalone

/-- Normalized flags are at most two for every argument. From an absolute directory they stand
alone, so normalizing them again, from anywhere, changes nothing. If the directory of the command is
relative and the current one unknown, normalizing them again in the same place changes nothing. -/
theorem flags_stand_alone (cwd : Option Path) (c : Command) :
    (c.flags cwd).length ≤ 2 * c.arguments.length ∧
      (c.directory.isAbsolute = true ∨ (∃ d, cwd = some d ∧ d.isAbsolute = true) →
        Standalone (c.flags cwd) ∧ ∀ cwd' directory file,
          Command.flags cwd' ⟨directory, file, c.flags cwd⟩ = c.flags cwd) ∧
      (c.directory.isAbsolute = false → cwd = none → ∀ file,
        Command.flags cwd ⟨c.directory, file, c.flags cwd⟩ = c.flags cwd) := by
  refine ⟨?_, ?_, ?_⟩
  · have hlength := Piece.length_flatMap_flags_le (resolveInclude cwd c.directory)
      (pieces c.arguments)
    rwa [flatMap_tokens_pieces, ← c.flags_eq cwd] at hlength
  · intro h
    have halone : Standalone (c.flags cwd) := by
      rw [c.flags_eq cwd]
      exact (segments_pieces c.arguments).standalone (resolveInclude_canonical h)
    exact ⟨halone, halone.flags_eq⟩
  · rintro h rfl file
    rw [Command.flags_eq, c.flags_eq none]
    exact Piece.flags_pieces_flags (resolveInclude_none_again h) c.arguments

/-- Values that look like options, and options without a value. -/
def optionsForValues : Command :=
  ⟨"out", "a.c", ["-D", "-I", "-I", "-Dx", "-Ix/../y", "-I", "/z//", "-D-I", "-O2", "-D"]⟩

theorem flags_stand_alone_optionsForValues :
    optionsForValues.directory.isAbsolute = false ∧ Path.isAbsolute "/w" = true ∧
      optionsForValues.flags (some "/w") =
      ["-D", "-I", "-I", "/w/out/-Dx", "-I", "/w/out/y", "-I", "/z", "-D-I"] ∧
      Command.flags none ⟨"", "b.c", optionsForValues.flags (some "/w")⟩ =
        optionsForValues.flags (some "/w") ∧
      optionsForValues.flags none = ["-D", "-I", "-I", "-Dx", "-I", "x/../y", "-I", "/z", "-D-I"] ∧
      Command.flags none ⟨"out", "b.c", optionsForValues.flags none⟩ =
        optionsForValues.flags none := by
  have hrelative : optionsForValues.directory.isAbsolute = false := by decide
  have habs : Path.isAbsolute "/w" = true := by decide
  obtain ⟨-, hknown, -⟩ := flags_stand_alone (some "/w") optionsForValues
  obtain ⟨-, -, hunknown⟩ := flags_stand_alone none optionsForValues
  obtain ⟨-, hagain⟩ := hknown (.inr ⟨"/w", rfl, habs⟩)
  exact ⟨hrelative, habs, by decide +kernel, hagain none "" "b.c", by decide +kernel,
    hunknown hrelative rfl "b.c"⟩

end CompileFlags
