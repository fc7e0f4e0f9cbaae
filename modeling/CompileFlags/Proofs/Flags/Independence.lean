import CompileFlags.Proofs.Flags.Grammar
import CompileFlags.Proofs.Flags.Resolution

/-!
# What the current directory can change

Two normalizations of one command, in different current directories or in none, write the same
tokens in the same places. They can differ in the include directories alone, and only where these
are relative in a relative directory.
-/

namespace CompileFlags

namespace Piece

/-- The include directory that a piece gives. -/
def includeDir? : Piece → Option String
  | separate .includeDir v => some v
  | attached .includeDir v => some v
  | _ => none

variable {resolve resolve' : String → String} {p : Piece} {dir : String}

theorem flags_of_includeDir (h : p.includeDir? = some dir) (resolve : String → String) :
    p.flags resolve = [Flag.includeDir.text, resolve dir] := by
  cases p with
  | separate f v => cases f <;> cases h; rfl
  | attached f v => cases f <;> cases h; rfl
  | other t => cases h
  | dangling f => cases h

theorem flags_eq_of_includeDir (h : p.includeDir? = none) (resolve resolve' : String → String) :
    p.flags resolve = p.flags resolve' := by
  cases p with
  | separate f v => cases f <;> cases h; rfl
  | attached f v => cases f <;> cases h; rfl
  | other t => rfl
  | dangling f => rfl

theorem length_flags (resolve resolve' : String → String) (p : Piece) :
    (p.flags resolve).length = (p.flags resolve').length := by
  cases h : p.includeDir? with
  | none => rw [flags_eq_of_includeDir h resolve resolve']
  | some dir =>
      rw [flags_of_includeDir h, flags_of_includeDir h]
      rfl

theorem length_flatMap_flags (resolve resolve' : String → String) (ps : List Piece) :
    (ps.flatMap (flags resolve)).length = (ps.flatMap (flags resolve')).length := by
  rw [List.length_flatMap, List.length_flatMap]
  exact congrArg List.sum (List.map_congr_left fun p _ ↦ length_flags resolve resolve' p)

/-- Only the token behind an include option depends on how directories are resolved. -/
theorem includeDir_of_ne {i : Nat} (h : (p.flags resolve)[i]? ≠ (p.flags resolve')[i]?) :
    i = 1 ∧ ∃ dir, p.includeDir? = some dir ∧ resolve dir ≠ resolve' dir := by
  cases hdir : p.includeDir? with
  | none => exact absurd (by rw [flags_eq_of_includeDir hdir resolve resolve']) h
  | some dir =>
      rw [flags_of_includeDir hdir, flags_of_includeDir hdir] at h
      match i with
      | 0 => exact absurd rfl h
      | 1 => exact ⟨rfl, dir, rfl, fun heq ↦ h (by simp [heq])⟩
      | _ + 2 => exact absurd rfl h

end Piece

/-- The segments give `dir` as an include directory, and its place among the normalized flags is
`i`: in front of it are the flags of earlier segments and the option itself. -/
def Includes (ps : List Piece) (i : Nat) (dir : String) : Prop :=
  ∃ before p after, ps = before ++ p :: after ∧ p.includeDir? = some dir ∧
    i = (before.flatMap (Piece.flags id)).length + 1

namespace Includes

variable {ps : List Piece} {p : Piece} {i : Nat} {dir : String}

theorem cons (h : Includes ps i dir) (p : Piece) :
    Includes (p :: ps) ((p.flags id).length + i) dir := by
  obtain ⟨before, q, after, rfl, hq, rfl⟩ := h
  refine ⟨p :: before, q, after, rfl, hq, ?_⟩
  rw [List.flatMap_cons, List.length_append, Nat.add_assoc]

theorem getElem? (h : Includes ps i dir) (resolve : String → String) :
    0 < i ∧ (ps.flatMap (Piece.flags resolve))[i - 1]? = some Flag.includeDir.text ∧
      (ps.flatMap (Piece.flags resolve))[i]? = some (resolve dir) := by
  obtain ⟨before, p, after, rfl, hp, rfl⟩ := h
  rw [Piece.length_flatMap_flags id resolve, List.flatMap_append, List.flatMap_cons,
    Piece.flags_of_includeDir hp]
  simp

/-- Flags that differ are include directories that are resolved differently. -/
theorem of_ne {resolve resolve' : String → String} (h :
    (ps.flatMap (Piece.flags resolve))[i]? ≠ (ps.flatMap (Piece.flags resolve'))[i]?) :
    ∃ dir, Includes ps i dir ∧ resolve dir ≠ resolve' dir := by
  induction ps generalizing i with
  | nil => exact absurd rfl h
  | cons p ps ih =>
      have hlength := Piece.length_flags resolve resolve' p
      rw [List.flatMap_cons, List.flatMap_cons] at h
      by_cases hi : i < (p.flags resolve).length
      · rw [List.getElem?_append_left hi, List.getElem?_append_left (hlength ▸ hi)] at h
        obtain ⟨rfl, dir, hdir, hne⟩ := Piece.includeDir_of_ne h
        exact ⟨dir, ⟨[], p, ps, rfl, hdir, rfl⟩, hne⟩
      · -- Behind the first piece, places are counted from where its flags end.
        have hle := Nat.le_of_not_lt hi
        rw [List.getElem?_append_right hle, List.getElem?_append_right (hlength ▸ hle),
          ← hlength] at h
        obtain ⟨dir, hincludes, hne⟩ := ih h
        refine ⟨dir, ?_, hne⟩
        have hcons := hincludes.cons p
        rwa [Piece.length_flags id resolve, Nat.add_sub_cancel' hle] at hcons

end Includes

/-- The current directory decides include directories that are relative in a command whose directory
is relative, and nothing else: in any two of them, or in none, the flags of a command are equally
many, and they differ at most where such an include directory stands, after its option. If the
current directory is unknown, it stands there as it was given. -/
theorem flags_agree (c : Command) (cwd cwd' : Option Path) :
    (c.flags cwd).length = (c.flags cwd').length ∧
      (∀ i, (c.flags cwd)[i]? ≠ (c.flags cwd')[i]? →
        ∃ ps dir, Segments c.arguments ps ∧ Includes ps i dir ∧
          Path.isAbsolute dir = false ∧ c.directory.isAbsolute = false) ∧
      (∀ ps i dir, Segments c.arguments ps → Includes ps i dir →
        0 < i ∧ (c.flags cwd)[i - 1]? = some Flag.includeDir.text ∧
          (c.flags cwd)[i]? = some (resolveInclude cwd c.directory dir) ∧
          (cwd = none → Path.isAbsolute dir = false → c.directory.isAbsolute = false →
            (c.flags cwd)[i]? = some dir)) ∧
      (c.directory.isAbsolute = true → c.flags cwd = c.flags cwd') := by
  refine ⟨?_, ?_, ?_, ?_⟩
  · rw [c.flags_eq cwd, c.flags_eq cwd']
    exact Piece.length_flatMap_flags _ _ _
  · intro i hi
    rw [c.flags_eq cwd, c.flags_eq cwd'] at hi
    obtain ⟨dir, hincludes, hne⟩ := Includes.of_ne hi
    have hrelative := mt (fun h ↦ resolveInclude_of_absolute h cwd cwd') hne
    rw [not_or, Bool.not_eq_true, Bool.not_eq_true] at hrelative
    exact ⟨pieces c.arguments, dir, segments_pieces c.arguments, hincludes, hrelative⟩
  · intro ps i dir hps hincludes
    obtain rfl := hps.eq_pieces
    rw [c.flags_eq cwd]
    obtain ⟨hpos, hoption, hvalue⟩ := hincludes.getElem? (resolveInclude cwd c.directory)
    refine ⟨hpos, hoption, hvalue, ?_⟩
    rintro rfl hdir hdirectory
    rw [resolveInclude_none hdirectory, hdir, if_neg Bool.false_ne_true] at hvalue
    exact hvalue
  · intro hdirectory
    have hresolve : resolveInclude cwd c.directory = resolveInclude cwd' c.directory :=
      funext fun dir ↦ resolveInclude_of_absolute (.inr hdirectory) cwd cwd'
    rw [Command.flags, hresolve, ← Command.flags]

/-- A directory in the option, a define whose value looks like an option, and two directories that
follow their options, one of them relative. -/
def relativeAmongOthers : List String :=
  ["-Iinc", "-D", "-I", "-I", "/usr", "-I", "x"]

theorem flags_agree_relativeAmongOthers :
    Command.flags (some "/w") ⟨"out", "a.c", relativeAmongOthers⟩ =
      ["-I", "/w/out/inc", "-D", "-I", "-I", "/usr", "-I", "/w/out/x"] ∧
      Segments relativeAmongOthers (pieces relativeAmongOthers) ∧
      Includes (pieces relativeAmongOthers) 7 "x" ∧
      Path.isAbsolute "x" = false ∧ Path.isAbsolute "out" = false ∧
      (Command.flags none ⟨"out", "a.c", relativeAmongOthers⟩)[7]? = some "x" ∧
      (∃ ps dir, Segments relativeAmongOthers ps ∧ Includes ps 7 dir ∧
        Path.isAbsolute dir = false ∧ Path.isAbsolute "out" = false) ∧
      Path.isAbsolute "/p" = true ∧
      Command.flags (some "/w") ⟨"/p", "a.c", relativeAmongOthers⟩ =
        Command.flags none ⟨"/p", "a.c", relativeAmongOthers⟩ := by
  have hcut := segments_pieces relativeAmongOthers
  have hincludes : Includes (pieces relativeAmongOthers) 7 "x" :=
    ⟨[.attached .includeDir "inc", .separate .define "-I", .separate .includeDir "/usr"],
      .separate .includeDir "x", [], by decide, rfl, by decide⟩
  have hdir : Path.isAbsolute "x" = false := by decide
  have hdirectory : Path.isAbsolute "out" = false := by decide
  have habs : Path.isAbsolute "/p" = true := by decide
  obtain ⟨-, -, hvalue, -⟩ := flags_agree ⟨"out", "a.c", relativeAmongOthers⟩ none none
  obtain ⟨-, hdiffer, -, -⟩ := flags_agree ⟨"out", "a.c", relativeAmongOthers⟩ (some "/w") none
  obtain ⟨-, -, -, hsame⟩ := flags_agree ⟨"/p", "a.c", relativeAmongOthers⟩ (some "/w") none
  obtain ⟨-, -, -, hgiven⟩ := hvalue _ 7 "x" hcut hincludes
  exact ⟨by decide +kernel, hcut, hincludes, hdir, hdirectory, hgiven rfl hdir hdirectory,
    hdiffer 7 (by decide +kernel), habs, hsame habs⟩

end CompileFlags
