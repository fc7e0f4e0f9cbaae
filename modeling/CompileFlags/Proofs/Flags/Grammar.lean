import CompileFlags.Proofs.Flags.Settled
import Mathlib.Logic.ExistsUnique

/-!
# The grammar of argument lists

An argument list is a sequence of segments: an option and the token after it, an option with its
value attached, a token that starts with no option, and at the very end an option left without a
value. Every list is such a sequence in one way only, and normalization goes from segment to
segment. So lists are normalized part by part, unless the first part ends in an option that takes
the first token of the second one.
-/

namespace CompileFlags

/-- The segments of an argument list. -/
inductive Segments : List String → List Piece → Prop
  | nil : Segments [] []
  | separate (f : Flag) (value : String) {rest : List String} {ps : List Piece} :
      Segments rest ps → Segments (f.text :: value :: rest) (.separate f value :: ps)
  | attached (f : Flag) {value : String} {rest : List String} {ps : List Piece} :
      value ≠ "" → Segments rest ps → Segments ((f.text ++ value) :: rest) (.attached f value :: ps)
  | other {token : String} {rest : List String} {ps : List Piece} :
      (∀ f : Flag, ¬ f.text.toList <+: token.toList) → Segments rest ps →
      Segments (token :: rest) (.other token :: ps)
  | dangling (f : Flag) : Segments [f.text] [.dangling f]

theorem Flag.ofToken_eq_none_iff {token : String} :
    Flag.ofToken token = none ↔ ∀ f : Flag, ¬ f.text.toList <+: token.toList := by
  constructor
  · rintro h f ⟨v, hv⟩
    have htoken : f.text ++ String.ofList v = token := String.toList_injective (by simpa using hv)
    rw [← htoken, Flag.ofToken_text_append] at h
    cases h
  · intro h
    cases htoken : Flag.ofToken token with
    | none => rfl
    | some p =>
        have hsplit := congrArg String.toList (Flag.text_append_of_ofToken htoken)
        rw [String.toList_append] at hsplit
        exact absurd ⟨_, hsplit⟩ (h p.1)

/-- The pieces into which a list is cut are segments of it. -/
theorem segments_pieces (args : List String) : Segments args (pieces args) := by
  fun_induction pieces args with
  | case1 => exact .nil
  | case2 token rest hf ih => exact .other (Flag.ofToken_eq_none_iff.mp hf) ih
  | case3 token f v hf hv =>
      have htoken := Flag.text_append_of_ofToken hf
      obtain rfl : v = "" := by simpa using hv
      rw [String.append_empty] at htoken
      exact htoken ▸ .dangling f
  | case4 token f v hf hv value rest ih =>
      have htoken := Flag.text_append_of_ofToken hf
      obtain rfl : v = "" := by simpa using hv
      rw [String.append_empty] at htoken
      exact htoken ▸ .separate f value ih
  | case5 token rest f v hf hv ih =>
      have hne : v ≠ "" := by simpa using hv
      exact Flag.text_append_of_ofToken hf ▸ .attached f hne ih

namespace Segments

variable {args xs ys : List String} {ps : List Piece}

/-- Whole pieces, and perhaps an option that is left over. -/
theorem ends (h : Segments args ps) :
    ∃ (init : List Piece) (left : Option Flag), (∀ p ∈ init, p.Whole) ∧
      ps = init ++ left.toList.map .dangling ∧
        args = init.flatMap Piece.tokens ++ left.toList.map Flag.text := by
  induction h with
  | nil => exact ⟨[], none, by simp, rfl, rfl⟩
  | separate f value _ ih =>
      obtain ⟨init, left, hinit, rfl, rfl⟩ := ih
      exact ⟨.separate f value :: init, left, List.forall_mem_cons.mpr ⟨trivial, hinit⟩, rfl, rfl⟩
  | @attached f value _ _ hvalue _ ih =>
      obtain ⟨init, left, hinit, rfl, rfl⟩ := ih
      exact ⟨.attached f value :: init, left, List.forall_mem_cons.mpr ⟨hvalue, hinit⟩, rfl, rfl⟩
  | @other token _ _ htoken _ ih =>
      obtain ⟨init, left, hinit, rfl, rfl⟩ := ih
      have hwhole : Piece.Whole (.other token) := Flag.ofToken_eq_none_iff.mpr htoken
      exact ⟨.other token :: init, left, List.forall_mem_cons.mpr ⟨hwhole, hinit⟩, rfl, rfl⟩
  | dangling f => exact ⟨[], some f, by simp, rfl, rfl⟩

theorem eq_pieces (h : Segments args ps) : ps = pieces args := by
  obtain ⟨init, left, hinit, rfl, rfl⟩ := h.ends
  rw [Piece.pieces_flatMap_tokens hinit]
  cases left <;> simp [pieces, Flag.ofToken_text]

/-- Two lists are cut on their own when the first one does not end in a dangling option. -/
theorem pieces_append (h : Segments xs ps) (hlast : ∀ f, ps.getLast? ≠ some (.dangling f))
    (ys : List String) : pieces (xs ++ ys) = ps ++ pieces ys := by
  obtain ⟨init, left, hinit, rfl, rfl⟩ := h.ends
  cases left with
  | none => simpa using Piece.pieces_flatMap_tokens hinit ys
  | some f => exact absurd (List.getLast?_concat ..) (hlast f)

/-- A dangling option takes the first token that comes after it. -/
theorem pieces_append_cons {f : Flag} (h : Segments xs ps)
    (hlast : ps.getLast? = some (.dangling f)) (value : String) (ys : List String) :
    pieces (xs ++ value :: ys) = ps.dropLast ++ .separate f value :: pieces ys := by
  obtain ⟨init, left, hinit, rfl, rfl⟩ := h.ends
  cases left with
  | none =>
      have hmem : .dangling f ∈ init := List.mem_of_getLast? (by simpa using hlast)
      exact (hinit _ hmem).elim
  | some g =>
      obtain rfl : g = f := by simpa using hlast
      rw [List.append_assoc, Piece.pieces_flatMap_tokens hinit]
      simp [pieces, Flag.ofToken_text]

theorem readFlags_eq_flatMap (resolve : String → String) (h : Segments args ps) :
    readFlags resolve args = ps.flatMap (Piece.flags resolve) := by
  rw [readFlags_eq, h.eq_pieces]

theorem readFlags_append (resolve : String → String) (h : Segments xs ps)
    (hlast : ∀ f, ps.getLast? ≠ some (.dangling f)) (ys : List String) :
    readFlags resolve (xs ++ ys) = readFlags resolve xs ++ readFlags resolve ys := by
  rw [readFlags_eq, h.pieces_append hlast, List.flatMap_append, ← h.readFlags_eq_flatMap,
    ← readFlags_eq]

theorem readFlags_append_cons (resolve : String → String) {f : Flag} (h : Segments xs ps)
    (hlast : ps.getLast? = some (.dangling f)) (value : String) (ys : List String) :
    readFlags resolve (xs ++ value :: ys) =
      readFlags resolve xs ++ Piece.flags resolve (.separate f value) ++ readFlags resolve ys := by
  -- The dangling option contributes nothing where it stands.
  have hdrop : ps.flatMap (Piece.flags resolve) = ps.dropLast.flatMap (Piece.flags resolve) := by
    obtain ⟨init, rfl⟩ := List.getLast?_eq_some_iff.mp hlast
    simp [Piece.flags]
  rw [readFlags_eq, h.pieces_append_cons hlast, List.flatMap_append, List.flatMap_cons, ← hdrop,
    ← h.readFlags_eq_flatMap, ← readFlags_eq, List.append_assoc]

end Segments

/-- Every argument list has exactly one sequence of segments, and its normalized flags are what
these contribute one after the other: a define as it stands, an include directory as `-I` and the
resolved path, and nothing for other tokens and for an option without a value. So the flags of two
lists in a row are the flags of each, unless the first one ends in an option without a value, which
then takes the first token of the second one for its value, whatever that token is. -/
theorem flags_segments (cwd : Option Path) (directory : Path) (file : String) :
    let flags args := Command.flags cwd ⟨directory, file, args⟩
    let resolved := resolveInclude cwd directory
    (∀ args, ∃! ps, Segments args ps) ∧
      (∃ contribution : Piece → List String,
        (∀ v, contribution (.separate .define v) = ["-D", v]) ∧
        (∀ v, contribution (.separate .includeDir v) = ["-I", resolved v]) ∧
        (∀ x, contribution (.attached .define x) = ["-D" ++ x]) ∧
        (∀ x, contribution (.attached .includeDir x) = ["-I", resolved x]) ∧
        (∀ token, contribution (.other token) = []) ∧
        (∀ f, contribution (.dangling f) = []) ∧
        ∀ args ps, Segments args ps → flags args = ps.flatMap contribution) ∧
      ∀ xs ps, Segments xs ps →
        ((∀ f, ps.getLast? ≠ some (.dangling f)) →
          ∀ ys, flags (xs ++ ys) = flags xs ++ flags ys) ∧
        (ps.getLast? = some (.dangling .define) →
          ∀ value ys, flags (xs ++ value :: ys) = flags xs ++ ["-D", value] ++ flags ys) ∧
        (ps.getLast? = some (.dangling .includeDir) →
          ∀ value ys, flags (xs ++ value :: ys) =
            flags xs ++ ["-I", resolved value] ++ flags ys) := by
  intro flags resolved
  refine ⟨?_, ⟨Piece.flags resolved, ?_⟩, ?_⟩
  · intro args
    exact ⟨pieces args, segments_pieces args, fun ps hps ↦ hps.eq_pieces⟩
  · refine ⟨fun _ ↦ rfl, fun _ ↦ rfl, fun _ ↦ rfl, fun _ ↦ rfl, fun _ ↦ rfl, fun _ ↦ rfl, ?_⟩
    exact fun args ps h ↦ h.readFlags_eq_flatMap resolved
  · intro xs ps h
    exact ⟨h.readFlags_append resolved, h.readFlags_append_cons resolved,
      h.readFlags_append_cons resolved⟩

/-- Attached values, an option for a value, and an option that ends one list and takes an option
that begins the next one. -/
theorem flags_segments_dangling :
    let xs := ["cc", "-DX=1", "-D", "-I", "-Iinc", "-I"]
    let ps : List Piece := [.other "cc", .attached .define "X=1", .separate .define "-I",
      .attached .includeDir "inc", .dangling .includeDir]
    Segments xs ps ∧
      Command.flags none ⟨"/p", "a.c", xs⟩ = ["-DX=1", "-D", "-I", "-I", "/p/inc"] ∧
      Command.flags none ⟨"/p", "a.c", xs ++ "-DX" :: ["-D", "-D"]⟩ =
        ["-DX=1", "-D", "-I", "-I", "/p/inc", "-I", "/p/-DX", "-D", "-D"] := by
  intro xs ps
  have hsegments : Segments xs ps := by
    have hcut : pieces xs = ps := by decide
    exact hcut ▸ segments_pieces xs
  obtain ⟨-, ⟨contribution, hdefine, -, hdefined, hincluded, hother, hdangling, hflags⟩, hparts⟩ :=
    flags_segments none "/p" "a.c"
  have hxs : Command.flags none ⟨"/p", "a.c", xs⟩ = ["-DX=1", "-D", "-I", "-I", "/p/inc"] := by
    refine (hflags xs ps hsegments).trans ?_
    simp only [ps, List.flatMap_cons, List.flatMap_nil, hdefine, hdefined, hincluded, hother,
      hdangling]
    decide
  obtain ⟨-, -, htaken⟩ := hparts xs ps hsegments
  refine ⟨hsegments, hxs, (htaken rfl "-DX" ["-D", "-D"]).trans ?_⟩
  dsimp only
  rw [hxs]
  decide

end CompileFlags
