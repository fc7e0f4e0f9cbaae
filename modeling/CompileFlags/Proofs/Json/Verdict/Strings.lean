import CompileFlags.Proofs.Json.Strings
import CompileFlags.Proofs.Json.Verdict.Lists

/-!
# Verdicts on strings

Inside an escape the reader has seen a part of a chunk. With that part as an invariant, a step
completes the chunk, or makes the part longer, or takes a digit that is none. The last is noticed
only at the fourth digit, but nothing mends it.
-/

namespace CompileFlags.Json.Text

open Form

/-! ## Digits -/

theorem digit_of_hexValue {b : UInt8} {v : Nat} (h : hexValue b = some v) : HexDigit b v := by
  have hall : ∀ n : Fin 256, ∀ v ∈ hexValue (UInt8.ofNat n), HexDigit (UInt8.ofNat n) v := by
    decide +kernel
  have hb : UInt8.ofNat b.toNat = b := UInt8.ofNat_toNat
  have hdigit := hall ⟨b.toNat, b.toNat_lt⟩ v
  rw [hb] at hdigit
  exact hdigit h

theorem step_hexDigit {b : UInt8} {v : Nat} (h : hexValue b = some v) :
    Spot.text.step b = .text := by
  have hquote : b ≠ byte '"' := by
    rintro rfl
    revert h
    decide +revert
  have hslash : b ≠ byte '\\' := by
    rintro rfl
    revert h
    decide +revert
  simp [Spot.step, hquote, hslash]

/-- A byte among the digits that is none. -/
def Spoiled (seen : List UInt8) : Prop :=
  ∃ b ∈ seen, hexValue b = none

theorem unit_spoiled {seen : List UInt8} (h : Spoiled seen) : unit seen = none := by
  obtain ⟨b, hb, hnone⟩ := h
  induction seen with
  | nil => exact absurd hb List.not_mem_nil
  | cons c seen ih =>
      rcases List.mem_cons.mp hb with rfl | hb
      · cases hunit : unit seen <;> simp [unit, hunit, hnone]
      · simp [unit, ih hb]

theorem scan_spoiled {mode : Mode} {first : Option Nat} {seen : List UInt8} (h : Spoiled seen)
    (text : List UInt8) (s : Bytes) :
    ∃ e, scan mode (.digits first seen) text s = .error e := by
  induction s generalizing seen with
  | nil => exact ⟨_, rfl⟩
  | cons b s ih =>
      have hmore : Spoiled (b :: seen) := by
        obtain ⟨c, hc, hnone⟩ := h
        exact ⟨c, List.mem_cons_of_mem b hc, hnone⟩
      by_cases hfew : seen.length < 3
      · simpa [scan, step, hfew] using ih hmore
      · simp [scan, step, hfew, unit_spoiled hmore]

theorem unit_of_digits {seen : List UInt8} (h : ∀ b ∈ seen, (hexValue b).isSome)
    (hlength : seen.length = 4) : ∃ u, unit seen = some u ∧ u < 0x10000 ∧ Unit4 seen.reverse u := by
  obtain ⟨d, c, b, a, rfl⟩ : ∃ d c b a, seen = [d, c, b, a] := by
    match seen, hlength with
    | [d, c, b, a], _ => exact ⟨d, c, b, a, rfl⟩
  simp only [List.forall_mem_cons, Option.isSome_iff_exists] at h
  obtain ⟨⟨l, hl⟩, ⟨k, hk⟩, ⟨j, hj⟩, ⟨i, hi⟩, -⟩ := h
  have hsmall {b : UInt8} {v : Nat} (hv : hexValue b = some v) : v < 16 := by
    rcases digit_of_hexValue hv with h | h <;>
      exact (List.getElem?_eq_some_iff.mp h).1
  have hi' := hsmall hi
  have hj' := hsmall hj
  have hk' := hsmall hk
  have hl' := hsmall hl
  refine ⟨((i * 16 + j) * 16 + k) * 16 + l, ?_, by omega, ?_⟩
  · simp [unit, hi, hj, hk, hl]
  · exact .mk (digit_of_hexValue hi) (digit_of_hexValue hj) (digit_of_hexValue hk)
      (digit_of_hexValue hl)

/-! ## Units -/

theorem toNat_ofNat {u : Nat} (h : u < 0xD800 ∨ 0xDFFF < u ∧ u < 0x110000) :
    (Char.ofNat u).toNat = u := by
  have hvalid : u.isValidChar := h
  rw [Char.ofNat, dif_pos hvalid]
  rfl

theorem chunk_unit {ds : Bytes} {u : Nat} (hds : Unit4 ds u) (hsmall : u < 0x10000)
    (hhigh : isHighSurrogate u = false) (hlow : isLowSurrogate u = false) :
    Chunk .read (unicode ds) (utf8 u) := by
  have hnat : (Char.ofNat u).toNat = u := by
    apply toNat_ofNat
    simp only [isHighSurrogate, isLowSurrogate, Bool.and_eq_false_iff,
      decide_eq_false_iff_not] at hhigh hlow
    omega
  exact .unit (hnat.symm ▸ hds)

theorem chunk_pair {ds es : Bytes} {high low : Nat} (hds : Unit4 ds high)
    (hes : Unit4 es low) (hhigh : isHighSurrogate high) (hlow : isLowSurrogate low) :
    Chunk .read (unicode ds ++ unicode es) (utf8 (pair high low)) := by
  simp only [isHighSurrogate, isLowSurrogate, Bool.and_eq_true, decide_eq_true_eq] at hhigh hlow
  have hnat : (Char.ofNat (pair high low)).toNat = pair high low := by
    apply toNat_ofNat
    rw [pair]
    omega
  have hfirst : 0xD800 + (pair high low - 0x10000) / 0x400 = high := by
    rw [pair]
    omega
  have hsecond : 0xDC00 + (pair high low - 0x10000) % 0x400 = low := by
    rw [pair]
    omega
  apply Chunk.pair <;> rw [hnat]
  · rw [pair]
    omega
  · exact hfirst.symm ▸ hds
  · exact hsecond.symm ▸ hes

/-! ## Steps -/

def Place.spot : Place → Spot
  | .escape | .surrogateEscape _ => .escape
  | .plain | .digits _ _ | .surrogate _ => .text

/-- The part of a chunk that has been seen at a place. -/
inductive Inside (mode : Mode) : Place → Bytes → Prop
  | plain : Inside mode .plain []
  | escape : Inside mode .escape [byte '\\']
  | digits {seen : List UInt8} : (∀ b ∈ seen, (hexValue b).isSome) → seen.length < 4 →
      Inside mode (.digits none seen) (unicode seen.reverse)
  | surrogate {ds : Bytes} {high : Nat} : mode = .read → Unit4 ds high → isHighSurrogate high →
      Inside mode (.surrogate high) (unicode ds)
  | surrogateEscape {ds : Bytes} {high : Nat} : mode = .read → Unit4 ds high →
      isHighSurrogate high → Inside mode (.surrogateEscape high) (unicode ds ++ [byte '\\'])
  | secondDigits {ds : Bytes} {high : Nat} {seen : List UInt8} : mode = .read → Unit4 ds high →
      isHighSurrogate high → (∀ b ∈ seen, (hexValue b).isSome) → seen.length < 4 →
      Inside mode (.digits (some high) seen) (unicode ds ++ unicode seen.reverse)

/-- What a step does to the chunk. -/
inductive Grows (mode : Mode) (place : Place) (w : Bytes) (b : UInt8) :
    Place → Bytes → Prop
  | completed {out : Bytes} : place.spot.step b = .text → Chunk mode (w ++ [b]) out →
      Grows mode place w b .plain out
  | longer {place' : Place} : place.spot.step b = place'.spot → Inside mode place' (w ++ [b]) →
      Grows mode place w b place' []
  | spoiled {first : Option Nat} {seen : List UInt8} : Spoiled seen →
      Grows mode place w b (.digits first seen) []

variable {mode : Mode} {place place' : Place} {w out : Bytes} {b : UInt8}

theorem grows_plain (hquote : b ≠ byte '"') (h : step mode .plain b = .ok (place', out)) :
    Grows mode .plain [] b place' out := by
  rw [step] at h
  by_cases hslash : b = byte '\\'
  · subst hslash
    cases h
    exact .longer rfl .escape
  · rw [if_neg hslash] at h
    by_cases hcontrol : b < 0x20
    · rw [if_pos hcontrol] at h
      cases h
    · rw [if_neg hcontrol] at h
      cases h
      apply Grows.completed
      · simp [Place.spot, Spot.step, hquote, hslash]
      · exact .plain (UInt8.not_lt.mp hcontrol) hquote hslash

theorem mem_of_escaped {c : UInt8} (h : escaped b = some c) :
    ∃ d : Char, b = byte d ∧ (d, c) ∈ escapes := by
  unfold escaped at h
  split at h
  · rename_i hself
    cases h
    rcases hself with rfl | rfl | rfl
    · exact ⟨'"', rfl, by decide⟩
    · exact ⟨'\\', rfl, by decide⟩
    · exact ⟨'/', rfl, by decide⟩
  iterate 5
    split at h
    · rename_i hletter
      subst hletter
      cases h
      exact ⟨_, rfl, by decide⟩
  cases h

theorem grows_escape (h : step mode .escape b = .ok (place', out)) :
    Grows mode .escape [byte '\\'] b place' out := by
  rw [step] at h
  by_cases hu : b = byte 'u'
  · subst hu
    cases h
    have hnone : ∀ b ∈ ([] : List UInt8), (hexValue b).isSome :=
      fun b hb ↦ absurd hb List.not_mem_nil
    exact .longer rfl (.digits hnone (by decide))
  · rw [if_neg hu] at h
    cases hescaped : escaped b with
    | none => simp [hescaped] at h
    | some c =>
        rw [hescaped] at h
        cases h
        obtain ⟨d, rfl, hd⟩ := mem_of_escaped hescaped
        exact .completed rfl (.letter hd)

theorem grows_digits {first : Option Nat} {seen : List UInt8}
    (hseen : ∀ b ∈ seen, (hexValue b).isSome) (hlength : seen.length < 4)
    (hlonger : (∀ c ∈ b :: seen, (hexValue c).isSome) → (b :: seen).length < 4 →
      Inside mode (.digits first (b :: seen)) (w ++ [b]))
    (hunit : ∀ u, u < 0x10000 → Unit4 (b :: seen).reverse u →
      complete mode first u = .ok (place', out) → Spot.text.step b = .text →
      Grows mode (.digits first seen) w b place' out)
    (h : step mode (.digits first seen) b = .ok (place', out)) :
    Grows mode (.digits first seen) w b place' out := by
  cases hb : hexValue b with
  | none =>
      -- It is the fourth byte that shows whether all of them are digits.
      have hspoiled : Spoiled (b :: seen) := ⟨b, List.mem_cons_self, hb⟩
      by_cases hfew : seen.length < 3
      · rw [step, if_pos hfew] at h
        cases h
        exact .spoiled hspoiled
      · rw [step, if_neg hfew, unit_spoiled hspoiled] at h
        cases h
  | some v =>
      have hall : ∀ c ∈ b :: seen, (hexValue c).isSome :=
        List.forall_mem_cons.mpr ⟨by simp [hb], hseen⟩
      by_cases hfew : seen.length < 3
      · rw [step, if_pos hfew] at h
        cases h
        exact .longer (step_hexDigit hb) (hlonger hall (Nat.succ_lt_succ hfew))
      · obtain ⟨u, hu, hsmall, hdigits⟩ := unit_of_digits hall (by simp; omega)
        rw [step, if_neg hfew, hu] at h
        exact hunit u hsmall hdigits h (step_hexDigit hb)

theorem grows_firstDigits {seen : List UInt8} (hseen : ∀ b ∈ seen, (hexValue b).isSome)
    (hlength : seen.length < 4) (h : step mode (.digits none seen) b = .ok (place', out)) :
    Grows mode (.digits none seen) (unicode seen.reverse) b place' out := by
  have hw : unicode seen.reverse ++ [b] = unicode (b :: seen).reverse := by simp [unicode]
  refine grows_digits hseen hlength (fun hall hfew ↦ ?_) (fun u hsmall hu hcomplete hb ↦ ?_) h
  · rw [hw]
    exact .digits hall hfew
  · cases mode with
    | skip =>
        cases hcomplete
        exact .completed hb (hw ▸ .skipped hu)
    | read =>
        rw [complete] at hcomplete
        cases hlow : isLowSurrogate u with
        | true => simp [hlow] at hcomplete
        | false =>
            cases hhigh : isHighSurrogate u with
            | true =>
                simp only [hlow, hhigh, Bool.false_eq_true, if_false, if_true] at hcomplete
                cases hcomplete
                exact .longer hb (hw ▸ .surrogate rfl hu hhigh)
            | false =>
                simp only [hlow, hhigh, Bool.false_eq_true, if_false] at hcomplete
                cases hcomplete
                exact .completed hb (hw ▸ chunk_unit hu hsmall hhigh hlow)

theorem grows_secondDigits {ds : Bytes} {high : Nat} {seen : List UInt8} (hds : Unit4 ds high)
    (hhigh : isHighSurrogate high) (hseen : ∀ b ∈ seen, (hexValue b).isSome)
    (hlength : seen.length < 4)
    (h : step .read (.digits (some high) seen) b = .ok (place', out)) :
    Grows .read (.digits (some high) seen) (unicode ds ++ unicode seen.reverse) b place' out := by
  have hw : unicode ds ++ unicode seen.reverse ++ [b] =
      unicode ds ++ unicode (b :: seen).reverse := by simp [unicode]
  refine grows_digits hseen hlength (fun hall hfew ↦ ?_) (fun u hsmall hu hcomplete hb ↦ ?_) h
  · rw [hw]
    exact .secondDigits rfl hds hhigh hall hfew
  · rw [complete] at hcomplete
    cases hlow : isLowSurrogate u with
    | false => simp [hlow] at hcomplete
    | true =>
        rw [hlow, if_pos rfl] at hcomplete
        cases hcomplete
        exact .completed hb (hw ▸ chunk_pair hds hu hhigh hlow)

theorem grows_of_step (hinside : Inside mode place w)
    (hquote : ¬ (place = .plain ∧ b = byte '"')) (h : step mode place b = .ok (place', out)) :
    Grows mode place w b place' out := by
  cases hinside with
  | plain => exact grows_plain (fun hb ↦ hquote ⟨rfl, hb⟩) h
  | escape => exact grows_escape h
  | digits hseen hlength => exact grows_firstDigits hseen hlength h
  | surrogate hmode hds hhigh =>
      rw [step] at h
      by_cases hslash : b = byte '\\'
      · subst hslash
        cases h
        exact .longer rfl (.surrogateEscape hmode hds hhigh)
      · rw [if_neg hslash] at h
        cases h
  | @surrogateEscape ds high hmode hds hhigh =>
      rw [step] at h
      by_cases hu : b = byte 'u'
      · subst hu
        cases h
        have hnone : ∀ b ∈ ([] : List UInt8), (hexValue b).isSome :=
          fun b hb ↦ absurd hb List.not_mem_nil
        have hw : unicode ds ++ [byte '\\'] ++ [byte 'u'] = unicode ds ++ unicode [] := by
          simp [unicode]
        exact .longer rfl (hw ▸ .secondDigits hmode hds hhigh hnone (by decide))
      · rw [if_neg hu] at h
        cases h
  | secondDigits hmode hds hhigh hseen hlength =>
      subst hmode
      exact grows_secondDigits hds hhigh hseen hlength h

/-! ## Scans -/

theorem scan_cons (mode : Mode) {place : Place} {b : UInt8}
    (h : ¬ (place = .plain ∧ b = byte '"')) (text : List UInt8) (s : Bytes) :
    scan mode place text (b :: s) =
      (step mode place b).bind fun r ↦ scan mode r.1 (r.2.reverse ++ text) s := by
  rw [scan, if_neg h]
  rcases step mode place b with e | ⟨place', out⟩ <;> rfl

/-- What is left of a string after a part of a chunk. -/
def Ends (mode : Mode) (w : Bytes) (text bytes : List UInt8) (u : Bytes) : Prop :=
  ∃ spelled v, u = spelled ++ [byte '"'] ∧ Body mode (w ++ spelled) v ∧ bytes = text.reverse ++ v

theorem scan_verdict (hinside : Inside mode place w) (text : List UInt8) (s : Bytes) :
    Verdict place.spot (Ends mode w text) (fun _ ↦ scan mode place text) s := by
  -- The induction keeps the part of the chunk that was seen, besides the bytes of whole chunks.
  induction s generalizing place w text with
  | nil =>
      apply Verdict.starves (e := .eof .string)
      · cases place <;> rfl
      · exact fun _ _ ↦ rfl
  | cons b s ih =>
      by_cases hend : place = .plain ∧ b = byte '"'
      · obtain ⟨rfl, rfl⟩ := hend
        cases hinside
        apply Verdict.takes (x := text.reverse) (u := [byte '"']) rfl
          ⟨[], [], rfl, .nil, by simp⟩ rfl
        exact fun tail n _ ↦ rfl
      · rcases hstep : step mode place b with e | ⟨place', out⟩
        · apply Verdict.fails (e := fun _ _ ↦ e)
          intro tail n
          rw [List.cons_append, scan_cons mode hend, hstep]
          rfl
        · have hscan (r : Bytes) : scan mode place text (b :: r) =
              scan mode place' (out.reverse ++ text) r := by
            rw [scan_cons mode hend, hstep]
            rfl
          have hgrows := grows_of_step hinside hend hstep
          cases hgrows with
          | completed hspot hchunk =>
              have hrest := ih .plain (out.reverse ++ text)
              apply Verdict.cons (fun _ ↦ scan mode .plain (out.reverse ++ text)) _
                fun _ r ↦ hscan r
              rw [hspot]
              apply hrest.imp
              rintro bytes u ⟨spelled, v, rfl, hbody, rfl⟩
              refine ⟨b :: spelled, out ++ v, rfl, ?_, by simp⟩
              simpa using Body.cons hchunk hbody
          | longer hspot hlonger =>
              have hrest := ih hlonger text
              apply Verdict.cons (fun _ ↦ scan mode place' text) _ fun _ r ↦ hscan r
              rw [hspot]
              apply hrest.imp
              rintro bytes u ⟨spelled, v, rfl, hbody, rfl⟩
              exact ⟨b :: spelled, v, rfl, by simpa using hbody, rfl⟩
          | spoiled hspoiled =>
              apply Verdict.rejects
              intro tail n _
              rw [List.cons_append, hscan]
              exact scan_spoiled hspoiled _ _

end CompileFlags.Json.Text

namespace CompileFlags.Json.Verdict

open Form

theorem scan (mode : Text.Mode) (s : Bytes) :
    Verdict .text (fun bytes u ↦ ∃ spelled, u = spelled ++ [byte '"'] ∧ Body mode spelled bytes)
      (fun _ ↦ Text.scan mode .plain []) s := by
  apply (Text.scan_verdict .plain [] s).imp
  rintro _ u ⟨spelled, v, rfl, hbody, rfl⟩
  exact ⟨spelled, rfl, hbody⟩

/-- The characters of a string that was scanned. -/
def decoded (bytes : List UInt8) : Nat → Reader String := fun _ s ↦
  match Text.decode bytes with
  | some text => .ok (text, s)
  | none => .error (.malformed .invalidCodePoint)

theorem read (s : Bytes) :
    Verdict .text (fun t u ↦ TextForm t (byte '"' :: u)) (fun _ ↦ Text.read) s := by
  apply (scan .read s).bind decoded
  · intro n r
    rw [Text.read]
    rcases Text.scan .read .plain [] r with e | ⟨bytes, rest⟩ <;> rfl
  · rintro bytes u left rfl ⟨spelled, rfl, hbody⟩
    cases htext : Text.decode bytes with
    | some text =>
        apply pure (x := text)
        · rw [List.append_nil]
          exact .mk hbody htext
        · intro n r
          simp only [decoded, htext]
    | none =>
        apply fails (e := fun _ _ ↦ .malformed .invalidCodePoint)
        intro tail n
        simp only [decoded, htext]

theorem skip (s : Bytes) :
    Verdict .text (fun _ u ↦ ∃ spelled v, u = spelled ++ [byte '"'] ∧ Body .skip spelled v)
      (skipper Text.skip) s := by
  apply ((scan .skip s).map (fun _ ↦ ()) _).of_eq
  · intro tail n
    rw [skipper, Text.skip]
    rcases Text.scan .skip .plain [] (s ++ tail) with e | ⟨bytes, rest⟩ <;> rfl
  · rintro bytes u ⟨spelled, rfl, hbody⟩
    exact ⟨spelled, bytes, rfl, hbody⟩

end CompileFlags.Json.Verdict
