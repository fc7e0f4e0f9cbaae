import CompileFlags.Proofs.Json.Punctuation

/-!
# Every numeral is skipped

A numeral ends where what follows could not continue it. Its parts are skipped from the last one
to the first.
-/

namespace CompileFlags.Json

open Form

/-- Nothing at the front that could continue a numeral. -/
def Stops (s : Bytes) : Prop :=
  ∀ b ∈ s.head?, isDigit b = false ∧ b ≠ byte '.' ∧ Number.isExponentMark b = false

theorem stops_of_blank {b : UInt8} (h : isBlank b) :
    isDigit b = false ∧ b ≠ byte '.' ∧ Number.isExponentMark b = false := by
  simp only [isBlank, Bool.or_eq_true, beq_iff_eq] at h
  obtain ((rfl | rfl) | rfl) | rfl := h <;> decide

theorem ne_of_isDigit {d c : UInt8} (hd : isDigit d) (hc : isDigit c = false) : d ≠ c := by
  rintro rfl
  simp [hd] at hc

theorem not_isBlank_of_isDigit {d : UInt8} (hd : isDigit d) : isBlank d = false := by
  by_cases hblank : isBlank d
  · simp [(stops_of_blank hblank).1] at hd
  · simpa using hblank

/-- Blanks end a numeral as well as the byte after them does. -/
theorem stops_append {a s : Bytes} (ha : Blank a) (hs : Stops s) : Stops (a ++ s) := by
  cases a with
  | nil => exact hs
  | cons b a =>
      intro c hc
      obtain rfl : b = c := by simpa using hc
      exact stops_of_blank (ha b List.mem_cons_self)

namespace Number

/-- No digit at the front. -/
def NoDigit (s : Bytes) : Prop :=
  ∀ b ∈ s.head?, isDigit b = false

theorem noDigit_of_stops {s : Bytes} (h : Stops s) : NoDigit s :=
  fun b hb ↦ (h b hb).1

theorem dropWhile_digits {ds s : Bytes} (hds : ∀ b ∈ ds, isDigit b) (hs : NoDigit s) :
    (ds ++ s).dropWhile isDigit = s := by
  rw [List.dropWhile_append_of_pos hds]
  cases s with
  | nil => rfl
  | cons b s => simp [hs b rfl]

theorem digits_cons {ds : Bytes} (h : Digits ds) :
    ∃ d more, ds = d :: more ∧ isDigit d ∧ ∀ b ∈ more, isDigit b := by
  obtain ⟨hne, hds⟩ := h
  obtain ⟨d, more, rfl⟩ := List.exists_cons_of_ne_nil hne
  exact ⟨d, more, rfl, hds d List.mem_cons_self, fun b hb ↦ hds b (List.mem_cons_of_mem d hb)⟩

theorem not_isDigit_of_mark {b : UInt8} (h : isExponentMark b) :
    isDigit b = false ∧ b ≠ byte '.' := by
  simp only [isExponentMark, Bool.or_eq_true, beq_iff_eq] at h
  obtain rfl | rfl := h <;> decide

/-! ## The parts of a numeral, the last one first -/

variable {w f e ds tail : Bytes}

theorem noDigit_exponent (he : Exponent e) (htail : Stops tail) : NoDigit (e ++ tail) := by
  cases he with
  | none => exact noDigit_of_stops htail
  | plain hmark | signed hmark =>
      intro b hb
      obtain rfl := Option.some.inj hb
      exact (not_isDigit_of_mark hmark).1

theorem noDigit_fraction (hf : Fraction f) (he : Exponent e) (htail : Stops tail) :
    NoDigit (f ++ (e ++ tail)) := by
  cases hf with
  | none =>
      rw [List.nil_append]
      exact noDigit_exponent he htail
  | digits =>
      intro b hb
      obtain rfl := Option.some.inj hb
      decide

theorem skipExponent_digits (hds : Digits ds) (htail : Stops tail) :
    skipExponent (ds ++ tail) = .ok tail := by
  obtain ⟨d, more, rfl, hd, hmore⟩ := digits_cons hds
  have hminus : d ≠ byte '-' := ne_of_isDigit hd (by decide)
  have hplus : d ≠ byte '+' := ne_of_isDigit hd (by decide)
  simp [skipExponent, hminus, hplus, hd, dropWhile_digits hmore (noDigit_of_stops htail)]

theorem skipExponent_signed {sign : UInt8} (hsign : sign = byte '+' ∨ sign = byte '-')
    (hds : Digits ds) (htail : Stops tail) :
    skipExponent (sign :: (ds ++ tail)) = .ok tail := by
  obtain ⟨d, more, rfl, hd, hmore⟩ := digits_cons hds
  simp [skipExponent, hsign.symm, hd, dropWhile_digits hmore (noDigit_of_stops htail)]

theorem skipTail_exponent (he : Exponent e) (htail : Stops tail) :
    skipTail (e ++ tail) = .ok tail := by
  cases he with
  | none =>
      cases tail with
      | nil => rfl
      | cons b tail => simp [skipTail, (htail b rfl).2.2]
  | plain hmark hds => simp [skipTail, hmark, skipExponent_digits hds htail]
  | signed hmark hsign hds => simp [skipTail, hmark, skipExponent_signed hsign hds htail]

theorem skipFraction_digits (hds : Digits ds) (he : Exponent e) (htail : Stops tail) :
    skipFraction (ds ++ (e ++ tail)) = .ok tail := by
  have hrest := noDigit_exponent he htail
  obtain ⟨d, more, rfl, hd, hmore⟩ := digits_cons hds
  simp [skipFraction, hd, dropWhile_digits hmore hrest, skipTail_exponent he htail]

theorem skipAfterDigits_parts (hf : Fraction f) (he : Exponent e) (htail : Stops tail) :
    skipAfterDigits (f ++ (e ++ tail)) = .ok tail := by
  cases hf with
  | digits hds => simp [skipAfterDigits, skipFraction_digits hds he htail]
  | none =>
      have hrest := skipTail_exponent he htail
      have hpoint : ∀ b ∈ (e ++ tail).head?, b ≠ byte '.' := by
        cases he with
        | none => exact fun b hb ↦ (htail b hb).2.1
        | plain hmark | signed hmark =>
            intro b hb
            obtain rfl := Option.some.inj hb
            exact (not_isDigit_of_mark hmark).2
      rw [List.nil_append]
      generalize e ++ tail = s at hrest hpoint
      cases s with
      | nil => exact hrest
      | cons b s => simpa [skipAfterDigits, hpoint b rfl] using hrest

theorem skipUnsigned_parts (hw : Whole w) (hf : Fraction f) (he : Exponent e)
    (htail : Stops tail) : skipUnsigned (w ++ f ++ e ++ tail) = .ok tail := by
  have hrest := skipAfterDigits_parts hf he htail
  have hdigit := noDigit_fraction hf he htail
  rw [List.append_assoc, List.append_assoc]
  generalize f ++ (e ++ tail) = s at hrest hdigit
  cases hw with
  | zero =>
      cases s with
      | nil => exact hrest
      | cons b s => simpa [skipUnsigned, hdigit b rfl] using hrest
  | digits hd hzero hds =>
      simp [skipUnsigned, hzero, hd, dropWhile_digits hds hdigit, hrest]

end Number

end CompileFlags.Json
