import CompileFlags.Proofs.Json.Numbers
import CompileFlags.Proofs.Json.Verdict.Lists

/-!
# Verdicts on numbers that are skipped

A number has no closing mark, so at the end of the text it is taken and could go on. Where a digit
is missing the text may not end: the number is called invalid, and not the text unfinished.
-/

namespace CompileFlags.Json.Judged

open Form Number

variable {p : Spot} {form other : Unit → Bytes → Prop} {s : Bytes}

/-! ## Digits -/

theorem dropDigits {rest : Bytes → Except Error Bytes} (hp : ∀ d, isDigit d → p.step d = p)
    (hpending : p.isPending = false) (hnil : rest [] = .ok []) (hform : form () [])
    (hstop : ∀ b r, isDigit b = false → Judged p form (skipper rest) (b :: r)) (s : Bytes) :
    Judged p (fun x u ↦ ∃ ds v, u = ds ++ v ∧ (∀ b ∈ ds, isDigit b) ∧ form x v)
      (skipper fun s ↦ rest (s.dropWhile isDigit)) s := by
  induction s with
  | nil =>
      -- Digits that end with the text are taken, though more of them could follow.
      refine .inr ⟨(), ⟨[], [], rfl, by simp, hform⟩, hpending, fun _ _ ↦ ?_⟩
      simp [skipper, hnil, Except.map]
  | cons b s ih =>
      cases hb : isDigit b with
      | true =>
          apply cons (skipper fun s ↦ rest (s.dropWhile isDigit))
          · rw [hp b hb]
            apply ih.imp
            rintro x u ⟨ds, v, rfl, hds, hv⟩
            exact ⟨b :: ds, v, rfl, List.forall_mem_cons.mpr ⟨hb, hds⟩, hv⟩
          · intro n r
            simp [skipper, hb]
      | false =>
          apply ((hstop b s hb).imp _).of_eq
          · intro tail n
            simp [skipper, hb]
          · exact fun x u hu ↦ ⟨[], u, rfl, by simp, hu⟩

/-- Read one digit at least, then go on behind the digits. -/
def someDigits (rest : Bytes → Except Error Bytes) : Bytes → Except Error Bytes
  | [] => .error (.malformed .invalidNumber)
  | b :: s =>
    if isDigit b then rest (s.dropWhile isDigit) else .error (.malformed .invalidNumber)

theorem judged_someDigits {q : Spot} {rest : Bytes → Except Error Bytes}
    (hp : p.isPending = true) (hpq : ∀ d, isDigit d → p.step d = q)
    (hq : ∀ d, isDigit d → q.step d = q) (hpending : q.isPending = false)
    (hnil : rest [] = .ok []) (hform : form () [])
    (hstop : ∀ b r, isDigit b = false → Judged q form (skipper rest) (b :: r)) (s : Bytes) :
    Judged p (fun x u ↦ ∃ ds v, u = ds ++ v ∧ Digits ds ∧ form x v)
      (skipper (someDigits rest)) s := by
  cases s with
  | nil =>
      refine .inl (.starves (e := .malformed .invalidNumber) ?_ fun _ _ ↦ rfl)
      rw [Spot.Faults, Spot.after_nil, if_pos hp]
  | cons d s =>
      by_cases hd : isDigit d
      · apply cons (skipper fun s ↦ rest (s.dropWhile isDigit))
        · rw [hpq d hd]
          apply (dropDigits hq hpending hnil hform hstop s).imp
          rintro x u ⟨ds, v, rfl, hds, hv⟩
          exact ⟨d :: ds, v, rfl, ⟨by simp, List.forall_mem_cons.mpr ⟨hd, hds⟩⟩, hv⟩
        · intro n r
          simp only [skipper, someDigits, if_pos hd]
      · refine .inl (.fails (e := fun _ _ ↦ .malformed .invalidNumber) fun tail n ↦ ?_)
        simp only [skipper, List.cons_append, someDigits, if_neg hd]
        rfl

theorem of_stop {b : UInt8} (hb : p.step b = Spot.gap.step b) (hform : form () []) {r : Bytes}
    {rest : Bytes → Except Error Bytes} (hrest : ∀ r, rest (b :: r) = .ok (b :: r)) :
    Judged p form (skipper rest) (b :: r) := by
  refine .inl (.takes (x := ()) (u := []) rfl hform ?_ fun tail n _ ↦ ?_)
  · -- Nothing more is read, and the lexer starts anew at the same byte.
    rw [Spot.after_cons, Spot.after_cons, hb]
  · rw [skipper, List.cons_append, hrest]
    rfl

/-! ## The parts of a number, the last one first -/

theorem powerDigits (hp : p = .mark ∨ p = .sign) (s : Bytes) :
    Judged p (fun _ u ↦ Digits u) (skipper (someDigits .ok)) s := by
  have hpending : p.isPending = true := by rcases hp with rfl | rfl <;> rfl
  have hfirst : ∀ d, isDigit d → p.step d = .power := by
    intro d hd
    rcases hp with rfl | rfl <;> simp [Spot.step, hd]
  have hmore : ∀ d, isDigit d → Spot.power.step d = .power := by
    intro d hd
    simp [Spot.step, hd]
  have hstop : ∀ b r, isDigit b = false →
      Judged .power (fun _ u ↦ u = []) (skipper .ok) (b :: r) := by
    intro b r hb
    exact of_stop (by simp [Spot.step, hb]) rfl fun _ ↦ rfl
  apply (judged_someDigits hpending hfirst hmore rfl rfl rfl hstop s).imp
  rintro x u ⟨ds, v, rfl, hds, rfl⟩
  rwa [List.append_nil]

theorem exponent {mark : UInt8} (hmark : isExponentMark mark) (s : Bytes) :
    Judged .mark (fun _ u ↦ Exponent (mark :: u)) (skipper skipExponent) s := by
  have hplain := (powerDigits (.inl rfl) s).imp fun _ _ ↦ Exponent.plain hmark
  cases s with
  | nil => exact .inl (.starves (e := .malformed .invalidNumber) rfl fun _ _ ↦ rfl)
  | cons b r =>
      by_cases hsign : b = byte '+' ∨ b = byte '-'
      · apply cons (skipper (someDigits .ok))
        · have hspot : Spot.mark.step b = .sign := by
            rcases hsign with rfl | rfl <;> decide
          rw [hspot]
          exact (powerDigits (.inr rfl) r).imp fun _ _ ↦ Exponent.signed hmark hsign
        · intro n r
          rcases hsign with rfl | rfl <;> cases r <;> rfl
      · apply hplain.of_eq
        intro tail n
        rw [not_or] at hsign
        simp [skipper, skipExponent, someDigits, hsign.1, hsign.2]

theorem tail (hmark : ∀ b, isExponentMark b → p.step b = .mark)
    {b : UInt8} {r : Bytes} (hstop : isExponentMark b = false → p.step b = Spot.gap.step b) :
    Judged p (fun _ u ↦ Exponent u) (skipper skipTail) (b :: r) := by
  by_cases hb : isExponentMark b
  · apply cons (skipper skipExponent)
    · rw [hmark b hb]
      exact exponent hb r
    · intro n r
      simp only [skipper, skipTail, if_pos hb]
  · exact of_stop (hstop (by simpa using hb)) .none fun r ↦ by simp only [skipTail, if_neg hb]

theorem fraction (s : Bytes) :
    Judged .point (fun _ u ↦ ∃ ds e, u = ds ++ e ∧ Digits ds ∧ Exponent e)
      (skipper skipFraction) s := by
  have hstop : ∀ b r, isDigit b = false →
      Judged .fraction (fun _ u ↦ Exponent u) (skipper skipTail) (b :: r) := by
    intro b r hb
    apply tail
    · intro c hc
      simp [Spot.step, (not_isDigit_of_mark hc).1, hc]
    · intro hmark
      simp [Spot.step, hb, hmark]
  have hfirst : ∀ d, isDigit d → Spot.point.step d = .fraction := by
    intro d hd
    simp [Spot.step, hd]
  have hmore : ∀ d, isDigit d → Spot.fraction.step d = .fraction := by
    intro d hd
    simp [Spot.step, hd]
  have hnil : skipTail [] = .ok [] := rfl
  apply (judged_someDigits rfl hfirst hmore rfl hnil .none hstop s).of_eq
  intro tail n
  cases s ++ tail <;> rfl

/-- What may follow the digits before the point. -/
def FractionExponent (u : Bytes) : Prop :=
  ∃ f e, u = f ++ e ∧ Fraction f ∧ Exponent e

theorem afterDigits {b : UInt8} {r : Bytes} (hb : isDigit b = false) :
    Judged .whole (fun _ u ↦ FractionExponent u) (skipper skipAfterDigits) (b :: r) := by
  by_cases hpoint : b = byte '.'
  · subst hpoint
    apply cons (skipper skipFraction)
    · apply (fraction r).imp
      rintro x u ⟨ds, e, rfl, hds, he⟩
      exact ⟨byte '.' :: ds, e, rfl, .digits hds, he⟩
    · intro n r
      simp [skipper, skipAfterDigits]
  · have htail : Judged .whole (fun _ u ↦ Exponent u) (skipper skipTail) (b :: r) := by
      apply tail
      · intro c hc
        obtain ⟨hdigit, hpoint⟩ := not_isDigit_of_mark hc
        simp [Spot.step, hdigit, hpoint, hc]
      · intro hmark
        simp [Spot.step, hb, hpoint, hmark]
    apply (htail.imp _).of_eq
    · intro tail n
      simp [skipper, skipAfterDigits, hpoint]
    · exact fun x u hu ↦ ⟨[], u, rfl, .none, hu⟩

def Unsigned (u : Bytes) : Prop :=
  ∃ w f e, u = w ++ f ++ e ∧ Whole w ∧ Fraction f ∧ Exponent e

theorem unsigned_digit {d : UInt8} (hd : isDigit d) (r : Bytes) :
    Judged .whole (fun _ u ↦ Unsigned (d :: u)) (skipper fun r ↦ skipUnsigned (d :: r)) r := by
  by_cases hzero : d = byte '0'
  · subst hzero
    cases r with
    | nil =>
        refine .inr ⟨(), ⟨[byte '0'], [], [], rfl, .zero, .none, .none⟩, rfl, fun _ _ ↦ rfl⟩
    | cons b r =>
        cases hb : isDigit b with
        | true =>
            refine .inl (.fails (e := fun _ _ ↦ .malformed .invalidNumber) fun tail n ↦ ?_)
            simp [skipper, skipUnsigned, hb, Except.map]
        | false =>
            apply ((afterDigits hb).imp _).of_eq
            · intro tail n
              simp [skipper, skipUnsigned, hb]
            · rintro x u ⟨f, e, rfl, hf, he⟩
              exact ⟨[byte '0'], f, e, rfl, .zero, hf, he⟩
  · have hmore : ∀ d, isDigit d → Spot.whole.step d = .whole := by
      intro d hd
      simp [Spot.step, hd]
    have hstop : ∀ b r, isDigit b = false →
        Judged .whole (fun _ u ↦ FractionExponent u) (skipper skipAfterDigits) (b :: r) :=
      fun b r hb ↦ afterDigits hb
    have hnone : FractionExponent [] := ⟨[], [], rfl, .none, .none⟩
    have hnil : skipAfterDigits [] = .ok [] := rfl
    apply ((dropDigits hmore rfl hnil hnone hstop r).imp _).of_eq
    · intro tail n
      simp [skipper, skipUnsigned, hzero, hd]
    · rintro x u ⟨ds, v, rfl, hds, f, e, rfl, hf, he⟩
      exact ⟨d :: ds, f, e, by simp, .digits hd hzero hds, hf, he⟩

theorem enter_digit {d : UInt8} (hd : isDigit d) : Spot.enter d = .whole := by
  have hquote : d ≠ byte '"' := ne_of_isDigit hd (by decide)
  have hminus : d ≠ byte '-' := ne_of_isDigit hd (by decide)
  simp [Spot.enter, hquote, hminus, hd]

theorem numeral_digit {d : UInt8} (hd : isDigit d) (r : Bytes) :
    Judged .gap (fun _ u ↦ Numeral u) (skipper skipUnsigned) (d :: r) := by
  have hspot : Spot.gap.step d = .whole := enter_digit hd
  apply cons (skipper fun r ↦ skipUnsigned (d :: r))
  · rw [hspot]
    apply (unsigned_digit hd r).imp
    rintro x u ⟨w, f, e, hu, hw, hf, he⟩
    exact hu ▸ .plain hw hf he
  · exact fun _ _ ↦ rfl

theorem numeral_minus (s : Bytes) :
    Judged .minus (fun _ u ↦ Numeral (byte '-' :: u)) (skipper skipUnsigned) s := by
  cases s with
  | nil => exact .inl (.starves (e := .malformed .invalidNumber) rfl fun _ _ ↦ rfl)
  | cons d r =>
      by_cases hd : isDigit d
      · have hspot : Spot.minus.step d = .whole := enter_digit hd
        apply cons (skipper fun r ↦ skipUnsigned (d :: r))
        · rw [hspot]
          apply (unsigned_digit hd r).imp
          rintro x u ⟨w, f, e, hu, hw, hf, he⟩
          exact hu ▸ .minus hw hf he
        · exact fun _ _ ↦ rfl
      · refine .inl (.fails (e := fun _ _ ↦ .malformed .invalidNumber) fun tail n ↦ ?_)
        have hzero : d ≠ byte '0' := by
          rintro rfl
          exact hd (by decide)
        simp [skipper, skipUnsigned, hzero, hd, Except.map]

end CompileFlags.Json.Judged
