import CompileFlags.Json.Form

/-!
# Every spelling of a string is read

A scan goes through the places of a string one byte at a time. Steps are put together to scans of
a character or an escape, and these to the scan of everything between the quotes.
-/

namespace CompileFlags.Json.Text

open Form

/-! ## What is written and what the reader computes -/

theorem hexValue_of_digit {b : UInt8} {v : Nat} (h : HexDigit b v) : hexValue b = some v := by
  have hlower : ∀ p ∈ (word "0123456789abcdef").zipIdx, hexValue p.1 = some p.2 := by decide
  have hupper : ∀ p ∈ (word "0123456789ABCDEF").zipIdx, hexValue p.1 = some p.2 := by decide
  obtain h | h := h
  · exact hlower (b, v) (List.mem_zipIdx_iff_getElem?.mpr h)
  · exact hupper (b, v) (List.mem_zipIdx_iff_getElem?.mpr h)

theorem escaped_of_mem {c : Char} {b : UInt8} (h : (c, b) ∈ escapes) :
    byte c ≠ byte 'u' ∧ escaped (byte c) = some b := by
  have htable : ∀ p ∈ escapes, byte p.1 ≠ byte 'u' ∧ escaped (byte p.1) = some p.2 := by
    decide
  exact htable (c, b) h

theorem utf8_toNat (c : Char) : utf8 c.toNat = String.utf8EncodeChar c := by
  rw [utf8, Char.ofNat_toNat]

/-- The unit of a character is no surrogate. -/
theorem not_surrogate (c : Char) :
    isHighSurrogate c.toNat = false ∧ isLowSurrogate c.toNat = false := by
  have hvalid : c.toNat < 0xD800 ∨ 0xDFFF < c.toNat ∧ c.toNat < 0x110000 := c.valid
  simp only [isHighSurrogate, isLowSurrogate, Bool.and_eq_false_iff, decide_eq_false_iff_not]
  omega

/-- The surrogates of a character above the first plane make it up again. -/
theorem surrogates {c : Char} (hc : 0x10000 ≤ c.toNat) :
    let high := 0xD800 + (c.toNat - 0x10000) / 0x400
    let low := 0xDC00 + (c.toNat - 0x10000) % 0x400
    isHighSurrogate high ∧ isLowSurrogate high = false ∧ isLowSurrogate low ∧
      pair high low = c.toNat := by
  have hvalid : c.toNat < 0xD800 ∨ 0xDFFF < c.toNat ∧ c.toNat < 0x110000 := c.valid
  intro high low
  simp only [isHighSurrogate, isLowSurrogate, pair, Bool.and_eq_true, Bool.and_eq_false_iff,
    decide_eq_true_eq, decide_eq_false_iff_not]
  omega

/-! ## Scanning -/

/-- Scanning `spelled` leads from one place to another and adds `out` to the text, whatever the
text so far and whatever follows. -/
def Leads (mode : Mode) (start : Place) (spelled : Bytes) (stop : Place) (out : Bytes) : Prop :=
  ∀ text tail,
    scan mode start text (spelled ++ tail) = scan mode stop (out.reverse ++ text) tail

namespace Leads

variable {mode : Mode} {start mid stop : Place} {spelled rest out more : Bytes}

theorem refl (mode : Mode) (place : Place) : Leads mode place [] place [] :=
  fun _ _ ↦ rfl

theorem append (h : Leads mode start spelled mid out) (hrest : Leads mode mid rest stop more) :
    Leads mode start (spelled ++ rest) stop (out ++ more) := by
  intro text tail
  rw [List.append_assoc, h, hrest, List.reverse_append, List.append_assoc]

theorem of_step {b : UInt8} (hquote : start = .plain → b ≠ byte '"')
    (h : step mode start b = .ok (stop, out)) : Leads mode start [b] stop out := by
  intro text tail
  have hopen : ¬ (start = .plain ∧ b = byte '"') := fun ⟨hstart, hb⟩ ↦ hquote hstart hb
  simp [scan, hopen, h]

/-- Four hexadecimal digits do what their unit does. -/
theorem digits {ds : Bytes} {u : Nat} (hds : Unit4 ds u) {first : Option Nat}
    (h : complete mode first u = .ok (stop, out)) :
    Leads mode (.digits first []) ds stop out := by
  cases hds with
  | @mk a b c d i j k l ha hb hc hd =>
      have hgrow (seen : List UInt8) (d : UInt8) (hseen : seen.length < 3) :
          Leads mode (.digits first seen) [d] (.digits first (d :: seen)) [] :=
        of_step (by simp) (by simp [step, hseen])
      have hunit : unit [d, c, b, a] = some (((i * 16 + j) * 16 + k) * 16 + l) := by
        simp [unit, hexValue_of_digit ha, hexValue_of_digit hb, hexValue_of_digit hc,
          hexValue_of_digit hd]
      have hlast : Leads mode (.digits first [c, b, a]) [d] stop out :=
        of_step (by simp) (by simp [step, hunit, h])
      have hthree := ((hgrow [] a (by simp)).append (hgrow [a] b (by simp))).append
        (hgrow [b, a] c (by simp))
      exact hthree.append hlast

theorem escape (mode : Mode) : Leads mode .plain [byte '\\'] .escape [] :=
  of_step (by decide) (by simp [step])

theorem escapedUnit {ds : Bytes} {u : Nat} (hds : Unit4 ds u)
    (h : complete mode none u = .ok (stop, out)) :
    Leads mode .plain (unicode ds) stop out := by
  have hmark : Leads mode .escape [byte 'u'] (.digits none []) [] :=
    of_step (by simp) (by simp [step])
  exact ((escape mode).append hmark).append (digits hds h)

theorem secondUnit {ds : Bytes} {u high : Nat} (hds : Unit4 ds u)
    (h : complete mode (some high) u = .ok (stop, out)) :
    Leads mode (.surrogate high) (unicode ds) stop out := by
  have hslash : Leads mode (.surrogate high) [byte '\\'] (.surrogateEscape high) [] :=
    of_step (by simp) (by simp [step])
  have hmark : Leads mode (.surrogateEscape high) [byte 'u'] (.digits (some high) []) [] :=
    of_step (by simp) (by simp [step])
  exact (hslash.append hmark).append (digits hds h)

end Leads

/-- A character or an escape is scanned as a whole. -/
theorem leads_chunk {mode : Mode} {spelled out : Bytes} (h : Chunk mode spelled out) :
    Leads mode .plain spelled .plain out := by
  cases h with
  | plain hcontrol hquote hslash =>
      have hshown := UInt8.not_lt.mpr hcontrol
      exact Leads.of_step (fun _ ↦ hquote) (by simp [step, hslash, hshown])
  | @letter _ c b hc =>
      obtain ⟨hu, hescaped⟩ := escaped_of_mem hc
      have hletter : Leads mode .escape [byte c] .plain [b] :=
        Leads.of_step (by simp) (by simp [step, hu, hescaped])
      exact (Leads.escape mode).append hletter
  | @unit _ c hds =>
      obtain ⟨hhigh, hlow⟩ := not_surrogate c
      exact Leads.escapedUnit hds (by simp [complete, hhigh, hlow, utf8_toNat])
  | @pair ds es c hc hds hes =>
      obtain ⟨hhigh, hnot, hlow, hpair⟩ := surrogates hc
      have hfirst : Leads .read .plain (unicode ds) (.surrogate _) [] :=
        Leads.escapedUnit hds (by rw [complete, hnot, hhigh]; rfl)
      have hsecond : Leads .read _ (unicode es) .plain (utf8 c.toNat) :=
        Leads.secondUnit hes (by rw [complete, hlow, hpair]; rfl)
      have hboth := hfirst.append hsecond
      rwa [List.nil_append, utf8_toNat] at hboth
  | skipped hds => exact Leads.escapedUnit hds rfl

/-- So is all that stands between the quotes. -/
theorem leads_body {mode : Mode} {spelled bytes : Bytes} (h : Body mode spelled bytes) :
    Leads mode .plain spelled .plain bytes := by
  induction h with
  | nil => exact Leads.refl mode .plain
  | cons hchunk _ ih => exact (leads_chunk hchunk).append ih

theorem scan_body {mode : Mode} {spelled bytes : Bytes} (h : Body mode spelled bytes)
    (tail : Bytes) : scan mode .plain [] (spelled ++ byte '"' :: tail) = .ok (bytes, tail) := by
  rw [leads_body h]
  simp [scan]

/-- Plain bytes spell themselves. -/
theorem body_plain (mode : Mode) {s : Bytes} (h : Plain s) : Body mode s s := by
  induction s with
  | nil => exact .nil
  | cons b s ih =>
      obtain ⟨hcontrol, hquote, hslash⟩ := h b List.mem_cons_self
      exact .cons (.plain hcontrol hquote hslash)
        (ih fun c hc ↦ h c (List.mem_cons_of_mem b hc))

theorem skip_body {spelled bytes : Bytes} (h : Body .skip spelled bytes) (tail : Bytes) :
    skip (spelled ++ byte '"' :: tail) = .ok tail := by
  simp [skip, scan_body h, Except.map]

theorem read_body {spelled bytes : Bytes} {text : String} (h : Body .read spelled bytes)
    (htext : decode bytes = some text) (tail : Bytes) :
    read (spelled ++ byte '"' :: tail) = .ok (text, tail) := by
  simp [read, scan_body h, htext]

end CompileFlags.Json.Text
