import CompileFlags.Text.Spelling

/-!
# Every spelling is split into its words

Each piece of a word extends what has been read of the word and leaves the reader in it, outside of
quotes. Only the first piece is read differently, since a comment sign or a backslash means
something else between words. A blank after a word closes it, and the end of the text does.
-/

namespace CompileFlags.Words

namespace Scan

/-- Reading a text from one place leads to another. -/
def Leads (start : Scan) (text : List Char) (stop : Scan) : Prop :=
  text.foldl step start = stop

namespace Leads

variable {start mid stop : Scan} {text rest : List Char}

theorem refl (s : Scan) : s.Leads [] s :=
  rfl

theorem append (h : start.Leads text mid) (hrest : mid.Leads rest stop) :
    start.Leads (text ++ rest) stop := by
  rw [Leads] at h hrest ⊢
  rw [List.foldl_append, h, hrest]

theorem cons {c : Char} (h : (start.step c).Leads text stop) : start.Leads (c :: text) stop :=
  h

end Leads

variable {words : List String}

/-! ## Pieces -/

/-- Texts that each extend the word in one kind of place do so one after the other. -/
theorem leads_flatMap {α : Type} {place : List Char → Place} {text value : α → List Char}
    {xs : List α} (h : ∀ x ∈ xs, ∀ word,
      Leads ⟨words, place word⟩ (text x) ⟨words, place ((value x).reverse ++ word)⟩)
    (word : List Char) :
    Leads ⟨words, place word⟩ (xs.flatMap text)
      ⟨words, place ((xs.flatMap value).reverse ++ word)⟩ := by
  induction xs generalizing word with
  | nil => exact Leads.refl _
  | cons x xs ih =>
      have hrest := ih (fun y hy ↦ h y (List.mem_cons_of_mem x hy)) ((value x).reverse ++ word)
      simpa using (h x List.mem_cons_self word).append hrest

theorem leads_chars {place : List Char → Place} {cs : List Char}
    (h : ∀ c ∈ cs, ∀ word, step ⟨words, place word⟩ c = ⟨words, place (c :: word)⟩)
    (word : List Char) : Leads ⟨words, place word⟩ cs ⟨words, place (cs.reverse ++ word)⟩ := by
  have hleads := @leads_flatMap words Char place (fun c ↦ [c]) (fun c ↦ [c]) cs h word
  rwa [List.flatMap_singleton'] at hleads

theorem leads_bare {cs : List Char} (h : ∀ c ∈ cs, Piece.isBare c = true) (word : List Char) :
    Leads ⟨words, .bare word⟩ cs ⟨words, .bare (cs.reverse ++ word)⟩ := by
  refine leads_chars (fun c hc word ↦ ?_) word
  have hbare := h c hc
  simp only [Piece.isBare, Bool.and_eq_true, Bool.not_eq_true', bne_iff_ne] at hbare
  obtain ⟨⟨⟨hblank, hsingle⟩, hdouble⟩, hslash⟩ := hbare
  simp [step, bareStep, hblank, hsingle, hdouble, hslash]

theorem leads_single {cs : List Char} (h : '\x27' ∉ cs) (word : List Char) :
    Leads ⟨words, .single word⟩ cs ⟨words, .single (cs.reverse ++ word)⟩ := by
  refine leads_chars (fun c hc word ↦ ?_) word
  have hquote : c ≠ '\x27' := fun heq ↦ h (heq ▸ hc)
  simp [step, hquote]

theorem leads_quotee {q : Quotee} (h : q.Valid) (word : List Char) :
    Leads ⟨words, .double word⟩ q.text ⟨words, .double (q.char :: word)⟩ := by
  obtain ⟨c, escaped⟩ := q
  cases escaped with
  | true =>
      have hspecial : isDoubleQuoteSpecial c = true := h
      have hline : c ≠ '\n' := by
        rintro rfl
        exact absurd hspecial (by decide)
      simp [Leads, Quotee.text, step, hspecial, hline]
  | false =>
      obtain ⟨hquote, hslash⟩ : c ≠ '"' ∧ c ≠ '\\' := by simpa [Quotee.Valid] using h
      simp [Leads, Quotee.text, step, hquote, hslash]

theorem leads_double {qs : List Quotee} (h : ∀ q ∈ qs, q.Valid) (word : List Char) :
    Leads ⟨words, .double word⟩ (qs.flatMap Quotee.text)
      ⟨words, .double ((qs.map Quotee.char).reverse ++ word)⟩ := by
  rw [List.map_eq_flatMap]
  exact leads_flatMap (fun q hq ↦ leads_quotee (h q hq)) word

/-- A piece extends the word in which it stands. -/
theorem leads_piece {p : Piece} (h : p.Valid) (word : List Char) :
    Leads ⟨words, .bare word⟩ p.text ⟨words, .bare (p.value.reverse ++ word)⟩ := by
  cases p with
  | bare cs => exact leads_bare h word
  | single cs =>
      have hclose (w : List Char) : Leads ⟨words, .single w⟩ ['\x27'] ⟨words, .bare w⟩ := rfl
      exact Leads.cons ((leads_single h word).append (hclose _))
  | double qs =>
      have hclose (w : List Char) : Leads ⟨words, .double w⟩ ['"'] ⟨words, .bare w⟩ := rfl
      exact Leads.cons ((leads_double h word).append (hclose _))
  | escaped c =>
      have hline : c ≠ '\n' := h
      simp [Leads, Piece.text, Piece.value, step, bareStep, hline]

theorem leads_pieces {ps : List Piece} (h : ∀ p ∈ ps, p.Valid) (word : List Char) :
    Leads ⟨words, .bare word⟩ (ps.flatMap Piece.text)
      ⟨words, .bare ((ps.flatMap Piece.value).reverse ++ word)⟩ :=
  leads_flatMap (fun p hp ↦ leads_piece (h p hp)) word

/-! ## Words -/

/-- Between words, a piece that is not empty and starts no comment is read as it is in a word. -/
theorem leads_first (words : List String) {p : Piece} (h : p.Valid) (hne : p.text ≠ [])
    (hcomment : p.text.head? ≠ some '#') :
    Leads ⟨words, .between⟩ p.text ⟨words, .bare p.value.reverse⟩ := by
  have hpiece : Leads ⟨words, .bare []⟩ p.text ⟨words, .bare (p.value.reverse ++ [])⟩ :=
    leads_piece h []
  rw [List.append_nil] at hpiece
  cases p with
  | bare cs =>
      obtain ⟨c, cs, rfl⟩ := List.exists_cons_of_ne_nil hne
      have hbare : Piece.isBare c = true := h c List.mem_cons_self
      have hsign : c ≠ '#' := fun heq ↦ hcomment (congrArg some heq)
      have hstep : step ⟨words, .between⟩ c = step ⟨words, .bare []⟩ c := by
        simp only [Piece.isBare, Bool.and_eq_true, Bool.not_eq_true', bne_iff_ne] at hbare
        obtain ⟨⟨⟨hblank, -⟩, -⟩, hslash⟩ := hbare
        simp [step, hblank, hslash, hsign]
      rw [Leads, Piece.text, List.foldl_cons, hstep]
      exact hpiece
  | single cs => exact hpiece
  | double qs => exact hpiece
  | escaped c =>
      have hline : c ≠ '\n' := h
      simp [Leads, Piece.text, Piece.value, step, isBlank, hline]

theorem leads_word {w : Spelling} (h : w.Valid) :
    Leads ⟨words, .between⟩ w.text ⟨words, .bare w.value.toList.reverse⟩ := by
  obtain ⟨ps⟩ := w
  obtain ⟨hvalid, hne, hcomment⟩ := h
  rw [Spelling.text] at hne hcomment ⊢
  rw [Spelling.value, String.toList_ofList]
  induction ps with
  | nil => exact absurd rfl hne
  | cons p ps ih =>
      have hrest : ∀ q ∈ ps, q.Valid := fun q hq ↦ hvalid q (List.mem_cons_of_mem p hq)
      rw [List.flatMap_cons] at hne hcomment
      rw [List.flatMap_cons, List.flatMap_cons]
      by_cases hempty : p.text = []
      · -- Only a bare piece can be empty, and then the word starts with the next one.
        obtain rfl : p = .bare [] := by cases p <;> simp_all [Piece.text]
        exact ih hrest hne hcomment
      · have hhead : p.text.head? ≠ some '#' := by
          obtain ⟨c, cs, htext⟩ := List.exists_cons_of_ne_nil hempty
          rw [htext] at hcomment ⊢
          exact hcomment
        have hfirst := leads_first words (hvalid p List.mem_cons_self) hempty hhead
        simpa using hfirst.append (leads_pieces hrest p.value.reverse)

/-! ## Lists of words -/

theorem leads_blank {cs : List Char} (h : Blank cs) :
    Leads ⟨words, .between⟩ cs ⟨words, .between⟩ := by
  induction cs with
  | nil => exact Leads.refl _
  | cons c cs ih =>
      have hstep : step ⟨words, .between⟩ c = ⟨words, .between⟩ := by
        simp [step, h c List.mem_cons_self]
      apply Leads.cons
      rw [hstep]
      exact ih fun d hd ↦ h d (List.mem_cons_of_mem c hd)

theorem step_bare_blank {c : Char} (h : isBlank c = true) (word : String) :
    step ⟨words, .bare word.toList.reverse⟩ c = ⟨word :: words, .between⟩ := by
  have hplain : c ≠ '\x27' ∧ c ≠ '"' ∧ c ≠ '\\' := by
    refine ⟨?_, ?_, ?_⟩ <;> rintro rfl <;> exact absurd h (by decide)
  obtain ⟨hsingle, hdouble, hslash⟩ := hplain
  simp [step, bareStep, close, h, hsingle, hdouble, hslash]

/-- What has been read so far: all words, the last of which may not be closed yet. -/
inductive Holds : Scan → List String → Prop
  | closed {done : List String} : Holds ⟨done, .between⟩ done.reverse
  | opened {done : List String} {word : String} :
      Holds ⟨done, .bare word.toList.reverse⟩ (done.reverse ++ [word])

theorem Holds.finish {s : Scan} {ws : List String} (h : s.Holds ws) : s.finish = some ws := by
  cases h with
  | closed => rfl
  | opened => simp [Scan.finish, Scan.close]

theorem Holds.blank {s : Scan} {ws : List String} (h : s.Holds ws) {cs : List Char}
    (hcs : Blank cs) : (cs.foldl step s).Holds ws := by
  cases cs with
  | nil => exact h
  | cons c cs =>
      have hc : isBlank c = true := hcs c List.mem_cons_self
      have hrest : Blank cs := fun d hd ↦ hcs d (List.mem_cons_of_mem c hd)
      rw [List.foldl_cons]
      cases h with
      | closed =>
          rw [← List.foldl_cons, leads_blank hcs]
          exact .closed
      | @opened done word =>
          rw [step_bare_blank hc, leads_blank hrest, ← List.reverse_cons]
          exact .closed

theorem holds_spells {ws : List String} {cs : List Char} (h : Spells ws cs) (done : List String) :
    (cs.foldl step ⟨done, .between⟩).Holds (done.reverse ++ ws) := by
  induction h generalizing done with
  | nil hblanks =>
      rw [leads_blank hblanks, List.append_nil]
      exact .closed
  | last hblanks hw htail =>
      rw [List.foldl_append, (leads_blank hblanks).append (leads_word hw)]
      exact Holds.opened.blank htail
  | @cons blanks rest b w ws hblanks hw hb _ ih =>
      rw [List.foldl_append, (leads_blank hblanks).append (leads_word hw), List.foldl_cons,
        step_bare_blank hb]
      simpa using ih (w.value :: done)

end Scan

/-- A text is split into the words that it spells. -/
theorem split_spells {ws : List String} {text : String} (h : Spells ws text.toList) :
    split text = some ws :=
  (Scan.holds_spells h []).finish

end CompileFlags.Words
