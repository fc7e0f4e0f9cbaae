import CompileFlags.Proofs.Text.Spelling

/-!
# Joined words are split again

A word is written bare where that is safe, and otherwise in single quotes, each quote inside it
standing behind a backslash between two quoted texts. Both are spellings of the word, and words in a
line are written with a blank between them, so a line spells its words.
-/

namespace CompileFlags.Words

/-! ## Words -/

theorem isBare_of_not_needsQuotes {c : Char} (h : needsQuotes c = false) :
    Piece.isBare c = true ∧ c ≠ '#' := by
  have hne {d : Char} (hd : needsQuotes d = true) : c ≠ d := by
    rintro rfl
    exact absurd (h.symm.trans hd) Bool.false_ne_true
  constructor
  · have hspace : c ≠ ' ' := hne (by decide)
    have htab : c ≠ '\t' := hne (by decide)
    have hline : c ≠ '\n' := hne (by decide)
    have hsingle : c ≠ '\x27' := hne (by decide)
    have hdouble : c ≠ '"' := hne (by decide)
    have hslash : c ≠ '\\' := hne (by decide)
    simp [Piece.isBare, isBlank, hspace, htab, hline, hsingle, hdouble, hslash]
  · exact hne (by decide)

/-- The pieces of a quoted text, the first of which is the one that has been opened. -/
theorem exists_pieces_quoted (cs : List Char) :
    ∃ (ds : List Char) (ps : List Piece), (∀ p ∈ .single ds :: ps, p.Valid) ∧
      (Piece.single ds :: ps).flatMap Piece.text =
        '\x27' :: cs.flatMap quoteChar ++ ['\x27'] ∧
      (Piece.single ds :: ps).flatMap Piece.value = cs := by
  induction cs with
  | nil => exact ⟨[], [], by simp [Piece.Valid], rfl, rfl⟩
  | cons c cs ih =>
      obtain ⟨ds, ps, hvalid, htext, hvalue⟩ := ih
      by_cases hc : c = '\x27'
      · subst hc
        refine ⟨[], .escaped '\x27' :: .single ds :: ps, ?_, ?_, ?_⟩
        · have hquote : Piece.Valid (.escaped '\x27') := by simp [Piece.Valid]
          exact List.forall_mem_cons.mpr
            ⟨List.not_mem_nil, List.forall_mem_cons.mpr ⟨hquote, hvalid⟩⟩
        · rw [List.flatMap_cons, List.flatMap_cons, htext]
          simp [Piece.text, quoteChar]
        · rw [List.flatMap_cons, List.flatMap_cons, hvalue]
          rfl
      · obtain ⟨hds, hps⟩ := List.forall_mem_cons.mp hvalid
        have hcons : Piece.Valid (.single (c :: ds)) := by
          simpa [Piece.Valid, Ne.symm hc] using hds
        refine ⟨c :: ds, ps, List.forall_mem_cons.mpr ⟨hcons, hps⟩, ?_, ?_⟩
        · simpa [Piece.text, quoteChar, hc] using htext
        · simpa [Piece.value] using hvalue

/-- A written word is a spelling of the word. -/
theorem exists_spelling_quote (word : String) :
    ∃ w : Spelling, w.Valid ∧ w.text = (quote word).toList ∧ w.value = word := by
  unfold quote
  split
  · obtain ⟨ds, ps, hvalid, htext, hvalue⟩ := exists_pieces_quoted word.toList
    refine ⟨⟨.single ds :: ps⟩, ⟨hvalid, ?_, ?_⟩, ?_, ?_⟩
    · simp [Spelling.text, Piece.text]
    · simp [Spelling.text, Piece.text]
    · rw [Spelling.text, htext, String.toList_ofList]
    · rw [Spelling.value, hvalue, String.ofList_toList]
  · rename_i h
    simp only [Bool.or_eq_true, List.any_eq_true, not_or, not_exists, not_and,
      Bool.not_eq_true] at h
    obtain ⟨hne, hplain⟩ := h
    have hbare : Piece.Valid (.bare word.toList) :=
      fun c hc ↦ (isBare_of_not_needsQuotes (hplain c hc)).1
    have htext : Spelling.text ⟨[.bare word.toList]⟩ = word.toList := by
      simp [Spelling.text, Piece.text]
    refine ⟨⟨[.bare word.toList]⟩, ⟨?_, ?_, ?_⟩, htext, ?_⟩
    · simpa using hbare
    · rw [htext]
      simpa using hne
    · rw [htext]
      intro hhead
      exact (isBare_of_not_needsQuotes (hplain _ (List.mem_of_head? hhead))).2 rfl
    · simp [Spelling.value, Piece.value]

/-! ## Lines -/

theorem join_cons_cons (w v : String) (ws : List String) :
    join (w :: v :: ws) = quote w ++ " " ++ join (v :: ws) := by
  simp [join, String.intercalate_cons_cons]

theorem blank_nil : Blank [] :=
  fun _ h ↦ absurd h List.not_mem_nil

theorem spells_join (ws : List String) : Spells ws (join ws).toList := by
  induction ws with
  | nil =>
      have hjoin : join [] = "" := rfl
      exact hjoin ▸ .nil blank_nil
  | cons word ws ih =>
      obtain ⟨w, hvalid, htext, hvalue⟩ := exists_spelling_quote word
      cases ws with
      | nil =>
          have hjoin : join [word] = quote word := by simp [join]
          have hlast := Spells.last blank_nil hvalid blank_nil
          rwa [htext, hvalue, List.nil_append, List.append_nil, ← hjoin] at hlast
      | cons v ws =>
          have hspace : isBlank ' ' = true := by decide
          have hcons := Spells.cons blank_nil hvalid hspace ih
          rw [htext, hvalue, List.nil_append] at hcons
          simpa [join_cons_cons] using hcons

theorem Spells.append_blank {ws : List String} {cs tail : List Char} (h : Spells ws cs)
    (htail : Blank tail) : Spells ws (cs ++ tail) := by
  have happend {blanks : List Char} (hblanks : Blank blanks) : Blank (blanks ++ tail) :=
    List.forall_mem_append.mpr ⟨hblanks, htail⟩
  induction h with
  | nil hblanks => exact .nil (happend hblanks)
  | last hblanks hw hend =>
      rw [List.append_assoc]
      exact .last hblanks hw (happend hend)
  | cons hblanks hw hb _ ih =>
      rw [List.append_assoc, List.cons_append]
      exact .cons hblanks hw hb ih

theorem split_join (ws : List String) : split (join ws) = some ws :=
  split_spells (spells_join ws)

theorem split_join_newline (ws : List String) : split (join ws ++ "\n") = some ws := by
  apply split_spells
  rw [String.toList_append]
  exact (spells_join ws).append_blank (by simp [Blank, isBlank])

end CompileFlags.Words
