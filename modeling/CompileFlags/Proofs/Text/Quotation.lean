import CompileFlags.Proofs.Text.Spelling
import CompileFlags.Text.Quotation

/-!
# A text is split unless it leaves a quote open

The place that the scanner has reached says how the text so far is built, and a text that is closed
leads to a place outside of quotes. So the scanner ends inside a quotation exactly for the texts
that open one and do not close it.
-/

namespace CompileFlags.Words

namespace Scan

/-- How a text is built that leads to a place. -/
inductive Stands : List Char → Place → Prop
  | between {cs : List Char} : Closed true cs → Stands cs .between
  | escapeBetween {cs : List Char} : Closed true cs → Stands (cs ++ ['\\']) .escapeBetween
  | comment {cs ds : List Char} : Closed true cs → '\n' ∉ ds → Stands (cs ++ '#' :: ds) .comment
  | bare {cs word : List Char} : Closed false cs → Stands cs (.bare word)
  | escapeBare {cs word : List Char} : Closed false cs → Stands (cs ++ ['\\']) (.escapeBare word)
  | single {rest : Bool} {cs ds word : List Char} : Closed rest cs → '\x27' ∉ ds →
      Stands (cs ++ '\x27' :: ds) (.single word)
  | double {rest : Bool} {cs ds word : List Char} : Closed rest cs → Quotable ds →
      Stands (cs ++ '"' :: ds) (.double word)
  | escapeDouble {rest : Bool} {cs ds word : List Char} : Closed rest cs → Quotable ds →
      Stands (cs ++ '"' :: ds ++ ['\\']) (.escapeDouble word)

/-- Outside of quotes and comments a character means the same in a word and, apart from comment
signs and backslashes, in front of one. -/
theorem stands_bareStep {rest : Bool} {cs : List Char} {c : Char} (h : Closed rest cs)
    (hsign : rest = true → c ≠ '#') (hslash : rest = true → c ≠ '\\') (words : List String)
    (word : List Char) : Stands (cs ++ [c]) (bareStep words word c).place := by
  unfold bareStep
  split
  · subst c
    exact .single h List.not_mem_nil
  split
  · subst c
    exact .double h .nil
  split
  · subst c
    cases rest with
    | true => exact absurd rfl (hslash rfl)
    | false => exact .escapeBare h
  split
  · exact .between (.blank h ‹_›)
  · have hbare : Piece.isBare c = true := by simp [Piece.isBare, *]
    exact .bare (.bare h hbare hsign)

theorem stands_step {cs : List Char} {s : Scan} (h : Stands cs s.place) (c : Char) :
    Stands (cs ++ [c]) (s.step c).place := by
  obtain ⟨words, place⟩ := s
  cases h with
  | between h =>
      simp only [step]
      split
      · exact .between (.blank h ‹_›)
      split
      · subst c
        exact .comment h List.not_mem_nil
      split
      · subst c
        exact .escapeBetween h
      · exact stands_bareStep h (fun _ ↦ ‹_›) (fun _ ↦ ‹_›) words []
  | @escapeBetween cs h =>
      rw [List.append_assoc]
      simp only [step]
      split
      · subst c
        exact .between (.joined h)
      · exact .bare (.escaped h ‹_›)
  | @comment cs ds h hline =>
      simp only [step]
      split
      · subst c
        exact .between (.comment h hline)
      · rw [List.append_assoc]
        exact .comment h (by simp [hline, Ne.symm ‹_›])
  | bare h =>
      exact stands_bareStep h (absurd · Bool.false_ne_true) (absurd · Bool.false_ne_true) words _
  | @escapeBare cs word h =>
      rw [List.append_assoc]
      by_cases hline : c = '\n'
      · subst c
        exact .bare (.joined h)
      · exact .bare (.escaped h hline)
  | @single rest cs ds word h hquote =>
      by_cases hc : c = '\x27'
      · subst c
        exact .bare (.single h hquote)
      · rw [List.append_assoc]
        simp only [step, if_neg hc]
        exact .single h (by simp [hquote, Ne.symm hc])
  | @double rest cs ds word h hds =>
      by_cases hquote : c = '"'
      · subst c
        exact .bare (.double h hds)
      by_cases hslash : c = '\\'
      · subst c
        exact .escapeDouble h hds
      · rw [List.append_assoc]
        simp only [step, if_neg hquote, if_neg hslash]
        exact .double h (.plain hds hquote hslash)
  | @escapeDouble rest cs ds word h hds =>
      have htext : cs ++ '"' :: ds ++ ['\\'] ++ [c] = cs ++ '"' :: (ds ++ ['\\', c]) := by simp
      rw [htext]
      exact .double h (.escaped hds)

theorem stands_foldl {cs : List Char} {s : Scan} (h : Stands cs s.place) (ds : List Char) :
    Stands (cs ++ ds) (ds.foldl step s).place := by
  induction ds generalizing cs s with
  | nil => rwa [List.append_nil]
  | cons d ds ih => simpa using ih (stands_step h d)

/-! ## Closed texts lead outside of quotes -/

inductive Outside : Bool → Place → Prop
  | between : Outside true .between
  | bare (word : List Char) : Outside false (.bare word)

theorem leads_quotable {ds : List Char} (h : Quotable ds) (words : List String)
    (word : List Char) : ∃ more, Leads ⟨words, .double word⟩ ds ⟨words, .double more⟩ := by
  induction h with
  | nil => exact ⟨word, Leads.refl _⟩
  | @plain ds c _ hquote hslash ih =>
      obtain ⟨more, hleads⟩ := ih
      have hstep : Leads ⟨words, .double more⟩ [c] ⟨words, .double (c :: more)⟩ := by
        simp [Leads, step, hquote, hslash]
      exact ⟨_, hleads.append hstep⟩
  | @escaped ds c _ ih =>
      obtain ⟨more, hleads⟩ := ih
      have hstep : Leads ⟨words, .double more⟩ ['\\', c] ⟨words, .double _⟩ := rfl
      exact ⟨_, hleads.append hstep⟩

namespace Outside

variable {rest : Bool} {s : Scan} {c : Char} {ds : List Char}

theorem blank (h : Outside rest s.place) (hc : isBlank c = true) :
    Outside true (s.step c).place := by
  obtain ⟨words, place⟩ := s
  cases h with
  | between => simpa [step, hc] using .between
  | bare word =>
      have hstep := @step_bare_blank words c hc (String.ofList word.reverse)
      rw [String.toList_ofList, List.reverse_reverse] at hstep
      rw [hstep]
      exact .between

theorem plain (h : Outside rest s.place) (hc : Piece.isBare c = true)
    (hsign : rest = true → c ≠ '#') : Outside false (s.step c).place := by
  obtain ⟨words, place⟩ := s
  simp only [Piece.isBare, Bool.and_eq_true, Bool.not_eq_true', bne_iff_ne] at hc
  obtain ⟨⟨⟨hblank, hsingle⟩, hdouble⟩, hslash⟩ := hc
  cases h with
  | between =>
      have hstep : step ⟨words, .between⟩ c = ⟨words, .bare [c]⟩ := by
        simp [step, bareStep, hblank, hsingle, hdouble, hslash, hsign rfl]
      rw [hstep]
      exact .bare _
  | bare word =>
      have hstep : step ⟨words, .bare word⟩ c = ⟨words, .bare (c :: word)⟩ := by
        simp [step, bareStep, hblank, hsingle, hdouble, hslash]
      rw [hstep]
      exact .bare _

theorem joined (h : Outside rest s.place) :
    Outside rest (['\\', '\n'].foldl step s).place := by
  obtain ⟨words, place⟩ := s
  cases h with
  | between => exact .between
  | bare word => exact .bare word

theorem escaped (h : Outside rest s.place) (hc : c ≠ '\n') :
    Outside false (['\\', c].foldl step s).place := by
  obtain ⟨words, place⟩ := s
  cases h with
  | between =>
      have hstep : ['\\', c].foldl step ⟨words, .between⟩ = ⟨words, .bare [c]⟩ := by
        simp [step, isBlank, hc]
      rw [hstep]
      exact .bare _
  | bare word => exact .bare _

theorem comment (h : Outside true s.place) (hds : '\n' ∉ ds) :
    Outside true (('#' :: ds ++ ['\n']).foldl step s).place := by
  obtain ⟨words, place⟩ := s
  cases h
  have hinside : Leads ⟨words, .comment⟩ ds ⟨words, .comment⟩ := by
    induction ds with
    | nil => exact Leads.refl _
    | cons d ds ih =>
        rw [List.mem_cons, not_or] at hds
        apply Leads.cons
        simpa [step, Ne.symm hds.1] using ih hds.2
  have hopen : Leads ⟨words, .between⟩ ('#' :: ds) ⟨words, .comment⟩ := hinside
  rw [List.foldl_append, hopen]
  exact .between

theorem openSingle (h : Outside rest s.place) (hds : '\x27' ∉ ds) :
    ∃ words word, ('\x27' :: ds).foldl step s = ⟨words, .single word⟩ := by
  obtain ⟨words, place⟩ := s
  cases h with
  | between => exact ⟨words, _, leads_single hds []⟩
  | bare word => exact ⟨words, _, leads_single hds word⟩

theorem openDouble (h : Outside rest s.place) (hds : Quotable ds) :
    ∃ words word, ('"' :: ds).foldl step s = ⟨words, .double word⟩ := by
  obtain ⟨words, place⟩ := s
  cases h with
  | between => exact ⟨words, leads_quotable hds words []⟩
  | bare word => exact ⟨words, leads_quotable hds words word⟩

end Outside

theorem outside_closed {rest : Bool} {cs : List Char} (h : Closed rest cs) :
    Outside rest (cs.foldl step start).place := by
  induction h with
  | empty => exact .between
  | blank _ hc ih =>
      rw [List.foldl_append]
      exact ih.blank hc
  | comment _ hline ih =>
      rw [List.append_assoc, List.foldl_append]
      exact ih.comment hline
  | joined _ ih =>
      rw [List.foldl_append]
      exact ih.joined
  | bare _ hc hsign ih =>
      rw [List.foldl_append]
      exact ih.plain hc hsign
  | escaped _ hc ih =>
      rw [List.foldl_append]
      exact ih.escaped hc
  | single _ hds ih =>
      obtain ⟨words, word, hopen⟩ := ih.openSingle hds
      rw [List.foldl_append, List.foldl_append, hopen]
      exact .bare word
  | double _ hds ih =>
      obtain ⟨words, word, hopen⟩ := ih.openDouble hds
      rw [List.foldl_append, List.foldl_append, hopen]
      exact .bare word

theorem openQuote_of_finish {cs : List Char} {s : Scan} (h : Stands cs s.place)
    (hfinish : s.finish = none) : OpenQuote cs := by
  obtain ⟨words, place⟩ := s
  cases h with
  | between | escapeBetween | comment | bare | escapeBare => cases hfinish
  | single h hds => exact .single h hds
  | double h hds => exact .double h hds
  | escapeDouble h hds => exact .escape h hds

theorem finish_of_openQuote {cs : List Char} (h : OpenQuote cs) :
    (cs.foldl step start).finish = none := by
  cases h with
  | single h hds =>
      obtain ⟨words, word, hopen⟩ := (outside_closed h).openSingle hds
      rw [List.foldl_append, hopen]
      rfl
  | double h hds =>
      obtain ⟨words, word, hopen⟩ := (outside_closed h).openDouble hds
      rw [List.foldl_append, hopen]
      rfl
  | escape h hds =>
      obtain ⟨words, word, hopen⟩ := (outside_closed h).openDouble hds
      rw [List.foldl_append, List.foldl_append, hopen]
      rfl

end Scan

theorem split_eq_none_iff (text : String) : split text = none ↔ OpenQuote text.toList := by
  constructor
  · have hstart : Scan.Stands [] Scan.start.place := .between .empty
    exact Scan.openQuote_of_finish (Scan.stands_foldl hstart text.toList)
  · exact Scan.finish_of_openQuote

instance (cs : List Char) : Decidable (OpenQuote cs) :=
  decidable_of_iff (split (String.ofList cs) = none)
    (by rw [split_eq_none_iff, String.toList_ofList])

end CompileFlags.Words
