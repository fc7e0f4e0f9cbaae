import CompileFlags.Proofs.Json.Skipping
import CompileFlags.Proofs.Json.Verdict.Numbers
import CompileFlags.Proofs.Json.Verdict.Strings

/-!
# Verdicts on values that are skipped

What a stack of open lists and objects still demands of the text is said by `After`. Every round
reads the start of a value, and what the round leaves open is judged by the rounds after it, on a
shorter text.
-/

namespace CompileFlags.Json.Skip

open Form

/-! ## What a stack demands -/

def Items : Frame → Bytes → Prop
  | .list => Elements
  | .object => Members

/-- What stands before the value of an item. -/
def Leading : Frame → Bytes → Prop
  | .list, l => Blank l
  | .object, l => ∃ a k kv b c, l = a ++ byte '"' :: k ++ byte '"' :: b ++ byte ':' :: c ∧
      Blank a ∧ Body .skip k kv ∧ Blank b ∧ Blank c

inductive After : List Frame → Bytes → Prop
  | nil : After [] []
  | closed {frame : Frame} {outer : List Frame} {b t : Bytes} : Blank b → After outer t →
      After (frame :: outer) (b ++ frame.closing :: t)
  | more {frame : Frame} {outer : List Frame} {b m t : Bytes} : Blank b → Items frame m →
      After outer t → After (frame :: outer) (b ++ byte ',' :: (m ++ frame.closing :: t))

/-- What a stack demands where an item is due. -/
def Due : List Frame → Bytes → Prop
  | [], w => w = []
  | frame :: outer, w => ∃ m t, w = m ++ frame.closing :: t ∧ Items frame m ∧ After outer t

section

variable {frame : Frame} {outer : List Frame} {a b l v t w : Bytes}

theorem blank_append (ha : Blank a) (hb : Blank b) : Blank (a ++ b) :=
  fun c hc ↦ (List.mem_append.mp hc).elim (ha c) (hb c)

theorem items_one (hl : Leading frame l) (hv : Value v) (hb : Blank b) :
    Items frame (l ++ v ++ b) := by
  cases frame with
  | list => exact .one hl hv hb
  | object =>
      obtain ⟨a, k, kv, c, d, rfl, ha, hk, hc, hd⟩ := hl
      simpa [Items] using Members.one ha hk hc hd hv hb

theorem items_cons (hl : Leading frame l) (hv : Value v) (hb : Blank b) (hw : Items frame w) :
    Items frame (l ++ v ++ b ++ byte ',' :: w) := by
  cases frame with
  | list => exact .cons hl hv hb hw
  | object =>
      obtain ⟨a, k, kv, c, d, rfl, ha, hk, hc, hd⟩ := hl
      simpa [Items] using Members.cons ha hk hc hd hv hb hw

theorem items_blank (ha : Blank a) (h : Items frame w) : Items frame (a ++ w) := by
  cases frame with
  | list =>
      cases h with
      | one hb hv hd => simpa [Items] using Elements.one (blank_append ha hb) hv hd
      | cons hb hv hd hrest => simpa [Items] using Elements.cons (blank_append ha hb) hv hd hrest
  | object =>
      cases h with
      | one hb hk hc hd hv he => simpa [Items] using Members.one (blank_append ha hb) hk hc hd hv he
      | cons hb hk hc hd hv he hrest =>
          simpa [Items] using Members.cons (blank_append ha hb) hk hc hd hv he hrest

theorem value_empty (frame : Frame) (hb : Blank b) :
    Value (frame.opening :: b ++ [frame.closing]) := by
  cases frame with
  | list => exact .emptyList hb
  | object => exact .emptyObject hb

theorem value_items (h : Items frame w) : Value (frame.opening :: w ++ [frame.closing]) := by
  cases frame with
  | list => exact .list h
  | object => exact .object h

theorem due_of_value (hl : Leading frame l) (hv : Value v) (h : After (frame :: outer) t) :
    Due (frame :: outer) (l ++ (v ++ t)) := by
  cases h with
  | @closed _ _ b t hb ht => exact ⟨l ++ v ++ b, t, by simp, items_one hl hv hb, ht⟩
  | @more _ _ b m t hb hm ht =>
      exact ⟨l ++ v ++ b ++ byte ',' :: m, t, by simp, items_cons hl hv hb hm, ht⟩

end

/-! ## Closing -/

/-- What is read after a value, or behind an opening bracket, up to where an item is due. -/
inductive Closes : Bool → List Frame → List Frame → Bytes → Prop
  | done {after : Bool} : Closes after [] [] []
  | comma {frame : Frame} {outer : List Frame} {b : Bytes} : Blank b →
      Closes true (frame :: outer) (frame :: outer) (b ++ [byte ','])
  | item {frame : Frame} {outer : List Frame} {b : Bytes} : Blank b →
      Closes false (frame :: outer) (frame :: outer) b
  | closed {after : Bool} {frame : Frame} {outer stack : List Frame} {b u : Bytes} : Blank b →
      Closes true outer stack u →
      Closes after (frame :: outer) stack (b ++ frame.closing :: u)

theorem Closes.blank {after : Bool} {frame : Frame} {outer stack : List Frame} {b : UInt8}
    {u : Bytes} (hb : isBlank b) (h : Closes after (frame :: outer) stack u) :
    Closes after (frame :: outer) stack (b :: u) := by
  cases h with
  | comma ha => exact .comma (List.forall_mem_cons.mpr ⟨hb, ha⟩)
  | item ha => exact .item (List.forall_mem_cons.mpr ⟨hb, ha⟩)
  | closed ha h => exact .closed (List.forall_mem_cons.mpr ⟨hb, ha⟩) h

theorem Closes.after {stack stack' : List Frame} {u w : Bytes} {first : Bool}
    (h : Closes first stack stack' u) (hfirst : first = true) (hw : Due stack' w) :
    After stack (u ++ w) := by
  induction h with
  | done =>
      obtain rfl : w = [] := hw
      exact .nil
  | comma hb =>
      obtain ⟨m, t, rfl, hm, ht⟩ := hw
      simpa using After.more hb hm ht
  | item => cases hfirst
  | closed hb _ ih => simpa using After.closed hb (ih rfl hw)

theorem Closes.opened {frame : Frame} {stack stack' : List Frame} {u w : Bytes}
    (h : Closes false (frame :: stack) stack' u) (hw : Due stack' w) :
    ∃ v t, frame.opening :: (u ++ w) = v ++ t ∧ Value v ∧ After stack t := by
  cases h with
  | item hb =>
      obtain ⟨m, t, rfl, hm, ht⟩ := hw
      exact ⟨_, t, by simp, value_items (items_blank hb hm), ht⟩
  | closed hb h => exact ⟨_, _, by simp, value_empty frame hb, h.after rfl hw⟩

theorem close_verdict (after : Bool) (stack : List Frame) (s : Bytes) :
    Verdict .gap (Closes after stack) (fun _ ↦ close after stack) s := by
  induction s generalizing after stack with
  | nil =>
      cases stack with
      | nil => exact .pure .done fun _ _ ↦ by rw [close]
      | cons frame outer =>
          exact .starves (e := .eof frame.unfinished) rfl fun _ _ ↦ by rw [close]
  | cons b s ih =>
      cases stack with
      | nil => exact .pure .done fun _ _ ↦ by rw [close]
      | cons frame outer =>
          by_cases hb : isBlank b
          · apply Verdict.cons (fun _ ↦ close after (frame :: outer))
            · rw [Spot.step_blank hb]
              exact (ih after (frame :: outer)).imp fun _ _ h ↦ h.blank hb
            · intro n r
              rw [close, if_pos hb]
          by_cases hcomma : b = byte ',' ∧ after
          · obtain ⟨rfl, rfl⟩ := hcomma
            refine .takes (u := [byte ',']) rfl (.comma blank_nil) rfl fun tail n _ ↦ ?_
            simp +decide [close]
          by_cases hclosing : b = frame.closing
          · subst hclosing
            apply Verdict.cons (fun _ ↦ close true outer)
            · have hspot : Spot.gap.step frame.closing = .gap := by cases frame <;> decide
              rw [hspot]
              exact (ih true outer).imp fun _ _ h ↦ .closed blank_nil h
            · intro n r
              rw [close, if_neg hb, if_neg hcomma, if_pos rfl]
          -- Any other byte may start an item, but not right behind a value.
          cases after with
          | true =>
              refine .fails (e := fun _ _ ↦ .malformed frame.expectedEnd) fun tail n ↦ ?_
              rw [List.cons_append, close, if_neg hb, if_neg hcomma, if_neg hclosing, if_pos rfl]
          | false =>
              refine .takes (u := []) rfl (.item blank_nil) rfl fun tail n _ ↦ ?_
              rw [List.cons_append, close, if_neg hb, if_neg hcomma, if_neg hclosing,
                if_neg Bool.false_ne_true]

/-! ## Starting -/

inductive Starts : Option Frame → Bytes → Prop
  | scalar {v : Bytes} : Value v → Starts none v
  | bracket {frame : Frame} : Starts (some frame) [frame.opening]

theorem start_scalar {b : UInt8} {r : Bytes} {p : Spot} {form : Unit → Bytes → Prop}
    {skip : Bytes → Except Error Bytes} (h : Judged p form (skipper skip) r)
    (hspot : Spot.gap.step b = p) (hvalue : ∀ u, form () u → Value (b :: u))
    (hstart : ∀ r, start (b :: r) = (skip r).map (none, ·)) :
    Judged .gap Starts (fun _ ↦ start) (b :: r) := by
  apply Judged.cons (fun _ r ↦ (skip r).map (none, ·)) _ fun _ r ↦ hstart r
  rw [hspot]
  apply (h.map (fun _ ↦ none) fun _ u hu ↦ .scalar (hvalue u hu)).of_eq
  intro tail n
  simp only [skipper]
  rcases skip (r ++ tail) with e | rest <;> rfl

theorem not_starts_nil (opened : Option Frame) : ¬ Starts opened [] := by
  rintro (hv | _)
  obtain ⟨c, t, heq, -⟩ := value_cons hv
  cases heq

theorem start_word {b : UInt8} (cs : List Char) (r : Bytes)
    (hcs : cs.all fun c ↦ Spot.gap.step (byte c) = .gap) (hb : Spot.gap.step b = .gap)
    (hvalue : Value (b :: cs.map byte))
    (hstart : ∀ r, start (b :: r) = (literal cs r).map (none, ·)) :
    Judged .gap Starts (fun _ ↦ start) (b :: r) := by
  apply start_scalar (.inl (Verdict.literal hcs r)) hb _ hstart
  rintro u rfl
  exact hvalue

theorem start_judged (s : Bytes) : Judged .gap (Led Starts) (fun _ ↦ start) s := by
  refine Judged.of_token (e := .eof .value) (fun n s ↦ ?_) rfl (fun _ ↦ rfl) (fun b r hb ↦ ?_) s
  · simp only [start, skipBlanks_skipBlanks]
  by_cases hn : b = byte 'n'
  · subst hn
    exact start_word ['u', 'l', 'l'] r (by decide) (by decide) .null
      fun _ ↦ by simp +decide [start, skipBlanks]
  by_cases ht : b = byte 't'
  · subst ht
    exact start_word ['r', 'u', 'e'] r (by decide) (by decide) .true
      fun _ ↦ by simp +decide [start, skipBlanks]
  by_cases hf : b = byte 'f'
  · subst hf
    exact start_word ['a', 'l', 's', 'e'] r (by decide) (by decide) .false
      fun _ ↦ by simp +decide [start, skipBlanks]
  by_cases hminus : b = byte '-'
  · subst hminus
    exact start_scalar (Judged.numeral_minus r) rfl (fun _ ↦ .numeral) start_minus
  by_cases hdigit : isDigit b
  · have hjudged := (Judged.numeral_digit hdigit r).map (fun _ ↦ (none : Option Frame))
      fun _ u hu ↦ Starts.scalar (.numeral hu)
    apply hjudged.of_eq
    intro tail n
    rw [List.cons_append, start_digit hdigit, skipper]
    rcases Number.skipUnsigned (b :: (r ++ tail)) with e | rest <;> rfl
  by_cases hquote : b = byte '"'
  · subst hquote
    apply start_scalar (.inl (Verdict.skip r)) rfl _ start_quote
    rintro u ⟨spelled, v, rfl, hbody⟩
    exact .string hbody
  by_cases hbracket : ∃ frame : Frame, b = frame.opening
  · obtain ⟨frame, rfl⟩ := hbracket
    refine .inl (.takes (u := [frame.opening]) rfl .bracket ?_ fun tail n _ ↦ ?_)
    · cases frame <;> rfl
    · rw [List.cons_append, start_opening]
  · have hlist : b ≠ byte '[' := fun h ↦ hbracket ⟨.list, h⟩
    have hobject : b ≠ byte '\x7b' := fun h ↦ hbracket ⟨.object, h⟩
    refine .inl (.fails (e := fun _ _ ↦ .malformed .expectedValue) fun tail n ↦ ?_)
    simp [start, skipBlanks_cons hb, hn, ht, hf, hminus, hdigit, hquote, hlist, hobject]

theorem name_verdict (s : Bytes) :
    Verdict .gap
      (Led fun _ u ↦ ∃ k kv b, u = byte '"' :: (k ++ byte '"' :: (b ++ [byte ':'])) ∧
        Body .skip k kv ∧ Blank b)
      (skipper name) s := by
  refine .of_token (e := .eof .object) (fun n s ↦ ?_) rfl (fun _ ↦ rfl) (fun c r hc ↦ ?_) s
  · simp only [skipper, name, skipBlanks_skipBlanks]
  by_cases hquote : c = byte '"'
  · subst hquote
    apply Verdict.cons (skipper fun r ↦ (Text.skip r).bind colon)
    · apply (Verdict.skip r).bind (fun _ ↦ skipper colon)
      · intro n r
        simp only [skipper]
        rcases Text.skip r with e | rest <;> rfl
      · rintro - u left rfl ⟨k, kv, rfl, hk⟩
        apply (Verdict.colon left).imp
        rintro - v ⟨b, m, rfl, hb, rfl⟩
        exact ⟨k, kv, b, by simp, hk, hb⟩
    · intro n r
      simp only [skipper, name, skipBlanks_cons hc, if_true]
  · refine .fails (e := fun _ _ ↦ .malformed .keyNotString) fun tail n ↦ ?_
    simp only [skipper, List.cons_append, name, skipBlanks_cons hc, if_neg hquote]
    rfl

/-! ## Rounds -/

/-- A value behind blanks and what the stack demands then. -/
def Round (stack : List Frame) (u : Bytes) : Prop :=
  ∃ a v t, u = a ++ (v ++ t) ∧ Blank a ∧ Value v ∧ After stack t

def roundsReader (stack : List Frame) : Nat → Reader Unit :=
  fun n s ↦ (rounds (n + 1) stack s).map ((), ·)

def resumeReader (stack : List Frame) : Nat → Reader Unit :=
  fun n s ↦ (resume n (stack, s)).map ((), ·)

/-- The rest of a round, after the start of its value. -/
def afterStart (stack : List Frame) (opened : Option Frame) : Nat → Reader Unit :=
  fun n s ↦
    (close opened.isNone (opened.toList ++ stack) s).bind fun r ↦ resumeReader r.1 n r.2

theorem roundsReader_eq (stack : List Frame) (n : Nat) (s : Bytes) :
    roundsReader stack n s = (start s).bind fun r ↦ afterStart stack r.1 n r.2 := by
  have hresume (r : Except Error (List Frame × Bytes)) :
      (r >>= resume n).map (((), ·) : Bytes → Unit × Bytes) =
        r.bind fun r ↦ resumeReader r.1 n r.2 := by
    cases r <;> rfl
  rw [roundsReader]
  rcases hstart : start s with e | ⟨_ | frame, tail⟩
  · simp [rounds, hstart, Except.bind, bind, Except.map]
  · rw [rounds_scalar hstart, hresume]
    rfl
  · rw [rounds_opened hstart, hresume]
    rfl

theorem resume_judged {bound : Nat}
    (ih : ∀ s, s.length < bound → ∀ stack,
      Judged .gap (fun _ ↦ Round stack) (roundsReader stack) s)
    (stack : List Frame) {s : Bytes} (hs : s.length < bound) :
    Judged .gap (fun _ ↦ Due stack) (fun n ↦ resumeReader stack (n + 1)) s := by
  match stack with
  | [] => exact .inl (.pure (x := ()) rfl fun _ _ ↦ rfl)
  | .list :: outer =>
      apply ((ih s hs (.list :: outer)).imp _).of_eq fun _ _ ↦ rfl
      rintro - u ⟨a, v, t, rfl, ha, hv, ht⟩
      exact due_of_value ha hv ht
  | .object :: outer =>
      -- A name stands before the value that is due.
      apply Judged.bind_verdict (name_verdict s) (fun _ ↦ roundsReader (.object :: outer))
      · intro n r
        simp only [resumeReader, resume, skipper, bind]
        rcases name r with e | rest <;> rfl
      · rintro - u left rfl ⟨a, m, rfl, ha, k, kv, b, rfl, hk, hb⟩
        have hleft : left.length < bound := by
          simp only [List.length_append] at hs
          omega
        apply ((ih left hleft (.object :: outer)).mono _).imp
        rintro - u ⟨c, v, t, rfl, hc, hv, ht⟩
        have hlead : Leading .object _ := ⟨a, k, kv, b, c, rfl, ha, hk, hb, hc⟩
        simpa using due_of_value hlead hv ht

theorem round_of_starts {opened : Option Frame} {stack stack' : List Frame} {a m u w : Bytes}
    (ha : Blank a) (hm : Starts opened m)
    (hu : Closes opened.isNone (opened.toList ++ stack) stack' u) (hw : Due stack' w) :
    Round stack (a ++ m ++ (u ++ w)) := by
  cases hm with
  | scalar hv => exact ⟨a, m, u ++ w, by simp, ha, hv, hu.after rfl hw⟩
  | bracket =>
      obtain ⟨v, t, heq, hv, ht⟩ := hu.opened hw
      exact ⟨a, v, t, by simp [← heq], ha, hv, ht⟩

theorem dry_afterStart {opened : Option Frame} {stack : List Frame} {s : Bytes}
    (h : Led Starts opened s) : Judged.Dry (fun _ ↦ Round stack) s (afterStart stack opened) := by
  obtain ⟨a, m, rfl, ha, hm⟩ := h
  -- An open frame needs more text. Without one, the value that was taken is all.
  match hstack : opened.toList ++ stack with
  | frame :: outer =>
      refine .inl ⟨.eof frame.unfinished, rfl, fun n ↦ ?_⟩
      rw [afterStart, hstack, close]
      rfl
  | [] =>
      obtain ⟨hopened, rfl⟩ := List.append_eq_nil_iff.mp hstack
      obtain rfl : opened = none := by simpa using hopened
      cases hm with
      | scalar hv => exact .inr ⟨(), ⟨a, m, [], by simp, ha, hv, .nil⟩, fun n ↦ rfl⟩

theorem rounds_judged (stack : List Frame) (s : Bytes) :
    Judged .gap (fun _ ↦ Round stack) (roundsReader stack) s := by
  -- A round leaves less text, but any stack: it may open one frame or close several.
  induction hlength : s.length using Nat.strong_induction_on generalizing stack s with
  | _ length ih =>
      subst hlength
      have hrounds : ∀ t : Bytes, t.length < s.length → ∀ stack,
          Judged .gap (fun _ ↦ Round stack) (roundsReader stack) t :=
        fun t ht stack ↦ ih t.length ht stack t rfl
      apply (start_judged s).bind _ (roundsReader_eq stack) _ fun _ ↦ dry_afterStart
      rintro opened u left rfl hstarts
      obtain ⟨k, hk⟩ := hstarts.pos not_starts_nil
      obtain ⟨a, m, rfl, ha, hm⟩ := hstarts
      apply Judged.bind_verdict (close_verdict opened.isNone (opened.toList ++ stack) left)
        (fun stack n ↦ resumeReader stack (n + (a ++ m).length)) fun _ _ ↦ rfl
      rintro stack' u left rfl hu
      have hshort : left.length < (a ++ m ++ (u ++ left)).length := by
        simp only [List.length_append] at hk ⊢
        omega
      apply (((resume_judged hrounds stack' hshort).mono (u.length + k)).imp _).of_eq
      · intro tail n
        congr 1
        omega
      · exact fun _ w hw ↦ round_of_starts ha hm hu hw

def valueReader : Nat → Reader Unit :=
  fun n s ↦ (value (n + 1) s).map ((), ·)

theorem value_judged (s : Bytes) :
    Judged .gap (Led fun _ u ↦ Value u) valueReader s := by
  apply (rounds_judged [] s).imp
  rintro - u ⟨a, v, t, rfl, ha, hv, ht⟩
  cases ht
  exact ⟨a, v, by simp, ha, hv⟩

end CompileFlags.Json.Skip
