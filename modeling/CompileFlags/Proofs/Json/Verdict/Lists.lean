import CompileFlags.Proofs.Json.Verdict

/-!
# Verdicts on punctuation and on lists

A list is read turn by turn: to its end, or past a comma to the next item. With a verdict for the
items, one induction on the length of the text gives the verdict for the list.
-/

namespace CompileFlags.Json

open Form

/-- A reader that returns nothing but the rest. -/
def skipper (skip : Bytes → Except Error Bytes) : Nat → Reader Unit :=
  fun _ s ↦ (skip s).map ((), ·)

namespace Verdict

variable {s : Bytes}

theorem literal {cs : List Char} (hcs : cs.all fun c ↦ Spot.gap.step (byte c) = .gap)
    (s : Bytes) :
    Verdict .gap (fun _ u ↦ u = cs.map byte) (skipper (literal cs)) s := by
  induction cs generalizing s with
  | nil => exact pure (x := ()) rfl fun _ _ ↦ rfl
  | cons c cs ih =>
      simp only [List.all_cons, Bool.and_eq_true, decide_eq_true_eq] at hcs
      obtain ⟨hc, hcs⟩ := hcs
      cases s with
      | nil => exact starves (e := .eof .value) rfl fun _ _ ↦ rfl
      | cons b s =>
          by_cases hb : b = byte c
          · subst hb
            have hrest := ih hcs s
            apply cons (skipper (Json.literal cs))
            · rw [hc]
              exact hrest.imp fun _ _ hu ↦ congrArg (byte c :: ·) hu
            · intro n r
              simp [skipper, Json.literal]
          · apply fails (e := fun _ _ ↦ .malformed .expectedLiteral)
            intro tail n
            simp only [skipper, List.cons_append, Json.literal, if_neg hb]
            rfl

theorem colon (s : Bytes) :
    Verdict .gap (Led fun _ u ↦ u = [byte ':']) (skipper colon) s := by
  refine of_token (e := .eof .object) ?_ rfl (fun _ ↦ rfl) (fun c r hc ↦ ?_) s
  · intro n s
    simp only [skipper, Json.colon, skipBlanks_skipBlanks]
  · by_cases hcolon : c = byte ':'
    · subst hcolon
      apply takes (x := ()) (u := [byte ':']) rfl rfl rfl
      intro tail n _
      simp only [skipper, Json.colon, List.cons_append, skipBlanks_cons hc, if_true]
      rfl
    · apply fails (e := fun _ _ ↦ .malformed .expectedColon)
      intro tail n
      simp only [skipper, Json.colon, List.cons_append, skipBlanks_cons hc, if_neg hcolon]
      rfl

end Verdict

/-! ## Turns -/

/-- Has a list or an object ended? What a turn has already read of the next item is put back. -/
def Turn.split (opening : Bytes) : Turn → Bool × Bytes
  | .item rest => (false, opening ++ rest)
  | .ended rest => (true, rest)

def turn (opening : Bytes) (next : Bytes → Except Error Turn) : Nat → Reader Bool :=
  fun _ s ↦ (next s).map (Turn.split opening)

inductive Turns (closing : Char) : Bool → Bool → Bytes → Prop
  | ended {first : Bool} : Turns closing first true [byte closing]
  | first : Turns closing true false []
  | next {a : Bytes} : Blank a → Turns closing false false (byte ',' :: a)

namespace Verdict

theorem nextElement_comma (r : Bytes) :
    Verdict .gap (Led fun ended u ↦ ended = false ∧ u = [])
      (fun n r ↦ turn [] (Json.nextElement false) n (byte ',' :: r)) r := by
  have hcomma (r : Bytes) : skipBlanks (byte ',' :: r) = byte ',' :: r :=
    skipBlanks_cons (by decide) r
  refine of_token (e := .eof .value) (fun n s ↦ ?_) rfl (fun _ ↦ rfl) (fun c t hc ↦ ?_) r
  · simp +decide [turn, Json.nextElement, hcomma, skipBlanks_skipBlanks]
  · by_cases hend : c = byte ']'
    · subst hend
      apply fails (e := fun _ _ ↦ .malformed .trailingComma)
      intro tail n
      simp +decide [turn, Json.nextElement, hcomma, skipBlanks_cons hc, Except.map]
    · apply takes (x := false) (u := []) rfl ⟨rfl, rfl⟩ rfl
      intro tail n _
      simp +decide [turn, Json.nextElement, hcomma, skipBlanks_cons hc, hend, Except.map,
        Turn.split]

theorem nextElement (first : Bool) (s : Bytes) :
    Verdict .gap (Led (Turns ']' first)) (turn [] (nextElement first)) s := by
  refine of_token (e := .eof .list) (fun n s ↦ ?_) rfl (fun _ ↦ rfl) (fun c r hc ↦ ?_) s
  · simp only [turn, Json.nextElement, skipBlanks_skipBlanks]
  by_cases hend : c = byte ']'
  · subst hend
    apply takes (x := true) (u := [byte ']']) rfl .ended rfl
    intro tail n _
    simp [turn, Json.nextElement, skipBlanks_cons hc, Except.map, Turn.split]
  cases first with
  | true =>
      apply takes (x := false) (u := []) rfl .first rfl
      intro tail n _
      simp [turn, Json.nextElement, skipBlanks_cons hc, hend, Except.map, Turn.split]
  | false =>
      by_cases hcomma : c = byte ','
      · subst hcomma
        apply cons (fun n r ↦ turn [] (Json.nextElement false) n (byte ',' :: r))
        · apply (nextElement_comma r).imp
          rintro ended u ⟨a, m, rfl, ha, rfl, rfl⟩
          rw [List.append_nil]
          exact .next ha
        · exact fun _ _ ↦ rfl
      · apply fails (e := fun _ _ ↦ .malformed .expectedListCommaOrEnd)
        intro tail n
        simp [turn, Json.nextElement, skipBlanks_cons hc, hend, hcomma, Except.map]

theorem nextMember_comma (r : Bytes) :
    Verdict .gap (Led fun ended u ↦ ended = false ∧ u = [])
      (fun n r ↦ turn [byte '"'] (Json.nextMember false) n (byte ',' :: r)) r := by
  have hcomma (r : Bytes) : skipBlanks (byte ',' :: r) = byte ',' :: r :=
    skipBlanks_cons (by decide) r
  refine of_token (e := .eof .value) (fun n s ↦ ?_) rfl (fun _ ↦ rfl) (fun c t hc ↦ ?_) r
  · simp +decide [turn, Json.nextMember, hcomma, skipBlanks_skipBlanks]
  · by_cases hquote : c = byte '"'
    · subst hquote
      apply takes (x := false) (u := []) rfl ⟨rfl, rfl⟩ rfl
      intro tail n _
      simp +decide [turn, Json.nextMember, hcomma, skipBlanks_cons hc, Except.map, Turn.split]
    · apply fails (e := fun _ _ ↦
        .malformed (if c = byte '\x7d' then .trailingComma else .keyNotString))
      intro tail n
      by_cases hend : c = byte '\x7d'
      · subst hend
        simp +decide [turn, Json.nextMember, hcomma, skipBlanks_cons hc, Except.map]
      · simp +decide [turn, Json.nextMember, hcomma, skipBlanks_cons hc, hquote, hend,
          Except.map]

theorem nextMember (first : Bool) (s : Bytes) :
    Verdict .gap (Led (Turns '\x7d' first)) (turn [byte '"'] (nextMember first)) s := by
  refine of_token (e := .eof .object) (fun n s ↦ ?_) rfl (fun _ ↦ rfl) (fun c r hc ↦ ?_) s
  · simp only [turn, Json.nextMember, skipBlanks_skipBlanks]
  by_cases hend : c = byte '\x7d'
  · subst hend
    apply takes (x := true) (u := [byte '\x7d']) rfl .ended rfl
    intro tail n _
    simp [turn, Json.nextMember, skipBlanks_cons hc, Except.map, Turn.split]
  cases first with
  | true =>
      by_cases hquote : c = byte '"'
      · subst hquote
        apply takes (x := false) (u := []) rfl .first rfl
        intro tail n _
        simp [turn, Json.nextMember, skipBlanks_cons hc, hend, Except.map, Turn.split]
      · apply fails (e := fun _ _ ↦ .malformed .keyNotString)
        intro tail n
        simp [turn, Json.nextMember, skipBlanks_cons hc, hend, hquote, Except.map]
  | false =>
      by_cases hcomma : c = byte ','
      · subst hcomma
        apply cons (fun n r ↦ turn [byte '"'] (Json.nextMember false) n (byte ',' :: r))
        · apply (nextMember_comma r).imp
          rintro ended u ⟨a, m, rfl, ha, rfl, rfl⟩
          rw [List.append_nil]
          exact .next ha
        · exact fun _ _ ↦ rfl
      · apply fails (e := fun _ _ ↦ .malformed .expectedObjectCommaOrEnd)
        intro tail n
        simp [turn, Json.nextMember, skipBlanks_cons hc, hend, hcomma, Except.map]

end Verdict

/-! ## Lists -/

variable {α : Type} {form : α → Bytes → Prop}

/-- What is left of a list or an object, from before or after its first item. -/
inductive Rest (form : α → Bytes → Prop) (closing : Char) : Bool → List α → Bytes → Prop
  | ended {first : Bool} {b : Bytes} : Blank b → Rest form closing first [] (b ++ [byte closing])
  | item {first : Bool} {x : α} {xs : List α} {l a m rest : Bytes} : Lead first l → Blank a →
      form x m → Rest form closing false xs rest →
      Rest form closing first (x :: xs) (l ++ (a ++ (m ++ rest)))

theorem Rest.separated {closing : Char} {x : α} {xs : List α} {a m rest : Bytes} (ha : Blank a)
    (hx : form x m) (h : Rest form closing false xs rest) :
    ∃ s, Separated form (x :: xs) s ∧ a ++ (m ++ rest) = s ++ [byte closing] := by
  induction xs generalizing x a m rest with
  | nil =>
      obtain @⟨_, b, hb⟩ := h
      exact ⟨a ++ m ++ b, .one ha hx hb, by simp⟩
  | cons y ys ih =>
      obtain _ | @⟨_, _, _, l, a', m', rest', hl, ha', hy, hrest⟩ := h
      obtain ⟨s, hs, heq⟩ := ih ha' hy hrest
      cases hl with
      | @next b hb => exact ⟨a ++ m ++ b ++ byte ',' :: s, .cons ha hx hb hs, by simp [heq]⟩

theorem Rest.bracketed {opening closing : Char} {xs : List α} {s : Bytes}
    (h : Rest form closing true xs s) :
    Bracketed opening closing form xs (byte opening :: s) := by
  cases h with
  | ended hb => exact .empty hb
  | item hl ha hx hrest =>
      cases hl
      obtain ⟨t, ht, heq⟩ := hrest.separated ha hx
      rw [List.nil_append, heq]
      exact .items ht

theorem Rest.of_turns {closing : Char} {first : Bool} {x : α} {xs : List α} {a t m rest : Bytes}
    (ha : Blank a) (ht : Turns closing first false t) (hx : Led form x m)
    (hrest : Rest form closing false xs rest) :
    Rest form closing first (x :: xs) (a ++ t ++ (m ++ rest)) := by
  obtain ⟨b, m, rfl, hb, hx⟩ := hx
  have hblank {a : Bytes} (ha : Blank a) : Blank (a ++ b) :=
    fun c hc ↦ (List.mem_append.mp hc).elim (ha c) (hb c)
  cases ht with
  | first => simpa using Rest.item .first (hblank ha) hx hrest
  | next ha' => simpa using Rest.item (.next ha) (hblank ha') hx hrest

theorem Led.pos {x : α} {u : Bytes} (hne : ∀ x, ¬ form x []) (h : Led form x u) :
    ∃ k, u.length = k + 1 := by
  obtain ⟨a, m, rfl, -, hm⟩ := h
  cases m with
  | nil => exact absurd hm (hne x)
  | cons b m => exact ⟨a.length + m.length, by simp; omega⟩

/-- Go on after a turn of a list: end it, or read one more item. -/
def afterTurn (read : Nat → Reader α) (acc : List α) (ended : Bool) : Nat → Reader (List α) :=
  fun n s ↦
    if ended then .ok (acc.reverse, s)
    else (read n s).bind fun r ↦ readItems read n (r.1 :: acc) r.2

theorem readItems_succ (read : Nat → Reader α) (n : Nat) (acc : List α) (s : Bytes) :
    readItems read (n + 1) acc s =
      (turn [] (nextElement acc.isEmpty) n s).bind fun r ↦ afterTurn read acc r.1 n r.2 := by
  rw [readItems, turn]
  rcases nextElement acc.isEmpty s with e | ⟨rest⟩ | rest
  · rfl
  · simp only [Except.map, Turn.split, Except.bind, afterTurn, bind, List.nil_append]
    rcases read n rest with e | ⟨x, rest⟩ <;> rfl
  · rfl

theorem Verdict.readItems {read : Nat → Reader α} (hne : ∀ x, ¬ form x [])
    (hread : ∀ s, Verdict .gap (Led form) read s) (acc : List α) (s : Bytes) :
    Verdict .gap
      (fun xs u ↦ ∃ ys, xs = acc.reverse ++ ys ∧ Rest form ']' acc.isEmpty ys u)
      (fun n ↦ readItems read (n + 1) acc) s := by
  -- An item is not empty, so there is less text behind it and a budget left for one more round.
  induction hlength : s.length using Nat.strong_induction_on generalizing acc s with
  | _ length ih =>
      apply (nextElement acc.isEmpty s).bind _ fun n s ↦ readItems_succ read n acc s
      rintro ended u left rfl ⟨a, t, rfl, ha, ht⟩
      cases ended with
      | true =>
          have hended : t = [byte ']'] := by
            generalize acc.isEmpty = first at ht
            cases ht
            rfl
          subst hended
          exact pure ⟨[], by simp, by simpa using .ended ha⟩ fun _ _ ↦ rfl
      | false =>
          have hitem := (hread left).mono (a ++ t).length
          apply hitem.bind (fun x n ↦ Json.readItems read (n + (a ++ t).length) (x :: acc))
            fun _ _ ↦ rfl
          rintro x u left rfl hx
          obtain ⟨k, hk⟩ := hx.pos hne
          have hrest := (ih left.length (by simp at hlength; omega) (x :: acc) left rfl).mono
            (k + (a ++ t).length)
          apply (hrest.imp _).of_eq
          · intro tail n
            rw [hk]
            congr 1
            omega
          · rintro xs v ⟨ys, rfl, hys⟩
            exact ⟨x :: ys, by simp, .of_turns ha ht hx hys⟩

end CompileFlags.Json
