import CompileFlags.Json.Spot
import CompileFlags.Proofs.Json.Punctuation
import Mathlib.Data.List.DropRight

/-!
# What a reader makes of a text

A reader in front of a text does one of three things, and what it does says what would happen to
every longer text. It takes a spelling from the front, and would take the same one whatever
followed. It fails because the text ends. Or it fails at a byte that nothing can mend. One verdict
for each reader is all that is needed to know what it accepts and how it fails on a part of that.

A budget above the number of bytes is never used up, so verdicts are about such budgets only.
-/

namespace CompileFlags.Json

open Form

namespace Spot

@[simp] theorem after_nil (p : Spot) : p.after [] = p :=
  rfl

@[simp] theorem after_cons (p : Spot) (b : UInt8) (s : Bytes) :
    p.after (b :: s) = (p.step b).after s :=
  rfl

@[simp] theorem after_append (p : Spot) (s t : Bytes) :
    p.after (s ++ t) = (p.after s).after t :=
  List.foldl_append

theorem step_blank {b : UInt8} (hb : isBlank b) : gap.step b = gap := by
  simp only [isBlank, Bool.or_eq_true, beq_iff_eq] at hb
  rcases hb with ((rfl | rfl) | rfl) | rfl <;> rfl

theorem after_blank {a : Bytes} (ha : Blank a) : gap.after a = gap := by
  induction a with
  | nil => rfl
  | cons b a ih =>
      rw [after_cons, step_blank (ha b List.mem_cons_self)]
      exact ih fun c hc ↦ ha c (List.mem_cons_of_mem b hc)

/-- The failure of a reader that finds the end of the text at a spot. -/
def Faults (p : Spot) (e : Error) : Prop :=
  if p.isPending then e = .malformed .invalidNumber else e.category = .eof

end Spot

variable {α β : Type}

inductive Verdict (p : Spot) (form : α → Bytes → Prop) (read : Nat → Reader α) (s : Bytes) : Prop
  | takes {x : α} {u left : Bytes} : s = u ++ left → form x u →
      (p.after s).isPending = (Spot.gap.after left).isPending →
      (∀ tail n, (s ++ tail).length ≤ n → read n (s ++ tail) = .ok (x, left ++ tail)) →
      Verdict p form read s
  | starves {e : Error} : (p.after s).Faults e → (∀ n, s.length ≤ n → read n s = .error e) →
      Verdict p form read s
  | rejects : (∀ tail n, (s ++ tail).length ≤ n → ∃ e, read n (s ++ tail) = .error e) →
      Verdict p form read s

/-- A spelling behind blanks. -/
def Led (form : α → Bytes → Prop) (x : α) (u : Bytes) : Prop :=
  ∃ a m, u = a ++ m ∧ Blank a ∧ form x m

theorem Led.of_form {form : α → Bytes → Prop} {x : α} {u : Bytes} (h : form x u) :
    Led form x u :=
  ⟨[], u, rfl, blank_nil, h⟩

theorem Led.of_led {form : α → Bytes → Prop} {x : α} {u : Bytes} (h : Led (Led form) x u) :
    Led form x u := by
  obtain ⟨a, m, rfl, ha, b, m, rfl, hb, hm⟩ := h
  refine ⟨a ++ b, m, by simp, fun c hc ↦ ?_, hm⟩
  exact (List.mem_append.mp hc).elim (ha c) (hb c)

theorem Led.imp {form : α → Bytes → Prop} {other : β → Bytes → Prop} {x : α} {y : β} {u : Bytes}
    (h : Led form x u) (himp : ∀ m, form x m → other y m) : Led other y u := by
  obtain ⟨a, m, rfl, ha, hm⟩ := h
  exact ⟨a, m, rfl, ha, himp m hm⟩

namespace Verdict

variable {p : Spot} {form : α → Bytes → Prop} {other : β → Bytes → Prop} {read : Nat → Reader α}
  {s : Bytes}

theorem of_eq {read' : Nat → Reader α} (h : Verdict p form read s)
    (heq : ∀ tail n, read' n (s ++ tail) = read n (s ++ tail)) : Verdict p form read' s := by
  cases h with
  | takes hs hform hspot hread =>
      apply takes hs hform hspot
      intro tail n hn
      rw [heq, hread tail n hn]
  | starves hspot hread =>
      apply starves hspot
      intro n hn
      have hsame := heq [] n
      rw [List.append_nil] at hsame
      rw [hsame, hread n hn]
  | rejects hread =>
      apply rejects
      intro tail n hn
      rw [heq]
      exact hread tail n hn

theorem mono (h : Verdict p form read s) (k : Nat) :
    Verdict p form (fun n ↦ read (n + k)) s := by
  cases h with
  | takes hs hform hspot hread =>
      exact takes hs hform hspot fun tail n hn ↦ hread tail (n + k) (Nat.le_add_right_of_le hn)
  | starves hspot hread =>
      exact starves hspot fun n hn ↦ hread (n + k) (Nat.le_add_right_of_le hn)
  | rejects hread =>
      exact rejects fun tail n hn ↦ hread tail (n + k) (Nat.le_add_right_of_le hn)

theorem map (h : Verdict p form read s) (f : α → β) (hform : ∀ x u, form x u → other (f x) u) :
    Verdict p other (fun n s ↦ (read n s).map fun r ↦ (f r.1, r.2)) s := by
  cases h with
  | takes hs hx hspot hread =>
      apply takes hs (hform _ _ hx) hspot
      intro tail n hn
      rw [hread tail n hn]
      rfl
  | starves hspot hread =>
      apply starves hspot
      intro n hn
      rw [hread n hn]
      rfl
  | rejects hread =>
      apply rejects
      intro tail n hn
      obtain ⟨e, he⟩ := hread tail n hn
      exact ⟨e, by rw [he]; rfl⟩

theorem imp {weaker : α → Bytes → Prop} (h : Verdict p form read s)
    (hform : ∀ x u, form x u → weaker x u) : Verdict p weaker read s := by
  apply of_eq (h.map id hform)
  intro tail n
  cases read n (s ++ tail) <;> rfl

theorem fails {e : Nat → Bytes → Error}
    (h : ∀ tail n, read n (s ++ tail) = .error (e n (s ++ tail))) : Verdict p form read s :=
  rejects fun tail n _ ↦ ⟨_, h tail n⟩

theorem pure {x : α} (hx : form x []) (hread : ∀ n r, read n r = .ok (x, r)) :
    Verdict .gap form read s :=
  takes rfl hx rfl fun tail n _ ↦ hread n (s ++ tail)

section Bind

variable {both : Nat → Reader β} {next : α → Nat → Reader β}

theorem starves_bind {e : Error} (hboth : ∀ n s, both n s = (read n s).bind fun r ↦ next r.1 n r.2)
    (hfault : (p.after s).Faults e) (hread : ∀ n, s.length ≤ n → read n s = .error e) :
    Verdict p other both s := by
  apply starves hfault
  intro n hn
  rw [hboth, hread n hn]
  rfl

theorem rejects_bind (hboth : ∀ n s, both n s = (read n s).bind fun r ↦ next r.1 n r.2)
    (hread : ∀ tail n, (s ++ tail).length ≤ n → ∃ e, read n (s ++ tail) = .error e) :
    Verdict p other both s := by
  apply rejects
  intro tail n hn
  obtain ⟨e, he⟩ := hread tail n hn
  refine ⟨e, ?_⟩
  rw [hboth, he]
  rfl

theorem exists_budget {u left tail : Bytes} {n : Nat} (hn : (u ++ left ++ tail).length ≤ n) :
    ∃ m, n = m + u.length ∧ (left ++ tail).length ≤ m := by
  simp only [List.length_append] at hn ⊢
  exact ⟨n - u.length, by omega, by omega⟩

theorem takes_bind {x : α} {u left : Bytes}
    (hboth : ∀ n s, both n s = (read n s).bind fun r ↦ next r.1 n r.2)
    (hspot : (p.after (u ++ left)).isPending = (Spot.gap.after left).isPending)
    (hread : ∀ tail n, (u ++ left ++ tail).length ≤ n →
      read n (u ++ left ++ tail) = .ok (x, left ++ tail))
    (hnext : Verdict .gap (fun y v ↦ other y (u ++ v)) (fun n ↦ next x (n + u.length)) left) :
    Verdict p other both (u ++ left) := by
  -- Where the first reader takes a spelling, the lexer agrees with one that starts behind it.
  cases hnext with
  | @takes y w left' hleft hy hspot' hread' =>
      apply takes (by rw [hleft, List.append_assoc]) hy (hspot.trans hspot')
      intro tail n hn
      obtain ⟨m, rfl, hm⟩ := exists_budget hn
      rw [hboth, hread tail _ hn]
      exact hread' tail m hm
  | @starves e hfault hread' =>
      have hfaults : (p.after (u ++ left)).Faults e := by
        rw [Spot.Faults, hspot]
        exact hfault
      apply starves hfaults
      intro n hn
      have hbudget : (u ++ left ++ []).length ≤ n := by rwa [List.append_nil]
      obtain ⟨m, rfl, hm⟩ := exists_budget hbudget
      have hfirst := hread [] _ hbudget
      rw [List.append_nil, List.append_nil] at hfirst
      rw [List.append_nil] at hm
      rw [hboth, hfirst]
      exact hread' m hm
  | rejects hread' =>
      apply rejects
      intro tail n hn
      obtain ⟨m, rfl, hm⟩ := exists_budget hn
      rw [hboth, hread tail _ hn]
      exact hread' tail m hm

/-- Readers one after the other. The second one has what the first one leaves, and as much more
budget as the first one took bytes. -/
theorem bind (h : Verdict p form read s) (next : α → Nat → Reader β)
    (hboth : ∀ n s, both n s = (read n s).bind fun r ↦ next r.1 n r.2)
    (hnext : ∀ x u left, s = u ++ left → form x u →
      Verdict .gap (fun y v ↦ other y (u ++ v)) (fun n ↦ next x (n + u.length)) left) :
    Verdict p other both s := by
  cases h with
  | takes hs hx hspot hread =>
      subst hs
      exact takes_bind hboth hspot hread (hnext _ _ _ rfl hx)
  | starves hfault hread => exact starves_bind hboth hfault hread
  | rejects hread => exact rejects_bind hboth hread

end Bind

/-- The first byte decides what reads the others. -/
theorem cons {b : UInt8} {r : Bytes} (body : Nat → Reader α)
    (h : Verdict (p.step b) (fun x u ↦ form x (b :: u)) (fun n ↦ body (n + 1)) r)
    (hread : ∀ n r, read n (b :: r) = body n r) : Verdict p form read (b :: r) := by
  have hbudget (tail : Bytes) {n : Nat} (hn : (b :: r ++ tail).length ≤ n) :
      ∃ m, n = m + 1 ∧ (r ++ tail).length ≤ m :=
    ⟨n - 1, by simp at hn; omega, by simp at hn ⊢; omega⟩
  cases h with
  | @takes x u left hr hx hspot hbody =>
      refine takes (x := x) (u := b :: u) (congrArg (b :: ·) hr) hx hspot ?_
      intro tail n hn
      obtain ⟨m, rfl, hm⟩ := hbudget tail hn
      rw [List.cons_append, hread]
      exact hbody tail m hm
  | starves hfault hbody =>
      refine starves hfault fun n hn ↦ ?_
      obtain ⟨m, rfl, hm⟩ := hbudget [] (by simpa using hn)
      rw [hread]
      exact hbody m (by simpa using hm)
  | rejects hbody =>
      apply rejects
      intro tail n hn
      obtain ⟨m, rfl, hm⟩ := hbudget tail hn
      rw [List.cons_append, hread]
      exact hbody tail m hm

end Verdict

/-! ## Blanks -/

theorem skipBlanks_skipBlanks (s : Bytes) : skipBlanks (skipBlanks s) = skipBlanks s :=
  List.dropWhile_idempotent isBlank s

theorem blank_or_token (s : Bytes) :
    Blank s ∨ ∃ a c r, s = a ++ c :: r ∧ Blank a ∧ isBlank c = false := by
  induction s with
  | nil => exact .inl blank_nil
  | cons b s ih =>
      cases hb : isBlank b with
      | false => exact .inr ⟨[], b, s, rfl, blank_nil, hb⟩
      | true =>
          rcases ih with hs | ⟨a, c, r, rfl, ha, hc⟩
          · exact .inl (List.forall_mem_cons.mpr ⟨hb, hs⟩)
          · exact .inr ⟨b :: a, c, r, rfl, List.forall_mem_cons.mpr ⟨hb, ha⟩, hc⟩

/-- The reader does not see blanks before the first token. -/
def SkipsBlanks (read : Nat → Reader α) : Prop :=
  ∀ n s, read n (skipBlanks s) = read n s

section Blanks

variable {form : α → Bytes → Prop} {read : Nat → Reader α} {a : Bytes}

theorem SkipsBlanks.append (h : SkipsBlanks read) (ha : Blank a) (n : Nat) (s : Bytes) :
    read n (a ++ s) = read n s := by
  rw [← h, skipBlanks_append ha, h]

theorem Verdict.append (h : Verdict .gap form read s) (hskip : SkipsBlanks read) (ha : Blank a) :
    Verdict .gap (Led form) read (a ++ s) := by
  have hspot : Spot.gap.after (a ++ s) = Spot.gap.after s := by
    rw [Spot.after_append, Spot.after_blank ha]
  have hlength (tail : Bytes) {n : Nat} (hn : (a ++ s ++ tail).length ≤ n) :
      (s ++ tail).length ≤ n := by
    simp only [List.length_append] at hn ⊢
    omega
  cases h with
  | @takes x u left hs hx hpending hread =>
      apply takes (x := x) (u := a ++ u)
      · rw [hs, List.append_assoc]
      · exact ⟨a, u, rfl, ha, hx⟩
      · rw [hspot, hpending]
      · intro tail n hn
        rw [List.append_assoc, hskip.append ha, hread tail n (hlength tail hn)]
  | starves hfault hread =>
      apply starves (hspot ▸ hfault)
      intro n hn
      rw [hskip.append ha]
      exact hread n (by simpa using hlength [] (by simpa using hn))
  | rejects hread =>
      apply rejects
      intro tail n hn
      rw [List.append_assoc, hskip.append ha]
      exact hread tail n (hlength tail hn)

theorem Verdict.of_blank (hs : Blank s) (hskip : SkipsBlanks read) {e : Error}
    (he : e.category = .eof) (hnil : ∀ n, read n [] = .error e) : Verdict .gap form read s := by
  apply starves (e := e)
  · rw [Spot.after_blank hs]
    exact he
  · intro n _
    rw [← List.append_nil s, hskip.append hs, hnil]

/-- A reader that goes past blanks is judged by what it does at the first token. -/
theorem Verdict.of_token (hskip : SkipsBlanks read) {e : Error} (he : e.category = .eof)
    (hnil : ∀ n, read n [] = .error e)
    (htoken : ∀ c r, isBlank c = false → Verdict .gap form read (c :: r)) (s : Bytes) :
    Verdict .gap (Led form) read s := by
  rcases blank_or_token s with hs | ⟨a, c, r, rfl, ha, hc⟩
  · exact of_blank hs hskip he hnil
  · exact (htoken c r hc).append hskip ha

end Blanks

/-! ## Readers that can go on -/

/-- The reader takes all there is, and could take more of what followed. -/
def Drains (p : Spot) (form : α → Bytes → Prop) (read : Nat → Reader α) (s : Bytes) : Prop :=
  ∃ x, form x s ∧ (p.after s).isPending = false ∧ ∀ n, s.length ≤ n → read n s = .ok (x, [])

def Judged (p : Spot) (form : α → Bytes → Prop) (read : Nat → Reader α) (s : Bytes) : Prop :=
  Verdict p form read s ∨ Drains p form read s

namespace Judged

variable {p : Spot} {form : α → Bytes → Prop} {other : β → Bytes → Prop} {read : Nat → Reader α}
  {s : Bytes}

theorem verdict (h : Verdict p form read s) : Judged p form read s :=
  .inl h

theorem of_eq {read' : Nat → Reader α} (h : Judged p form read s)
    (heq : ∀ tail n, read' n (s ++ tail) = read n (s ++ tail)) : Judged p form read' s := by
  rcases h with h | ⟨x, hx, hspot, hread⟩
  · exact .inl (h.of_eq heq)
  · refine .inr ⟨x, hx, hspot, fun n hn ↦ ?_⟩
    have hsame := heq [] n
    rw [List.append_nil] at hsame
    rw [hsame, hread n hn]

theorem map (h : Judged p form read s) (f : α → β) (hform : ∀ x u, form x u → other (f x) u) :
    Judged p other (fun n s ↦ (read n s).map fun r ↦ (f r.1, r.2)) s := by
  rcases h with h | ⟨x, hx, hspot, hread⟩
  · exact .inl (h.map f hform)
  · refine .inr ⟨f x, hform x s hx, hspot, fun n hn ↦ ?_⟩
    simp only [hread n hn]
    rfl

theorem imp {weaker : α → Bytes → Prop} (h : Judged p form read s)
    (hform : ∀ x u, form x u → weaker x u) : Judged p weaker read s := by
  rcases h with h | ⟨x, hx, hspot, hread⟩
  · exact .inl (h.imp hform)
  · exact .inr ⟨x, hform x s hx, hspot, hread⟩

theorem cons {b : UInt8} {r : Bytes} (body : Nat → Reader α)
    (h : Judged (p.step b) (fun x u ↦ form x (b :: u)) (fun n ↦ body (n + 1)) r)
    (hread : ∀ n r, read n (b :: r) = body n r) : Judged p form read (b :: r) := by
  rcases h with h | ⟨x, hx, hspot, hbody⟩
  · exact .inl (h.cons body hread)
  · refine .inr ⟨x, hx, hspot, fun n hn ↦ ?_⟩
    obtain ⟨m, rfl⟩ := Nat.exists_eq_add_of_le' (Nat.le_trans (Nat.le_add_left 1 r.length) hn)
    rw [hread]
    exact hbody m (Nat.le_of_succ_le_succ hn)

theorem of_token (hskip : SkipsBlanks read) {e : Error} (he : e.category = .eof)
    (hnil : ∀ n, read n [] = .error e)
    (htoken : ∀ c r, isBlank c = false → Judged .gap form read (c :: r)) (s : Bytes) :
    Judged .gap (Led form) read s := by
  rcases blank_or_token s with hs | ⟨a, c, r, rfl, ha, hc⟩
  · exact .inl (.of_blank hs hskip he hnil)
  · rcases htoken c r hc with h | ⟨x, hx, hspot, hread⟩
    · exact .inl (h.append hskip ha)
    · refine .inr ⟨x, ⟨a, c :: r, rfl, ha, hx⟩, ?_, fun n hn ↦ ?_⟩
      · rw [Spot.after_append, Spot.after_blank ha, hspot]
      · rw [hskip.append ha]
        exact hread n (Nat.le_trans (by simp) hn)

/-- What comes after a reader that has drained the text: it fails for want of more, or has enough
already. -/
def Dry (form : α → Bytes → Prop) (s : Bytes) (read : Nat → Reader α) : Prop :=
  (∃ e, e.category = .eof ∧ ∀ n, read n [] = .error e) ∨
    ∃ x, form x s ∧ ∀ n, read n [] = .ok (x, [])

theorem bind_verdict {both : Nat → Reader β} (h : Verdict p form read s)
    (next : α → Nat → Reader β) (hboth : ∀ n s, both n s = (read n s).bind fun r ↦ next r.1 n r.2)
    (hnext : ∀ x u left, s = u ++ left → form x u →
      Judged .gap (fun y v ↦ other y (u ++ v)) (fun n ↦ next x (n + u.length)) left) :
    Judged p other both s := by
  cases h with
  | @takes x u left hs hx hspot hread =>
      subst hs
      rcases hnext x u left rfl hx with h | ⟨y, hy, hspot', hread'⟩
      · exact .inl (.takes_bind hboth hspot hread h)
      · refine .inr ⟨y, hy, hspot.trans hspot', fun n hn ↦ ?_⟩
        have hbudget : (u ++ left ++ []).length ≤ n := by rwa [List.append_nil]
        obtain ⟨m, rfl, hm⟩ := Verdict.exists_budget hbudget
        have hfirst := hread [] _ hbudget
        rw [List.append_nil, List.append_nil] at hfirst
        rw [List.append_nil] at hm
        rw [hboth, hfirst]
        exact hread' m hm
  | starves hfault hread => exact .inl (.starves_bind hboth hfault hread)
  | rejects hread => exact .inl (.rejects_bind hboth hread)

theorem bind {both : Nat → Reader β} (h : Judged p form read s) (next : α → Nat → Reader β)
    (hboth : ∀ n s, both n s = (read n s).bind fun r ↦ next r.1 n r.2)
    (hnext : ∀ x u left, s = u ++ left → form x u →
      Judged .gap (fun y v ↦ other y (u ++ v)) (fun n ↦ next x (n + u.length)) left)
    (hdry : ∀ x, form x s → Dry other s (next x)) : Judged p other both s := by
  rcases h with h | ⟨x, hx, hspot, hread⟩
  · exact bind_verdict h next hboth hnext
  rcases hdry x hx with ⟨e, he, hnil⟩ | ⟨y, hy, hnil⟩
  · refine .inl (.starves (e := e) ?_ fun n hn ↦ ?_)
    · rw [Spot.Faults, hspot]
      exact he
    · rw [hboth, hread n hn]
      exact hnil n
  · refine .inr ⟨y, hy, hspot, fun n hn ↦ ?_⟩
    rw [hboth, hread n hn]
    exact hnil n

/-- After a reader that may have drained the text, one that needs more of it. -/
theorem bind_starving {both : Nat → Reader β} (h : Judged p form read s)
    (next : α → Nat → Reader β) (hboth : ∀ n s, both n s = (read n s).bind fun r ↦ next r.1 n r.2)
    (hnext : ∀ x u left, s = u ++ left → form x u →
      Verdict .gap (fun y v ↦ other y (u ++ v)) (fun n ↦ next x (n + u.length)) left)
    {e : Error} (he : e.category = .eof) (hnil : ∀ x n, next x n [] = .error e) :
    Verdict p other both s := by
  rcases h with h | ⟨x, hx, hspot, hread⟩
  · exact h.bind next hboth hnext
  · refine .starves (e := e) ?_ fun n hn ↦ ?_
    · rw [Spot.Faults, hspot]
      exact he
    · rw [hboth, hread n hn]
      exact hnil x n

theorem mono (h : Judged p form read s) (k : Nat) :
    Judged p form (fun n ↦ read (n + k)) s := by
  rcases h with h | ⟨x, hx, hspot, hread⟩
  · exact .inl (h.mono k)
  · exact .inr ⟨x, hx, hspot, fun n hn ↦ hread (n + k) (Nat.le_add_right_of_le hn)⟩

end Judged

end CompileFlags.Json
