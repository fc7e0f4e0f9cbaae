import CompileFlags.Json.Form

/-!
# Punctuation as written is punctuation as read

Blanks before a token do not matter, and a comma stands before every item but the first.
-/

namespace CompileFlags.Json

open Form

theorem blank_nil : Blank [] :=
  fun _ h ↦ absurd h List.not_mem_nil

theorem skipBlanks_append {a : Bytes} (ha : Blank a) (s : Bytes) :
    skipBlanks (a ++ s) = skipBlanks s :=
  List.dropWhile_append_of_pos ha

theorem skipBlanks_cons {c : UInt8} (hc : isBlank c = false) (s : Bytes) :
    skipBlanks (c :: s) = c :: s := by
  simp [skipBlanks, hc]

theorem skipBlanks_token {a : Bytes} (ha : Blank a) {c : UInt8} (hc : isBlank c = false)
    (s : Bytes) : skipBlanks (a ++ c :: s) = c :: s := by
  rw [skipBlanks_append ha, skipBlanks_cons hc]

theorem skipBlanks_of_blank {a : Bytes} (ha : Blank a) : skipBlanks a = [] := by
  have h := skipBlanks_append ha []
  simpa [skipBlanks] using h

theorem literal_append (cs : List Char) (s : Bytes) :
    literal cs (cs.map byte ++ s) = .ok s := by
  induction cs with
  | nil => rfl
  | cons c cs ih => simpa [literal] using ih

/-- What stands before an item: nothing before the first one, else blanks and a comma. -/
inductive Lead : Bool → Bytes → Prop
  | first : Lead true []
  | next {b : Bytes} : Blank b → Lead false (b ++ [byte ','])

theorem nextElement_item {first : Bool} {l a : Bytes} {c : UInt8} (hl : Lead first l)
    (ha : Blank a) (hc : isBlank c = false) (hend : c ≠ byte ']') (s : Bytes) :
    nextElement first (l ++ (a ++ c :: s)) = .ok (.item (c :: s)) := by
  have hskip : skipBlanks (a ++ c :: s) = c :: s := skipBlanks_token ha hc s
  cases hl with
  | first => simp [nextElement, hskip, hend]
  | @next b hb =>
      have hcomma : skipBlanks (b ++ byte ',' :: (a ++ c :: s)) = byte ',' :: (a ++ c :: s) :=
        skipBlanks_token hb (by decide) _
      rw [List.append_assoc, List.singleton_append]
      simp +decide [nextElement, hcomma, hskip, hend]

theorem nextElement_ended {a : Bytes} (ha : Blank a) (first : Bool) (s : Bytes) :
    nextElement first (a ++ byte ']' :: s) = .ok (.ended s) := by
  have hskip : skipBlanks (a ++ byte ']' :: s) = byte ']' :: s :=
    skipBlanks_token ha (by decide) s
  simp [nextElement, hskip]

theorem nextMember_item {first : Bool} {l a : Bytes} (hl : Lead first l) (ha : Blank a)
    (s : Bytes) : nextMember first (l ++ (a ++ byte '"' :: s)) = .ok (.item s) := by
  have hskip : skipBlanks (a ++ byte '"' :: s) = byte '"' :: s :=
    skipBlanks_token ha (by decide) s
  cases hl with
  | first => simp +decide [nextMember, hskip]
  | @next b hb =>
      have hcomma : skipBlanks (b ++ byte ',' :: (a ++ byte '"' :: s)) =
          byte ',' :: (a ++ byte '"' :: s) := skipBlanks_token hb (by decide) _
      rw [List.append_assoc, List.singleton_append]
      simp +decide [nextMember, hcomma, hskip]

theorem nextMember_ended {a : Bytes} (ha : Blank a) (first : Bool) (s : Bytes) :
    nextMember first (a ++ byte '\x7d' :: s) = .ok (.ended s) := by
  have hskip : skipBlanks (a ++ byte '\x7d' :: s) = byte '\x7d' :: s :=
    skipBlanks_token ha (by decide) s
  simp [nextMember, hskip]

theorem colon_append {a : Bytes} (ha : Blank a) (s : Bytes) :
    colon (a ++ byte ':' :: s) = .ok s := by
  have hskip : skipBlanks (a ++ byte ':' :: s) = byte ':' :: s :=
    skipBlanks_token ha (by decide) s
  simp [colon, hskip]

/-! ## Lists of items -/

/-- A spelling that cannot be taken for blanks or for the end of a list. -/
def Begins (m : Bytes) : Prop :=
  ∃ c t, m = c :: t ∧ isBlank c = false ∧ c ≠ byte ']'

theorem nextElement_begins {first : Bool} {l a m : Bytes} (hl : Lead first l) (ha : Blank a)
    (hm : Begins m) (s : Bytes) :
    nextElement first (l ++ (a ++ (m ++ s))) = .ok (.item (m ++ s)) := by
  obtain ⟨c, t, rfl, hc, hend⟩ := hm
  exact nextElement_item hl ha hc hend (t ++ s)

variable {α : Type} {form : α → Bytes → Prop} {read : Nat → Reader α}

theorem readItems_ended {acc : List α} {s rest : Bytes}
    (h : nextElement acc.isEmpty s = .ok (.ended rest)) (n : Nat) :
    readItems read (n + 1) acc s = .ok (acc.reverse, rest) := by
  simp [readItems, h, bind, Except.bind]

theorem readItems_item {acc : List α} {x : α} {n : Nat} {s r rest : Bytes}
    (h : nextElement acc.isEmpty s = .ok (.item r)) (hx : read n r = .ok (x, rest)) :
    readItems read (n + 1) acc s = readItems read n (x :: acc) rest := by
  simp [readItems, h, hx, bind, Except.bind]

/-- Separated items are read one after the other. The lead `l` of the first one has not been read
yet, and the budget is larger than what is left, so that it is so again after every item. -/
theorem readItems_separated (hbegins : ∀ x m, form x m → Begins m)
    (hread : ∀ x m, form x m → ∀ n tail, (m ++ tail).length ≤ n →
      read n (m ++ tail) = .ok (x, tail))
    {xs : List α} {s : Bytes} (hs : Separated form xs s) {acc : List α} {l : Bytes}
    (hl : Lead acc.isEmpty l) {n : Nat} (tail : Bytes)
    (hn : (l ++ (s ++ byte ']' :: tail)).length < n) :
    readItems read n acc (l ++ (s ++ byte ']' :: tail)) = .ok (acc.reverse ++ xs, tail) := by
  induction hs generalizing acc l n with
  | @one x a m b ha hx hb =>
      simp only [List.append_assoc, List.length_append, List.length_cons] at hn ⊢
      obtain ⟨n, rfl⟩ := Nat.exists_eq_add_of_le' (show 2 ≤ n by omega)
      have hnext := nextElement_begins hl ha (hbegins x m hx) (b ++ byte ']' :: tail)
      have hitem := hread x m hx (n + 1) (b ++ byte ']' :: tail) (by simp; omega)
      rw [readItems_item hnext hitem, readItems_ended (nextElement_ended hb _ tail)]
      simp
  | @cons x xs a m b rest ha hx hb _ ih =>
      simp only [List.append_assoc, List.length_append, List.length_cons, List.cons_append]
        at hn ih ⊢
      obtain ⟨n, rfl⟩ := Nat.exists_eq_add_of_le' (show 1 ≤ n by omega)
      have hnext := nextElement_begins hl ha (hbegins x m hx)
        (b ++ byte ',' :: (rest ++ byte ']' :: tail))
      have hitem := hread x m hx n (b ++ byte ',' :: (rest ++ byte ']' :: tail))
        (by simp; omega)
      -- An item is not empty, so the budget stays above what is left.
      have hm : 0 < m.length := by
        obtain ⟨c, t, rfl, -⟩ := hbegins x m hx
        simp
      have hlead : Lead (x :: acc).isEmpty (b ++ [byte ',']) := .next hb
      have hrest := @ih (x :: acc) _ hlead n (by simp; omega)
      rw [readItems_item hnext hitem]
      simpa using hrest

/-- All that stands between the brackets is read, with the closing one. -/
theorem readItems_bracketed (hbegins : ∀ x m, form x m → Begins m)
    (hread : ∀ x m, form x m → ∀ n tail, (m ++ tail).length ≤ n →
      read n (m ++ tail) = .ok (x, tail))
    {xs : List α} {m : Bytes} (h : Bracketed '[' ']' form xs m) :
    ∃ s, m = byte '[' :: s ∧ ∀ n tail, (s ++ tail).length < n →
      readItems read n [] (s ++ tail) = .ok (xs, tail) := by
  cases h with
  | @empty s hs =>
      refine ⟨s ++ [byte ']'], rfl, fun n tail hn ↦ ?_⟩
      obtain ⟨n, rfl⟩ := Nat.exists_eq_add_of_le' (show 1 ≤ n by omega)
      rw [List.append_assoc, List.singleton_append]
      exact readItems_ended (nextElement_ended hs _ tail) n
  | @items _ s hs =>
      refine ⟨s ++ [byte ']'], rfl, fun n tail hn ↦ ?_⟩
      rw [List.append_assoc, List.singleton_append] at hn ⊢
      have hlead : Lead ([] : List α).isEmpty [] := .first
      exact readItems_separated hbegins hread hs hlead tail hn

end CompileFlags.Json
