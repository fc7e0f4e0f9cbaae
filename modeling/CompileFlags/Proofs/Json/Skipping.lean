import CompileFlags.Proofs.Json.Numbers
import CompileFlags.Proofs.Json.Strings

/-!
# Every value is skipped

Values nest to any depth, and skipping keeps the open lists and objects on a stack. What a value
does to the rounds is said for every stack: after as many rounds as it needs, never more than it
has bytes, the rounds go on behind it. This is carried through the rules of values, elements and
members.
-/

namespace CompileFlags.Json.Skip

open Form

/-- Go on once something has been closed: with the next value, or past the end. -/
def resume (n : Nat) : List Frame × Bytes → Except Error Bytes
  | ([], s) => .ok s
  | (.list :: outer, s) => rounds n (.list :: outer) s
  | (.object :: outer, s) => name s >>= rounds n (.object :: outer)

theorem rounds_scalar {s tail : Bytes} (h : start s = .ok (none, tail)) (n : Nat)
    (stack : List Frame) : rounds (n + 1) stack s = close true stack tail >>= resume n := by
  rcases hclose : close true stack tail with _ | ⟨_ | ⟨_ | _, _⟩, _⟩ <;>
    simp [rounds, h, hclose, resume, bind, Except.bind]

theorem rounds_opened {s tail : Bytes} {frame : Frame} (h : start s = .ok (some frame, tail))
    (n : Nat) (stack : List Frame) :
    rounds (n + 1) stack s = close false (frame :: stack) tail >>= resume n := by
  rcases hclose : close false (frame :: stack) tail with _ | ⟨_ | ⟨_ | _, _⟩, _⟩ <;>
    simp [rounds, h, hclose, resume, bind, Except.bind]

/-! ## Blanks -/

variable {a b s tail : Bytes}

theorem rounds_blank (ha : Blank a) (n : Nat) (stack : List Frame) (s : Bytes) :
    rounds n stack (a ++ s) = rounds n stack s := by
  cases n with
  | zero => rfl
  | succ n => rw [rounds, rounds, start, start, skipBlanks_append ha]

theorem resume_blank (ha : Blank a) (n : Nat) (frame : Frame) (stack : List Frame) (s : Bytes) :
    resume n (frame :: stack, a ++ s) = resume n (frame :: stack, s) := by
  cases frame with
  | list => exact rounds_blank ha n _ s
  | object => rw [resume, resume, name, name, skipBlanks_append ha]

theorem close_blank (ha : Blank a) (after : Bool) (frame : Frame) (stack : List Frame)
    (s : Bytes) : close after (frame :: stack) (a ++ s) = close after (frame :: stack) s := by
  induction a with
  | nil => rfl
  | cons c a ih =>
      have hc : isBlank c := ha c List.mem_cons_self
      simpa [close, hc] using ih fun b hb ↦ ha b (List.mem_cons_of_mem c hb)

theorem not_isBlank_closing (frame : Frame) : isBlank frame.closing = false := by
  cases frame <;> decide

theorem closing_ne_comma (frame : Frame) : frame.closing ≠ byte ',' := by
  cases frame <;> decide

theorem close_closing (hb : Blank b) (after : Bool) (frame : Frame) (stack : List Frame)
    (s : Bytes) :
    close after (frame :: stack) (b ++ frame.closing :: s) = close true stack s := by
  rw [close_blank hb, close, not_isBlank_closing]
  simp [closing_ne_comma]

theorem close_comma (hb : Blank b) (frame : Frame) (stack : List Frame) (s : Bytes) :
    close true (frame :: stack) (b ++ byte ',' :: s) = .ok (frame :: stack, s) := by
  rw [close_blank hb, close]
  simp +decide

/-- A first item stands behind the bracket. -/
def Opens (frame : Frame) (s : Bytes) : Prop :=
  ∃ a c t, s = a ++ c :: t ∧ Blank a ∧ isBlank c = false ∧ c ≠ frame.closing

theorem close_opens {frame : Frame} (h : Opens frame s) (n : Nat) (stack : List Frame)
    (tail : Bytes) :
    close false (frame :: stack) (s ++ tail) >>= resume n =
      resume n (frame :: stack, s ++ tail) := by
  obtain ⟨a, c, t, rfl, ha, hc, hclosing⟩ := h
  rw [List.append_assoc, close_blank ha, resume_blank ha, List.cons_append, close]
  simp [hc, hclosing]
  rfl

/-! ## The first byte of a value -/

theorem start_literal {w : String} (hw : w = "null" ∨ w = "true" ∨ w = "false")
    (tail : Bytes) : start (word w ++ tail) = .ok (none, tail) := by
  obtain rfl | rfl | rfl := hw <;>
    simp +decide [word, start, skipBlanks, literal, Except.map]

theorem start_digit {d : UInt8} (hd : isDigit d) (s : Bytes) :
    start (d :: s) = (Number.skipUnsigned (d :: s)).map (none, ·) := by
  have hskip : skipBlanks (d :: s) = d :: s := by
    simp [skipBlanks, not_isBlank_of_isDigit hd]
  have hn : d ≠ byte 'n' := ne_of_isDigit hd (by decide)
  have ht : d ≠ byte 't' := ne_of_isDigit hd (by decide)
  have hf : d ≠ byte 'f' := ne_of_isDigit hd (by decide)
  have hminus : d ≠ byte '-' := ne_of_isDigit hd (by decide)
  simp [start, hskip, hn, ht, hf, hminus, hd]

theorem start_minus (s : Bytes) :
    start (byte '-' :: s) = (Number.skipUnsigned s).map (none, ·) := by
  simp +decide [start, skipBlanks]

theorem start_quote (s : Bytes) : start (byte '"' :: s) = (Text.skip s).map (none, ·) := by
  simp +decide [start, skipBlanks]

theorem whole_cons {w : Bytes} (h : Whole w) : ∃ d ds, w = d :: ds ∧ isDigit d := by
  cases h with
  | zero => exact ⟨_, [], rfl, by decide⟩
  | digits hd => exact ⟨_, _, rfl, hd⟩

theorem start_numeral {v tail : Bytes} (h : Numeral v) (htail : Stops tail) :
    start (v ++ tail) = .ok (none, tail) := by
  cases h with
  | plain hw hf he =>
      have hskip := Number.skipUnsigned_parts hw hf he htail
      obtain ⟨d, ds, rfl, hd⟩ := whole_cons hw
      simp only [List.cons_append] at hskip ⊢
      rw [start_digit hd, hskip]
      rfl
  | minus hw hf he =>
      rw [List.cons_append, start_minus, Number.skipUnsigned_parts hw hf he htail]
      rfl

theorem start_string {s v : Bytes} (h : Body .skip s v) (tail : Bytes) :
    start (byte '"' :: s ++ [byte '"'] ++ tail) = .ok (none, tail) := by
  rw [List.append_assoc, List.cons_append, List.singleton_append, start_quote,
    Text.skip_body h]
  rfl

/-- The bracket that opens what `frame.closing` closes. -/
def Frame.opening : Frame → UInt8
  | list => byte '['
  | object => byte '\x7b'

theorem start_opening (frame : Frame) (s : Bytes) :
    start (frame.opening :: s) = .ok (some frame, s) := by
  cases frame <;> simp +decide [Frame.opening, start, skipBlanks]

/-- No value starts with a blank or a closing bracket. -/
theorem value_cons {v : Bytes} (h : Value v) :
    ∃ c t, v = c :: t ∧ isBlank c = false ∧ c ≠ byte ']' := by
  cases h with
  | null | true | false => exact ⟨_, _, rfl, by decide, by decide⟩
  | string | emptyList | list | emptyObject | object =>
      exact ⟨_, _, rfl, by decide, by decide⟩
  | numeral hnumeral =>
      cases hnumeral with
      | minus => exact ⟨_, _, rfl, by decide, by decide⟩
      | plain hw =>
          obtain ⟨d, ds, rfl, hd⟩ := whole_cons hw
          exact ⟨d, _, rfl, not_isBlank_of_isDigit hd, ne_of_isDigit hd (by decide)⟩

/-! ## Rounds of a value -/

/-- A value takes at most as many rounds as it has bytes, whatever the stack. -/
def Skips (v : Bytes) : Prop :=
  ∃ k, 0 < k ∧ k ≤ v.length ∧ ∀ n stack tail, Stops tail →
    rounds (n + k) stack (v ++ tail) = close true stack tail >>= resume n

/-- So do the items of a list or an object, up to its closing bracket. -/
def ItemsSkip (frame : Frame) (s : Bytes) : Prop :=
  ∃ k, 0 < k ∧ k ≤ s.length ∧ ∀ n stack tail,
    resume (n + k) (frame :: stack, s ++ frame.closing :: tail) =
      close true stack tail >>= resume n

/-- What stands in an item before its value does not matter to the rounds. -/
def Precedes (frame : Frame) (lead : Bytes) : Prop :=
  ∀ n stack tail, resume n (frame :: stack, lead ++ tail) = rounds n (frame :: stack) tail

theorem stops_closing (hb : Blank b) (frame : Frame) (s : Bytes) :
    Stops (b ++ frame.closing :: s) := by
  apply stops_append hb
  intro c hc
  obtain rfl := Option.some.inj hc
  cases frame <;> decide

theorem stops_comma (hb : Blank b) (s : Bytes) : Stops (b ++ byte ',' :: s) := by
  apply stops_append hb
  intro c hc
  obtain rfl := Option.some.inj hc
  decide

theorem skips_of_scalar {v : Bytes} (hv : 0 < v.length)
    (h : ∀ tail, Stops tail → start (v ++ tail) = .ok (none, tail)) : Skips v :=
  ⟨1, Nat.one_pos, hv, fun n stack tail htail ↦ rounds_scalar (h tail htail) n stack⟩

theorem skips_of_empty (frame : Frame) (hs : Blank s) :
    Skips (frame.opening :: s ++ [frame.closing]) := by
  refine ⟨1, Nat.one_pos, by simp, fun n stack tail _ ↦ ?_⟩
  rw [List.append_assoc, List.cons_append, List.singleton_append,
    rounds_opened (start_opening frame _), close_closing hs]

theorem skips_of_items {frame : Frame} (hopens : Opens frame s) (hitems : ItemsSkip frame s) :
    Skips (frame.opening :: s ++ [frame.closing]) := by
  obtain ⟨k, -, hk, hitems⟩ := hitems
  -- One round for the bracket, and those of the items.
  refine ⟨k + 1, Nat.succ_pos k, by simpa using by omega, fun n stack tail _ ↦ ?_⟩
  rw [List.append_assoc, List.cons_append, List.singleton_append, ← Nat.add_assoc,
    rounds_opened (start_opening frame _), close_opens hopens, hitems]

theorem itemsSkip_one {frame : Frame} {lead v : Bytes} (hlead : Precedes frame lead)
    (hv : Skips v) (hb : Blank b) : ItemsSkip frame (lead ++ v ++ b) := by
  obtain ⟨k, hpos, hk, hv⟩ := hv
  refine ⟨k, hpos, by simpa using by omega, fun n stack tail ↦ ?_⟩
  rw [List.append_assoc, List.append_assoc, hlead, hv _ _ _ (stops_closing hb frame tail),
    close_closing hb]

theorem itemsSkip_cons {frame : Frame} {lead v rest : Bytes} (hlead : Precedes frame lead)
    (hv : Skips v) (hb : Blank b) (hrest : ItemsSkip frame rest) :
    ItemsSkip frame (lead ++ v ++ b ++ byte ',' :: rest) := by
  obtain ⟨k, hpos, hk, hv⟩ := hv
  obtain ⟨m, -, hm, hrest⟩ := hrest
  -- The rounds of the first value are spent first and leave `n + m` to the others.
  refine ⟨m + k, by omega, by simpa using by omega, fun n stack tail ↦ ?_⟩
  rw [List.append_assoc, List.append_assoc, List.append_assoc, List.cons_append, hlead,
    ← Nat.add_assoc, hv _ _ _ (stops_comma hb _), close_comma hb]
  exact hrest n stack tail

theorem precedes_blank (ha : Blank a) : Precedes .list a :=
  fun n _ tail ↦ rounds_blank ha n _ tail

theorem precedes_name {k kv c : Bytes} (ha : Blank a) (hk : Body .skip k kv) (hb : Blank b)
    (hc : Blank c) :
    Precedes .object (a ++ byte '"' :: k ++ byte '"' :: b ++ byte ':' :: c) := by
  intro n stack tail
  have hname : name (a ++ byte '"' :: (k ++ byte '"' :: (b ++ byte ':' :: (c ++ tail)))) =
      .ok (c ++ tail) := by
    rw [name, skipBlanks_token ha (by decide)]
    simp [Text.skip_body hk, colon_append hb, Except.bind]
  simp only [List.append_assoc, List.cons_append, resume, hname]
  exact rounds_blank hc n _ tail

theorem opens_value {v : Bytes} (ha : Blank a) (hv : Value v) (s : Bytes) :
    Opens .list (a ++ v ++ s) := by
  obtain ⟨c, t, rfl, hc, hclosing⟩ := value_cons hv
  exact ⟨a, c, t ++ s, by simp, ha, hc, hclosing⟩

theorem opens_quote (ha : Blank a) (s : Bytes) : Opens .object (a ++ byte '"' :: s) :=
  ⟨a, _, s, rfl, ha, by decide, by decide⟩

theorem elements_opens (h : Elements s) : Opens .list s := by
  cases h with
  | one ha hv => exact opens_value ha hv _
  | @cons a v b rest ha hv hb hrest =>
      have h := opens_value ha hv (b ++ byte ',' :: rest)
      rwa [← List.append_assoc] at h

theorem members_opens (h : Members s) : Opens .object s := by
  cases h with
  | one ha | cons ha =>
      simp only [List.append_assoc, List.cons_append]
      exact opens_quote ha _

theorem numeral_length {v : Bytes} (h : Numeral v) : 0 < v.length := by
  obtain ⟨c, t, rfl, -⟩ := value_cons (.numeral h)
  simp

mutual

theorem value_skips {v : Bytes} : Value v → Skips v
  | .null => skips_of_scalar (by decide) fun tail _ ↦ start_literal (.inl rfl) tail
  | .true => skips_of_scalar (by decide) fun tail _ ↦ start_literal (.inr (.inl rfl)) tail
  | .false => skips_of_scalar (by decide) fun tail _ ↦ start_literal (.inr (.inr rfl)) tail
  | .numeral hv => skips_of_scalar (numeral_length hv) fun _ htail ↦ start_numeral hv htail
  | .string hs => skips_of_scalar (by simp) fun tail _ ↦ start_string hs tail
  | .emptyList hs => skips_of_empty .list hs
  | .list hs => skips_of_items (elements_opens hs) (elements_skip hs)
  | .emptyObject hs => skips_of_empty .object hs
  | .object hs => skips_of_items (members_opens hs) (members_skip hs)

theorem elements_skip {s : Bytes} : Elements s → ItemsSkip .list s
  | .one ha hv hb => itemsSkip_one (precedes_blank ha) (value_skips hv) hb
  | .cons ha hv hb hrest =>
      itemsSkip_cons (precedes_blank ha) (value_skips hv) hb (elements_skip hrest)

theorem members_skip {s : Bytes} : Members s → ItemsSkip .object s
  | .one ha hk hb hc hv hd => itemsSkip_one (precedes_name ha hk hb hc) (value_skips hv) hd
  | .cons ha hk hb hc hv hd hrest =>
      itemsSkip_cons (precedes_name ha hk hb hc) (value_skips hv) hd (members_skip hrest)

end

/-- A budget of as many rounds as the value has bytes is enough. -/
theorem value_append {v tail : Bytes} {budget : Nat} (ha : Blank a) (hv : Value v)
    (htail : Stops tail) (hbudget : v.length ≤ budget) :
    value budget (a ++ (v ++ tail)) = .ok tail := by
  obtain ⟨k, -, hk, hv⟩ := value_skips hv
  obtain ⟨n, rfl⟩ := Nat.exists_eq_add_of_le' (Nat.le_trans hk hbudget)
  rw [value, rounds_blank ha, hv n [] tail htail, close]
  rfl

end CompileFlags.Json.Skip
