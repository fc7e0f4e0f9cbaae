import CompileFlags.Proofs.Database.Members
import CompileFlags.Proofs.Json.Verdict.Skipping

/-!
# Verdicts on entries

From the values of members to members, entries and the list of entries. What the reader of members
accepts names no field twice, and its members give the entry that is returned.
-/

namespace CompileFlags.Database

open Json Json.Form Database.Form

/-! ## What members give -/

namespace Entry

theorem Draft.Fresh.cons {d : Draft} {m : Member} {ms : List Member}
    (hm : ∀ field, m.field? = some field → ¬ d.has field) (h : (d.add m).Fresh ms) :
    d.Fresh (m :: ms) := by
  obtain ⟨hnodup, hmissing⟩ := h
  cases hfield : m.field? with
  | none =>
      constructor <;> rw [List.filterMap_cons_none hfield]
      · exact hnodup
      · intro field hmem
        have hnew := hmissing field hmem
        rwa [has_add, hfield] at hnew
  | some f =>
      have hnew : ∀ field ∈ ms.filterMap Member.field?, f ≠ field ∧ ¬ d.has field := by
        intro field hmem
        have hnew := hmissing field hmem
        rw [has_add, hfield] at hnew
        simpa using hnew
      constructor <;> rw [List.filterMap_cons_some hfield]
      · exact List.nodup_cons.mpr ⟨fun hmem ↦ (hnew f hmem).1 rfl, hnodup⟩
      · intro field hmem
        rcases List.mem_cons.mp hmem with rfl | hmem
        · exact hm field hfield
        · exact (hnew field hmem).2

theorem length_le_of_fresh {β : Type} {d : Draft} {ms : List Member} (h : d.Fresh ms)
    (field : Field) (given : Member → Option β)
    (hgiven : ∀ m, m.field? = some field ↔ (given m).isSome) :
    (ms.filterMap given).length ≤ 1 := by
  rw [← count_field field given hgiven]
  exact List.nodup_iff_count.mp h.nodup field

theorem nil_or_singleton {β : Type} {xs : List β} (h : xs.length ≤ 1) :
    xs = [] ∨ ∃ x, xs = [x] := by
  match xs, h with
  | [], _ => exact .inl rfl
  | [x], _ => exact .inr ⟨x, rfl⟩

theorem atMostOnce_of_length {β : Type} {xs : List (Option β)} (h : xs.length ≤ 1) :
    AtMostOnce xs (xs.getLast?.or none).join := by
  rcases nil_or_singleton h with rfl | ⟨x, rfl⟩
  · exact .inr ⟨rfl, rfl⟩
  · exact .inl rfl

/-- The members of an object that was read make up the entry. -/
theorem gives_of_fresh {ms : List Member} {e : Entry} (h : Draft.empty.Fresh ms)
    (he : (ms.foldl Draft.add .empty).finish = .ok e) : Gives ms e := by
  have hdirectory := foldl_add (·.directory) Member.directory?
    (by intro d m; cases m <;> rfl) ms .empty
  have hfile := foldl_add (·.file) Member.file? (by intro d m; cases m <;> rfl) ms .empty
  have harguments := foldl_add (·.arguments) Member.arguments?
    (by intro d m; cases m <;> rfl) ms .empty
  have hcommand := foldl_add (·.command) Member.command?
    (by intro d m; cases m <;> rfl) ms .empty
  have hdirectories := length_le_of_fresh h .directory Member.directory?
    (by intro m; cases m <;> simp [Member.field?, Member.directory?])
  have hfiles := length_le_of_fresh h .file Member.file?
    (by intro m; cases m <;> simp [Member.field?, Member.file?])
  have hlists := length_le_of_fresh h .arguments Member.arguments?
    (by intro m; cases m <;> simp [Member.field?, Member.arguments?])
  have hcommands := length_le_of_fresh h .command Member.command?
    (by intro m; cases m <;> simp [Member.field?, Member.command?])
  rw [Draft.finish, hdirectory, hfile, harguments, hcommand] at he
  rcases nil_or_singleton hdirectories with hnone | ⟨directory, hsome⟩
  · simp [hnone, Draft.empty] at he
  rcases nil_or_singleton hfiles with hnone' | ⟨file, hsome'⟩
  · simp [hsome, hnone', Draft.empty] at he
  simp only [hsome, hsome', List.getLast?_singleton, Option.some_or, Except.ok.injEq] at he
  subst he
  exact ⟨hsome, hsome', atMostOnce_of_length hlists, atMostOnce_of_length hcommands⟩

end Entry

/-! ## Values -/

namespace Entry

theorem not_textForm_nil (t : String) : ¬ TextForm t [] := by
  intro h
  obtain ⟨r, heq, -⟩ := textForm_cons h
  cases heq

theorem readText_verdict (expected : Expected) (s : Bytes) :
    Verdict .gap (Led TextForm) (fun _ ↦ readText expected) s := by
  refine .of_token (e := .eof .value) (fun n s ↦ ?_) rfl (fun _ ↦ rfl) (fun c r hc ↦ ?_) s
  · simp only [readText, skipBlanks_skipBlanks]
  by_cases hquote : c = byte '"'
  · subst hquote
    apply Verdict.cons (fun _ ↦ Text.read)
    · exact Verdict.read r
    · intro n r
      rw [readText, skipBlanks_cons hc]
      exact if_pos rfl
  · refine .fails (e := fun _ s ↦ unexpected expected c s.tail) fun tail n ↦ ?_
    simp only [List.cons_append, readText, skipBlanks_cons hc, if_neg hquote, List.tail_cons]

theorem readList_verdict (s : Bytes) : Verdict .gap (Led ListForm) readList s := by
  refine .of_token (e := .eof .value) (fun n s ↦ ?_) rfl (fun _ ↦ rfl) (fun c r hc ↦ ?_) s
  · simp only [readList, skipBlanks_skipBlanks]
  by_cases hbracket : c = byte '['
  · subst hbracket
    apply Verdict.cons (fun n ↦ readItems (fun _ ↦ readText .string) n [])
    · apply (Verdict.readItems not_textForm_nil (readText_verdict .string) [] r).imp
      rintro xs u ⟨ys, rfl, hys⟩
      exact hys.bracketed
    · intro n r
      rw [readList, skipBlanks_cons hc]
      exact if_pos rfl
  · refine .fails (e := fun _ s ↦ unexpected .list c s.tail) fun tail n ↦ ?_
    simp only [List.cons_append, readList, skipBlanks_cons hc, if_neg hbracket, List.tail_cons]

theorem readOptional_verdict {α : Type} {form : α → Bytes → Prop} {read : Nat → Reader α}
    (hread : ∀ s, Verdict .gap (Led form) read s) (s : Bytes) :
    Verdict .gap (Led (OptionForm form)) (fun n ↦ readOptional (read n)) s := by
  have hled : Verdict .gap (Led (Led (OptionForm form))) (fun n ↦ readOptional (read n)) s := by
    refine .of_token (e := .eof .value) (fun n s ↦ ?_) rfl (fun _ ↦ rfl) (fun c r hc ↦ ?_) s
    · simp only [readOptional, skipBlanks_skipBlanks]
    by_cases hn : c = byte 'n'
    · subst hn
      apply Verdict.cons (fun _ r ↦ (literal ['u', 'l', 'l'] r).map (none, ·))
      · have hgap : ['u', 'l', 'l'].all fun c ↦ Spot.gap.step (byte c) = .gap := by decide
        apply ((Verdict.literal hgap r).map (fun _ ↦ none) _).of_eq
        · intro tail n
          simp only [skipper]
          rcases literal ['u', 'l', 'l'] (r ++ tail) with e | rest <;> rfl
        · rintro - u rfl
          exact .of_form .none
      · intro n r
        rw [readOptional, skipBlanks_cons hc]
        exact if_pos rfl
    · apply ((hread (c :: r)).map some _).of_eq
      · intro tail n
        simp only [List.cons_append, readOptional, skipBlanks_cons hc, if_neg hn]
      · exact fun x u hu ↦ hu.imp fun _ ↦ .some
  exact hled.imp fun _ _ ↦ Led.of_led

theorem draftRead_verdict (d : Draft) (field : Field) (s : Bytes) :
    Verdict .gap
      (fun d' u ↦ ∃ m, d' = d.add m ∧ m.field? = some field ∧ Led ValueForm m u)
      (fun n ↦ d.read n field) s := by
  cases field with
  | directory =>
      apply ((readText_verdict .path s).map (fun v ↦ { d with directory := some v }) _).of_eq
      · exact fun _ _ ↦ rfl
      · exact fun v u hu ↦ ⟨.directory v, rfl, rfl, hu.imp fun _ ↦ .directory⟩
  | file =>
      apply ((readText_verdict .string s).map (fun v ↦ { d with file := some v }) _).of_eq
      · exact fun _ _ ↦ rfl
      · exact fun v u hu ↦ ⟨.file v, rfl, rfl, hu.imp fun _ ↦ .file⟩
  | arguments =>
      have hlist := readOptional_verdict readList_verdict s
      apply (hlist.map (fun v ↦ { d with arguments := some v }) _).of_eq
      · exact fun _ _ ↦ rfl
      · exact fun v u hu ↦ ⟨.arguments v, rfl, rfl, hu.imp fun _ ↦ .arguments⟩
  | command =>
      have htext := readOptional_verdict (readText_verdict .string) s
      apply (htext.map (fun v ↦ { d with command := some v }) _).of_eq
      · exact fun _ _ ↦ rfl
      · exact fun v u hu ↦ ⟨.command v, rfl, rfl, hu.imp fun _ ↦ .command⟩

/-! ## Members -/

theorem name_of_ofName? {name : String} {field : Field} (h : Field.ofName? name = some field) :
    field.name = name := by
  have hfound := List.find?_some h
  simpa using hfound

theorem name_of_field? {m : Member} {field : Field} (h : m.field? = some field) :
    m.name = field.name := by
  cases m <;> cases h <;> rfl

/-- The member that is read, and that the draft does not have yet. -/
def Reads (d d' : Draft) (u : Bytes) : Prop :=
  ∃ m, d' = d.add m ∧ (∀ field, m.field? = some field → ¬ d.has field) ∧ MemberForm m u

/-- The rest of a member after its name. -/
def afterName (d : Draft) (name : String) : Nat → Reader Draft :=
  fun n s ↦ match Field.ofName? name with
    | some field =>
      if d.has field then .error (.mismatch (.duplicate field))
      else (skipper colon n s).bind fun r ↦ d.read n field r.2
    | none => (skipper colon n s).bind fun r ↦ (Skip.value n r.2).map (d, ·)

theorem readMember_eq (n : Nat) (d : Draft) (s : Bytes) :
    readMember n d s = (Text.read s).bind fun r ↦ afterName d r.1 n r.2 := by
  rw [readMember]
  rcases Text.read s with e | ⟨name, s⟩
  · rfl
  simp only [bind, Except.bind, afterName]
  cases Field.ofName? name with
  | some field =>
      dsimp only
      split
      · rfl
      · simp only [skipper]
        rcases colon s with e | s <;> rfl
  | none =>
      simp only [skipper]
      rcases colon s with e | s
      · rfl
      · simp only [Except.map]
        rcases Skip.value n s with e | rest <;> rfl

theorem memberForm_of {m : Member} {name : String} {u a v : Bytes}
    (hname : TextForm name (byte '"' :: u)) (hm : m.name = name) (ha : Blank a)
    (hv : Led ValueForm m v) : MemberForm m (byte '"' :: (u ++ (a ++ [byte ':'] ++ v))) := by
  obtain ⟨b, x, rfl, hb, hx⟩ := hv
  subst hm
  simpa using MemberForm.mk hname ha hb hx

section AfterName

variable {d : Draft} {name : String} {u : Bytes}

theorem afterName_verdict {field : Field} (hname : TextForm name (byte '"' :: u))
    (hfield : Field.ofName? name = some field) (s : Bytes) :
    Verdict .gap (fun d' v ↦ Reads d d' (byte '"' :: (u ++ v)))
      (fun n ↦ afterName d name (n + u.length)) s := by
  by_cases hhas : d.has field
  · refine .fails (e := fun _ _ ↦ .mismatch (.duplicate field)) fun tail n ↦ ?_
    simp only [afterName, hfield, if_pos hhas]
  apply (Verdict.colon s).bind (fun _ n ↦ d.read (n + u.length) field)
  · intro n s
    simp only [afterName, hfield, if_neg hhas]
    rfl
  · rintro - v left rfl ⟨a, c, rfl, ha, rfl⟩
    apply (((draftRead_verdict d field left).mono u.length).mono _).imp
    rintro d' w ⟨m, rfl, hm, hw⟩
    have hnew : ∀ f, m.field? = some f → ¬ d.has f := by
      rw [hm]
      rintro _ ⟨⟩
      exact hhas
    have hmember : m.name = name := (name_of_field? hm).trans (name_of_ofName? hfield)
    exact ⟨m, rfl, hnew, memberForm_of hname hmember ha hw⟩

theorem afterName_judged (hname : TextForm name (byte '"' :: u))
    (hother : Field.ofName? name = none) (s : Bytes) :
    Judged .gap (fun d' v ↦ Reads d d' (byte '"' :: (u ++ v)))
      (fun n ↦ afterName d name (n + u.length)) s := by
  apply Judged.bind_verdict (Verdict.colon s)
    (fun _ n s ↦ (Skip.value (n + u.length) s).map (d, ·))
  · intro n s
    simp only [afterName, hother]
    rfl
  · rintro - v left rfl ⟨a, c, rfl, ha, rfl⟩
    have hvalue := (Skip.value_judged left).mono (a.length + u.length)
    apply (hvalue.map (fun _ ↦ d) _).of_eq
    · intro tail n
      have hbudget : n + (a ++ [byte ':']).length + u.length =
          n + (a.length + u.length) + 1 := by
        simp only [List.length_append, List.length_singleton]
        omega
      rw [hbudget, Skip.valueReader]
      rcases Skip.value (n + (a.length + u.length) + 1) (left ++ tail) with e | rest <;> rfl
    · intro x w hw
      have hmember : Led ValueForm (.other name) w := hw.imp fun _ ↦ .other hother
      exact ⟨.other name, rfl, nofun, memberForm_of hname rfl ha hmember⟩

end AfterName

theorem readMember_judged (d : Draft) (s : Bytes) :
    Judged .text (fun d' u ↦ Reads d d' (byte '"' :: u)) (fun n ↦ readMember n d) s := by
  apply Judged.bind_verdict (Verdict.read s) (afterName d) fun n s ↦ readMember_eq n d s
  rintro name u left rfl hname
  cases hfield : Field.ofName? name with
  | some field => exact .verdict (afterName_verdict hname hfield left)
  | none => exact afterName_judged hname hfield left

/-- A member from its quote on. -/
def quotedMember (d : Draft) : Nat → Reader Draft :=
  fun n s ↦ match s with
    | [] => .error (.eof .object)
    | b :: r => if b = byte '"' then readMember n d r else .error (.malformed .keyNotString)

theorem quotedMember_judged (d : Draft) (s : Bytes) :
    Judged .gap (fun d' u ↦ Reads d d' u) (quotedMember d) s := by
  cases s with
  | nil => exact .inl (.starves (e := .eof .object) rfl fun _ _ ↦ rfl)
  | cons b r =>
      by_cases hb : b = byte '"'
      · subst hb
        apply Judged.cons (fun n ↦ readMember n d)
        · exact (readMember_judged d r).mono 1
        · intro n r
          simp only [quotedMember, if_true]
      · refine .inl (.fails (e := fun _ _ ↦ .malformed .keyNotString) fun tail n ↦ ?_)
        exact if_neg hb

/-- Go on after a turn of an object: finish the entry, or read one more member. -/
def afterTurn (d : Draft) (ended : Bool) : Nat → Reader Entry :=
  fun n s ↦
    if ended then d.finish.map (·, s)
    else (quotedMember d n s).bind fun r ↦ readMembers n false r.1 r.2

theorem readMembers_succ (n : Nat) (first : Bool) (d : Draft) (s : Bytes) :
    readMembers (n + 1) first d s =
      (turn [byte '"'] (nextMember first) n s).bind fun r ↦ afterTurn d r.1 n r.2 := by
  rw [readMembers, turn]
  rcases nextMember first s with e | ⟨rest⟩ | rest
  · rfl
  · simp only [Except.map, Turn.split, Except.bind, afterTurn, bind, List.singleton_append,
      quotedMember]
    rfl
  · simp only [Except.map, Turn.split, Except.bind, afterTurn, bind]
    rcases d.finish with e | x <;> rfl

theorem readMembers_nil (n : Nat) (d : Draft) :
    readMembers n false d [] = .error (.eof .object) := by
  cases n <;> rfl

theorem memberForm_ne_nil {m : Member} {u : Bytes} (h : MemberForm m u) : u ≠ [] := by
  obtain ⟨r, rfl, -⟩ := readMember_form h
  exact List.cons_ne_nil _ r

theorem readMembers_verdict (first : Bool) (d : Draft) (s : Bytes) :
    Verdict .gap
      (fun e u ↦ ∃ ms, Rest MemberForm '\x7d' first ms u ∧
        (ms.foldl Draft.add d).finish = .ok e ∧ d.Fresh ms)
      (fun n ↦ readMembers (n + 1) first d) s := by
  -- As for lists. The draft grows with each member, and duplicates fail at the second one.
  induction hlength : s.length using Nat.strong_induction_on generalizing first d s with
  | _ length ih =>
      apply (Verdict.nextMember first s).bind _ fun n s ↦ readMembers_succ n first d s
      rintro ended u left rfl ⟨a, t, rfl, ha, ht⟩
      cases ended with
      | true =>
          cases ht
          cases hfinish : d.finish with
          | error e =>
              refine .fails (e := fun _ _ ↦ e) fun tail n ↦ ?_
              simp [afterTurn, hfinish, Except.map]
          | ok e =>
              apply Verdict.pure (x := e)
              · refine ⟨[], by simpa using .ended ha, hfinish, ?_⟩
                exact ⟨List.nodup_nil, fun field hmem ↦ absurd hmem List.not_mem_nil⟩
              · intro n r
                simp [afterTurn, hfinish, Except.map]
      | false =>
          have hmember := (quotedMember_judged d left).mono (a ++ t).length
          -- A number that is skipped may drain the text, and then the object is not closed.
          apply hmember.bind_starving
            (fun d' n ↦ readMembers (n + (a ++ t).length) false d') (fun _ _ ↦ rfl) _ rfl
            fun d' n ↦ readMembers_nil _ d'
          rintro d' u left rfl ⟨m, rfl, hnew, hm⟩
          obtain ⟨k, hk⟩ := Nat.exists_eq_succ_of_ne_zero
            (fun h ↦ memberForm_ne_nil hm (List.eq_nil_of_length_eq_zero h))
          have hrest := (ih left.length (by simp at hlength; omega) false (d.add m) left rfl).mono
            (k + (a ++ t).length)
          apply (hrest.imp _).of_eq
          · intro tail n
            rw [hk]
            congr 1
            omega
          · rintro e v ⟨ms, hms, hfinish, hfresh⟩
            exact ⟨m :: ms, .of_turns ha ht (.of_form hm) hms, hfinish, .cons hnew hfresh⟩

/-! ## Entries written as lists -/

/-- The part behind a turn, unless the list has ended there. -/
def partBehind {α : Type} (read : Nat → Reader α) (n : Nat) (ended : Bool) : Nat → Reader α :=
  fun m s ↦ if ended then .error (.mismatch (.tooShort n)) else read m s

theorem readPart_verdict {α : Type} {form : α → Bytes → Prop} {read : Nat → Reader α}
    (hread : ∀ s, Verdict .gap (Led form) read s) (n : Nat) (s : Bytes) :
    Verdict .gap
      (fun x u ↦ ∃ a t w, u = a ++ t ++ w ∧ Blank a ∧ Turns ']' (n == 0) false t ∧ Led form x w)
      (fun m ↦ readPart n (read m)) s := by
  apply (Verdict.nextElement (n == 0) s).bind (partBehind read n)
  · intro m r
    rw [readPart, turn]
    rcases nextElement (n == 0) r with e | ⟨rest⟩ | rest <;> rfl
  · rintro ended u left rfl ⟨a, t, rfl, ha, ht⟩
    cases ended with
    | true => exact .fails (e := fun _ _ ↦ .mismatch (.tooShort n)) fun _ _ ↦ rfl
    | false =>
        apply ((hread left).mono (a ++ t).length).imp
        exact fun x w hw ↦ ⟨a, t, w, rfl, ha, ht, hw⟩

theorem endParts_verdict (s : Bytes) :
    Verdict .gap (Led fun _ u ↦ u = [byte ']']) (skipper endParts) s := by
  refine .of_token (e := .eof .list) (fun n s ↦ ?_) rfl (fun _ ↦ rfl) (fun c r hc ↦ ?_) s
  · simp only [skipper, endParts, skipBlanks_skipBlanks]
  by_cases hend : c = byte ']'
  · subst hend
    refine .takes (x := ()) (u := [byte ']']) rfl rfl rfl fun tail n _ ↦ ?_
    simp only [skipper, endParts, List.cons_append, skipBlanks_cons hc, if_true]
    rfl
  · apply Verdict.rejects
    intro tail n _
    simp only [skipper, endParts, List.cons_append, skipBlanks_cons hc, if_neg hend]
    split <;> exact ⟨_, rfl⟩

/-- What is left of an entry after four parts. -/
def noPart (e : Entry) : Nat → Reader Entry :=
  fun n s ↦ (skipper endParts n s).map fun r ↦ (e, r.2)

def lastPart (directory : Path) (file : String) (arguments : Option (List String)) :
    Nat → Reader Entry :=
  fun n s ↦ (readPart 3 (readOptional (readText .string)) s).bind fun r ↦
    noPart ⟨directory, file, arguments, r.1⟩ n r.2

def lastTwoParts (directory : Path) (file : String) : Nat → Reader Entry :=
  fun n s ↦ (readPart 2 (readOptional (readList n)) s).bind fun r ↦
    lastPart directory file r.1 n r.2

def lastThreeParts (directory : Path) : Nat → Reader Entry :=
  fun n s ↦ (readPart 1 (readText .string) s).bind fun r ↦ lastTwoParts directory r.1 n r.2

theorem readParts_eq (n : Nat) (s : Bytes) :
    readParts n s = (readPart 0 (readText .path) s).bind fun r ↦ lastThreeParts r.1 n r.2 := by
  rw [readParts]
  rcases readPart 0 (readText .path) s with e | ⟨directory, s⟩
  · rfl
  simp only [bind, Except.bind, lastThreeParts]
  rcases readPart 1 (readText .string) s with e | ⟨file, s⟩
  · rfl
  simp only [lastTwoParts, Except.bind]
  rcases readPart 2 (readOptional (readList n)) s with e | ⟨arguments, s⟩
  · rfl
  simp only [lastPart, Except.bind, noPart, skipper]
  rcases readPart 3 (readOptional (readText .string)) s with e | ⟨command, s⟩
  · rfl
  dsimp only
  rcases endParts s with e | rest <;> rfl

theorem lastPart_verdict (directory : Path) (file : String) (arguments : Option (List String))
    (s : Bytes) :
    Verdict .gap
      (fun e u ↦ (e.directory = directory ∧ e.file = file ∧ e.arguments = arguments) ∧
        Rest ValueForm ']' false [.command e.command] u)
      (lastPart directory file arguments) s := by
  have htext := readOptional_verdict (readText_verdict .string)
  apply (readPart_verdict htext 3 s).bind
    (fun command ↦ noPart ⟨directory, file, arguments, command⟩) fun _ _ ↦ rfl
  rintro command u left rfl ⟨a, t, w, rfl, ha, ht, hw⟩
  apply (endParts_verdict left).map fun _ ↦ (⟨directory, file, arguments, command⟩ : Entry)
  rintro - v ⟨b, m, rfl, hb, rfl⟩
  have hcommand : Led ValueForm (.command command) w := hw.imp fun _ ↦ .command
  refine ⟨⟨rfl, rfl, rfl⟩, ?_⟩
  simpa using Rest.of_turns ha ht hcommand (.ended hb)

theorem lastTwoParts_verdict (directory : Path) (file : String) (s : Bytes) :
    Verdict .gap
      (fun e u ↦ (e.directory = directory ∧ e.file = file) ∧
        Rest ValueForm ']' false [.arguments e.arguments, .command e.command] u)
      (lastTwoParts directory file) s := by
  have hlist := readOptional_verdict readList_verdict
  apply (readPart_verdict hlist 2 s).bind (lastPart directory file) fun _ _ ↦ rfl
  rintro arguments u left rfl ⟨a, t, w, rfl, ha, ht, hw⟩
  apply ((lastPart_verdict directory file arguments left).mono _).imp
  rintro e v ⟨⟨hdirectory, hfile, rfl⟩, hrest⟩
  have harguments : Led ValueForm (.arguments e.arguments) w := hw.imp fun _ ↦ .arguments
  refine ⟨⟨hdirectory, hfile⟩, ?_⟩
  simpa using Rest.of_turns ha ht harguments hrest

theorem lastThreeParts_verdict (directory : Path) (s : Bytes) :
    Verdict .gap
      (fun e u ↦ e.directory = directory ∧ Rest ValueForm ']' false
        [.file e.file, .arguments e.arguments, .command e.command] u)
      (lastThreeParts directory) s := by
  apply (readPart_verdict (readText_verdict .string) 1 s).bind (lastTwoParts directory)
    fun _ _ ↦ rfl
  rintro file u left rfl ⟨a, t, w, rfl, ha, ht, hw⟩
  apply ((lastTwoParts_verdict directory file left).mono _).imp
  rintro e v ⟨⟨hdirectory, rfl⟩, hrest⟩
  have hfile : Led ValueForm (.file e.file) w := hw.imp fun _ ↦ .file
  refine ⟨hdirectory, ?_⟩
  simpa using Rest.of_turns ha ht hfile hrest

theorem readParts_verdict (s : Bytes) :
    Verdict .gap
      (fun e u ↦ Rest ValueForm ']' true
        [.directory e.directory, .file e.file, .arguments e.arguments, .command e.command] u)
      readParts s := by
  apply (readPart_verdict (readText_verdict .path) 0 s).bind _ readParts_eq
  rintro directory u left rfl ⟨a, t, w, rfl, ha, ht, hw⟩
  apply ((lastThreeParts_verdict directory left).mono _).imp
  rintro e v ⟨rfl, hrest⟩
  have hdirectory : Led ValueForm (.directory e.directory) w := hw.imp fun _ ↦ .directory
  simpa using Rest.of_turns ha ht hdirectory hrest

/-! ## Entries and documents -/

theorem not_entryForm_nil (e : Entry) : ¬ EntryForm e [] := by
  rintro (hobject | hlist)
  · cases hobject
  · cases hlist

theorem read_verdict (s : Bytes) : Verdict .gap (Led EntryForm) read s := by
  refine .of_token (e := .eof .value) (fun n s ↦ ?_) rfl (fun _ ↦ rfl) (fun c r hc ↦ ?_) s
  · simp only [read, skipBlanks_skipBlanks]
  by_cases hobject : c = byte '\x7b'
  · subst hobject
    apply Verdict.cons (fun n ↦ readMembers n true .empty)
    · apply (readMembers_verdict true .empty r).imp
      rintro e u ⟨ms, hms, hfinish, hfresh⟩
      exact .object hms.bracketed (gives_of_fresh hfresh hfinish)
    · intro n r
      rw [read, skipBlanks_cons hc]
      exact if_pos rfl
  by_cases hlist : c = byte '['
  · subst hlist
    apply Verdict.cons readParts
    · exact ((readParts_verdict r).mono 1).imp fun e u hu ↦ .list hu.bracketed
    · intro n r
      simp only [read, skipBlanks_cons hc, if_neg hobject, if_true]
  · refine .fails (e := fun _ s ↦ unexpected .entry c s.tail) fun tail n ↦ ?_
    simp only [List.cons_append, read, skipBlanks_cons hc, if_neg hobject, if_neg hlist,
      List.tail_cons]

/-- The list of entries, without a look at what follows it. -/
def readEntries : Nat → Reader (List Entry) :=
  fun n s ↦ match skipBlanks s with
    | [] => .error (.eof .value)
    | b :: r => if b = byte '[' then readItems read n [] r else .error (unexpected .document b r)

theorem readEntries_verdict (s : Bytes) :
    Verdict .gap (Led (Bracketed '[' ']' EntryForm)) readEntries s := by
  refine .of_token (e := .eof .value) (fun n s ↦ ?_) rfl (fun _ ↦ rfl) (fun c r hc ↦ ?_) s
  · simp only [readEntries, skipBlanks_skipBlanks]
  by_cases hbracket : c = byte '['
  · subst hbracket
    apply Verdict.cons (fun n ↦ readItems read n [])
    · apply (Verdict.readItems not_entryForm_nil read_verdict [] r).imp
      rintro es u ⟨ys, rfl, hys⟩
      exact hys.bracketed
    · intro n r
      simp only [readEntries, skipBlanks_cons hc, if_true]
  · refine .fails (e := fun _ s ↦ unexpected .document c s.tail) fun tail n ↦ ?_
    simp only [List.cons_append, readEntries, skipBlanks_cons hc, if_neg hbracket,
      List.tail_cons]

theorem readDocument_eq (s : Bytes) :
    readDocument s = (readEntries s.length s).bind fun r ↦
      if (skipBlanks r.2).isEmpty then .ok r.1 else .error (.malformed .trailingCharacters) := by
  rw [readDocument, readEntries]
  cases skipBlanks s with
  | nil => rfl
  | cons b r =>
      dsimp only
      split
      · rcases readItems read s.length [] r with e | ⟨entries, rest⟩ <;> rfl
      · rfl

theorem blank_of_skipBlanks {s : Bytes} (h : (skipBlanks s).isEmpty) : Blank s := by
  rcases blank_or_token s with hs | ⟨a, c, r, rfl, ha, hc⟩
  · exact hs
  · rw [skipBlanks_token ha hc] at h
    cases h

/-- A document that is read has been read to its end. -/
theorem readEntries_of_readDocument {s : Bytes} {es : List Entry}
    (h : readDocument s = .ok es) :
    ∃ rest, readEntries s.length s = .ok (es, rest) ∧ Blank rest := by
  rw [readDocument_eq] at h
  rcases hentries : readEntries s.length s with e | ⟨entries, rest⟩
  · rw [hentries] at h
    cases h
  · rw [hentries] at h
    simp only [Except.bind] at h
    split at h
    · cases h
      exact ⟨rest, rfl, blank_of_skipBlanks ‹_›⟩
    · cases h

end Entry

end CompileFlags.Database
