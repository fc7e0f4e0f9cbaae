import CompileFlags.Database
import CompileFlags.Proofs.Database.Members
import Mathlib.Data.List.Forall2

/-!
# Every document opens

A document of entries that can all be run opens, whatever its spelling, and the database holds one
command for each entry, in their order.
-/

namespace CompileFlags.Database

open Json Json.Form Database.Form

namespace Entry

variable {a s : Bytes}

/-! ## Entries written as lists -/

theorem readPart_first {α : Type} {m : Bytes} (ha : Blank a) (hm : Begins m)
    (read : Reader α) (tail : Bytes) :
    readPart 0 read (a ++ (m ++ tail)) = read (m ++ tail) := by
  have hnext := nextElement_begins .first ha hm tail
  rw [List.nil_append] at hnext
  simp [readPart, hnext, bind, Except.bind]

theorem readPart_next {α : Type} {b m : Bytes} (hb : Blank b) (ha : Blank a) (hm : Begins m)
    (n : Nat) (read : Reader α) (tail : Bytes) :
    readPart (n + 1) read (b ++ byte ',' :: (a ++ (m ++ tail))) = read (m ++ tail) := by
  have hnext := nextElement_begins (.next hb) ha hm tail
  rw [List.append_assoc, List.singleton_append] at hnext
  simp [readPart, hnext, bind, Except.bind]

theorem endParts_closing {b : Bytes} (hb : Blank b) (tail : Bytes) :
    endParts (b ++ byte ']' :: tail) = .ok tail := by
  rw [endParts, skipBlanks_token hb (by decide)]
  simp

theorem readParts_form {e : Entry}
    (h : Separated ValueForm
      [.directory e.directory, .file e.file, .arguments e.arguments, .command e.command] s)
    {budget : Nat} {tail : Bytes} (hbudget : (s ++ byte ']' :: tail).length ≤ budget) :
    readParts budget (s ++ byte ']' :: tail) = .ok (e, tail) := by
  obtain _ | @⟨_, _, a₁, m₁, b₁, _, ha₁, h₁, hb₁, h⟩ := h
  obtain _ | @⟨_, _, a₂, m₂, b₂, _, ha₂, h₂, hb₂, h⟩ := h
  obtain _ | @⟨_, _, a₃, m₃, b₃, _, ha₃, h₃, hb₃, h⟩ := h
  obtain @⟨_, a₄, m₄, b₄, ha₄, h₄, hb₄⟩ | h := h
  case cons h => cases h
  have hdirectory (t : Bytes) : readPart 0 (readText .path) (a₁ ++ (m₁ ++ t)) =
      .ok (e.directory, t) := by
    rw [readPart_first ha₁ (begins_value h₁)]
    cases h₁ with
    | directory h₁ => exact readText_form h₁ blank_nil .path t
  have hfile (t : Bytes) : readPart 1 (readText .string) (b₁ ++ byte ',' :: (a₂ ++ (m₂ ++ t))) =
      .ok (e.file, t) := by
    rw [readPart_next hb₁ ha₂ (begins_value h₂)]
    cases h₂ with
    | file h₂ => exact readText_form h₂ blank_nil .string t
  have harguments (t : Bytes) (ht : (m₃ ++ t).length ≤ budget) :
      readPart 2 (readOptional (readList budget)) (b₂ ++ byte ',' :: (a₃ ++ (m₃ ++ t))) =
        .ok (e.arguments, t) := by
    rw [readPart_next hb₂ ha₃ (begins_value h₃)]
    cases h₃ with
    | arguments h₃ => exact readOptional_list h₃ blank_nil ht
  have hcommand (t : Bytes) :
      readPart 3 (readOptional (readText .string)) (b₃ ++ byte ',' :: (a₄ ++ (m₄ ++ t))) =
        .ok (e.command, t) := by
    rw [readPart_next hb₃ ha₄ (begins_value h₄)]
    cases h₄ with
    | command h₄ => exact readOptional_text h₄ blank_nil t
  simp only [List.append_assoc, List.cons_append] at hbudget ⊢
  have hend := endParts_closing hb₄ tail
  rw [readParts, hdirectory]
  simp only [hfile, bind, Except.bind]
  rw [harguments _ (by simp at hbudget ⊢; omega)]
  simp [hcommand, hend, pure, Except.pure]

/-! ## Documents -/

theorem begins_entry {e : Entry} (h : EntryForm e s) : Begins s := by
  cases h with
  | object h => cases h <;> exact ⟨_, _, rfl, by decide, by decide⟩
  | list h => cases h with
    | items => exact ⟨_, _, rfl, by decide, by decide⟩

theorem read_object {ms : List Member} {e : Entry}
    (h : Bracketed '\x7b' '\x7d' MemberForm ms s) (he : Gives ms e) {n : Nat} {tail : Bytes}
    (hn : (s ++ tail).length ≤ n) : read n (s ++ tail) = .ok (e, tail) := by
  have hfinish := finish_of_gives he
  cases h with
  | @empty s hs =>
      simp only [List.append_assoc, List.cons_append, List.nil_append, List.length_cons] at hn ⊢
      obtain ⟨n, rfl⟩ := Nat.exists_eq_add_of_le' (show 1 ≤ n by omega)
      have hmembers : readMembers (n + 1) true .empty (s ++ byte '\x7d' :: tail) =
          .ok (e, tail) :=
        readMembers_ended (nextMember_ended hs true tail) hfinish n
      rw [read, skipBlanks_cons (by decide)]
      simpa using hmembers
  | @items _ s hs =>
      simp only [List.append_assoc, List.cons_append, List.nil_append, List.length_cons] at hn ⊢
      have hmembers : readMembers n true .empty (s ++ byte '\x7d' :: tail) = .ok (e, tail) :=
        readMembers_separated hs .first (fresh_of_gives he) hfinish tail
          (by simpa using Nat.lt_of_succ_le hn)
      rw [read, skipBlanks_cons (by decide)]
      simpa using hmembers

theorem read_form {e : Entry} (h : EntryForm e s) {n : Nat} {tail : Bytes}
    (hn : (s ++ tail).length ≤ n) : read n (s ++ tail) = .ok (e, tail) := by
  cases h with
  | object h he => exact read_object h he hn
  | list h =>
      cases h with
      | items h =>
          simp only [List.append_assoc, List.cons_append, List.nil_append, List.length_cons]
            at hn ⊢
          rw [read, skipBlanks_cons (by decide)]
          simpa +decide using readParts_form h (Nat.le_of_succ_le hn)

/-- Reading undoes writing, for every way of writing. -/
theorem readDocument_form {es : List Entry} (h : DocumentForm es s) :
    readDocument s = .ok es := by
  cases h with
  | @mk a m b ha hm hb =>
      obtain ⟨r, rfl, hr⟩ := readItems_bracketed (fun _ _ ↦ begins_entry)
        (fun _ _ he _ _ ↦ read_form he) hm
      -- The bracket is part of the budget and has been read, so the budget is large enough.
      have hitems := hr (a ++ byte '[' :: r ++ b).length b (by simp; omega)
      rw [List.append_assoc, List.cons_append] at hitems ⊢
      rw [readDocument, skipBlanks_token ha (by decide)]
      simp only [↓reduceIte, hitems, skipBlanks_of_blank hb, List.isEmpty_nil]

end Entry

/-! ## Opening -/

/-- An entry says what to run: its arguments, or a command that can be split. -/
structure Entry.Usable (e : Entry) : Prop where
  given : e.arguments.isSome ∨ e.command.isSome
  split (text : String) : e.arguments = none → e.command = some text →
    (Words.split text).isSome

/-- The command of an entry: its arguments or, without any, the words of its command. -/
structure Entry.Records (e : Entry) (c : Command) : Prop where
  directory : c.directory = e.directory
  file : c.filename = e.file
  arguments : e.arguments = some c.arguments ∨
    e.arguments = none ∧ ∃ text, e.command = some text ∧ Words.split text = some c.arguments

theorem Entry.toCommand_of_usable {e : Entry} (h : e.Usable) :
    ∃ c, e.toCommand = .ok c ∧ e.Records c := by
  obtain ⟨directory, file, arguments, command⟩ := e
  cases arguments with
  | some arguments => exact ⟨⟨directory, file, arguments⟩, rfl, rfl, rfl, .inl rfl⟩
  | none =>
      obtain ⟨text, rfl⟩ : ∃ text, command = some text := by
        simpa [Option.isSome_iff_exists] using h.given
      obtain ⟨words, hwords⟩ := Option.isSome_iff_exists.mp (h.split text rfl rfl)
      refine ⟨⟨directory, file, words⟩, ?_, rfl, rfl, .inr ⟨rfl, text, rfl, hwords⟩⟩
      simp [toCommand, invocation, hwords, Except.map]

theorem commandsFrom_of_usable {es : List Entry} (h : ∀ e ∈ es, e.Usable) (index : Nat) :
    ∃ cs, commandsFrom index es = .ok cs ∧ List.Forall₂ Entry.Records es cs := by
  induction es generalizing index with
  | nil => exact ⟨[], rfl, .nil⟩
  | cons e es ih =>
      obtain ⟨c, hc, hrecords⟩ := Entry.toCommand_of_usable (h e List.mem_cons_self)
      obtain ⟨cs, hcs, hrest⟩ := ih (fun d hd ↦ h d (List.mem_cons_of_mem e hd)) (index + 1)
      exact ⟨c :: cs, by simp [commandsFrom, hc, hcs, Except.map], .cons hrecords hrest⟩

/-- Every document of usable entries opens, and the database has one command for each entry. -/
theorem load_document {es : List Entry} {content : Bytes} (h : DocumentForm es content)
    (husable : ∀ e ∈ es, e.Usable) {w v : World} {directory : Path} {name : String}
    (hread : w.read (file directory name) = (.ok content, v)) :
    ∃ db, load w directory name = (.ok db, v) ∧ List.Forall₂ Entry.Records es db.commands := by
  obtain ⟨cs, hcs, hrecords⟩ := commandsFrom_of_usable husable 0
  refine ⟨⟨file directory name, cs⟩, ?_, hrecords⟩
  simp [load, hread, ofBytes, Entry.readDocument_form h, hcs]

/-- Two entries: an object with an unknown member, an escape in a name and no arguments, and a
list. -/
def mixedSpellings : String :=
  "[\x7b\"more\":[\x7b\x7d,-1.5e+3],\"command\":\"cc -DA\"," ++
    "\"f\\u0069le\":\"a.c\",\"directory\":\"/p\"\x7d,\n" ++
    "[\"/p\",\"b.c\", [\"-DB\"] ,null]]"

theorem textForm_plain {s : String} (h : Plain (word s)) (hs : Text.decode (word s) = some s) :
    TextForm s (byte '"' :: word s ++ [byte '"']) :=
  .mk (Text.body_plain .read h) hs

theorem documentForm_mixedSpellings :
    DocumentForm [⟨"/p", "a.c", none, some "cc -DA"⟩, ⟨"/p", "b.c", some ["-DB"], none⟩]
      mixedSpellings.toUTF8.toList := by
  have hblank : Blank [byte ' '] := by decide
  have hline : Blank [byte '\n'] := by decide
  have hp : TextForm "/p" _ := textForm_plain (by decide) (by rfl)
  have hwhole : Whole [byte '1'] := .digits (by decide) (by decide) (by simp)
  have hfraction : Digits (word "5") := by decide
  have hexponent : Digits (word "3") := by decide
  have hmark : Number.isExponentMark (byte 'e') := by decide
  have hnumeral : Value _ :=
    .numeral (.minus hwhole (.digits hfraction) (.signed hmark (.inl rfl) hexponent))
  have hmore : MemberForm (.other "more") _ :=
    .mk (textForm_plain (by decide) (by rfl)) blank_nil blank_nil
      (.other rfl (.list (.cons blank_nil (.emptyObject blank_nil) blank_nil
        (.one blank_nil hnumeral blank_nil))))
  have hcommand : MemberForm (.command (some "cc -DA")) _ :=
    .mk (textForm_plain (by decide) (by rfl)) blank_nil blank_nil
      (.command (.some (textForm_plain (by decide) (by rfl))))
  have hunit : Unit4 (word "0069") 'i'.toNat :=
    .mk (i := 0) (j := 0) (k := 6) (l := 9) (by decide) (by decide) (by decide) (by decide)
  have hname : TextForm "file" _ :=
    .mk (.cons (.plain (b := byte 'f') (by decide) (by decide) (by decide))
      (.cons (.unit (c := 'i') hunit)
        (Text.body_plain .read (s := word "le") (by decide)))) (by rfl)
  have hfile : MemberForm (.file "a.c") _ :=
    .mk hname blank_nil blank_nil
      (.file (textForm_plain (by decide) (by rfl)))
  have hdirectory : MemberForm (.directory "/p") _ :=
    .mk (textForm_plain (by decide) (by rfl)) blank_nil blank_nil
      (.directory hp)
  have hobject : EntryForm ⟨"/p", "a.c", none, some "cc -DA"⟩ _ :=
    .object (.items (.cons blank_nil hmore blank_nil (.cons blank_nil hcommand blank_nil
      (.cons blank_nil hfile blank_nil (.one blank_nil hdirectory blank_nil)))))
      ⟨rfl, rfl, .inr ⟨rfl, rfl⟩, .inl rfl⟩
  have hlist : EntryForm ⟨"/p", "b.c", some ["-DB"], none⟩ _ :=
    .list (.items (.cons blank_nil (.directory hp) blank_nil
      (.cons blank_nil (.file (textForm_plain (by decide) (by rfl))) blank_nil
        (.cons hblank (.arguments (.some (.items (.one blank_nil
          (textForm_plain (by decide) (by rfl)) blank_nil)))) hblank
          (.one blank_nil (.command .none) blank_nil)))))
  have hdocument : DocumentForm _ _ := .mk blank_nil (.items (.cons blank_nil hobject blank_nil
    (.one hline hlist blank_nil))) blank_nil
  refine (congrArg (DocumentForm _) ?_).mp hdocument
  decide +kernel

theorem load_document_mixedSpellings :
    let w : World := .ofFile "/w" "/p/compile_commands.json" mixedSpellings
    ∃ db, load w "/p" "compile_commands.json" = (.ok db, w) ∧
      List.Forall₂ Entry.Records
        [⟨"/p", "a.c", none, some "cc -DA"⟩, ⟨"/p", "b.c", some ["-DB"], none⟩] db.commands := by
  apply load_document documentForm_mixedSpellings
  · intro e he
    rcases List.mem_cons.mp he with rfl | he
    · exact ⟨.inr rfl, fun text _ htext ↦ by cases htext; rfl⟩
    · obtain rfl := List.mem_singleton.mp he
      exact ⟨.inl rfl, fun text hnone _ ↦ by cases hnone⟩
  · rfl

end CompileFlags.Database
