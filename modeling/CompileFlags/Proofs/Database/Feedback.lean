import CompileFlags.CommandLine.Report
import CompileFlags.Proofs.Database.Completeness
import CompileFlags.Proofs.Flags.Settled
import CompileFlags.Proofs.Json.Writing
import CompileFlags.Proofs.Text.Quoting

/-!
# Printed flags in a database

What the tool prints for a command can be recorded as another command: the line as its command
string, the list as its arguments. The database then gives the flags back, and normalization leaves
them as they are.
-/

namespace CompileFlags.CommandLine.Findings

theorem text_single {f : Findings} {name : String} {flags : List String}
    (h : f.get? name = some flags) : f.text [name] = Words.join flags ++ "\n" := by
  simp [text, line, h, String.join]

end CompileFlags.CommandLine.Findings

namespace CompileFlags.Database

open Json Json.Form Database.Form

/-- The entry records printed flags: the list, the line, or all that was printed for one file. -/
inductive Entry.Takes (flags : List String) : Entry → Prop
  | list {directory : Path} {file : String} {command : Option String} :
      Takes flags ⟨directory, file, some flags, command⟩
  | line {directory : Path} {file : String} :
      Takes flags ⟨directory, file, none, some (Words.join flags)⟩
  | text {directory : Path} {file name : String} {f : CommandLine.Findings} :
      f.get? name = some flags → Takes flags ⟨directory, file, none, some (f.text [name])⟩

theorem Entry.Takes.toCommand {flags : List String} {e : Entry} (h : e.Takes flags) :
    e.toCommand = .ok ⟨e.directory, e.file, flags⟩ := by
  cases h with
  | list => rfl
  | line => simp [Entry.toCommand, invocation, Words.split_join, Except.map]
  | text h =>
      simp [Entry.toCommand, invocation, CommandLine.Findings.text_single h,
        Words.split_join_newline, Except.map]

theorem commandsFrom_of_takes {flags : List String} {es : List Entry}
    (h : ∀ e ∈ es, e.Takes flags ∨ e.Usable) (index : Nat) :
    ∃ cs, commandsFrom index es = .ok cs ∧
      List.Forall₂ (fun e c ↦ e.Takes flags → c = ⟨e.directory, e.file, flags⟩) es cs := by
  induction es generalizing index with
  | nil => exact ⟨[], rfl, .nil⟩
  | cons e es ih =>
      obtain ⟨c, hc, htakes⟩ : ∃ c, e.toCommand = .ok c ∧
          (e.Takes flags → c = ⟨e.directory, e.file, flags⟩) := by
        by_cases he : e.Takes flags
        · exact ⟨_, he.toCommand, fun _ ↦ rfl⟩
        · obtain ⟨c, hc, -⟩ := Entry.toCommand_of_usable
            ((h e List.mem_cons_self).resolve_left he)
          exact ⟨c, hc, fun htakes ↦ absurd htakes he⟩
      obtain ⟨cs, hcs, hrest⟩ := ih (fun d hd ↦ h d (List.mem_cons_of_mem e hd)) (index + 1)
      exact ⟨c :: cs, by simp [commandsFrom, hc, hcs, Except.map], .cons htakes hrest⟩

/-! ## A record written by hand -/

/-- A database of one entry, in which a printed value stands under its key. -/
def record (directory : Path) (file key value : String) : String :=
  "[" ++ Writer.object 0 [("directory", Writer.string directory), ("file", Writer.string file),
    (key, value)] ++ "]"

theorem memberForm_member {m : Member} {value : String} (h : ValueForm m (utf8Bytes value)) :
    MemberForm m (utf8Bytes (Writer.member m.name value)) := by
  have hcolon : utf8Bytes ": " = [byte ':', byte ' '] := by decide
  have hmember := MemberForm.mk (Writer.textForm_string m.name) blank_nil
    (show Blank [byte ' '] by decide) h
  simpa [Writer.member, hcolon] using hmember

theorem documentForm_record {directory : Path} {file value : String} {m : Member} {e : Entry}
    (hvalue : ValueForm m (utf8Bytes value))
    (hgives : Gives [.directory directory, .file file, m] e) :
    DocumentForm [e] (utf8Bytes (record directory file m.name value)) := by
  have hdirectory : MemberForm (.directory directory) _ :=
    memberForm_member (.directory (Writer.textForm_string directory))
  have hfile : MemberForm (.file file) _ :=
    memberForm_member (.file (Writer.textForm_string file))
  have hmembers : Bracketed '\x7b' '\x7d' MemberForm [.directory directory, .file file, m]
      (utf8Bytes (Writer.object 0 [("directory", Writer.string directory),
        ("file", Writer.string file), (m.name, value)])) :=
    Writer.bracketed_block (.cons hdirectory (.cons hfile (.cons (memberForm_member hvalue) .nil)))
      (by decide) (by decide) 0
  have hopening : utf8Bytes "[" = [byte '['] := by decide
  have hclosing : utf8Bytes "]" = [byte ']'] := by decide
  have hdocument : DocumentForm [e] _ :=
    .mk blank_nil (.items (.one blank_nil (.object hmembers hgives) blank_nil)) blank_nil
  simpa [record, hopening, hclosing] using hdocument

theorem ofBytes_record {directory : Path} {file value : String} {m : Member} {e : Entry}
    {flags : List String} (hvalue : ValueForm m (utf8Bytes value))
    (hgives : Gives [.directory directory, .file file, m] e) (he : e.Takes flags) :
    ofBytes (utf8Bytes (record directory file m.name value)) =
      .ok [⟨e.directory, e.file, flags⟩] := by
  rw [ofBytes, Entry.readDocument_form (documentForm_record hvalue hgives)]
  simp [commandsFrom, he.toCommand, Except.map]

/-- Normalized flags that are recorded as they were printed are read and normalized to
themselves. -/
theorem printed_flags_reread {cwd : Option Path} {c : Command}
    (h : c.directory.isAbsolute = true ∨ ∃ d, cwd = some d ∧ d.isAbsolute = true) :
    (∀ directory file,
      ofBytes (utf8Bytes (record directory file "command"
        (Writer.string (Words.join (c.flags cwd))))) = .ok [⟨directory, file, c.flags cwd⟩] ∧
      ∀ depth, ofBytes (utf8Bytes (record directory file "arguments"
        (Writer.strings depth (c.flags cwd)))) = .ok [⟨directory, file, c.flags cwd⟩]) ∧
    (∀ depth, ListForm (c.flags cwd) (utf8Bytes (Writer.strings depth (c.flags cwd)))) ∧
    (∀ es content, DocumentForm es content → (∀ e ∈ es, e.Takes (c.flags cwd) ∨ e.Usable) →
      ∃ cs, ofBytes content = .ok cs ∧ List.Forall₂
        (fun e d ↦ e.Takes (c.flags cwd) → d = ⟨e.directory, e.file, c.flags cwd⟩) es cs) ∧
    ∀ cwd' directory file,
      Command.flags cwd' ⟨directory, file, c.flags cwd⟩ = c.flags cwd := by
  refine ⟨fun directory file ↦ ⟨?_, fun depth ↦ ?_⟩, fun depth ↦ ?_, ?_, ?_⟩
  · have hvalue : ValueForm (.command (some (Words.join (c.flags cwd)))) _ :=
      .command (.some (Writer.textForm_string _))
    have hgives : Gives [.directory directory, .file file, .command (some _)]
        ⟨directory, file, none, some (Words.join (c.flags cwd))⟩ :=
      ⟨rfl, rfl, .inr ⟨rfl, rfl⟩, .inl rfl⟩
    have hrecord := ofBytes_record hvalue hgives .line
    exact hrecord
  · have hvalue : ValueForm (.arguments (some (c.flags cwd))) _ :=
      .arguments (.some (Writer.bracketed_strings depth _))
    have hgives : Gives [.directory directory, .file file, .arguments (some _)]
        ⟨directory, file, some (c.flags cwd), none⟩ :=
      ⟨rfl, rfl, .inl rfl, .inr ⟨rfl, rfl⟩⟩
    have hrecord := ofBytes_record hvalue hgives .list
    exact hrecord
  · exact Writer.bracketed_strings depth _
  · intro es content hdocument hes
    rw [ofBytes, Entry.readDocument_form hdocument]
    exact commandsFrom_of_takes hes 0
  · exact Command.flags_flags h

/-- Quotes, a comment sign, a line break and a name outside of ASCII among the flags. -/
def awkward : Command :=
  ⟨"/p", "a.c", ["cc", "-DQ='\"'\n#\\", "-D", "", "-Iinc/../ä b", "-c"]⟩

theorem printed_flags_reread_awkward :
    awkward.directory.isAbsolute = true ∧
    awkward.flags none = ["-DQ='\"'\n#\\", "-D", "", "-I", "/p/ä b"] ∧
    ofBytes (utf8Bytes (record "" "b.c" "command"
      (Writer.string (Words.join (awkward.flags none))))) =
        .ok [⟨"", "b.c", awkward.flags none⟩] ∧
    Command.flags none ⟨"", "b.c", awkward.flags none⟩ = awkward.flags none := by
  have habs : awkward.directory.isAbsolute = true := by decide
  obtain ⟨hrecord, -, -, hagain⟩ := @printed_flags_reread none awkward (.inl habs)
  exact ⟨habs, by decide +kernel, (hrecord "" "b.c").1, hagain none "" "b.c"⟩

end CompileFlags.Database
