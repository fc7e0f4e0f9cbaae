import CompileFlags.Proofs.Database.Feedback
import CompileFlags.Proofs.Database.Truncation

/-!
# Command strings and argument lists

An entry may give the words of a run as a list, or spell them in one command string. The spelling
does not matter: with other quotes, other blanks or a list in the place of command strings, the same
commands are in the database.
-/

namespace CompileFlags.Database

open Json Json.Form Database.Form

namespace Entry

/-- The second entry lists the words of a run, and the first one spells them; or both are one. -/
inductive Spells : Entry → Entry → Prop
  | same (e : Entry) : Spells e e
  | words {directory : Path} {file text : String} {words : List String} {command : Option String} :
      Words.Spells words text.toList →
      Spells ⟨directory, file, none, some text⟩ ⟨directory, file, some words, command⟩

theorem Spells.toCommand_eq {d e : Entry} (h : d.Spells e) : d.toCommand = e.toCommand := by
  cases h with
  | same => rfl
  | words hwords => simp [toCommand, invocation, Words.split_spells hwords]

theorem commandsFrom_spells {ds es : List Entry} (h : List.Forall₂ Spells ds es) (index : Nat) :
    commandsFrom index ds = commandsFrom index es := by
  induction h generalizing index with
  | nil => rfl
  | cons h _ ih => rw [commandsFrom, commandsFrom, h.toCommand_eq, ih]

/-- The run that an entry lists, where it lists one. -/
def Lists (e : Entry) (c : Command) : Prop :=
  ∀ words, e.arguments = some words → c = ⟨e.directory, e.file, words⟩

theorem Records.lists {e : Entry} {c : Command} (h : e.Records c) : e.Lists c := by
  intro words hwords
  obtain ⟨directory, file, arguments⟩ := c
  obtain ⟨rfl, rfl, hgiven | ⟨hnone, -⟩⟩ := h
  · obtain rfl : arguments = words := Option.some.inj (hgiven.symm.trans hwords)
    rfl
  · exact absurd (hnone.symm.trans hwords) (Option.some_ne_none words).symm

end Entry

theorem ofBytes_form {es : List Entry} {s : Bytes} (h : DocumentForm es s) :
    ofBytes s = commandsFrom 0 es := by
  rw [ofBytes, Entry.readDocument_form h]

/-- Two documents, one of which spells in command strings some of the runs that the other one lists,
open to the same commands, or fail with the same error. If all entries can be run, both open, and
the command of an entry that lists its run has just the words of the list. -/
theorem load_spelled {ds es : List Entry} {s t : Bytes} (h : List.Forall₂ Entry.Spells ds es)
    (hds : DocumentForm ds s) (hes : DocumentForm es t) {v v' w w' : World} {directory : Path}
    {name : String} (hv : v.read (file directory name) = (.ok s, v'))
    (hw : w.read (file directory name) = (.ok t, w')) :
    (load v directory name).1 = (load w directory name).1 ∧
      ((∀ e ∈ es, e.Usable) → ∃ cs,
        load v directory name = (.ok ⟨file directory name, cs⟩, v') ∧
          load w directory name = (.ok ⟨file directory name, cs⟩, w') ∧
            List.Forall₂ Entry.Lists es cs) := by
  have hbytes : ofBytes s = ofBytes t := by
    rw [ofBytes_form hds, ofBytes_form hes, Entry.commandsFrom_spells h 0]
  constructor
  · cases ht : ofBytes t <;> simp [load, hv, hw, hbytes, ht]
  · intro husable
    obtain ⟨cs, hcs, hrecords⟩ := commandsFrom_of_usable husable 0
    have ht : ofBytes t = .ok cs := (ofBytes_form hes).trans hcs
    refine ⟨cs, ?_, ?_, hrecords.imp fun _ _ ↦ Entry.Records.lists⟩
    · simp [load, hv, hbytes, ht]
    · simp [load, hw, ht]

/-- Blanks at both ends, a comment sign behind empty quotes and one behind a backslash, a word of
three pieces, and a carriage return, which is no blank. -/
def manyQuotes : String :=
  "\tcc  ''# \\#x \"a\\\"\\$b\"'c d'\r\n"

theorem spells_manyQuotes : Words.Spells ["cc", "#", "#x", "a\"$bc d\r"] manyQuotes.toList := by
  have hlast : Words.Spells ["a\"$bc d\r"] _ :=
    @Words.Spells.last [] ['\n']
      ⟨[.double [⟨'a', false⟩, ⟨'"', true⟩, ⟨'$', true⟩, ⟨'b', false⟩], .single ['c', ' ', 'd'],
        .bare ['\r']]⟩ (by decide) (by decide) (by decide)
  have hescaped : Words.Spells ("#x" :: _) _ :=
    @Words.Spells.cons [] _ ' ' ⟨[.escaped '#', .bare ['x']]⟩ _ (by decide) (by decide) (by decide)
      hlast
  have hquoted : Words.Spells ("#" :: _) _ :=
    @Words.Spells.cons [' '] _ ' ' ⟨[.single [], .bare ['#']]⟩ _ (by decide) (by decide) (by decide)
      hescaped
  exact @Words.Spells.cons ['\t'] _ ' ' ⟨[.bare ['c', 'c']]⟩ _ (by decide) (by decide) (by decide)
    hquoted

theorem load_spelled_manyQuotes :
    let name := "compile_commands.json"
    let words := ["cc", "#", "#x", "a\"$bc d\r"]
    let v := recorded (record "/p" "a.c" "command" (Writer.string manyQuotes))
    let w := recorded (record "/p" "a.c" "arguments" (Writer.strings 1 words))
    Words.Spells words manyQuotes.toList ∧
      load v "/p" name = (.ok ⟨file "/p" name, [⟨"/p", "a.c", words⟩]⟩, v) ∧
      load w "/p" name = (.ok ⟨file "/p" name, [⟨"/p", "a.c", words⟩]⟩, w) := by
  intro name words v w
  have hv : DocumentForm [⟨"/p", "a.c", none, some manyQuotes⟩] _ :=
    documentForm_record (.command (.some (Writer.textForm_string _)))
      ⟨rfl, rfl, .inr ⟨rfl, rfl⟩, .inl rfl⟩
  have hw : DocumentForm [⟨"/p", "a.c", some words, none⟩] _ :=
    documentForm_record (.arguments (.some (Writer.bracketed_strings 1 _)))
      ⟨rfl, rfl, .inl rfl, .inr ⟨rfl, rfl⟩⟩
  have hspells : List.Forall₂ Entry.Spells [⟨"/p", "a.c", none, some manyQuotes⟩]
      [⟨"/p", "a.c", some words, none⟩] := .cons (.words spells_manyQuotes) .nil
  have husable : ∀ e ∈ [Entry.mk "/p" "a.c" (some words) none], e.Usable := by
    intro e he
    obtain rfl := List.mem_singleton.mp he
    exact ⟨.inl rfl, fun text hnone _ ↦ by cases hnone⟩
  obtain ⟨-, hopens⟩ := load_spelled hspells hv hw (read_recorded _) (read_recorded _)
  obtain ⟨cs, hcommand, harguments, hlists⟩ := hopens husable
  obtain _ | ⟨hc, _ | _⟩ := hlists
  obtain rfl := hc words rfl
  exact ⟨spells_manyQuotes, hcommand, harguments⟩

end CompileFlags.Database
