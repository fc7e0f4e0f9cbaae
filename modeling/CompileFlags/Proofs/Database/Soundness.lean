import CompileFlags.Proofs.Database.Completeness
import CompileFlags.Proofs.Database.Verdict

/-!
# Nothing else opens

A file that opens holds a document, and the commands of the database are those of its entries. The
verdict on the list of entries says what was read, and the end of the document says that there was
nothing more.
-/

namespace CompileFlags.Database

open Json Json.Form Database.Form

namespace Entry

theorem documentForm_of_readDocument {s : Bytes} {es : List Entry}
    (h : readDocument s = .ok es) : DocumentForm es s := by
  obtain ⟨rest, hread, hrest⟩ := readEntries_of_readDocument h
  cases readEntries_verdict s with
  | @takes xs u left hs hu hspot hstable =>
      have hsame := hstable [] s.length (by rw [List.append_nil])
      rw [List.append_nil, List.append_nil, hread] at hsame
      cases hsame
      obtain ⟨a, m, rfl, ha, hm⟩ := hu
      rw [hs]
      exact .mk ha hm hrest
  | starves _ herror =>
      have hsame := herror s.length (Nat.le_refl _)
      rw [hread] at hsame
      cases hsame
  | rejects herror =>
      obtain ⟨e, hsame⟩ := herror [] s.length (by rw [List.append_nil])
      rw [List.append_nil, hread] at hsame
      cases hsame

theorem readDocument_iff {s : Bytes} {es : List Entry} :
    readDocument s = .ok es ↔ DocumentForm es s :=
  ⟨documentForm_of_readDocument, readDocument_form⟩

theorem records_of_toCommand {e : Entry} {c : Command} (h : e.toCommand = .ok c) :
    e.Records c ∧ (e.arguments.isSome ∨ e.command.isSome) := by
  obtain ⟨directory, file, arguments, command⟩ := e
  cases arguments with
  | some arguments =>
      cases h
      exact ⟨⟨rfl, rfl, .inl rfl⟩, .inl rfl⟩
  | none =>
      cases command with
      | none => cases h
      | some text =>
          cases hwords : Words.split text with
          | none => simp [toCommand, invocation, hwords, Except.map] at h
          | some words =>
              simp only [toCommand, invocation, hwords, Except.map, Except.ok.injEq] at h
              subst h
              exact ⟨⟨rfl, rfl, .inr ⟨rfl, text, rfl, hwords⟩⟩, .inr rfl⟩

end Entry

theorem records_of_commandsFrom {es : List Entry} {index : Nat} {cs : List Command}
    (h : commandsFrom index es = .ok cs) :
    List.Forall₂ Entry.Records es cs ∧ ∀ e ∈ es, e.arguments.isSome ∨ e.command.isSome := by
  induction es generalizing index cs with
  | nil =>
      cases h
      exact ⟨.nil, fun e he ↦ absurd he List.not_mem_nil⟩
  | cons e es ih =>
      rw [commandsFrom] at h
      rcases hcommand : e.toCommand with why | c
      · rw [hcommand] at h
        cases h
      rcases hrest : commandsFrom (index + 1) es with why | ds
      · rw [hcommand, hrest] at h
        cases h
      rw [hcommand, hrest] at h
      cases h
      obtain ⟨hrecords, hgiven⟩ := Entry.records_of_toCommand hcommand
      obtain ⟨hall, hothers⟩ := ih hrest
      exact ⟨.cons hrecords hall, List.forall_mem_cons.mpr ⟨hgiven, hothers⟩⟩

theorem entries_of_load {w v : World} {directory : Path} {name : String} {db : Database}
    (h : load w directory name = (.ok db, v)) :
    ∃ content es, w.read (file directory name) = (.ok content, v) ∧
      Entry.readDocument content = .ok es ∧ commandsFrom 0 es = .ok db.commands ∧
      db.path = file directory name := by
  rw [load] at h
  rcases hread : w.read (file directory name) with ⟨why | content, u⟩
  · rw [hread] at h
    cases h
  rw [hread] at h
  dsimp only at h
  rcases hcommands : ofBytes content with why | cs
  · rw [hcommands] at h
    cases h
  rw [hcommands] at h
  cases h
  rw [ofBytes] at hcommands
  rcases hdocument : Entry.readDocument content with why | es
  · rw [hdocument] at hcommands
    cases hcommands
  rw [hdocument] at hcommands
  exact ⟨content, es, rfl, hdocument, hcommands, rfl⟩

/-- What opens is a document of entries that each say what to run, and the database has their
commands. -/
theorem document_of_load {w v : World} {directory : Path} {name : String} {db : Database}
    (h : load w directory name = (.ok db, v)) :
    ∃ content es, w.read (file directory name) = (.ok content, v) ∧ DocumentForm es content ∧
      (∀ e ∈ es, e.arguments.isSome ∨ e.command.isSome) ∧
      List.Forall₂ Entry.Records es db.commands := by
  obtain ⟨content, es, hread, hdocument, hcommands, -⟩ := entries_of_load h
  obtain ⟨hrecords, hgiven⟩ := records_of_commandsFrom hcommands
  exact ⟨content, es, hread, Entry.documentForm_of_readDocument hdocument, hgiven, hrecords⟩

theorem document_of_load_mixedSpellings :
    let w : World := .ofFile "/w" "/p/compile_commands.json" mixedSpellings
    let cs : List Command := [⟨"/p", "a.c", ["cc", "-DA"]⟩, ⟨"/p", "b.c", ["-DB"]⟩]
    load w "/p" "compile_commands.json" = (.ok ⟨"/p/compile_commands.json", cs⟩, w) ∧
      ∃ content es, w.read "/p/compile_commands.json" = (.ok content, w) ∧
        DocumentForm es content ∧ (∀ e ∈ es, e.arguments.isSome ∨ e.command.isSome) ∧
        List.Forall₂ Entry.Records es cs := by
  intro w cs
  have hread : w.read "/p/compile_commands.json" = (.ok mixedSpellings.toUTF8.toList, w) := rfl
  have hcommands : ofBytes mixedSpellings.toUTF8.toList = .ok cs := by
    rw [ofBytes, Entry.readDocument_form documentForm_mixedSpellings]
    rfl
  have hfile : file "/p" "compile_commands.json" = "/p/compile_commands.json" := by decide
  have hload : load w "/p" "compile_commands.json" =
      (.ok ⟨"/p/compile_commands.json", cs⟩, w) := by
    simp only [load, hfile, hread, hcommands]
  exact ⟨hload, hfile ▸ document_of_load hload⟩

end CompileFlags.Database
