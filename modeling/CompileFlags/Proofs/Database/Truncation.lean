import CompileFlags.Proofs.Database.Soundness
import CompileFlags.Proofs.Json.Writing

/-!
# Databases that were cut off

A part of a document that was cut off is not taken for a shorter document, unless only blanks were
cut off. The error says that the text is unfinished, with one exception: a number that is skipped
and cut off where it needs another digit is called invalid.
-/

namespace CompileFlags.Database

open Json Json.Form Database.Form

namespace Entry

theorem bracketed_last {α : Type} {opening closing : Char} {form : α → Bytes → Prop}
    {xs : List α} {m : Bytes} (h : Bracketed opening closing form xs m) :
    ∃ u, m = u ++ [byte closing] := by
  cases h with
  | @empty s => exact ⟨byte opening :: s, rfl⟩
  | @items _ s => exact ⟨byte opening :: s, rfl⟩

/-- Blanks at the end of a text are behind its last token. -/
theorem blank_behind {c cut u b : Bytes} {x : UInt8} (hx : isBlank x = false)
    (hcut : Blank cut) (h : c ++ cut = u ++ x :: b) : ∃ d, c = u ++ x :: d ∧ b = d ++ cut := by
  have hmem : x ∉ cut := by
    intro hmem
    have hblank := hcut x hmem
    rw [hx] at hblank
    cases hblank
  rcases List.append_eq_append_iff.mp h with ⟨d, -, hd⟩ | ⟨d, rfl, hd⟩
  · exact absurd (hd ▸ List.mem_append_right d List.mem_cons_self) hmem
  · cases d with
    | nil =>
        rw [List.nil_append] at hd
        exact absurd (hd ▸ List.mem_cons_self) hmem
    | cons y d =>
        cases hd
        exact ⟨d, rfl, rfl⟩

theorem documentForm_of_append {es : List Entry} {c cut : Bytes} (hcut : Blank cut)
    (h : DocumentForm es (c ++ cut)) : DocumentForm es c := by
  generalize hs : c ++ cut = s at h
  cases h with
  | @mk a m b ha hm hb =>
      obtain ⟨u, hu⟩ := bracketed_last hm
      have hlast : c ++ cut = (a ++ u) ++ byte ']' :: b := by
        rw [hs, hu]
        simp
      obtain ⟨d, hc, rfl⟩ := blank_behind (by decide) hcut hlast
      have hd : Blank d := fun x hx ↦ hb x (List.mem_append_left cut hx)
      have hform := DocumentForm.mk ha hm hd
      rw [hc]
      simpa [hu] using hform

theorem readDocument_part {es : List Entry} {c cut : Bytes} (hcut : ¬ Blank cut)
    (h : readDocument (c ++ cut) = .ok es) :
    ∃ e, readDocument c = .error e ∧ (Spot.gap.after c).Faults e := by
  obtain ⟨rest, hread, hrest⟩ := readEntries_of_readDocument h
  -- What becomes of the part is what the verdict on it leaves, given that more text helped.
  cases readEntries_verdict c with
  | takes hs hu hspot hstable =>
      have hsame := hstable cut (c ++ cut).length (Nat.le_refl _)
      rw [hread] at hsame
      cases hsame
      -- The list of entries was complete, so only what may follow it is missing.
      exact absurd (fun x hx ↦ hrest x (List.mem_append_right _ hx)) hcut
  | @starves e hfault herror =>
      refine ⟨e, ?_, hfault⟩
      rw [readDocument_eq, herror c.length (Nat.le_refl _)]
      rfl
  | rejects herror =>
      obtain ⟨e, hsame⟩ := herror cut (c ++ cut).length (Nat.le_refl _)
      rw [hread] at hsame
      cases hsame

end Entry

/-- A database that was cut off opens as it did when only blanks are missing. Otherwise it is
malformed, and the error is one of an unfinished text unless the cut is in a number that needs
another digit. -/
theorem load_part {c cut : Bytes} {w v w' v' : World} {directory : Path} {name : String}
    {db : Database} (hwhole : w.read (file directory name) = (.ok (c ++ cut), v))
    (hload : load w directory name = (.ok db, v))
    (hpart : w'.read (file directory name) = (.ok c, v')) :
    Blank cut ∧ load w' directory name = (.ok db, v') ∨
      ¬ Blank cut ∧ ∃ e,
        load w' directory name = (.error ⟨file directory name, .malformed e⟩, v') ∧
        if EndsInNumber c then e = .malformed .invalidNumber else e.category = .eof := by
  obtain ⟨path, cs⟩ := db
  obtain ⟨content, es, hread, hdocument, hcommands, rfl⟩ := entries_of_load hload
  rw [hwhole] at hread
  cases hread
  by_cases hcut : Blank cut
  · left
    have hform := Entry.documentForm_of_append hcut
      (Entry.documentForm_of_readDocument hdocument)
    refine ⟨hcut, ?_⟩
    simp only [load, hpart, ofBytes, Entry.readDocument_form hform, hcommands]
  · right
    obtain ⟨e, herror, hfault⟩ := Entry.readDocument_part hcut hdocument
    refine ⟨hcut, e, ?_, hfault⟩
    simp only [load, hpart, ofBytes, herror]

/-- The start of a database, up to the sign of a number that is skipped. -/
def cutAtSign : String :=
  "[\x7b\"x\":-"

def behindDigit : String :=
  ",\"directory\":\"/p\",\"file\":\"a.c\",\"arguments\":[]\x7d]"

def recorded (content : String) : World :=
  .ofFile "/w" (file "/p" "compile_commands.json") content

theorem read_recorded (content : String) :
    (recorded content).read (file "/p" "compile_commands.json") =
      (.ok (utf8Bytes content), recorded content) := by
  simp only [recorded, World.read, World.ofFile, if_pos, toUTF8_toList]

theorem load_recorded {content : String} {cs : List Command}
    (h : ofBytes (utf8Bytes content) = .ok cs) :
    load (recorded content) "/p" "compile_commands.json" =
      (.ok ⟨file "/p" "compile_commands.json", cs⟩, recorded content) := by
  rw [load, read_recorded]
  dsimp only
  rw [h]

theorem ofBytes_numbered :
    ofBytes (utf8Bytes (cutAtSign ++ ("1" ++ behindDigit))) = .ok [⟨"/p", "a.c", []⟩] := by
  rfl

/-- One cut at the sign of the number, one behind its digit. -/
theorem load_part_numbered :
    let name := "compile_commands.json"
    let whole := cutAtSign ++ ("1" ++ behindDigit)
    load (recorded whole) "/p" name =
        (.ok ⟨file "/p" name, [⟨"/p", "a.c", []⟩]⟩, recorded whole) ∧
      load (recorded cutAtSign) "/p" name =
        (.error ⟨file "/p" name, .malformed (.malformed .invalidNumber)⟩, recorded cutAtSign) ∧
      ∃ e, load (recorded (cutAtSign ++ "1")) "/p" name =
        (.error ⟨file "/p" name, .malformed e⟩, recorded (cutAtSign ++ "1")) ∧
        e.category = .eof := by
  intro name whole
  have hload := load_recorded ofBytes_numbered
  refine ⟨hload, ?_, ?_⟩
  · have hwhole := read_recorded whole
    rw [utf8Bytes_append] at hwhole
    rcases load_part hwhole hload (read_recorded cutAtSign) with ⟨hcut, -⟩ | ⟨-, e, he, hfault⟩
    · exact absurd hcut (by decide)
    · rw [if_pos (by decide)] at hfault
      rw [he, hfault]
  · have hwhole := read_recorded (cutAtSign ++ ("1" ++ behindDigit))
    rw [← String.append_assoc, utf8Bytes_append, String.append_assoc] at hwhole
    rcases load_part hwhole hload (read_recorded (cutAtSign ++ "1"))
      with ⟨hcut, -⟩ | ⟨-, e, he, hfault⟩
    · exact absurd hcut (by decide)
    · rw [if_neg (by decide)] at hfault
      exact ⟨e, he, hfault⟩

/-- Where a number needs another digit, an unfinished text is not called unfinished. -/
theorem not_load_part_eof :
    ¬ ∀ {c cut : Bytes} {w v w' v' : World} {directory : Path} {name : String} {db : Database},
      w.read (file directory name) = (.ok (c ++ cut), v) →
      load w directory name = (.ok db, v) →
      w'.read (file directory name) = (.ok c, v') →
      Blank cut ∧ load w' directory name = (.ok db, v') ∨
        ∃ e, load w' directory name = (.error ⟨file directory name, .malformed e⟩, v') ∧
          e.category = .eof := by
  intro h
  have hwhole := read_recorded (cutAtSign ++ ("1" ++ behindDigit))
  rw [utf8Bytes_append] at hwhole
  have hfails : ofBytes (utf8Bytes cutAtSign) =
      .error (.malformed (.malformed .invalidNumber)) := by rfl
  rcases h hwhole (load_recorded ofBytes_numbered) (read_recorded cutAtSign)
    with ⟨hcut, -⟩ | ⟨e, he, heof⟩
  · exact absurd hcut (by decide)
  · rw [load, read_recorded] at he
    dsimp only at he
    rw [hfails] at he
    cases he
    exact absurd heof (by decide)

end CompileFlags.Database
