import CompileFlags.Proofs.Database.Truncation
import CompileFlags.Proofs.Text.Quotation

/-!
# Which entry is blamed

Entries are only looked at once the whole document has been read, and then in order. So a database
that does not open is malformed, or the first of its entries that cannot be run is blamed; and if it
opens, every entry has its command.
-/

namespace CompileFlags.Database

open Json Json.Form Database.Form

namespace Entry

/-- Why an entry cannot be run. One with arguments can be, whatever its command is. -/
inductive Faulty (e : Entry) : Fault → Prop
  | noInvocation : e.arguments = none → e.command = none → e.Faulty .noInvocation
  | openQuote {text : String} : e.arguments = none → e.command = some text →
      Words.OpenQuote text.toList → e.Faulty .openQuote

theorem Faulty.arguments_eq {e : Entry} {why : Fault} (h : e.Faulty why) :
    e.arguments = none := by
  cases h <;> assumption

theorem Faulty.toCommand {e : Entry} {why : Fault} (h : e.Faulty why) :
    e.toCommand = .error why := by
  cases h with
  | noInvocation harguments hcommand =>
      rw [Entry.toCommand, invocation, harguments, hcommand]
      rfl
  | openQuote harguments hcommand hopen =>
      have hsplit := (Words.split_eq_none_iff _).mpr hopen
      rw [Entry.toCommand, invocation, harguments, hcommand]
      dsimp only
      rw [hsplit]
      rfl

theorem usable_or_faulty (e : Entry) : e.Usable ∨ ∃ why, e.Faulty why := by
  rcases harguments : e.arguments with _ | arguments
  · rcases hcommand : e.command with _ | text
    · exact .inr ⟨_, .noInvocation harguments hcommand⟩
    rcases hsplit : Words.split text with _ | words
    · exact .inr ⟨_, .openQuote harguments hcommand ((Words.split_eq_none_iff text).mp hsplit)⟩
    · refine .inl ⟨.inr (by rw [hcommand]; rfl), fun t _ ht ↦ ?_⟩
      cases hcommand.symm.trans ht
      rw [hsplit]
      rfl
  · refine .inl ⟨.inl (by rw [harguments]; rfl), fun t hnone _ ↦ ?_⟩
    cases harguments.symm.trans hnone

theorem usable_iff {e : Entry} : e.Usable ↔ ∀ why, ¬ e.Faulty why := by
  constructor
  · intro h why hfaulty
    obtain ⟨c, hc, -⟩ := toCommand_of_usable h
    cases hc.symm.trans hfaulty.toCommand
  · intro h
    refine e.usable_or_faulty.resolve_right ?_
    rintro ⟨why, hfaulty⟩
    exact h why hfaulty

/-- All entries can be run, or there is a first one that cannot. -/
theorem usable_or_firstFaulty (es : List Entry) : (∀ e ∈ es, e.Usable) ∨
    ∃ before e after why, es = before ++ e :: after ∧ (∀ d ∈ before, d.Usable) ∧
      e.Faulty why := by
  induction es with
  | nil => exact .inl fun e he ↦ absurd he List.not_mem_nil
  | cons d es ih =>
      rcases d.usable_or_faulty with hd | ⟨why, hd⟩
      · rcases ih with hall | ⟨before, e, after, why, rfl, hbefore, he⟩
        · exact .inl (List.forall_mem_cons.mpr ⟨hd, hall⟩)
        · exact .inr ⟨d :: before, e, after, why, rfl,
            List.forall_mem_cons.mpr ⟨hd, hbefore⟩, he⟩
      · exact .inr ⟨[], d, es, why, rfl, fun e he ↦ absurd he List.not_mem_nil, hd⟩

theorem exists_faulty_iff (es : List Entry) : (∃ e ∈ es, ∃ why, e.Faulty why) ↔
    ∃ before e after why, es = before ++ e :: after ∧ (∀ d ∈ before, d.Usable) ∧
      e.Faulty why := by
  constructor
  · rintro ⟨e, hmem, why, he⟩
    refine (usable_or_firstFaulty es).resolve_left fun hall ↦ ?_
    exact usable_iff.mp (hall e hmem) why he
  · rintro ⟨before, e, after, why, rfl, -, he⟩
    exact ⟨e, List.mem_append_right before List.mem_cons_self, why, he⟩

end Entry

theorem commandsFrom_of_faulty {before after : List Entry} {e : Entry} {why : Entry.Fault}
    (hbefore : ∀ d ∈ before, d.Usable) (he : e.Faulty why) (index : Nat) :
    commandsFrom index (before ++ e :: after) = .error (.badEntry (index + before.length) why) := by
  induction before generalizing index with
  | nil =>
      rw [List.nil_append, commandsFrom, he.toCommand]
      rfl
  | cons d before ih =>
      obtain ⟨hd, hrest⟩ := List.forall_mem_cons.mp hbefore
      obtain ⟨c, hc, -⟩ := Entry.toCommand_of_usable hd
      have hlength : index + 1 + before.length = index + (d :: before).length := by
        rw [List.length_cons, Nat.add_assoc, Nat.add_comm 1]
      rw [List.cons_append, commandsFrom, hc, ih hrest, hlength]
      rfl

theorem documentForm_unique {ds es : List Entry} {s : Bytes} (hds : DocumentForm ds s)
    (hes : DocumentForm es s) : ds = es :=
  Except.ok.inj ((Entry.readDocument_form hds).symm.trans (Entry.readDocument_form hes))

/-- The ways in which opening a content ends. -/
inductive Opening (content : Bytes) : Except Fault (List Command) → Prop
  | malformed {why : Json.Error} : (∀ es, ¬ DocumentForm es content) →
      Opening content (.error (.malformed why))
  | blamed {before after : List Entry} {e : Entry} {why : Entry.Fault} :
      DocumentForm (before ++ e :: after) content → (∀ d ∈ before, d.Usable) → e.Faulty why →
      Opening content (.error (.badEntry before.length why))
  | opened {es : List Entry} {cs : List Command} : DocumentForm es content →
      (∀ e ∈ es, e.Usable) → List.Forall₂ Entry.Records es cs → Opening content (.ok cs)

theorem ofBytes_opening (content : Bytes) : Opening content (ofBytes content) := by
  rcases hread : Entry.readDocument content with why | es
  · rw [ofBytes, hread]
    refine .malformed fun es hes ↦ ?_
    cases hread.symm.trans (Entry.readDocument_form hes)
  have hdocument := Entry.documentForm_of_readDocument hread
  rw [ofBytes, hread]
  rcases Entry.usable_or_firstFaulty es with hall | ⟨before, e, after, why, rfl, hbefore, he⟩
  · obtain ⟨cs, hcs, hrecords⟩ := commandsFrom_of_usable hall 0
    dsimp only
    rw [hcs]
    exact .opened hdocument hall hrecords
  · dsimp only
    rw [commandsFrom_of_faulty hbefore he, Nat.zero_add]
    exact .blamed hdocument hbefore he

theorem ofBytes_malformed_iff (content : Bytes) :
    (∃ why, ofBytes content = .error (.malformed why)) ↔ ∀ es, ¬ DocumentForm es content := by
  have hopening := ofBytes_opening content
  generalize ofBytes content = result at hopening
  cases hopening with
  | malformed hnone => exact ⟨fun _ ↦ hnone, fun _ ↦ ⟨_, rfl⟩⟩
  | blamed hdocument | opened hdocument =>
      refine ⟨?_, fun hnone ↦ absurd hdocument (hnone _)⟩
      rintro ⟨why, ⟨⟩⟩

theorem ofBytes_badEntry_iff (content : Bytes) (index : Nat) (why : Entry.Fault) :
    ofBytes content = .error (.badEntry index why) ↔
      ∃ before e after, DocumentForm (before ++ e :: after) content ∧ index = before.length ∧
        (∀ d ∈ before, d.Usable) ∧ e.Faulty why := by
  constructor
  · intro h
    have hopening := ofBytes_opening content
    rw [h] at hopening
    cases hopening with
    | blamed hdocument hbefore he => exact ⟨_, _, _, hdocument, rfl, hbefore, he⟩
  · rintro ⟨before, e, after, hdocument, rfl, hbefore, he⟩
    rw [ofBytes, Entry.readDocument_form hdocument]
    dsimp only
    rw [commandsFrom_of_faulty hbefore he, Nat.zero_add]

theorem ofBytes_blames_iff (content : Bytes) :
    (∃ index why, ofBytes content = .error (.badEntry index why)) ↔
      ∃ es, DocumentForm es content ∧ ∃ e ∈ es, ∃ why, e.Faulty why := by
  simp only [ofBytes_badEntry_iff, Entry.exists_faulty_iff]
  constructor
  · rintro ⟨_, why, before, e, after, hdocument, -, hfirst⟩
    exact ⟨_, hdocument, before, e, after, why, rfl, hfirst⟩
  · rintro ⟨_, hdocument, before, e, after, why, rfl, hfirst⟩
    exact ⟨_, why, before, e, after, hdocument, rfl, hfirst⟩

theorem ofBytes_ok_iff (content : Bytes) :
    (∃ cs, ofBytes content = .ok cs) ↔
      ∃ es, DocumentForm es content ∧ ∀ e ∈ es, e.Usable := by
  have hopening := ofBytes_opening content
  generalize ofBytes content = result at hopening
  cases hopening with
  | malformed hnone =>
      refine ⟨?_, fun ⟨es, hes, _⟩ ↦ absurd hes (hnone es)⟩
      rintro ⟨cs, ⟨⟩⟩
  | blamed hdocument _ he =>
      constructor
      · rintro ⟨cs, ⟨⟩⟩
      · rintro ⟨es, hes, hall⟩
        obtain rfl := documentForm_unique hdocument hes
        have husable := hall _ (List.mem_append_right _ List.mem_cons_self)
        exact absurd he (Entry.usable_iff.mp husable _)
  | opened hdocument hall => exact ⟨fun _ ↦ ⟨_, hdocument, hall⟩, fun _ ↦ ⟨_, rfl⟩⟩

theorem records_of_ofBytes {content : Bytes} {es : List Entry} {cs : List Command}
    (hes : DocumentForm es content) (hcs : ofBytes content = .ok cs) :
    List.Forall₂ Entry.Records es cs := by
  have hopening := ofBytes_opening content
  rw [hcs] at hopening
  cases hopening with
  | opened hdocument _ hrecords =>
      obtain rfl := documentForm_unique hdocument hes
      exact hrecords

section Load

variable {w v : World} {directory : Path} {name : String} {content : Bytes}
  (hread : w.read (file directory name) = (.ok content, v))

include hread

theorem load_error_iff (why : Fault) :
    (load w directory name).1 = .error ⟨file directory name, why⟩ ↔
      ofBytes content = .error why := by
  rw [load, hread]
  dsimp only
  cases ofBytes content <;> simp

theorem load_ok_iff (db : Database) :
    (load w directory name).1 = .ok db ↔
      db.path = file directory name ∧ ofBytes content = .ok db.commands := by
  obtain ⟨path, cs⟩ := db
  rw [load, hread]
  dsimp only
  cases ofBytes content <;> simp [eq_comm]

/-- A database whose content can be read is malformed exactly if the content is no document, and an
entry is blamed exactly if the content is a document in which some entry cannot be run. It is the
first such entry, and so none with arguments. Otherwise the database opens, and has a command for
each entry. -/
theorem load_blames_first :
    let answer := (load w directory name).1
    let refusal : Fault → Except OpenError Database :=
      fun why ↦ .error ⟨file directory name, why⟩
    ((∃ why, answer = refusal (.malformed why)) ↔ ∀ es, ¬ DocumentForm es content) ∧
      ((∃ index why, answer = refusal (.badEntry index why)) ↔
        ∃ es, DocumentForm es content ∧ ∃ e ∈ es, ∃ why, e.Faulty why) ∧
      (∀ index why, answer = refusal (.badEntry index why) ↔
        ∃ before e after, DocumentForm (before ++ e :: after) content ∧ index = before.length ∧
          (∀ d ∈ before, ∀ why, ¬ d.Faulty why) ∧ e.Faulty why) ∧
      (∀ es index why e, DocumentForm es content → answer = refusal (.badEntry index why) →
        es[index]? = some e → e.arguments = none) ∧
      ((∃ db, answer = .ok db) ↔
        ∃ es, DocumentForm es content ∧ ∀ e ∈ es, ∀ why, ¬ e.Faulty why) ∧
      ∀ es db, DocumentForm es content → answer = .ok db →
        List.Forall₂ Entry.Records es db.commands := by
  intro answer refusal
  have hrefusal (why : Fault) : answer = refusal why ↔ ofBytes content = .error why :=
    load_error_iff hread why
  have hblame (index : Nat) (why : Entry.Fault) : answer = refusal (.badEntry index why) ↔
      ∃ before e after, DocumentForm (before ++ e :: after) content ∧ index = before.length ∧
        (∀ d ∈ before, ∀ why, ¬ d.Faulty why) ∧ e.Faulty why := by
    simp only [hrefusal, ofBytes_badEntry_iff, Entry.usable_iff]
  refine ⟨?_, ?_, hblame, ?_, ?_, ?_⟩
  · simp only [hrefusal, ofBytes_malformed_iff]
  · simp only [hrefusal, ofBytes_blames_iff]
  · intro es index why e hdocument hanswer hindex
    obtain ⟨before, d, after, hblamed, rfl, -, hd⟩ := (hblame index why).mp hanswer
    obtain rfl := documentForm_unique hblamed hdocument
    obtain rfl : d = e := by simpa using hindex
    exact hd.arguments_eq
  · have hopen : (∃ db, answer = .ok db) ↔ ∃ cs, ofBytes content = .ok cs := by
      constructor
      · rintro ⟨db, hanswer⟩
        exact ⟨_, ((load_ok_iff hread db).mp hanswer).2⟩
      · rintro ⟨cs, hcs⟩
        exact ⟨⟨_, cs⟩, (load_ok_iff hread _).mpr ⟨rfl, hcs⟩⟩
    simp only [hopen, ofBytes_ok_iff, Entry.usable_iff]
  · intro es db hdocument hanswer
    exact records_of_ofBytes hdocument ((load_ok_iff hread db).mp hanswer).2

end Load

/-- The command of the first entry is not looked at, the second one leaves a quote open behind a
comment sign inside a word, and the third one has nothing to run. -/
def secondUnrunnable : String :=
  "[[\"/p\",\"a.c\",[\"cc\"],\"'\"]," ++
    "[\"/p\",\"b.c\",null,\"cc a#'b' '-DX\"],[\"/p\",\"c.c\",null,null]]"

theorem load_blames_first_second :
    let w := recorded secondUnrunnable
    let path := file "/p" "compile_commands.json"
    w.read path = (.ok (utf8Bytes secondUnrunnable), w) ∧
      (load w "/p" "compile_commands.json").1 = .error ⟨path, .badEntry 1 .openQuote⟩ := by
  intro w path
  have hread : w.read path = (.ok (utf8Bytes secondUnrunnable), w) := read_recorded _
  have hdocument : DocumentForm [⟨"/p", "a.c", some ["cc"], some "'"⟩,
      ⟨"/p", "b.c", none, some "cc a#'b' '-DX"⟩, ⟨"/p", "c.c", none, none⟩]
      (utf8Bytes secondUnrunnable) := Entry.readDocument_iff.mp (by rfl)
  have hfirst : ∀ d ∈ [Entry.mk "/p" "a.c" (some ["cc"]) (some "'")], ∀ why, ¬ d.Faulty why := by
    intro d hd why hfaulty
    obtain rfl := List.mem_singleton.mp hd
    cases hfaulty.arguments_eq
  have hopen : Words.OpenQuote "cc a#'b' '-DX".toList := by decide +kernel
  obtain ⟨-, -, hblame, -⟩ := load_blames_first hread
  exact ⟨hread, (hblame 1 .openQuote).mpr
    ⟨_, _, _, hdocument, rfl, hfirst, .openQuote rfl rfl hopen⟩⟩

end CompileFlags.Database
