import CompileFlags.Database.Form
import CompileFlags.Proofs.Json.Skipping

/-!
# Every spelling of an entry is read

First the values of the members, then the members one by one into a draft. A draft meets no member
twice because the members of an entry name no field twice, and what it holds in the end is what
the members give.
-/

namespace CompileFlags.Database

open Json Json.Form Database.Form

/-! ## Values -/

theorem textForm_cons {t : String} {s : Bytes} (h : TextForm t s) :
    ∃ r, s = byte '"' :: r ∧ ∀ tail, Text.read (r ++ tail) = .ok (t, tail) := by
  obtain @⟨spelled, bytes, _, hbody, htext⟩ := h
  refine ⟨spelled ++ [byte '"'], rfl, fun tail ↦ ?_⟩
  rw [List.append_assoc, List.singleton_append]
  exact Text.read_body hbody htext tail

theorem begins_text {t : String} {s : Bytes} (h : TextForm t s) : Begins s := by
  obtain ⟨r, rfl, -⟩ := textForm_cons h
  exact ⟨_, r, rfl, by decide, by decide⟩

namespace Entry

variable {a s tail : Bytes}

theorem readText_form {t : String} (h : TextForm t s) (ha : Blank a) (expected : Expected)
    (tail : Bytes) : readText expected (a ++ (s ++ tail)) = .ok (t, tail) := by
  obtain ⟨r, rfl, hr⟩ := textForm_cons h
  rw [readText, List.cons_append, skipBlanks_token ha (by decide)]
  simpa using hr tail

theorem readList_form {ts : List String} (h : ListForm ts s) (ha : Blank a) {budget : Nat}
    (hbudget : (s ++ tail).length ≤ budget) :
    readList budget (a ++ (s ++ tail)) = .ok (ts, tail) := by
  have hread : ∀ t m, TextForm t m → ∀ n tail, (m ++ tail).length ≤ n →
      readText .string (m ++ tail) = .ok (t, tail) := by
    intro t m ht n tail _
    exact readText_form ht blank_nil .string tail
  obtain ⟨r, rfl, hr⟩ := readItems_bracketed (fun _ _ ↦ begins_text) hread h
  rw [readList, List.cons_append, skipBlanks_token ha (by decide)]
  simpa using hr budget tail hbudget

/-- A value that is not `null` must not look like it. -/
theorem readOptional_form {α : Type} {form : α → Bytes → Prop} {read : Reader α} {o : Option α}
    (h : OptionForm form o s) (ha : Blank a)
    (hbegins : ∀ x, form x s → ∃ c t, s = c :: t ∧ isBlank c = false ∧ c ≠ byte 'n')
    (hread : ∀ x, form x s → read (s ++ tail) = .ok (x, tail)) :
    readOptional read (a ++ (s ++ tail)) = .ok (o, tail) := by
  cases h with
  | none =>
      have hword : word "null" = byte 'n' :: ['u', 'l', 'l'].map byte := rfl
      rw [hword, readOptional, List.cons_append, skipBlanks_token ha (by decide)]
      simp only [if_pos, literal_append]
      rfl
  | @some x _ hx =>
      obtain ⟨c, t, rfl, hc, hn⟩ := hbegins x hx
      have hx := hread x hx
      rw [readOptional, List.cons_append, skipBlanks_token ha hc]
      rw [List.cons_append] at hx
      simp [hn, hx, Except.map]

theorem readOptional_text {o : Option String} (h : OptionForm TextForm o s) (ha : Blank a)
    (tail : Bytes) : readOptional (readText .string) (a ++ (s ++ tail)) = .ok (o, tail) := by
  apply readOptional_form h ha
  · intro t ht
    obtain ⟨r, rfl, -⟩ := textForm_cons ht
    exact ⟨_, r, rfl, by decide, by decide⟩
  · intro t ht
    exact readText_form ht blank_nil .string tail

theorem readOptional_list {o : Option (List String)} (h : OptionForm ListForm o s)
    (ha : Blank a) {budget : Nat} (hbudget : (s ++ tail).length ≤ budget) :
    readOptional (readList budget) (a ++ (s ++ tail)) = .ok (o, tail) := by
  apply readOptional_form h ha
  · intro ts hts
    cases hts <;> exact ⟨_, _, rfl, by decide, by decide⟩
  · intro ts hts
    exact readList_form hts blank_nil hbudget

end Entry

namespace Form

/-- The field that a member is about. -/
def Member.field? : Member → Option Field
  | directory _ => some .directory
  | file _ => some .file
  | arguments _ => some .arguments
  | command _ => some .command
  | other _ => none

theorem ofName?_name (f : Field) : Field.ofName? f.name = some f := by
  cases f <;> decide

theorem ofName?_member {m : Member} {v : Bytes} (h : ValueForm m v) :
    Field.ofName? m.name = m.field? := by
  cases h with
  | directory => exact ofName?_name .directory
  | file => exact ofName?_name .file
  | arguments => exact ofName?_name .arguments
  | command => exact ofName?_name .command
  | other hname => exact hname

theorem begins_option {α : Type} {form : α → Bytes → Prop} {o : Option α} {s : Bytes}
    (h : OptionForm form o s) (hform : ∀ x, form x s → Begins s) : Begins s := by
  cases h with
  | none => exact ⟨_, _, rfl, by decide, by decide⟩
  | some hx => exact hform _ hx

theorem begins_value {m : Member} {v : Bytes} (h : ValueForm m v) : Begins v := by
  cases h with
  | directory h | file h => exact begins_text h
  | arguments h =>
      apply begins_option h
      intro ts hts
      cases hts <;> exact ⟨_, _, rfl, by decide, by decide⟩
  | command h => exact begins_option h fun _ ↦ begins_text
  | other _ h => exact Skip.value_cons h

end Form

/-! ## Members -/

namespace Entry

/-- The draft with one more member. -/
def Draft.add (d : Draft) : Member → Draft
  | .directory p => { d with directory := some p }
  | .file n => { d with file := some n }
  | .arguments a => { d with arguments := some a }
  | .command c => { d with command := some c }
  | .other _ => d

theorem Draft.has_add (d : Draft) (m : Member) (field : Field) :
    (d.add m).has field = (m.field? == some field || d.has field) := by
  cases m <;> cases field <;> rfl

theorem Draft.read_form {m : Member} {field : Field} {v : Bytes} (h : ValueForm m v)
    (hfield : m.field? = some field) (ha : Blank a) {budget : Nat}
    (hbudget : (v ++ tail).length ≤ budget) (d : Draft) :
    d.read budget field (a ++ (v ++ tail)) = .ok (d.add m, tail) := by
  cases h with
  | directory h | file h =>
      obtain rfl := Option.some.inj hfield
      simp [Draft.read, readText_form h ha, Except.map, Draft.add]
  | arguments h =>
      obtain rfl := Option.some.inj hfield
      simp [Draft.read, readOptional_list h ha hbudget, Except.map, Draft.add]
  | command h =>
      obtain rfl := Option.some.inj hfield
      simp [Draft.read, readOptional_text h ha, Except.map, Draft.add]
  | other => cases hfield

/-- The quote that opens the name has been read over. -/
theorem readMember_form {m : Member} (h : MemberForm m s) :
    ∃ r, s = byte '"' :: r ∧ ∀ budget d tail, (∀ field, m.field? = some field → ¬ d.has field) →
      Stops tail → (s ++ tail).length ≤ budget →
      readMember budget d (r ++ tail) = .ok (d.add m, tail) := by
  cases h with
  | @mk k a b v hname ha hb hvalue =>
      obtain ⟨r, rfl, hr⟩ := textForm_cons hname
      refine ⟨r ++ a ++ byte ':' :: b ++ v, rfl, fun budget d tail hnew htail hbudget ↦ ?_⟩
      have hcolon := colon_append ha (b ++ (v ++ tail))
      have hname := Form.ofName?_member hvalue
      have hbudget : (v ++ tail).length ≤ budget := by
        simp at hbudget ⊢
        omega
      cases hfield : m.field? with
      | some field =>
          -- A known name: the field is not taken yet, and its value is read.
          have hvalue := d.read_form hvalue hfield hb hbudget
          simp [readMember, hr, hname, hfield, hnew field hfield, hcolon, hvalue, bind,
            Except.bind]
      | none =>
          -- Any other name: the value is skipped, and the draft stays as it was.
          cases hvalue with
          | other _ hv =>
              have hlength : v.length ≤ budget := by
                simp at hbudget
                omega
              have hskip := Skip.value_append hb hv htail hlength
              simp [readMember, hr, hname, hfield, hcolon, hskip, Draft.add, bind,
                Except.bind, pure, Except.pure]
          | _ => cases hfield

/-- No field is given twice, and none that the draft has already. -/
structure Draft.Fresh (d : Draft) (ms : List Member) : Prop where
  nodup : (ms.filterMap Member.field?).Nodup
  missing : ∀ field ∈ ms.filterMap Member.field?, ¬ d.has field

namespace Draft.Fresh

variable {d : Draft} {m : Member} {ms : List Member}

theorem head (h : d.Fresh (m :: ms)) {field : Field} (hfield : m.field? = some field) :
    ¬ d.has field :=
  h.missing field (by simp [hfield])

theorem tail (h : d.Fresh (m :: ms)) : (d.add m).Fresh ms := by
  obtain ⟨hnodup, hmissing⟩ := h
  cases hfield : m.field? with
  | none =>
      rw [List.filterMap_cons_none hfield] at hnodup hmissing
      exact ⟨hnodup, fun field hmem ↦ by simpa [has_add, hfield] using hmissing field hmem⟩
  | some f =>
      rw [List.filterMap_cons_some hfield] at hnodup hmissing
      obtain ⟨hnew, hnodup⟩ := List.nodup_cons.mp hnodup
      refine ⟨hnodup, fun field hmem ↦ ?_⟩
      have hne : f ≠ field := fun heq ↦ hnew (heq ▸ hmem)
      have hold := hmissing field (List.mem_cons_of_mem f hmem)
      simpa [has_add, hfield, hne] using hold

end Draft.Fresh

theorem readMembers_ended {first : Bool} {d : Draft} {e : Entry} {s rest : Bytes}
    (h : nextMember first s = .ok (.ended rest)) (hd : d.finish = .ok e) (n : Nat) :
    readMembers (n + 1) first d s = .ok (e, rest) := by
  simp [readMembers, h, hd, bind, Except.bind, pure, Except.pure]

theorem readMembers_item {first : Bool} {d d' : Draft} {n : Nat} {s r rest : Bytes}
    (h : nextMember first s = .ok (.item r)) (hm : readMember n d r = .ok (d', rest)) :
    readMembers (n + 1) first d s = readMembers n false d' rest := by
  simp [readMembers, h, hm, bind, Except.bind]

theorem readMembers_separated {ms : List Member} (hs : Separated MemberForm ms s) {first : Bool}
    {d : Draft} {l : Bytes} (hl : Lead first l) (hfresh : d.Fresh ms) {e : Entry}
    (he : (ms.foldl Draft.add d).finish = .ok e) {n : Nat} (tail : Bytes)
    (hn : (l ++ (s ++ byte '\x7d' :: tail)).length < n) :
    readMembers n first d (l ++ (s ++ byte '\x7d' :: tail)) = .ok (e, tail) := by
  induction hs generalizing first d l n with
  | @one x a m b ha hx hb =>
      obtain ⟨r, rfl, hr⟩ := readMember_form hx
      simp only [List.append_assoc, List.length_append, List.length_cons, List.cons_append]
        at hn ⊢
      obtain ⟨n, rfl⟩ := Nat.exists_eq_add_of_le' (show 2 ≤ n by omega)
      have hitem := hr (n + 1) d (b ++ byte '\x7d' :: tail) (fun _ ↦ hfresh.head)
        (Skip.stops_closing hb .object tail) (by simp; omega)
      rw [readMembers_item (nextMember_item hl ha _) hitem]
      exact readMembers_ended (nextMember_ended hb false tail) he n
  | @cons x xs a m b rest ha hx hb _ ih =>
      obtain ⟨r, rfl, hr⟩ := readMember_form hx
      simp only [List.append_assoc, List.length_append, List.length_cons, List.cons_append]
        at hn ih ⊢
      obtain ⟨n, rfl⟩ := Nat.exists_eq_add_of_le' (show 1 ≤ n by omega)
      have hitem := hr n d (b ++ byte ',' :: (rest ++ byte '\x7d' :: tail))
        (fun _ ↦ hfresh.head) (Skip.stops_comma hb _) (by simp; omega)
      have hrest := ih (.next hb) hfresh.tail he (n := n) (by simp; omega)
      rw [readMembers_item (nextMember_item hl ha _) hitem]
      simpa using hrest

/-! ## What the members give -/

theorem foldl_add {β : Type} (get : Draft → Option β) (given : Member → Option β)
    (hadd : ∀ d m, get (d.add m) = (given m).or (get d)) (ms : List Member) (d : Draft) :
    get (ms.foldl Draft.add d) = (ms.filterMap given).getLast?.or (get d) := by
  induction ms generalizing d with
  | nil => rfl
  | cons m ms ih =>
      rw [List.foldl_cons, ih, hadd]
      cases hm : given m with
      | none => rw [List.filterMap_cons_none hm, Option.none_or]
      | some x =>
          rw [List.filterMap_cons_some hm, List.getLast?_cons]
          cases (ms.filterMap given).getLast? <;> rfl

theorem count_field {β : Type} (field : Field) (given : Member → Option β)
    (hgiven : ∀ m, m.field? = some field ↔ (given m).isSome) (ms : List Member) :
    (ms.filterMap Member.field?).count field = (ms.filterMap given).length := by
  induction ms with
  | nil => rfl
  | cons m ms ih =>
      cases hm : given m with
      | some x =>
          have hfield : m.field? = some field := (hgiven m).mpr (by simp [hm])
          simp [List.filterMap_cons_some hfield, List.filterMap_cons_some hm, ih]
      | none =>
          have hfield : m.field? ≠ some field := fun h ↦ by simpa [hm] using (hgiven m).mp h
          rw [List.filterMap_cons_none hm, ← ih]
          cases hother : m.field? with
          | none => rw [List.filterMap_cons_none hother]
          | some other =>
              have hne : other ≠ field := fun h ↦ hfield (h ▸ hother)
              rw [List.filterMap_cons_some hother, List.count_cons_of_ne hne]

theorem atMostOnce_length {α : Type} {given : List (Option α)} {value : Option α}
    (h : AtMostOnce given value) : given.length ≤ 1 := by
  obtain rfl | ⟨rfl, -⟩ := h <;> simp

theorem atMostOnce_getLast? {α : Type} {given : List (Option α)} {value : Option α}
    (h : AtMostOnce given value) : (given.getLast?.or none).join = value := by
  obtain rfl | ⟨rfl, rfl⟩ := h <;> simp

theorem fresh_of_gives {ms : List Member} {e : Entry} (h : Gives ms e) :
    Draft.empty.Fresh ms := by
  have hdirectory := count_field .directory Member.directory?
    (by intro m; cases m <;> simp [Member.field?, Member.directory?]) ms
  have hfile := count_field .file Member.file?
    (by intro m; cases m <;> simp [Member.field?, Member.file?]) ms
  have harguments := count_field .arguments Member.arguments?
    (by intro m; cases m <;> simp [Member.field?, Member.arguments?]) ms
  have hcommand := count_field .command Member.command?
    (by intro m; cases m <;> simp [Member.field?, Member.command?]) ms
  constructor
  · rw [List.nodup_iff_count]
    intro field
    cases field with
    | directory => simp [hdirectory, h.directory]
    | file => simp [hfile, h.file]
    | arguments => exact harguments ▸ atMostOnce_length h.arguments
    | command => exact hcommand ▸ atMostOnce_length h.command
  · intro field _
    cases field <;> simp [Draft.empty, Draft.has]

theorem finish_of_gives {ms : List Member} {e : Entry} (h : Gives ms e) :
    (ms.foldl Draft.add .empty).finish = .ok e := by
  have hdirectory := foldl_add (·.directory) Member.directory?
    (by intro d m; cases m <;> rfl) ms .empty
  have hfile := foldl_add (·.file) Member.file? (by intro d m; cases m <;> rfl) ms .empty
  have harguments : (ms.foldl Draft.add .empty).arguments.join = e.arguments := by
    rw [foldl_add (·.arguments) Member.arguments? (by intro d m; cases m <;> rfl)]
    exact atMostOnce_getLast? h.arguments
  have hcommand : (ms.foldl Draft.add .empty).command.join = e.command := by
    rw [foldl_add (·.command) Member.command? (by intro d m; cases m <;> rfl)]
    exact atMostOnce_getLast? h.command
  rw [h.directory] at hdirectory
  rw [h.file] at hfile
  simp [Draft.finish, hdirectory, hfile, harguments, hcommand]

end Entry

end CompileFlags.Database
