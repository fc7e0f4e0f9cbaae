import CompileFlags.Proofs.CommandLine.Groups
import Mathlib.Data.List.Induction

/-!
# What is written is read back

A draft holds the texts of the groups that have been read. As long as no option but the search
directory is given twice and every text can be read, the next group is taken, and the draft then
holds its text as well. So a line that gives certain arguments is read to these arguments, whatever
the order of its groups.
-/

namespace CompileFlags.CommandLine

/-! ## Texts of values -/

namespace Draft

theorem foldl_toDigits (n : Nat) :
    (Nat.toDigits 10 n).foldl (fun m c ↦ m * 10 + (c.toNat - '0'.toNat)) 0 = n := by
  have h := @Nat.ofDigitChars_ten_toDigits n
  simpa only [Nat.ofDigitChars_eq_foldl, Nat.mul_comm 10] using h

theorem decimal?_toString (n : Nat) : decimal? (toString n) = some n := by
  have hdigits : ∀ c ∈ Nat.toDigits 10 n, c.isDigit = true :=
    fun c hc ↦ Nat.isDigit_of_mem_toDigits (by decide) (by decide) hc
  have hall : (Nat.toDigits 10 n).all Char.isDigit = true := List.all_eq_true.mpr hdigits
  rw [decimal?, Nat.toString_eq_repr, Nat.toList_repr]
  split
  · rename_i cs hcs
    exact absurd (hdigits '+' (by simp [hcs])) (by decide)
  · simpa [hall] using foldl_toDigits n

theorem countValue_toString {n : Nat} (h : n < UInt64.size) : countValue (toString n) = .ok n := by
  simp only [countValue, decimal?_toString, if_pos h]

end Draft

theorem Format.ofName?_name (f : Format) : ofName? f.name = some f := by
  cases f <;> rfl

theorem Shell.ofName?_name (s : Shell) : ofName? s.name = some s := by
  cases s <;> rfl

/-- Texts that are read back belong to one value only. -/
theorem injective_of_read {α : Type} {text : α → String} {read : String → Option α}
    (h : ∀ a, read (text a) = some a) : Function.Injective text := by
  intro a b hab
  have hread := congrArg read hab
  rwa [h, h, Option.some.injEq] at hread

/-- The texts that can be given to an option. -/
def Key.Reads (v : String) : Key → Prop
  | .root | .searchDir => v ≠ ""
  | .database | .buildDir => True
  | .timeout => ∃ n < UInt64.size, v = toString n
  | .format => ∃ f : Format, v = f.name
  | .completions => ∃ s : Shell, v = s.name
  | .file | .verbose | .help | .version => False

namespace Draft

/-- The texts of the values that a draft holds for an option. -/
def texts (d : Draft) : Key → List String
  | .root => d.root.toList
  | .database => d.database.toList
  | .searchDir => d.searchDirs
  | .buildDir => d.buildDir.toList
  | .timeout => d.timeout.toList.map toString
  | .format => d.format.toList.map Format.name
  | .completions => d.completions.toList.map Shell.name
  | .file | .verbose | .help | .version => []

def isOn (d : Draft) : Key → Bool
  | .file => d.file
  | .verbose => d.verbose
  | _ => false

variable {d : Draft} {gs : List Group}

theorem once_ok {α : Type} {old : Option α} {new : Except Stop α} {value : α} (hold : old = none)
    (hnew : new = .ok value) : once old new = .ok (some value) := by
  rw [once, hold, hnew]
  rfl

theorem pathValue_of_ne {v : String} (hv : v ≠ "") : pathValue v = .ok v :=
  if_neg (by simpa using hv)

theorem choice_of_read {α : Type} {read : Option α} {value : α} (h : read = some value) :
    choice read = .ok value := by
  rw [h, choice]

theorem setValue_texts {k : Key} {v : String} (hfree : k ≠ .searchDir → d.texts k = [])
    (hv : k.Reads v) :
    ∃ d', d.setValue k v = .ok d' ∧
      (∀ k', d'.texts k' = d.texts k' ++ if k = k' then [v] else []) ∧
      (∀ k', d'.isOn k' = d.isOn k') ∧ d'.files = d.files := by
  cases k with
  | root =>
      have hnone : d.root = none := by simpa [texts] using hfree (by decide)
      have hset : d.setValue .root v = .ok { d with root := some v } := by
        rw [setValue, once_ok hnone (pathValue_of_ne hv)]
        rfl
      exact ⟨_, hset, fun k' ↦ by cases k' <;> simp [texts, hnone], fun _ ↦ rfl, rfl⟩
  | database =>
      have hnone : d.database = none := by simpa [texts] using hfree (by decide)
      have hset : d.setValue .database v = .ok { d with database := some v } := by
        rw [setValue, once_ok hnone rfl]
        rfl
      exact ⟨_, hset, fun k' ↦ by cases k' <;> simp [texts, hnone], fun _ ↦ rfl, rfl⟩
  | searchDir =>
      have hset : d.setValue .searchDir v = .ok { d with searchDirs := d.searchDirs ++ [v] } := by
        rw [setValue, pathValue_of_ne hv]
        rfl
      exact ⟨_, hset, fun k' ↦ by cases k' <;> simp [texts], fun _ ↦ rfl, rfl⟩
  | buildDir =>
      have hnone : d.buildDir = none := by simpa [texts] using hfree (by decide)
      have hset : d.setValue .buildDir v = .ok { d with buildDir := some v } := by
        rw [setValue, once_ok hnone rfl]
        rfl
      exact ⟨_, hset, fun k' ↦ by cases k' <;> simp [texts, hnone], fun _ ↦ rfl, rfl⟩
  | timeout =>
      obtain ⟨n, hn, rfl⟩ := hv
      have hnone : d.timeout = none := by simpa [texts] using hfree (by decide)
      have hset : d.setValue .timeout (toString n) = .ok { d with timeout := some n } := by
        rw [setValue, once_ok hnone (countValue_toString hn)]
        rfl
      exact ⟨_, hset, fun k' ↦ by cases k' <;> simp [texts, hnone], fun _ ↦ rfl, rfl⟩
  | format =>
      obtain ⟨f, rfl⟩ := hv
      have hnone : d.format = none := by simpa [texts] using hfree (by decide)
      have hset : d.setValue .format f.name = .ok { d with format := some f } := by
        rw [setValue, once_ok hnone (choice_of_read f.ofName?_name)]
        rfl
      exact ⟨_, hset, fun k' ↦ by cases k' <;> simp [texts, hnone], fun _ ↦ rfl, rfl⟩
  | completions =>
      obtain ⟨s, rfl⟩ := hv
      have hnone : d.completions = none := by simpa [texts] using hfree (by decide)
      have hset : d.setValue .completions s.name = .ok { d with completions := some s } := by
        rw [setValue, once_ok hnone (choice_of_read s.ofName?_name)]
        rfl
      exact ⟨_, hset, fun k' ↦ by cases k' <;> simp [texts, hnone], fun _ ↦ rfl, rfl⟩
  | file | verbose | help | version => exact hv.elim

theorem setFlag_isOn {k : Key} (hk : k = .verbose ∨ k = .file) (hoff : d.isOn k = false) :
    ∃ d', d.setFlag k = .ok d' ∧ (∀ k', d'.isOn k' = (d.isOn k' || k == k')) ∧
      (∀ k', d'.texts k' = d.texts k') ∧ d'.files = d.files := by
  rcases hk with rfl | rfl
  · have hset : d.setFlag .verbose = .ok { d with verbose := true } := by
      simp [setFlag, show d.verbose = false from hoff]
    refine ⟨_, hset, fun k' ↦ ?_, fun k' ↦ by cases k' <;> rfl, rfl⟩
    cases k' <;> simp [isOn]
  · have hset : d.setFlag .file = .ok { d with file := true } := by
      simp [setFlag, show d.file = false from hoff]
    refine ⟨_, hset, fun k' ↦ ?_, fun k' ↦ by cases k' <;> rfl, rfl⟩
    cases k' <;> simp [isOn]

/-- A draft that has read the groups. -/
structure Holds (d : Draft) (gs : List Group) : Prop where
  texts : ∀ k, d.texts k = gs.filterMap (Group.valueOf k)
  switches : ∀ k, (d.isOn k).toNat = gs.count (.switch k)
  files : d.files = gs.filterMap Group.file?

end Draft

/-- Nothing but a search directory and a file is given twice, and every value can be read. -/
structure Group.Once (gs : List Group) : Prop where
  valid : ∀ g ∈ gs, g.Valid
  reads : ∀ k, ∀ v ∈ gs.filterMap (valueOf k), k.Reads v
  values : ∀ k, k ≠ .searchDir → (gs.filterMap (valueOf k)).length ≤ 1
  switches : ∀ k, gs.count (.switch k) ≤ 1

theorem Group.Once.of_append {gs hs : List Group} (h : Once (gs ++ hs)) : Once gs where
  valid g hg := h.valid g (List.mem_append_left _ hg)
  reads k v hv := h.reads k v (List.filterMap_append ▸ List.mem_append_left _ hv)
  values k hk := by
    have hlength := h.values k hk
    rw [List.filterMap_append, List.length_append] at hlength
    omega
  switches k := by
    have hcount := h.switches k
    rw [List.count_append] at hcount
    omega

namespace Draft

variable {d : Draft} {gs : List Group}

theorem holds_empty : Draft.empty.Holds [] where
  texts k := by cases k <;> rfl
  switches k := by cases k <;> rfl
  files := rfl

theorem Holds.take (h : d.Holds gs) {g : Group} (honce : Group.Once (gs ++ [g])) :
    ∃ d', d.take g = .ok d' ∧ d'.Holds (gs ++ [g]) := by
  cases g with
  | setting k v attached =>
      have hfree : k ≠ .searchDir → d.texts k = [] := by
        intro hk
        have hlength := honce.values k hk
        rw [List.filterMap_append, ← h.texts, List.length_append] at hlength
        simpa [Group.valueOf] using hlength
      have hreads := honce.reads k v (by simp [Group.valueOf])
      obtain ⟨d', hset, htexts, hswitches, hfiles⟩ := setValue_texts hfree hreads
      refine ⟨d', hset, fun k' ↦ ?_, fun k' ↦ ?_, ?_⟩
      · rw [htexts, h.texts, List.filterMap_append]
        by_cases hk : k = k' <;> simp [Group.valueOf, hk]
      · simp [hswitches, h.switches]
      · simp [hfiles, h.files, Group.file?]
  | switch k =>
      have hoff : d.isOn k = false := by
        have hcount := honce.switches k
        rw [List.count_append, ← h.switches] at hcount
        simpa using hcount
      obtain ⟨d', hset, hswitches, htexts, hfiles⟩ :=
        setFlag_isOn (honce.valid (.switch k) (by simp)) hoff
      refine ⟨d', hset, fun k' ↦ ?_, fun k' ↦ ?_, ?_⟩
      · simp [htexts, h.texts, Group.valueOf]
      · rw [hswitches, List.count_append, ← h.switches]
        by_cases hk : k = k'
        · subst hk
          simp [hoff]
        · simp [hk, beq_eq_false_iff_ne.mpr hk]
      · simp [hfiles, h.files, Group.file?]
  | file f =>
      refine ⟨{ d with files := d.files ++ [f] }, rfl, fun k ↦ ?_, fun k ↦ ?_, ?_⟩
      · have hsame : { d with files := d.files ++ [f] }.texts k = d.texts k := by cases k <;> rfl
        simp [hsame, h.texts, Group.valueOf]
      · have hsame : { d with files := d.files ++ [f] }.isOn k = d.isOn k := by cases k <;> rfl
        simp [hsame, h.switches]
      · simp [h.files, Group.file?]

theorem exists_holds (honce : Group.Once gs) :
    ∃ d, gs.foldlM take .empty = .ok d ∧ d.Holds gs := by
  -- The draft holds the groups up to a point, so the next one is added at the end.
  induction gs using List.reverseRecOn with
  | nil => exact ⟨_, rfl, holds_empty⟩
  | append_singleton gs g ih =>
      obtain ⟨d, hread, hd⟩ := ih honce.of_append
      obtain ⟨d', htake, hd'⟩ := hd.take honce
      refine ⟨d', ?_, hd'⟩
      rw [List.foldlM_append, hread]
      simp only [List.foldlM_cons, List.foldlM_nil, bind, Except.bind, htake]
      rfl

end Draft

/-! ## Lines that give arguments -/

namespace Line

variable {α : Type} {given : List String} {text : α → String} {value default : α}

theorem Gives.length_le (h : Gives given text value default) : given.length ≤ 1 := by
  rcases h with rfl | ⟨rfl, -⟩ <;> simp

theorem Gives.eq_text (h : Gives given text value default) {v : String} (hv : v ∈ given) :
    v = text value := by
  rcases h with rfl | ⟨rfl, -⟩
  · exact List.mem_singleton.mp hv
  · cases hv

/-- What has been read of an option, or else its default, is the value that is given. -/
theorem Gives.getD_eq (h : Gives given text value default) (htext : Function.Injective text)
    {read : Option α} (hread : read.toList.map text = given) : read.getD default = value := by
  cases read with
  | none =>
      rcases h with rfl | ⟨-, rfl⟩
      · simp at hread
      · rfl
  | some a =>
      have ha : text a = text value := h.eq_text (by simp [← hread])
      exact htext ha

/-- An option without a default is as it is given. -/
theorem eq_of_texts (htext : Function.Injective text) {read given : Option α}
    (h : read.toList.map text = (given.map text).toList) : read = given := by
  cases read <;> cases given <;> simp at h ⊢
  exact htext h

variable {l : Line} {a : DatabaseArgs} {d : Draft}

theorem GivesDatabase.databaseArgs_eq (h : l.GivesDatabase a) (hd : d.Holds l.groups) :
    d.databaseArgs = a := by
  have htexts : ∀ k, d.texts k = l.values k := hd.texts
  have hroot : d.root = a.root :=
    eq_of_texts Function.injective_id (by simpa [Draft.texts, h.root] using htexts .root)
  have hdatabase : d.database.getD Options.defaultDatabaseName = a.database :=
    h.database.getD_eq Function.injective_id ((List.map_id _).trans (htexts .database))
  have hdirs : d.searchDirs = a.searchDirs := (htexts .searchDir).trans h.searchDirs
  have hbuild : d.buildDir.getD Options.defaultBuildDir = a.buildDir :=
    h.buildDir.getD_eq Function.injective_id ((List.map_id _).trans (htexts .buildDir))
  have htimeout : d.timeout.getD Options.defaultTimeout = a.timeout :=
    h.timeout.getD_eq (injective_of_read Draft.decimal?_toString) (htexts .timeout)
  rw [Draft.databaseArgs, hroot, hdatabase, hdirs, hbuild, htimeout]

/-! ## Lines can be read -/

theorem values_eq_nil (hvalid : ∀ g ∈ l.groups, g.Valid) {k : Key} (hk : k.takesValue = false) :
    l.values k = [] := by
  rw [values, List.filterMap_eq_nil_iff]
  intro g hg
  cases g with
  | setting k' v attached =>
      have hvalue : k'.takesValue = true := (hvalid _ hg).1
      have hne : k' ≠ k := by
        rintro rfl
        simp [hk] at hvalue
      simp [Group.valueOf, hne]
  | switch | file => rfl

theorem Switches.count_le {k : Key} {on : Bool} (h : l.Switches k on) :
    l.groups.count (.switch k) ≤ 1 := by
  rw [h]
  split <;> omega

theorem Switches.isOn_eq {k : Key} {on : Bool} (h : l.Switches k on) (hd : d.Holds l.groups) :
    d.isOn k = on := by
  have hcount := (hd.switches k).trans h
  cases hread : d.isOn k <;> cases on <;> simp [hread] at hcount ⊢

theorem GivesDatabase.once (h : l.GivesDatabase a) (ha : a.Valid)
    (hvalid : ∀ g ∈ l.groups, g.Valid) {format : Option Format} {completions : Option Shell}
    (hformat : l.values .format = (format.map Format.name).toList)
    (hcompletions : l.values .completions = (completions.map Shell.name).toList)
    {verbose file : Bool} (hverbose : l.Switches .verbose verbose) (hfile : l.Switches .file file) :
    Group.Once l.groups where
  valid := hvalid
  reads k v hv := by
    have hv : v ∈ l.values k := hv
    have hnone : k.takesValue = false → l.values k = [] := values_eq_nil hvalid
    cases k with
    | root => exact ha.1 v (by simpa [h.root] using hv)
    | searchDir => exact ha.2.1 v (by simpa [h.searchDirs] using hv)
    | database | buildDir => trivial
    | timeout => exact ⟨a.timeout, ha.2.2, h.timeout.eq_text hv⟩
    | format =>
        rw [hformat] at hv
        obtain ⟨f, -, rfl⟩ : ∃ f, format = some f ∧ f.name = v := by simpa using hv
        exact ⟨f, rfl⟩
    | completions =>
        rw [hcompletions] at hv
        obtain ⟨s, -, rfl⟩ : ∃ s, completions = some s ∧ s.name = v := by simpa using hv
        exact ⟨s, rfl⟩
    | file | verbose | help | version => simp [hnone rfl] at hv
  values k hk := by
    change (l.values k).length ≤ 1
    have hnone : k.takesValue = false → l.values k = [] := values_eq_nil hvalid
    cases k with
    | root => rw [h.root]; exact Option.length_toList_le
    | searchDir => exact (hk rfl).elim
    | database => exact h.database.length_le
    | buildDir => exact h.buildDir.length_le
    | timeout => exact h.timeout.length_le
    | format => rw [hformat]; exact Option.length_toList_le
    | completions => rw [hcompletions]; exact Option.length_toList_le
    | file | verbose | help | version => simp [hnone rfl]
  switches k := by
    by_cases hk : k = .verbose ∨ k = .file
    · rcases hk with rfl | rfl
      · exact hverbose.count_le
      · exact hfile.count_le
    · have hnone : .switch k ∉ l.groups := fun hmem ↦ hk (hvalid _ hmem)
      simp [List.count_eq_zero.mpr hnone]

/-- A tool reads a line that it knows to a draft with the arguments that the line gives. -/
theorem GivesDatabase.exists_draft (h : l.GivesDatabase a) (ha : a.Valid) {t : Tool}
    (hvalid : ∀ g ∈ l.groups, g.Valid) (hknown : ∀ g ∈ l.groups, t.Knows g)
    {format : Option Format} {completions : Option Shell} {verbose file : Bool}
    (hformat : l.values .format = (format.map Format.name).toList)
    (hcompletions : l.values .completions = (completions.map Shell.name).toList)
    (hverbose : l.Switches .verbose verbose) (hfile : l.Switches .file file)
    (htrailing : t = .flags ∨ l.trailing = []) {args : List String} (hargs : l.Writes args) :
    ∃ d, Draft.ofArgs t args = .ok d ∧ d.databaseArgs = a ∧ d.format = format ∧
      d.completions = completions ∧ d.verbose = verbose ∧ d.file = file ∧
      d.files = l.groups.filterMap Group.file? ++ l.trailing := by
  obtain ⟨d, hread, hd⟩ :=
    Draft.exists_holds (h.once ha hvalid hformat hcompletions hverbose hfile)
  have hdatabase : d.databaseArgs = a := h.databaseArgs_eq hd
  have hd_format : d.format = format :=
    eq_of_texts (injective_of_read Format.ofName?_name) ((hd.texts .format).trans hformat)
  have hd_completions : d.completions = completions :=
    eq_of_texts (injective_of_read Shell.ofName?_name) ((hd.texts .completions).trans hcompletions)
  have hd_verbose : d.verbose = verbose := hverbose.isOn_eq hd
  have hd_file : d.file = file := hfile.isOn_eq hd
  exact ⟨_, Draft.ofArgs_of_writes hargs hread hvalid hknown htrailing, hdatabase, hd_format,
    hd_completions, hd_verbose, hd_file, congrArg (· ++ l.trailing) hd.files⟩

theorem Gives.exists_option (h : Gives given text value default) :
    ∃ x : Option α, given = (x.map text).toList := by
  rcases h with rfl | ⟨rfl, -⟩
  · exact ⟨some value, rfl⟩
  · exact ⟨none, rfl⟩

theorem GivesFlags.knows {a : FlagsArgs} (h : l.GivesFlags a) :
    ∀ g ∈ l.groups, Tool.flags.Knows g := by
  intro g hg
  cases g with
  | setting k v attached => exact Tool.mem_keys (h.valid _ hg).1 (.inl rfl)
  | switch k =>
      rcases h.valid _ hg with rfl | rfl
      · exact Tool.verbose_mem_keys _
      · exact absurd hg (List.count_eq_zero.mp h.file)
  | file f => rfl

theorem GivesLocate.knows {a : LocateArgs} (h : l.GivesLocate a) :
    ∀ g ∈ l.groups, Tool.locate.Knows g := by
  intro g hg
  cases g with
  | setting k v attached =>
      refine Tool.mem_keys (h.valid _ hg).1 (.inr ?_)
      rintro rfl
      simpa [Group.valueOf] using List.filterMap_eq_nil_iff.mp h.format _ hg
  | switch k =>
      rcases h.valid _ hg with rfl | rfl
      · exact Tool.verbose_mem_keys _
      · exact Tool.file_mem_keys
  | file f =>
      have hnone := (List.append_eq_nil_iff.mp h.files).1
      simpa [Group.file?] using List.filterMap_eq_nil_iff.mp hnone _ hg

theorem GivesFlags.parse_eq {a : FlagsArgs} (h : l.GivesFlags a) (ha : a.Valid)
    {args : List String} (hargs : l.Writes args) : FlagsArgs.parse args = .ok a := by
  obtain ⟨format, hformat⟩ := h.format.exists_option
  obtain ⟨d, hread, hdatabase, hd, hcompletions, hverbose, -, hfiles⟩ :=
    h.database.exists_draft ha.1 h.valid h.knows hformat h.completions h.verbose h.file (.inl rfl)
      hargs
  have hgiven : d.format.getD .text = a.format := by
    rw [hd]
    refine h.format.getD_eq (injective_of_read Format.ofName?_name) ?_
    rw [hformat, Option.toList_map]
  -- A line without files is refused unless completions are asked for.
  have hasked : (a.files.isEmpty && a.completions.isNone) = false := by
    cases hnone : a.completions with
    | none => simpa using ha.2 hnone
    | some s => simp
  simp only [FlagsArgs.parse, hread, bind, Except.bind, hfiles, h.files, hdatabase, hgiven,
    hverbose, hcompletions, hasked]
  rfl

theorem GivesLocate.parse_eq {b : LocateArgs} (h : l.GivesLocate b) (hb : b.database.Valid)
    {args : List String} (hargs : l.Writes args) : LocateArgs.parse args = .ok b := by
  have hformat : l.values .format = ((none : Option Format).map Format.name).toList := h.format
  obtain ⟨d, hread, hdatabase, -, hcompletions, hverbose, hfile, -⟩ :=
    h.database.exists_draft hb h.valid h.knows hformat h.completions h.verbose h.file
      (.inr (List.append_eq_nil_iff.mp h.files).2) hargs
  simp only [LocateArgs.parse, hread, bind, Except.bind, hdatabase, hverbose, hcompletions, hfile]
  rfl

/-! ## Writing -/

/-- Of the options for the database nothing is lost, and of the others nothing is left. -/
theorem values_databasePart (l : Line) (k : Key) :
    l.databasePart.values k = if DatabaseArgs.keys.contains k then l.values k else [] := by
  have hgroup : ∀ g : Group, (if g.isDatabase then g.valueOf k else none) =
      if DatabaseArgs.keys.contains k then g.valueOf k else none := by
    intro g
    cases g with
    | setting k' v attached => by_cases hk : k' = k <;> simp [Group.isDatabase, Group.valueOf, hk]
    | switch | file => simp [Group.isDatabase, Group.valueOf]
  rw [databasePart, values, values, List.filterMap_filter]
  simp only [hgroup]
  split <;> simp

theorem GivesFlags.databasePart {a : FlagsArgs} (h : l.GivesFlags a) :
    l.databasePart.GivesLocate ⟨false, a.database, false, none⟩ where
  valid g hg := h.valid g (List.mem_filter.mp hg).1
  database := by
    constructor <;> rw [values_databasePart]
    · exact h.database.root
    · exact h.database.database
    · exact h.database.searchDirs
    · exact h.database.buildDir
    · exact h.database.timeout
  format := values_databasePart l .format
  completions := values_databasePart l .completions
  verbose := List.count_eq_zero.mpr (by simp [Line.databasePart, Group.isDatabase])
  file := List.count_eq_zero.mpr (by simp [Line.databasePart, Group.isDatabase])
  files := by
    simp only [Line.databasePart, List.append_nil, List.filterMap_eq_nil_iff]
    intro g hg
    cases g <;> simp [Group.isDatabase, Group.file?] at hg ⊢

end Line

namespace Group

variable (k : Key) {k' : Key}

theorem filterMap_valueOf_settings (vs : List String) :
    (settings k' vs).filterMap (valueOf k) = if k' = k then vs else [] := by
  induction vs with
  | nil => simp [settings]
  | cons v vs ih =>
      rw [settings, List.map_cons, List.filterMap_cons, ← settings, ih]
      by_cases hk : k' = k <;> simp [valueOf, hk]

theorem filterMap_valueOf_switches (on : Bool) :
    (switches k' on).filterMap (valueOf k) = [] := by
  cases on <;> rfl

theorem count_settings (vs : List String) : (settings k' vs).count (.switch k) = 0 := by
  simp [settings, List.count_eq_zero]

theorem count_switches (on : Bool) :
    (switches k' on).count (.switch k) = if k' = k ∧ on then 1 else 0 := by
  cases on <;> simp [switches, List.count_singleton]

variable {k} {g : Group}

theorem of_mem_settings (hk : k.takesValue = true) {vs : List String} (hg : g ∈ settings k vs) :
    g.Valid ∧ g.file? = none := by
  obtain ⟨v, -, rfl⟩ := List.mem_map.mp hg
  exact ⟨⟨hk, by simp⟩, rfl⟩

theorem of_mem_switches (hk : k = .verbose ∨ k = .file) {on : Bool} (hg : g ∈ switches k on) :
    g.Valid ∧ g.file? = none := by
  cases on with
  | false => cases hg
  | true =>
      obtain rfl := List.mem_singleton.mp hg
      exact ⟨hk, rfl⟩

theorem of_mem_all {a : DatabaseArgs} {format : Option Format} {completions : Option Shell}
    {verbose file : Bool} (hg : g ∈ all a format completions verbose file) :
    g.Valid ∧ g.file? = none := by
  simp only [all, List.mem_append] at hg
  rcases hg with (((((((h | h) | h) | h) | h) | h) | h) | h) | h
  exacts [of_mem_settings rfl h, of_mem_settings rfl h, of_mem_settings rfl h,
    of_mem_settings rfl h, of_mem_settings rfl h, of_mem_settings rfl h, of_mem_settings rfl h,
    of_mem_switches (.inl rfl) h, of_mem_switches (.inr rfl) h]

end Group

namespace Line

variable {l : Line} {a : DatabaseArgs} {format : Option Format} {completions : Option Shell}
  {verbose file : Bool}

theorem givesDatabase_all (h : l.groups = Group.all a format completions verbose file) :
    l.GivesDatabase a := by
  have hvalues : ∀ k, l.values k =
      (Group.all a format completions verbose file).filterMap (Group.valueOf k) :=
    fun k ↦ by rw [values, h]
  constructor <;>
    simp [hvalues, Group.all, Group.filterMap_valueOf_settings, Group.filterMap_valueOf_switches,
      Gives]

theorem values_all (h : l.groups = Group.all a format completions verbose file) :
    l.values .format = (format.map Format.name).toList ∧
      l.values .completions = (completions.map Shell.name).toList := by
  constructor <;>
    simp [values, h, Group.all, Group.filterMap_valueOf_settings, Group.filterMap_valueOf_switches]

theorem switches_all (h : l.groups = Group.all a format completions verbose file) :
    l.Switches .verbose verbose ∧ l.Switches .file file := by
  constructor <;> simp [Switches, h, Group.all, Group.count_settings, Group.count_switches]

theorem files_all (h : l.groups = Group.all a format completions verbose file) :
    l.groups.filterMap Group.file? = [] :=
  List.filterMap_eq_nil_iff.mpr fun _ hg ↦ (Group.of_mem_all (h ▸ hg)).2

end Line

theorem FlagsArgs.givesFlags_line (a : FlagsArgs) : a.line.GivesFlags a where
  valid g hg := (Group.of_mem_all hg).1
  database := Line.givesDatabase_all rfl
  format := by
    have hformat : a.line.values .format = ((some a.format).map Format.name).toList :=
      (Line.values_all rfl).1
    exact .inl hformat
  completions := (Line.values_all rfl).2
  verbose := (Line.switches_all rfl).1
  file := (Line.switches_all rfl).2
  files := congrArg (· ++ a.files) (Line.files_all rfl)

theorem LocateArgs.givesLocate_line (b : LocateArgs) : b.line.GivesLocate b where
  valid g hg := (Group.of_mem_all hg).1
  database := Line.givesDatabase_all rfl
  format := by
    have hformat : b.line.values .format = ((none : Option Format).map Format.name).toList :=
      (Line.values_all rfl).1
    exact hformat
  completions := (Line.values_all rfl).2
  verbose := (Line.switches_all rfl).1
  file := (Line.switches_all rfl).2
  files := congrArg (· ++ []) (Line.files_all rfl)

/-- Arguments can be written, and whatever line gives them is read to them; the options for the
database alone are read to the same by the other tool. -/
theorem parse_written :
    (∀ a : FlagsArgs, a.Valid → a.line.GivesFlags a ∧
      ∀ (l : Line) (args : List String), l.GivesFlags a → l.Writes args →
        FlagsArgs.parse args = .ok a ∧
        ∀ shared : List String, l.databasePart.Writes shared →
          LocateArgs.parse shared = .ok ⟨false, a.database, false, none⟩) ∧
    ∀ b : LocateArgs, b.database.Valid → b.line.GivesLocate b ∧
      ∀ (l : Line) (args : List String), l.GivesLocate b → l.Writes args →
        LocateArgs.parse args = .ok b := by
  constructor
  · intro a ha
    refine ⟨a.givesFlags_line, fun l args hl hargs ↦ ⟨hl.parse_eq ha hargs, ?_⟩⟩
    intro shared hshared
    exact hl.databasePart.parse_eq ha.1 hshared
  · intro b hb
    exact ⟨b.givesLocate_line, fun l args hl hargs ↦ hl.parse_eq hb hargs⟩

/-- Values that look like options, a value that is empty and files among the options. -/
def interleaved : Line where
  groups := [.setting .searchDir "s1" false, .file "a.c", .setting .format "json" true,
    .setting .timeout "18446744073709551615" false, .setting .database "" true, .switch .verbose,
    .setting .searchDir "-s=2" true, .file "b.c", .setting .root "r" false]
  trailing := ["-x", "--"]

theorem parse_written_interleaved :
    FlagsArgs.parse ["--search-dir", "s1", "a.c", "--format=json", "--timeout-ms",
        "18446744073709551615", "--database=", "--verbose", "--search-dir=-s=2", "b.c", "--root",
        "r", "--", "-x", "--"] =
      .ok ⟨["a.c", "b.c", "-x", "--"], ⟨some "r", "", ["s1", "-s=2"], "build",
        18446744073709551615⟩, .json, true, none⟩ ∧
    LocateArgs.parse ["--search-dir", "s1", "--timeout-ms", "18446744073709551615", "--database=",
        "--search-dir=-s=2", "--root", "r"] =
      .ok ⟨false, ⟨some "r", "", ["s1", "-s=2"], "build", 18446744073709551615⟩, false, none⟩ ∧
    LocateArgs.parse ["--database=", "--build-dir=-", "--timeout-ms=0",
        "--generate-completions=fish", "--verbose", "--file"] =
      .ok ⟨true, ⟨none, "", [], "-", 0⟩, true, some .fish⟩ := by
  let a : FlagsArgs := ⟨["a.c", "b.c", "-x", "--"], ⟨some "r", "", ["s1", "-s=2"], "build",
    18446744073709551615⟩, .json, true, none⟩
  have ha : a.Valid := by
    refine ⟨⟨?_, ?_, by decide⟩, fun _ ↦ List.cons_ne_nil _ _⟩ <;> simp [a]
  have htimeout : interleaved.values .timeout = [toString a.database.timeout] := by
    decide +kernel
  have hl : interleaved.GivesFlags a := by
    refine ⟨?_, ⟨rfl, .inl rfl, rfl, .inr ⟨rfl, rfl⟩, .inl htimeout⟩, .inl rfl, rfl, rfl, rfl, rfl⟩
    simp [interleaved, Group.Valid, Key.takesValue, LooksLikeOption]
  let b : LocateArgs := ⟨true, ⟨none, "", [], "-", 0⟩, true, some .fish⟩
  have hb : b.database.Valid := by
    refine ⟨?_, ?_, by decide⟩ <;> simp [b]
  have hargs : b.line.groups.flatMap Group.args = ["--database=", "--build-dir=-",
      "--timeout-ms=0", "--generate-completions=fish", "--verbose", "--file"] := by
    decide +kernel
  obtain ⟨hflags, hlocate⟩ := (parse_written.1 a ha).2 interleaved _ hl .dashed
  obtain ⟨hwritten, hread⟩ := parse_written.2 b hb
  exact ⟨hflags, hlocate _ (.plain rfl), hread _ _ hwritten (hargs ▸ .plain rfl)⟩

end CompileFlags.CommandLine
