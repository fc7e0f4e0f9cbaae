import CompileFlags.Proofs.CommandLine.RoundTrip

/-!
# What is read can be written

No value gets into a draft that could not be written: empty paths and numbers beyond 64 bits are
refused where the option takes its value, and a line without files at the end. So the arguments that
can be read are exactly those that can be written.
-/

namespace CompileFlags.CommandLine

/-! ## Properties of whatever comes out -/

/-- If reading ends with a value, the value has the property. -/
def Yields {α : Type} (P : α → Prop) (x : Except Stop α) : Prop :=
  ∀ a, x = .ok a → P a

namespace Yields

variable {α β : Type} {P : α → Prop} {Q : β → Prop} {x : Except Stop α}

theorem ok {a : α} (h : P a) : Yields P (.ok a) := by
  rintro _ ⟨⟩
  exact h

theorem refuse (why : UsageError) : Yields P (Draft.refuse why) := by
  rintro _ ⟨⟩

theorem bind (h : Yields P x) {f : α → Except Stop β} (hf : ∀ a, P a → Yields Q (f a)) :
    Yields Q (x >>= f) := by
  cases x with
  | error why => rintro _ ⟨⟩
  | ok a => exact hf a (h a rfl)

theorem map (h : Yields P x) {f : α → β} (hf : ∀ a, P a → Q (f a)) : Yields Q (x.map f) := by
  cases x with
  | error why => rintro _ ⟨⟩
  | ok a => exact ok (hf a (h a rfl))

end Yields

namespace Draft

/-- The values of a draft can be written. -/
structure Sound (d : Draft) : Prop where
  root : ∀ p ∈ d.root, p ≠ ""
  searchDirs : ∀ p ∈ d.searchDirs, p ≠ ""
  timeout : ∀ n ∈ d.timeout, n < UInt64.size

theorem yields_pathValue (v : String) : Yields (· ≠ "") (pathValue v) := by
  unfold pathValue
  split
  · exact .refuse _
  · rename_i hempty
    exact .ok (by simpa using hempty)

theorem yields_countValue (v : String) : Yields (· < UInt64.size) (countValue v) := by
  unfold countValue
  split
  · split
    · exact .ok ‹_›
    · exact .refuse _
  · exact .refuse _

theorem yields_once {α : Type} {P : α → Prop} (old : Option α) {new : Except Stop α}
    (hnew : Yields P new) : Yields (fun x ↦ ∀ a ∈ x, P a) (once old new) := by
  unfold once
  split
  · exact .refuse _
  · exact hnew.map fun a ha b hb ↦ by cases hb; exact ha

variable {d : Draft}

theorem Sound.setValue (h : d.Sound) (k : Key) (v : String) : Yields Sound (d.setValue k v) := by
  have hany {α : Type} (x : Except Stop α) : Yields (fun _ ↦ True) x := fun _ _ ↦ trivial
  cases k with
  | root => exact (yields_once d.root (yields_pathValue v)).map fun _ hx ↦ { h with root := hx }
  | searchDir =>
      refine (yields_pathValue v).map fun p hp ↦ { h with searchDirs := ?_ }
      intro q hq
      rcases List.mem_append.mp hq with hq | hq
      · exact h.searchDirs q hq
      · cases List.mem_singleton.mp hq
        exact hp
  | timeout =>
      exact (yields_once d.timeout (yields_countValue v)).map fun _ hx ↦ { h with timeout := hx }
  | database | buildDir | format | completions =>
      exact (hany _).map fun _ _ ↦ ⟨h.root, h.searchDirs, h.timeout⟩
  | file | verbose | help | version => exact .refuse _

theorem Sound.setFlag (h : d.Sound) (k : Key) : Yields Sound (d.setFlag k) := by
  have hswitched {on : Bool} {d' : Draft} (hd' : d'.Sound) :
      Yields Sound (if on then Draft.refuse .argumentConflict else .ok d') := by
    cases on with
    | true => exact .refuse _
    | false => exact .ok hd'
  cases k with
  | file | verbose => exact hswitched ⟨h.root, h.searchDirs, h.timeout⟩
  | help | version => rintro _ ⟨⟩
  | root | database | searchDir | buildDir | timeout | format | completions => exact .refuse _

end Draft

namespace Progress

variable {p : Progress} {t : Tool}

/-- What is pending has not been checked yet. -/
def Sound (p : Progress) : Prop :=
  p.draft.Sound

theorem Sound.settle (h : p.Sound) : Yields Draft.Sound p.settle := by
  unfold Progress.settle
  split
  · exact .ok h
  · exact h.setValue _ _
  · exact .refuse _

theorem Sound.attach (h : p.Sound) (k : Key) (v : String) : Yields Sound (p.attach k v) :=
  h.settle.bind fun _ hd ↦ (hd.setValue k v).bind fun _ hd' ↦ .ok hd'

theorem Sound.await (h : p.Sound) (k : Key) : Yields Sound (p.await k) :=
  h.settle.bind fun _ hd ↦ .ok hd

theorem Sound.switch (h : p.Sound) (k : Key) : Yields Sound (p.switch k) :=
  h.settle.bind fun _ hd ↦ (hd.setFlag k).bind fun _ hd' ↦ .ok hd'

theorem Sound.addFile (h : p.Sound) (t : Tool) (f : String) : Yields Sound (p.addFile t f) := by
  cases t with
  | flags => exact h.settle.map fun _ hd ↦ ⟨hd.root, hd.searchDirs, hd.timeout⟩
  | locate => exact .refuse _

theorem Sound.long (h : p.Sound) (cs : List Char) : Yields Sound (p.long t cs) := by
  unfold Progress.long
  dsimp only
  split
  · exact .refuse _
  · split
    · exact h.attach _ _
    · exact .refuse _
  · split
    · exact h.await _
    · exact h.switch _

theorem Sound.shorts (h : p.Sound) (cs : List Char) : Yields Sound (p.shorts t cs) := by
  induction cs generalizing p with
  | nil => exact .ok h
  | cons c cs ih =>
      unfold Progress.shorts
      split
      · exact .refuse _
      · split
        · split
          · exact h.await _
          · exact h.attach _ _
          · exact h.attach _ _
        · exact (h.switch _).bind fun _ hq ↦ ih hq

theorem Sound.next (h : p.Sound) (arg : String) : Yields Sound (p.next t arg) := by
  unfold Progress.next
  split
  · exact h.long _
  · exact h.shorts _
  · unfold plain
    split
    · exact .ok h
    · exact h.addFile t arg

theorem Sound.addFiles (h : p.Sound) (fs : List String) :
    Yields Sound (fs.foldlM (Progress.addFile t) p) := by
  induction fs generalizing p with
  | nil => exact .ok h
  | cons f fs ih => exact (h.addFile t f).bind fun _ hq ↦ ih hq

theorem Sound.run (h : p.Sound) (args : List String) : Yields Sound (p.run t args) := by
  induction args generalizing p with
  | nil => exact .ok h
  | cons arg args ih =>
      unfold Progress.run
      split
      · exact h.addFiles args
      · exact (h.next arg).bind fun _ hq ↦ ih hq

end Progress

namespace Draft

theorem yields_ofArgs (t : Tool) (args : List String) : Yields Sound (ofArgs t args) := by
  have hstart : Progress.start.Sound := by
    constructor <;> simp [Progress.start, empty]
  exact (hstart.run args).bind fun _ hp ↦ hp.settle

theorem Sound.databaseArgs_valid {d : Draft} (h : d.Sound) : d.databaseArgs.Valid := by
  refine ⟨h.root, h.searchDirs, ?_⟩
  cases htimeout : d.timeout with
  | none =>
      simp only [databaseArgs, htimeout, Option.getD_none]
      decide
  | some n => simpa [databaseArgs, htimeout] using h.timeout n htimeout

end Draft

/-- The valid arguments are those that some line is read to. -/
theorem FlagsArgs.exists_parse_iff (a : FlagsArgs) :
    (∃ args, FlagsArgs.parse args = .ok a) ↔ a.Valid := by
  constructor
  · rintro ⟨args, hread⟩
    have hvalid : Yields FlagsArgs.Valid (FlagsArgs.parse args) := by
      refine (Draft.yields_ofArgs .flags args).bind fun d hd ↦ ?_
      split
      · exact .refuse _
      · rename_i hasked
        refine .ok ⟨hd.databaseArgs_valid, fun hnone hfiles ↦ hasked ?_⟩
        change d.files = [] at hfiles
        change d.completions = none at hnone
        simp [hfiles, hnone]
    exact hvalid a hread
  · intro ha
    exact ⟨_, a.givesFlags_line.parse_eq ha .dashed⟩

theorem LocateArgs.exists_parse_iff (b : LocateArgs) :
    (∃ args, LocateArgs.parse args = .ok b) ↔ b.database.Valid := by
  constructor
  · rintro ⟨args, hread⟩
    have hvalid : Yields (·.database.Valid) (LocateArgs.parse args) :=
      (Draft.yields_ofArgs .locate args).bind fun d hd ↦ .ok hd.databaseArgs_valid
    exact hvalid b hread
  · intro hb
    exact ⟨_, b.givesLocate_line.parse_eq hb .dashed⟩

end CompileFlags.CommandLine
