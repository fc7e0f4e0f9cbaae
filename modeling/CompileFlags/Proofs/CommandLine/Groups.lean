import CompileFlags.CommandLine.Written
import Mathlib.Data.List.TakeWhile

/-!
# Reading groups

Read from any point between two groups, the arguments of a group do to the draft what the option,
the switch or the file of the group does; a pending option counts as given. So a written line is
read group by group.
-/

namespace CompileFlags.CommandLine

theorem Key.equals_notMem_long (k : Key) : '=' ∉ k.long.toList := by
  cases k <;> decide

theorem Key.long_ne_nil (k : Key) : k.long.toList ≠ [] := by
  cases k <;> decide

theorem Tool.longKey?_long {t : Tool} {k : Key} (h : k ∈ t.keys) : t.longKey? k.long = some k := by
  cases t <;> cases k <;> first | rfl | exact absurd h (by decide)

/-- Only the format is an option of one tool. -/
theorem Tool.mem_keys {t : Tool} {k : Key} (hk : k.takesValue = true)
    (hformat : t = .flags ∨ k ≠ .format) : k ∈ t.keys := by
  revert hk hformat
  cases t <;> cases k <;> decide

theorem Tool.verbose_mem_keys (t : Tool) : .verbose ∈ t.keys := by
  cases t <;> decide

theorem Tool.file_mem_keys : .file ∈ Tool.locate.keys := by
  decide

/-- What a group does to a draft. -/
def Draft.take (d : Draft) : Group → Except Stop Draft
  | .setting k v _ => d.setValue k v
  | .switch k => d.setFlag k
  | .file f => .ok { d with files := d.files ++ [f] }

/-- The groups that a tool can read. -/
def Tool.Knows (t : Tool) : Group → Prop
  | .setting k _ _ | .switch k => k ∈ t.keys
  | .file _ => t = .flags

namespace Progress

variable {t : Tool} {p q : Progress} {d d' : Draft}

theorem splitLong_eq {name : String} (h : '=' ∉ name.toList) :
    splitLong name.toList = (name, none) := by
  have hdrop : name.toList.dropWhile (· != '=') = [] :=
    List.dropWhile_eq_nil_iff.mpr fun c hc ↦ by simpa using ne_of_mem_of_not_mem hc h
  simp [splitLong, hdrop]

theorem splitLong_append {name : String} (h : '=' ∉ name.toList) (v : String) :
    splitLong (name.toList ++ '=' :: v.toList) = (name, some v) := by
  have hne : ∀ c ∈ name.toList, (c != '=') = true :=
    fun c hc ↦ by simpa using ne_of_mem_of_not_mem hc h
  simp [splitLong, List.dropWhile_append_of_pos hne, List.takeWhile_append_of_pos hne]

/-! ## One argument -/

theorem run_cons {arg : String} (harg : arg ≠ "--") (hnext : p.next t arg = .ok q)
    (rest : List String) : p.run t (arg :: rest) = q.run t rest := by
  rw [run, if_neg harg, hnext]
  rfl

theorem next_long (t : Tool) (p : Progress) {arg : String} {cs : List Char}
    (harg : arg.toList = '-' :: '-' :: cs) : p.next t arg = p.long t cs := by
  simp only [next, harg]

theorem next_plain (t : Tool) (p : Progress) {arg : String} (harg : ¬ LooksLikeOption arg) :
    p.next t arg = p.plain t arg := by
  unfold next
  split
  · exact absurd (by simp [LooksLikeOption, *]) harg
  · exact absurd (by simp [LooksLikeOption, *]) harg
  · rfl

theorem ne_dashes_of_toList {arg : String} {cs : List Char}
    (harg : arg.toList = '-' :: '-' :: cs) (hcs : cs ≠ []) : arg ≠ "--" := by
  rintro rfl
  exact hcs (by simpa using harg.symm)

theorem ne_dashes_of_plain {arg : String} (harg : ¬ LooksLikeOption arg) : arg ≠ "--" := by
  rintro rfl
  exact harg rfl

/-- The argument of an option, alone or with a value after an equals sign. -/
theorem run_long {k : Key} {arg : String} {tail : List Char}
    (harg : arg.toList = '-' :: '-' :: (k.long.toList ++ tail))
    (hnext : p.long t (k.long.toList ++ tail) = .ok q) (rest : List String) :
    p.run t (arg :: rest) = q.run t rest := by
  refine run_cons ?_ ((next_long t p harg).trans hnext) rest
  exact ne_dashes_of_toList harg (by simp [k.long_ne_nil])

theorem run_plain {arg : String} (harg : ¬ LooksLikeOption arg) (hnext : p.plain t arg = .ok q)
    (rest : List String) : p.run t (arg :: rest) = q.run t rest :=
  run_cons (ne_dashes_of_plain harg) ((next_plain t p harg).trans hnext) rest

/-! ## What is pending is settled first -/

theorem attach_of_settle (hp : p.settle = .ok d) {k : Key} {v : String}
    (hd : d.setValue k v = .ok d') : p.attach k v = .ok ⟨d', none⟩ := by
  simp only [attach, hp, bind, Except.bind, hd]
  rfl

theorem await_of_settle (hp : p.settle = .ok d) (k : Key) :
    p.await k = .ok ⟨d, some (k, none)⟩ := by
  rw [await, hp]
  rfl

theorem switch_of_settle (hp : p.settle = .ok d) {k : Key} (hd : d.setFlag k = .ok d') :
    p.switch k = .ok ⟨d', none⟩ := by
  simp only [switch, hp, bind, Except.bind, hd]
  rfl

theorem addFile_of_settle (hp : p.settle = .ok d) (f : String) :
    p.addFile .flags f = .ok ⟨{ d with files := d.files ++ [f] }, none⟩ := by
  simp [addFile, hp, Except.map]

/-- Where a value is expected nothing is settled. -/
theorem plain_of_settle (hp : p.settle = .ok d) (arg : String) :
    p.plain t arg = p.addFile t arg := by
  unfold plain
  split
  · rename_i hpending
    simp [settle, hpending, Draft.refuse] at hp
  · rfl

/-! ## One group -/

theorem run_group {g : Group} (hp : p.settle = .ok d) (hd : d.take g = .ok d') (hvalid : g.Valid)
    (hknown : t.Knows g) (rest : List String) :
    ∃ q : Progress, q.settle = .ok d' ∧ p.run t (g.args ++ rest) = q.run t rest := by
  cases g with
  | setting k v attached =>
      obtain ⟨hvalue, hplain⟩ := hvalid
      have hkey := Tool.longKey?_long hknown
      cases attached with
      | true =>
          have hnext : p.long t (k.long.toList ++ '=' :: v.toList) = .ok ⟨d', none⟩ := by
            rw [long, splitLong_append k.equals_notMem_long]
            simp only [hkey, hvalue, if_true, attach_of_settle hp hd]
          exact ⟨⟨d', none⟩, rfl, run_long (by simp) hnext rest⟩
      | false =>
          have hnext : p.long t (k.long.toList ++ []) = .ok ⟨d, some (k, none)⟩ := by
            rw [List.append_nil, long, splitLong_eq k.equals_notMem_long]
            simp only [hkey, hvalue, if_true, await_of_settle hp]
          refine ⟨⟨d, some (k, some v)⟩, hd, ?_⟩
          exact (run_long (by simp) hnext _).trans (run_plain (hplain rfl) rfl rest)
  | switch k =>
      have hkey := Tool.longKey?_long hknown
      have hvalue : k.takesValue = false := by rcases hvalid with rfl | rfl <;> rfl
      have hnext : p.long t (k.long.toList ++ []) = .ok ⟨d', none⟩ := by
        rw [List.append_nil, long, splitLong_eq k.equals_notMem_long]
        simp only [hkey, hvalue, Bool.false_eq_true, if_false, switch_of_settle hp hd]
      exact ⟨⟨d', none⟩, rfl, run_long (by simp) hnext rest⟩
  | file f =>
      cases hknown
      cases hd
      have hnext := (plain_of_settle hp f).trans (addFile_of_settle hp f)
      exact ⟨⟨{ d with files := d.files ++ [f] }, none⟩, rfl, run_plain hvalid hnext rest⟩

/-- Groups are read one after the other. -/
theorem run_groups {gs : List Group} (hp : p.settle = .ok d)
    (hd : gs.foldlM Draft.take d = .ok d') (hvalid : ∀ g ∈ gs, g.Valid)
    (hknown : ∀ g ∈ gs, t.Knows g) (rest : List String) :
    ∃ q : Progress, q.settle = .ok d' ∧
      p.run t (gs.flatMap Group.args ++ rest) = q.run t rest := by
  induction gs generalizing p d with
  | nil =>
      cases hd
      exact ⟨p, hp, rfl⟩
  | cons g gs ih =>
      rw [List.foldlM_cons] at hd
      cases htake : d.take g with
      | error why => simp [htake, bind, Except.bind] at hd
      | ok between =>
          rw [htake] at hd
          obtain ⟨q, hq, hfirst⟩ := run_group hp htake (hvalid g List.mem_cons_self)
            (hknown g List.mem_cons_self) (gs.flatMap Group.args ++ rest)
          obtain ⟨r, hr, hothers⟩ := ih hq hd (fun g' h ↦ hvalid g' (List.mem_cons_of_mem g h))
            fun g' h ↦ hknown g' (List.mem_cons_of_mem g h)
          refine ⟨r, hr, ?_⟩
          rw [List.flatMap_cons, List.append_assoc, hfirst, hothers]

/-- After two dashes everything is a file, whatever it looks like. -/
theorem run_dashes (hp : p.settle = .ok d) {fs : List String} (hfs : t = .flags ∨ fs = []) :
    ∃ q : Progress, q.settle = .ok { d with files := d.files ++ fs } ∧
      p.run t ("--" :: fs) = .ok q := by
  have hrun : p.run t ("--" :: fs) = fs.foldlM (addFile t) p := by simp [run]
  rw [hrun]
  clear hrun
  induction fs generalizing p d with
  | nil => exact ⟨p, by simpa using hp, rfl⟩
  | cons f fs ih =>
      obtain rfl := hfs.resolve_right (List.cons_ne_nil f fs)
      obtain ⟨q, hq, hothers⟩ := @ih ⟨{ d with files := d.files ++ [f] }, none⟩ _ rfl (.inl rfl)
      refine ⟨q, by simpa using hq, ?_⟩
      rw [List.foldlM_cons, addFile_of_settle hp]
      exact hothers

end Progress

/-- The draft of a written line: its groups one after the other, and then the files that follow. -/
theorem Draft.ofArgs_of_writes {t : Tool} {l : Line} {args : List String} {d : Draft}
    (hargs : l.Writes args) (hd : l.groups.foldlM Draft.take .empty = .ok d)
    (hvalid : ∀ g ∈ l.groups, g.Valid) (hknown : ∀ g ∈ l.groups, t.Knows g)
    (htrailing : t = .flags ∨ l.trailing = []) :
    Draft.ofArgs t args = .ok { d with files := d.files ++ l.trailing } := by
  have hread := fun rest ↦ Progress.run_groups (p := .start) rfl hd hvalid hknown rest
  cases hargs with
  | plain hnone =>
      obtain ⟨p, hp, hrun⟩ := hread []
      rw [List.append_nil] at hrun
      rw [ofArgs, hrun, hnone, List.append_nil]
      exact hp
  | dashed =>
      obtain ⟨p, hp, hrun⟩ := hread ("--" :: l.trailing)
      obtain ⟨q, hq, hdashes⟩ := Progress.run_dashes hp htrailing
      rw [ofArgs, hrun, hdashes]
      exact hq

end CompileFlags.CommandLine
