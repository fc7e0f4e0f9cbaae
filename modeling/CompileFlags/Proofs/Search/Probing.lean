import CompileFlags.Proofs.Search.Settling
import CompileFlags.Search.Probes

/-!
# What a search by probes comes to

However the searcher, the probes and the deadline take turns, every report is in one place: heard,
in the channel, or still to come. So there is room in the channel for all that is to come, and a
search answers what the signals it has heard settle. Every step brings the end nearer, and until
then there is a step that does not need the deadline.
-/

namespace CompileFlags.Search

variable {w : World} {name : String} {candidates : List Path}

namespace Probing

variable {p q : Probing} {heard : List Report}

/-! ## Where the reports are -/

/-- What the searcher makes of the reports it has heard, and how often it has listened. -/
def Told (heard : List Report) (receives : Nat) : Searcher → Prop
  | .starting => heard = [] ∧ receives = 0
  | .listening =>
      (∀ more, listen (heard.map .report ++ more) = listen more) ∧ receives = heard.length
  | .answered d => (∀ more, listen (heard.map .report ++ more) = some d) ∧ receives = heard.length
  | .gaveUp =>
      (∀ more, listen (heard.map .report ++ more) = listen more) ∧ receives = heard.length + 1

theorem Told.hear {k : Nat} (h : Told heard k .listening) (r : Report) :
    Told (heard ++ [r]) (k + 1) (hear r) := by
  obtain ⟨hmissed, rfl⟩ := h
  have hnext (more : List Signal) :
      listen ((heard ++ [r]).map .report ++ more) = listen (.report r :: more) := by
    rw [List.map_append, List.append_assoc, hmissed]
    rfl
  cases hfound : r.found <;> simp only [Probing.hear, hfound] <;>
    exact ⟨fun more ↦ by rw [hnext]; simp [listen, hfound], by simp⟩

theorem Told.receives_le {k : Nat} {s : Searcher} (h : Told heard k s) : k ≤ heard.length + 1 := by
  cases s <;> simp only [Told] at h <;> omega

/-- The reports of all candidates, by where they are. -/
structure Accounts (w : World) (name : String) (candidates : List Path) (heard : List Report)
    (p : Probing) : Prop where
  capacity : p.capacity = candidates.length
  reports :
    (heard ++ (p.channel ++ (p.unsent ++ p.unstarted.map (probe w (effectiveName name))))).Perm
      (candidates.map (probe w (effectiveName name)))
  told : Told heard p.receives p.searcher
  started : p.searcher ≠ .starting → p.unstarted = []

theorem accounts_start (w : World) (name : String) (candidates : List Path) :
    Accounts w name candidates [] (start candidates) :=
  ⟨rfl, .refl _, ⟨rfl, rfl⟩, fun h ↦ (h rfl).elim⟩

theorem Accounts.step (h : Accounts w name candidates heard p) (hstep : Step w name p q) :
    ∃ heard', Accounts w name candidates heard' q := by
  have hreports := h.reports
  have htold := h.told
  cases hstep with
  | launch hstarting hrest =>
      refine ⟨heard, h.capacity, ?_, htold, fun hne ↦ (hne hstarting).elim⟩
      simpa [hrest] using hreports
  | attend hstarting hall =>
      refine ⟨heard, h.capacity, hreports, ?_, fun _ ↦ hall⟩
      rw [hstarting] at htold
      obtain ⟨rfl, hnone⟩ := htold
      exact ⟨fun _ ↦ rfl, hnone⟩
  | send hunsent =>
      refine ⟨heard, h.capacity, .trans (.append_left heard ?_) hreports, htold, h.started⟩
      rw [hunsent, List.append_assoc]
      refine .append_left _ ?_
      simpa using List.perm_middle.symm
  | leave => exact ⟨heard, h.capacity, hreports, htold, h.started⟩
  | @receive r rest hlistening hchannel =>
      refine ⟨heard ++ [r], h.capacity, ?_, ?_, fun _ ↦ h.started (by simp [hlistening])⟩
      · simpa [hchannel] using hreports
      · rw [hlistening] at htold
        exact htold.hear r
  | pass => exact ⟨heard, h.capacity, hreports, htold, h.started⟩
  | disconnect hlistening | expire hlistening =>
      refine ⟨heard, h.capacity, hreports, ?_, fun _ ↦ h.started (by simp [hlistening])⟩
      rw [hlistening] at htold
      exact ⟨htold.1, congrArg (· + 1) htold.2⟩

theorem Run.mono {step step' : Probing → Probing → Prop} (hstep : ∀ p q, step p q → step' p q)
    {n : Nat} (h : Run step p n q) : Run step' p n q := by
  induction h with
  | nil => exact .nil
  | snoc _ hlast ih => exact ih.snoc (hstep _ _ hlast)

theorem Run.trans {step : Probing → Probing → Prop} {m n : Nat} {r : Probing}
    (h : Run step p m q) (h' : Run step q n r) : Run step p (m + n) r := by
  induction h' with
  | nil => exact h
  | snoc _ hlast ih => exact ih.snoc hlast

theorem Run.cons {step : Probing → Probing → Prop} {n : Nat} {r : Probing} (hstep : step p q)
    (h : Run step q n r) : Run step p (n + 1) r := by
  rw [Nat.add_comm]
  exact (Run.nil.snoc hstep).trans h

theorem Run.accounts {n : Nat} (h : Run (Step w name) (start candidates) n p) :
    ∃ heard, Accounts w name candidates heard p := by
  induction h with
  | nil => exact ⟨[], accounts_start w name candidates⟩
  | snoc _ hstep ih =>
      obtain ⟨heard, hheard⟩ := ih
      exact hheard.step hstep

namespace Accounts

theorem length (h : Accounts w name candidates heard p) :
    heard.length + p.channel.length + p.unsent.length + p.unstarted.length = candidates.length := by
  have hlength := h.reports.length_eq
  simp only [List.length_append, List.length_map] at hlength
  omega

/-- No probe waits for the searcher. -/
theorem hasRoom (h : Accounts w name candidates heard p) (hunsent : p.unsent ≠ []) :
    p.HasRoom := by
  have hlength := h.length
  have hpos := List.length_pos_of_ne_nil hunsent
  rw [HasRoom, h.capacity]
  omega

theorem receives_le (h : Accounts w name candidates heard p) :
    p.receives ≤ candidates.length + 1 := by
  have hlength := h.length
  have hreceives := h.told.receives_le
  omega

/-- The end of a search does not depend on the deadline. -/
theorem exists_step (h : Accounts w name candidates heard p)
    (hanswer : p.answer? name candidates = none) :
    ∃ q, Step w name p q ∧ q.overdue = p.overdue := by
  cases hsearcher : p.searcher with
  | answered | gaveUp => simp [answer?, hsearcher] at hanswer
  | starting =>
      cases hunstarted : p.unstarted with
      | nil => exact ⟨_, .attend hsearcher hunstarted, rfl⟩
      | cons d rest => exact ⟨_, .launch hsearcher hunstarted, rfl⟩
  | listening =>
      cases hunsent : p.unsent with
      | cons r rest =>
          have hroom := h.hasRoom (by simp [hunsent])
          exact ⟨_, @Step.send _ _ _ [] _ _ hunsent hroom, rfl⟩
      | nil =>
          cases hchannel : p.channel with
          | cons r rest => exact ⟨_, .receive hsearcher hchannel, rfl⟩
          | nil =>
              cases hleaving : p.leaving with
              | succ n => exact ⟨_, .leave hleaving, rfl⟩
              | zero => exact ⟨_, .disconnect hsearcher hunsent hleaving hchannel, rfl⟩

/-- An answer is what the signals that have been heard settle. -/
theorem exists_heard (h : Accounts w name candidates heard p) {a : Except NotFound Path}
    (hanswer : p.answer? name candidates = some a) :
    ∃ signals, Heard w name candidates signals ∧ settle name candidates signals = a := by
  refine ⟨heard.map .report ++ [.expired], ?_, ?_⟩
  · intro r hr
    have hmem : r ∈ heard := by simpa using hr
    obtain ⟨d, hd, rfl⟩ :=
      List.mem_map.mp (h.reports.mem_iff.mp (List.mem_append_left _ hmem))
    exact ⟨d, hd, rfl⟩
  · have htold := h.told
    cases hsearcher : p.searcher with
    | starting | listening => simp [answer?, hsearcher] at hanswer
    | answered d | gaveUp =>
        rw [hsearcher] at htold
        rw [settle, htold.1]
        simpa [answer?, hsearcher, listen] using hanswer

end Accounts

/-! ## Reports in time -/

/-- The deadline has left no report to come, and a search that has given up has left none. -/
structure Timely (p : Probing) : Prop where
  unsent : p.overdue = true → p.unsent = []
  heard : p.searcher = .gaveUp → p.unsent = [] ∧ p.channel = []

theorem Timely.step (h : Timely p) (hstep : TimelyStep w name p q) : Timely q := by
  obtain ⟨hstep, hunsent⟩ := hstep
  refine ⟨hunsent, ?_⟩
  cases hstep with
  | launch hstarting | attend hstarting => simp [hstarting]
  | send hsent => exact fun hgone ↦ by simp [(h.heard hgone).1] at hsent
  | leave => exact h.heard
  | @receive r => cases hfound : r.found <;> simp [hear, hfound]
  | disconnect _ hnone _ hempty => exact fun _ ↦ ⟨hnone, hempty⟩
  | pass hlistening => simp [hlistening]
  | expire _ hoverdue hempty => exact fun _ ↦ ⟨hunsent hoverdue, hempty⟩

theorem Run.timely {n : Nat} (h : Run (TimelyStep w name) (start candidates) n p) : Timely p := by
  induction h with
  | nil => exact ⟨fun _ ↦ rfl, fun hgone ↦ by cases hgone⟩
  | snoc _ hstep ih => exact ih.step hstep

/-- If all reports are in time, an answer is what they settle, those included that it has not
waited for. -/
theorem Accounts.exists_inTime (h : Accounts w name candidates heard p) (htimely : Timely p)
    {a : Except NotFound Path} (hanswer : p.answer? name candidates = some a) :
    ∃ signals, InTime w name candidates signals ∧ settle name candidates signals = a := by
  refine ⟨_, ⟨_, h.reports, rfl⟩, ?_⟩
  have htold := h.told
  cases hsearcher : p.searcher with
  | starting | listening => simp [answer?, hsearcher] at hanswer
  | answered d =>
      rw [hsearcher] at htold
      rw [settle, List.map_append, List.append_assoc, htold.1]
      simpa [answer?, hsearcher] using hanswer
  | gaveUp =>
      rw [hsearcher] at htold
      obtain ⟨hunsent, hchannel⟩ := htimely.heard hsearcher
      have hunstarted := h.started (by simp [hsearcher])
      rw [hunsent, hchannel, hunstarted, settle, List.map_append, List.append_assoc, htold.1]
      simpa [answer?, hsearcher, listen] using hanswer

end Probing

/-! ## The end -/

def Searcher.toGo : Searcher → Nat
  | .starting => 2
  | .listening => 1
  | .answered _ | .gaveUp => 0

namespace Probing

variable {p q : Probing}

/-- How many steps are left at most. -/
def rank (p : Probing) : Nat :=
  4 * p.unstarted.length + 3 * p.unsent.length + p.leaving + p.channel.length +
    (!p.overdue).toNat + p.searcher.toGo

theorem toGo_hear_le (r : Report) : (hear r).toGo ≤ 1 := by
  cases hfound : r.found <;> simp [hear, hfound, Searcher.toGo]

theorem Step.rank_lt (h : Step w name p q) : q.rank < p.rank := by
  cases h with
  | launch _ hunstarted => simp [rank, hunstarted]; omega
  | attend hstarting => simp [rank, hstarting, Searcher.toGo]
  | send hunsent => simp [rank, hunsent]; omega
  | leave hleaving => simp [rank, hleaving]
  | @receive r _ hlistening hchannel =>
      have hhear := toGo_hear_le r
      have hgo : p.searcher.toGo = 1 := by rw [hlistening]; rfl
      simp only [rank, hgo, hchannel, List.length_cons]
      omega
  | disconnect hlistening | expire hlistening => simp [rank, hlistening, Searcher.toGo]
  | pass _ hoverdue => simp [rank, hoverdue]

theorem Run.steps_add_rank_le {n : Nat} (h : Run (Step w name) p n q) : n + q.rank ≤ p.rank := by
  induction h with
  | nil => omega
  | snoc _ hstep ih =>
      have hlt := hstep.rank_lt
      omega

theorem rank_start (candidates : List Path) :
    (start candidates).rank = 4 * candidates.length + 3 :=
  rfl

/-! ## The deadline -/

/-- A searcher that listens depends on no probe: it takes out a report, waits for the deadline, or
gives up. -/
theorem exists_quiet (hlistening : p.searcher = .listening) : ∃ q, QuietStep w name p q := by
  cases hchannel : p.channel with
  | cons r rest => exact ⟨_, .receive hlistening hchannel, rfl, rfl⟩
  | nil =>
      cases hoverdue : p.overdue with
      | true => exact ⟨_, .expire hlistening hoverdue hchannel, rfl, rfl⟩
      | false => exact ⟨_, .pass hlistening hoverdue, rfl, rfl⟩

theorem QuietStep.started (h : QuietStep w name p q) (hp : p.searcher ≠ .starting) :
    q.searcher ≠ .starting ∧ q.unstarted = p.unstarted := by
  cases h.1 with
  | launch hstarting | attend hstarting => exact absurd hstarting hp
  | send | leave | pass => exact ⟨hp, rfl⟩
  | @receive r => cases hfound : r.found <;> simp [hear, hfound]
  | disconnect | expire => exact ⟨by simp, rfl⟩

theorem Run.quiet {n : Nat} (h : Run (QuietStep w name) p n q) (hp : p.searcher ≠ .starting) :
    q.searcher ≠ .starting ∧ q.unstarted = p.unstarted ∧ q.unsent = p.unsent ∧
      q.leaving = p.leaving := by
  induction h with
  | nil => exact ⟨hp, rfl, rfl, rfl⟩
  | snoc _ hstep ih =>
      obtain ⟨hq, hunstarted, hunsent, hleaving⟩ := ih
      obtain ⟨hr, hsame⟩ := hstep.started hq
      exact ⟨hr, hsame.trans hunstarted, hstep.2.1.trans hunsent, hstep.2.2.trans hleaving⟩

/-- While no probe moves, a searcher that listens takes what is in the channel and perhaps waits
for the deadline, and then it ends. -/
theorem Run.quiet_ends {n : Nat} (h : Run (QuietStep w name) p n q)
    (hlistening : p.searcher = .listening) :
    n ≤ p.channel.length + 1 + (!p.overdue).toNat ∧
      (q.answer? name candidates = none → ∃ r, QuietStep w name q r) := by
  obtain ⟨hstarted, hunstarted, hunsent, hleaving⟩ := h.quiet (by simp [hlistening])
  constructor
  · have hsteps := (h.mono fun _ _ hstep ↦ hstep.1).steps_add_rank_le
    have hgo : p.searcher.toGo = 1 := by rw [hlistening]; rfl
    simp only [rank, hunstarted, hunsent, hleaving, hgo] at hsteps
    omega
  · intro hanswer
    cases hsearcher : q.searcher with
    | starting => exact absurd hsearcher hstarted
    | listening => exact exists_quiet hsearcher
    | answered | gaveUp => simp [answer?, hsearcher] at hanswer

/-! ## Every order in which reports can come -/

theorem exists_run_cons {m : Nat} {r : Probing} (hstep : Step w name p q) (h : q.overdue = false)
    (hrest : Run (TimelyStep w name) q m r) : ∃ n, Run (TimelyStep w name) p n r :=
  ⟨m + 1, hrest.cons ⟨hstep, fun hoverdue ↦ by simp [h] at hoverdue⟩⟩

section

variable (w : World) (name : String) (k : Nat)

theorem exists_run_launch (ds : List Path) (unsent : List Report) :
    ∃ n, Run (TimelyStep w name) ⟨ds, unsent, 0, [], k, false, .starting, 0⟩ n
      ⟨[], unsent ++ ds.map (probe w (effectiveName name)), 0, [], k, false, .starting, 0⟩ := by
  induction ds generalizing unsent with
  | nil => exact ⟨0, by simpa using .nil⟩
  | cons d rest ih =>
      obtain ⟨n, hrest⟩ := ih (unsent ++ [probe w (effectiveName name) d])
      rw [List.append_assoc] at hrest
      exact exists_run_cons (.launch rfl rfl) rfl hrest

/-- Reports can be sent in every order. -/
theorem exists_run_send {rs unsent : List Report} (hperm : rs.Perm unsent) (leaving : Nat)
    {channel : List Report} (hroom : channel.length + rs.length ≤ k) :
    ∃ n, Run (TimelyStep w name) ⟨[], unsent, leaving, channel, k, false, .listening, 0⟩ n
      ⟨[], [], leaving + rs.length, channel ++ rs, k, false, .listening, 0⟩ := by
  induction rs generalizing unsent channel leaving with
  | nil =>
      obtain rfl := hperm.nil_eq
      exact ⟨0, by simpa using .nil⟩
  | cons r rs ih =>
      obtain ⟨before, after, rfl⟩ := List.append_of_mem (hperm.mem_iff.mp List.mem_cons_self)
      have hothers : rs.Perm (before ++ after) := (hperm.trans List.perm_middle).cons_inv
      rw [List.length_cons] at hroom
      have hstill : (channel ++ [r]).length + rs.length ≤ k := by
        rw [List.length_append, List.length_singleton]
        omega
      obtain ⟨n, hrest⟩ := ih hothers (leaving + 1) hstill
      rw [List.append_assoc, Nat.add_assoc, Nat.add_comm 1] at hrest
      exact exists_run_cons (.send rfl (show channel.length < k by omega)) rfl hrest

theorem exists_run_leave (channel : List Report) (leaving : Nat) :
    ∃ n, Run (TimelyStep w name) ⟨[], [], leaving, channel, k, false, .listening, 0⟩ n
      ⟨[], [], 0, channel, k, false, .listening, 0⟩ := by
  induction leaving with
  | zero => exact ⟨0, .nil⟩
  | succ leaving ih =>
      obtain ⟨n, hrest⟩ := ih
      exact exists_run_cons (.leave rfl) rfl hrest

/-- The searcher hears what has been sent, until that settles the search. -/
theorem exists_run_hear (candidates : List Path) (rs : List Report) (receives : Nat) :
    ∃ q, (∃ n, Run (TimelyStep w name) ⟨[], [], 0, rs, k, false, .listening, receives⟩ n q) ∧
      q.answer? name candidates = some (settle name candidates (rs.map .report ++ [.done])) := by
  induction rs generalizing receives with
  | nil => exact ⟨_, exists_run_cons (.disconnect rfl rfl rfl rfl) rfl .nil, rfl⟩
  | cons r rs ih =>
      cases hfound : r.found with
      | true =>
          refine ⟨_, exists_run_cons (.receive rfl rfl) rfl .nil, ?_⟩
          simp [answer?, hear, settle, listen, hfound]
      | false =>
          have hhear : hear r = .listening := by simp [hear, hfound]
          obtain ⟨q, ⟨n, hrest⟩, hanswer⟩ := ih (receives + 1)
          rw [← hhear] at hrest
          refine ⟨q, exists_run_cons (.receive rfl rfl) rfl hrest, ?_⟩
          simpa [settle, listen, hfound] using hanswer

end

/-- Whatever order all reports come in, a search can answer what they settle in this order. -/
theorem exists_run_of_inTime {signals : List Signal} (h : InTime w name candidates signals) :
    ∃ n p, Run (TimelyStep w name) (start candidates) n p ∧
      p.answer? name candidates = some (settle name candidates signals) := by
  obtain ⟨rs, hperm, rfl⟩ := h
  let k := candidates.length
  have hroom : ([] : List Report).length + rs.length ≤ k := by simp [k, hperm.length_eq]
  obtain ⟨_, hlaunch⟩ := exists_run_launch w name k candidates []
  obtain ⟨_, hsend⟩ := exists_run_send w name k hperm 0 hroom
  obtain ⟨_, hleave⟩ := exists_run_leave w name k rs (0 + rs.length)
  obtain ⟨p, ⟨_, hhear⟩, hanswer⟩ := exists_run_hear w name k candidates rs 0
  obtain ⟨_, hattend⟩ := exists_run_cons (@Step.attend w name ⟨[], _, 0, [], k, _, _, 0⟩ rfl rfl)
    rfl (hsend.trans (hleave.trans hhear))
  exact ⟨_, p, hlaunch.trans hattend, hanswer⟩

/-- However the searcher, the probes and the deadline take turns, no probe ever waits for room in
the channel. A search ends: it takes so many steps at most, listens at most once more than there are
candidates, and as long as it has no answer it can go on without the deadline. Once it listens it
can also go on without the probes: if none of them moves, then it takes the reports that are in the
channel and gives up when the deadline has passed. It answers with a candidate that holds the file,
or with the name and all the candidates that it has searched in vain. If all reports are in time, it
fails exactly if no candidate holds the file, and finds the one that does if there is no other. -/
theorem run_probing {n : Nat} {p : Probing} (h : Run (Step w name) (start candidates) n p) :
    (p.unsent ≠ [] → p.HasRoom) ∧
      n ≤ 4 * candidates.length + 3 ∧
      p.receives ≤ candidates.length + 1 ∧
      (p.answer? name candidates = none → ∃ q, Step w name p q ∧ q.overdue = p.overdue) ∧
      (p.searcher = .listening → ∀ m q, Run (QuietStep w name) p m q →
        m ≤ p.channel.length + 1 + (!p.overdue).toNat ∧
          (q.answer? name candidates = none → ∃ r, QuietStep w name q r)) ∧
      (∀ d, p.answer? name candidates = some (.ok d) →
        d ∈ candidates ∧ w.holds (target name d) = true) ∧
      (∀ why, p.answer? name candidates = some (.error why) →
        why = ⟨effectiveName name, candidates⟩) ∧
      ∀ m, Run (TimelyStep w name) (start candidates) m p →
        ∀ a, p.answer? name candidates = some a →
          ((∃ why, a = .error why) ↔ ∀ d ∈ candidates, w.holds (target name d) = false) ∧
            (Unambiguous w name candidates →
              ∀ d ∈ candidates, w.holds (target name d) = true → a = .ok d) := by
  obtain ⟨heard, haccounts⟩ := h.accounts
  refine ⟨haccounts.hasRoom, ?_, haccounts.receives_le, haccounts.exists_step,
    fun hlistening _ _ hquiet ↦ hquiet.quiet_ends hlistening, ?_, ?_, ?_⟩
  · have hsteps := h.steps_add_rank_le
    rw [rank_start] at hsteps
    omega
  · intro d hanswer
    obtain ⟨signals, hheard, hsettle⟩ := haccounts.exists_heard hanswer
    exact hheard.of_settle hsettle
  · intro why hanswer
    obtain ⟨signals, -, hsettle⟩ := haccounts.exists_heard hanswer
    exact (error_of_settle hsettle).1
  · intro m htimely a hanswer
    obtain ⟨signals, hintime, rfl⟩ := haccounts.exists_inTime htimely.timely hanswer
    exact ⟨hintime.settle_eq_error_iff,
      fun hone d hd hholds ↦ (hintime.settle_eq_ok_iff hone d).mpr ⟨hd, hholds⟩⟩

/-- Why nothing can be read of a path where one file may not be looked at and one directory is
none. -/
def refusal (p : Path) : ReadFault :=
  if p = "/p/compile_commands.json" then .accessDenied
  else if p = "/f/compile_commands.json" then .notDirectory
  else .notFound

def lockedAway : World where
  currentDir := some "/w"
  status p := .error (refusal p)
  source p := .error (refusal p)
  input := []

/-- The directory that holds the file is given twice and the reports come last to first; and no
probe has reported yet when the deadline passes. -/
theorem run_probing_givenTwice :
    let candidates := ["/p", "/q", "/p", "/f"]
    (∃ n p, Run (Step lockedAway "") (start candidates) n p ∧
      Run (TimelyStep lockedAway "") (start candidates) n p ∧
      n ≤ 19 ∧ p.receives ≤ 5 ∧ p.answer? "" candidates = some (.ok "/p")) ∧
    ∃ n p, Run (Step lockedAway "") (start candidates) n p ∧ p.overdue = true ∧
      p.unsent.length = 4 ∧ ∃ q a, Run (QuietStep lockedAway "") p 1 q ∧
        q.answer? "" candidates = some a := by
  intro candidates
  constructor
  · have hintime : InTime lockedAway "" candidates
        ((candidates.map (probe lockedAway (effectiveName ""))).reverse.map .report ++ [.done]) :=
      ⟨_, List.reverse_perm _, rfl⟩
    have hone : Unambiguous lockedAway "" candidates := by
      unfold Unambiguous
      decide +kernel
    obtain ⟨n, p, htimely, hanswer⟩ := exists_run_of_inTime hintime
    have hrun : Run (Step lockedAway "") (start candidates) n p :=
      htimely.mono fun _ _ hstep ↦ hstep.1
    obtain ⟨-, hsteps, hreceives, -, -, -, -, hfinds⟩ := run_probing hrun
    have hfound := (hfinds n htimely _ hanswer).2 hone "/p" List.mem_cons_self (by decide +kernel)
    exact ⟨n, p, hrun, htimely, hsteps, hreceives, hanswer.trans (congrArg some hfound)⟩
  · obtain ⟨_, hlaunch⟩ := exists_run_launch lockedAway "" 4 candidates []
    have hlaunched := hlaunch.mono fun _ _ hstep ↦ hstep.1
    have hrun := (hlaunched.snoc (.attend rfl rfl)).snoc (.pass rfl rfl)
    refine ⟨_, _, hrun, rfl, rfl, ?_⟩
    obtain ⟨-, -, -, -, hquiet, -⟩ := run_probing hrun
    obtain ⟨q, hgone⟩ := (hquiet rfl _ _ .nil).2 rfl
    have hend := hquiet rfl _ _ (Run.nil.snoc hgone)
    cases hanswer : q.answer? "" candidates with
    | some a => exact ⟨q, a, .snoc .nil hgone, hanswer⟩
    | none =>
        -- A second step would be one more than there is time for.
        obtain ⟨r, hmore⟩ := hend.2 hanswer
        have hlong := (hquiet rfl _ _ ((Run.nil.snoc hgone).snoc hmore)).1
        exact absurd hlong (by decide)

end Probing

end CompileFlags.Search
