import CompileFlags.Search

/-!
# Probes, a channel and a deadline

The search as it runs: the searcher starts a probe for every candidate and then listens. Every probe
sends one report into a channel that holds as many reports as there are candidates, in any order,
and then lets go of the channel. The searcher takes reports out until one of them is a hit, all
probes are gone, or the deadline has passed.
-/

namespace CompileFlags.Search

inductive Searcher where
  /-- Probes are being started. -/
  | starting
  | listening
  | answered (directory : Path)
  | gaveUp
  deriving DecidableEq, Repr

structure Probing where
  /-- Candidates whose probes have not been started. -/
  unstarted : List Path
  /-- Reports of probes that have not sent yet. -/
  unsent : List Report
  /-- How many probes have sent and still hold the channel. -/
  leaving : Nat
  /-- Reports in the channel, oldest first. -/
  channel : List Report
  /-- How many reports the channel holds. -/
  capacity : Nat
  /-- Has the deadline passed? -/
  overdue : Bool
  searcher : Searcher
  /-- How often the searcher has listened. -/
  receives : Nat
  deriving DecidableEq, Repr

namespace Probing

def start (candidates : List Path) : Probing where
  unstarted := candidates
  unsent := []
  leaving := 0
  channel := []
  capacity := candidates.length
  overdue := false
  searcher := .starting
  receives := 0

/-- Can a probe send without waiting? -/
def HasRoom (p : Probing) : Prop :=
  p.channel.length < p.capacity

def hear (r : Report) : Searcher :=
  if r.found then .answered r.directory else .listening

inductive Step (w : World) (name : String) : Probing → Probing → Prop
  | launch {p : Probing} {d : Path} {rest : List Path} :
      p.searcher = .starting → p.unstarted = d :: rest →
      Step w name p
        { p with unstarted := rest, unsent := p.unsent ++ [probe w (effectiveName name) d] }
  | attend {p : Probing} : p.searcher = .starting → p.unstarted = [] →
      Step w name p { p with searcher := .listening }
  /-- A probe sends its report; the searcher may be gone. -/
  | send {p : Probing} {before after : List Report} {r : Report} :
      p.unsent = before ++ r :: after → p.HasRoom →
      Step w name p
        { p with unsent := before ++ after, leaving := p.leaving + 1, channel := p.channel ++ [r] }
  | leave {p : Probing} {n : Nat} : p.leaving = n + 1 → Step w name p { p with leaving := n }
  | receive {p : Probing} {r : Report} {rest : List Report} :
      p.searcher = .listening → p.channel = r :: rest →
      Step w name p { p with channel := rest, searcher := hear r, receives := p.receives + 1 }
  /-- All probes are gone and the channel is empty. -/
  | disconnect {p : Probing} :
      p.searcher = .listening → p.unsent = [] → p.leaving = 0 → p.channel = [] →
      Step w name p { p with searcher := .gaveUp, receives := p.receives + 1 }
  /-- The deadline passes, at any time while the searcher listens. -/
  | pass {p : Probing} : p.searcher = .listening → p.overdue = false →
      Step w name p { p with overdue := true }
  /-- The searcher finds no report and the deadline behind it. -/
  | expire {p : Probing} : p.searcher = .listening → p.overdue = true → p.channel = [] →
      Step w name p { p with searcher := .gaveUp, receives := p.receives + 1 }

/-- A step that does not leave a report to come when the deadline has passed. -/
def TimelyStep (w : World) (name : String) (p q : Probing) : Prop :=
  Step w name p q ∧ (q.overdue = true → q.unsent = [])

/-- A step of the searcher or of the clock: no probe moves. -/
def QuietStep (w : World) (name : String) (p q : Probing) : Prop :=
  Step w name p q ∧ q.unsent = p.unsent ∧ q.leaving = p.leaving

/-- A run of so many steps. -/
inductive Run (step : Probing → Probing → Prop) (p : Probing) : Nat → Probing → Prop
  | nil : Run step p 0 p
  | snoc {n : Nat} {q r : Probing} : Run step p n q → step q r → Run step p (n + 1) r

/-- The answer of a search that has ended. -/
def answer? (name : String) (candidates : List Path) (p : Probing) :
    Option (Except NotFound Path) :=
  match p.searcher with
  | .starting | .listening => none
  | .answered d => some (.ok d)
  | .gaveUp => some (.error ⟨effectiveName name, candidates⟩)

end Probing

end CompileFlags.Search
