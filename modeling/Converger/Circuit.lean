import Converger.GuardedRuns
import Mathlib.Data.Int.Notation

/-!
# The delivery circuit breaker

`Converger.Channels.Circuit`: the breaker is three columns of the channel row, and every
transition is one conditional `UPDATE`. A delivery reads the row once, is admitted on what it
read, calls the adapter, and then records the result in one or two statements of its own. In
between, other deliveries, the health check and operators move the breaker, so every statement
is one step. The Oban worker asks for admission; the Broadway and Inline backends do not, but
record their results in the same way.
-/
namespace Converger.Circuit

inductive CircuitState where
  | closed | opened | halfOpen | paused
  deriving DecidableEq, Repr

structure Config where
  failureThreshold : ℕ := 5
  cooldownMs : ℕ := 30000
  parkSeconds : ℕ := 600

structure Channel where
  circuitState : CircuitState := .closed
  circuitChangedAt : Option ℤ := none
  consecutiveFailures : ℕ := 0
  deriving DecidableEq, Repr

def breakerStates : List CircuitState := [.opened, .halfOpen]

def Channel.cooledDown (cfg : Config) (now : ℤ) (c : Channel) : Bool :=
  match c.circuitChangedAt with
  | none => true
  | some changedAt => changedAt ≤ now - cfg.cooldownMs * 1000

/-- The update of `claim_probe/1`; `none` where it matches no row. -/
def claimProbe (cfg : Config) (now : ℤ) (c : Channel) : Option Channel :=
  if c.circuitState ∈ breakerStates ∧ c.cooledDown cfg now then
    some {c with circuitState := .halfOpen, circuitChangedAt := some now}
  else none

/-- The update of `transition/4`; `none` where it matches no row. -/
def transition (sources : List CircuitState) (target : CircuitState) (now : ℤ) (c : Channel) :
    Option Channel :=
  if c.circuitState ∈ sources then
    some {
      circuitState := target
      circuitChangedAt := some now
      consecutiveFailures := if target = .closed then 0 else c.consecutiveFailures}
  else none

section Rows
variable {cfg : Config} {now : ℤ} {c c' : Channel}

theorem claimProbe_eq_some :
    claimProbe cfg now c = some c' ↔
      (c.circuitState ∈ breakerStates ∧ c.cooledDown cfg now = true) ∧
        {c with circuitState := .halfOpen, circuitChangedAt := some now} = c' :=
  Option.ite_none_right_eq_some.trans (and_congr_right fun _ => by simp)

theorem transition_eq_some {sources : List CircuitState} {target : CircuitState} :
    transition sources target now c = some c' ↔ c.circuitState ∈ sources ∧
      { circuitState := target
        circuitChangedAt := some now
        consecutiveFailures := if target = .closed then 0 else c.consecutiveFailures} = c' :=
  Option.ite_none_right_eq_some.trans (and_congr_right fun _ => by simp)

end Rows

inductive Parking where
  | opened | paused
  deriving DecidableEq, Repr

inductive Admission where
  | ok
  | park (reason : Parking)
  | snooze (seconds : ℕ)
  deriving DecidableEq, Repr

/-- What an adapter call comes to, after `normalize_error/1`. -/
inductive AdapterResult where
  | ok | pending
  | error (retryable : Bool)
  deriving DecidableEq, Repr

inductive Reason where
  | probeSucceeded | probeFailed | failures | manual | unhealthy
  deriving DecidableEq, Repr

/-- How far a delivery is, up to the statement of `record/2` it executes next. -/
inductive Phase where
  | loaded | attempting
  | closing | resetting
  | counting | reopening | opening
  | finished
  deriving DecidableEq, Repr

structure Delivery where
  seen : CircuitState
  phase : Phase := .loaded
  result : Option AdapterResult := none
  deriving DecidableEq, Repr

/-- What happened to the row. A `moved` entry names the delivery whose result moved the
breaker, or none for the health check and operators. -/
inductive Entry where
  | claimed (delivery : ℕ)
  | success (delivery : ℕ)
  | failure (delivery : ℕ)
  | moved (source target : CircuitState) (reason : Reason) (delivery : Option ℕ)
  deriving DecidableEq, Repr

/-- The row, the deliveries in the order they were started, and the history, last entry
first. -/
structure State where
  channel : Channel := {}
  deliveries : List Delivery := []
  log : List Entry := []
  deriving DecidableEq, Repr

namespace State

def setPhase (s : State) (i : ℕ) (d : Delivery) (phase : Phase) : State :=
  {s with deliveries := s.deliveries.set i {d with phase := phase}}

/-- `transition/4`, logged where it moved the breaker. -/
def move (s : State) (sources : List CircuitState) (target : CircuitState) (reason : Reason)
    (delivery : Option ℕ) (now : ℤ) : State :=
  match transition sources target now s.channel with
  | some c =>
    {s with
      channel := c
      log := .moved s.channel.circuitState target reason delivery :: s.log}
  | none => s

end State

/-- `admit/1` on the channel the delivery loaded; the row is touched by a claim only.
`limited` is the answer of the rate limit. -/
def admitChannel (cfg : Config) (now : ℤ) (limited : Option ℕ) (seen : CircuitState) (c : Channel) :
    Admission × Option Channel :=
  match seen with
  | .paused => (.park .paused, none)
  | .opened | .halfOpen =>
    match claimProbe cfg now c with
    | some claimed => (.ok, some claimed)
    | none => (.park .opened, none)
  | .closed =>
    match limited with
    | none => (.ok, none)
    | some seconds => (.snooze seconds, none)

/-- A delivery is admitted with a claim where it has seen an outage, and without one only where it
has seen the breaker closed. -/
theorem admitChannel_ok {cfg : Config} {now : ℤ} {limited : Option ℕ} {seen : CircuitState} {c : Channel}
    {claimed : Option Channel} (h : admitChannel cfg now limited seen c = (.ok, claimed)) :
    claimed = none ∧ seen = .closed ∨
      ∃ c', claimed = some c' ∧ seen ∈ breakerStates ∧ claimProbe cfg now c = some c' := by
  cases seen with
  | closed =>
    cases limited with
    | none => exact .inl ⟨(Prod.mk.inj h).2.symm, rfl⟩
    | some seconds => cases (Prod.mk.inj h).1
  | paused => cases (Prod.mk.inj h).1
  | opened | halfOpen =>
    simp only [admitChannel] at h
    cases hclaim : claimProbe cfg now c with
    | none => simp [hclaim] at h
    | some c' =>
      simp only [hclaim] at h
      exact .inr ⟨c', (Prod.mk.inj h).2.symm, by decide, rfl⟩

/-- The first statement of `record/2`. -/
def recordPhase (seen : CircuitState) : AdapterResult → Phase
  | .ok | .pending => if seen ∈ breakerStates then .closing else .resetting
  | .error true => .counting
  | .error false => .finished

/-- What `record_failure/1` goes on with, from the row its counter statement returned. -/
def afterCount (cfg : Config) (c : Channel) : Phase :=
  match c.circuitState with
  | .halfOpen => .reopening
  | .closed => if cfg.failureThreshold ≤ c.consecutiveFailures then .opening else .finished
  | .opened | .paused => .finished

/-- The next statement of `record/2`. -/
def record (cfg : Config) (s : State) (i : ℕ) (d : Delivery) (now : ℤ) : Option State :=
  match d.phase with
  | .closing =>
    some ((s.setPhase i d .resetting).move breakerStates .closed .probeSucceeded (some i) now)
  | .resetting =>
    some {s.setPhase i d .finished with
      channel := {s.channel with consecutiveFailures := 0}
      log := .success i :: s.log}
  | .counting =>
    let c := {s.channel with consecutiveFailures := s.channel.consecutiveFailures + 1}
    some {s.setPhase i d (afterCount cfg c) with channel := c, log := .failure i :: s.log}
  | .reopening =>
    some ((s.setPhase i d .finished).move [.halfOpen] .opened .probeFailed (some i) now)
  | .opening =>
    some ((s.setPhase i d .finished).move [.closed] .opened .failures (some i) now)
  | .loaded | .attempting | .finished => none

inductive Event where
  | load
  | admission (i : ℕ) (now : ℤ) (limited : Option ℕ)
  | attempt (i : ℕ)
  | result (i : ℕ) (r : AdapterResult)
  | statement (i : ℕ) (now : ℤ)
  | abandon (i : ℕ)
  | trip (now : ℤ)
  | pause (now : ℤ)
  | resume (now : ℤ)
  deriving DecidableEq, Repr

def step (cfg : Config) (s : State) : Event → Option State
  | .load => some {s with deliveries := s.deliveries ++ [{seen := s.channel.circuitState}]}
  | .admission i now limited => s.deliveries[i]?.bind fun d =>
    if d.phase = .loaded then
      match admitChannel cfg now limited d.seen s.channel with
      | (.ok, some claimed) =>
        some {s.setPhase i d .attempting with channel := claimed, log := .claimed i :: s.log}
      | (.ok, none) => some (s.setPhase i d .attempting)
      | (_, _) => some (s.setPhase i d .finished)
    else none
  -- Broadway and Inline deliver what they have loaded.
  | .attempt i => s.deliveries[i]?.bind fun d =>
    if d.phase = .loaded then some (s.setPhase i d .attempting) else none
  | .result i r => s.deliveries[i]?.bind fun d =>
    if d.phase = .attempting then
      some (s.setPhase i {d with result := some r} (recordPhase d.seen r))
    else none
  | .statement i now => s.deliveries[i]?.bind fun d => record cfg s i d now
  -- Halted, opted out, already sent, or killed: nothing more is recorded.
  | .abandon i => s.deliveries[i]?.bind fun d =>
    if d.phase = .finished then none else some (s.setPhase i d .finished)
  | .trip now => some (s.move [.closed] .opened .unhealthy none now)
  | .pause now => some (s.move [.closed, .opened, .halfOpen] .paused .manual none now)
  | .resume now => some (s.move [.paused, .opened, .halfOpen] .closed .manual none now)

end Converger.Circuit
