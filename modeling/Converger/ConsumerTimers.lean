import Converger.GuardedRuns
import Mathlib.Data.List.Chain

/-!
# The reconcile timers of the consumer manager

The messages in the mailbox are handled in any order.
-/
namespace Converger.ConsumerTimers
open GuardedRuns List Option

structure Config where
  interval : ℕ := 30000
  initialDelay : ℕ := 1000

inductive Entry where
  | reconciled (now : ℕ)
  | nodeChanged (now : ℕ)

/-- The armed timers with the times they are due at, and how many messages of fired ones wait in the
mailbox; `log` has the last entry first. -/
structure State where
  now : ℕ := 0
  timer : Option ℕ := none
  armed : List (ℕ × ℕ)
  waiting : ℕ := 0
  next : ℕ := 1
  log : List Entry := []

/-- `@node_change_delay_ms`. -/
def nodeChangeDelay : ℕ := 2000

def init (cfg : Config) : State := {armed := [(0, cfg.initialDelay)]}

def sendAfter (s : State) (delay : ℕ) : State :=
  {s with timer := some s.next, armed := s.armed ++ [(s.next, s.now + delay)], next := s.next + 1}

/-- The message of a timer that has fired stays. -/
def cancelTimer (s : State) : State := {s with armed := s.armed.filter (some ·.1 ≠ s.timer)}

inductive Event where
  | tick
  | fire (ref : ℕ)
  | reconcile
  | nodeChange
  | call

def step (cfg : Config) (s : State) : Event → Option State
  | .tick => some {s with now := s.now + 1}
  | .fire ref =>
    if s.armed.any fun timer => timer.1 = ref && timer.2 ≤ s.now then
      some {s with armed := s.armed.filter (·.1 ≠ ref), waiting := s.waiting + 1}
    else none
  | .reconcile =>
    if 0 < s.waiting then
      some {sendAfter s cfg.interval with
        waiting := s.waiting - 1, log := .reconciled s.now :: s.log}
    else none
  | .nodeChange =>
    some { sendAfter (cancelTimer s) nodeChangeDelay with log := .nodeChanged s.now :: s.log }
  | .call => some s

/-- When the timer armed with the last entry is due. -/
def due (cfg : Config) : List Entry → ℕ
  | [] => cfg.initialDelay
  | .reconciled now :: _ => now + cfg.interval
  | .nodeChanged now :: _ => now + nodeChangeDelay

/-- A node event comes while the timer that the manager remembers is armed. -/
def replaces (s : State) : Event → Bool
  | .nodeChange => s.armed.any (some ·.1 = s.timer)
  | _ => true

/-- Without a node event between them, two reconciliations are an interval apart. -/
def Spaced (cfg : Config) : List Entry → Prop :=
  IsChain fun last before => ∀ now earlier, last = .reconciled now → before = .reconciled earlier →
    earlier + cfg.interval ≤ now

structure Inv (cfg : Config) (s : State) : Prop where
  single : s.waiting = 0 ∧ (∃ ref, s.armed = [(ref, due cfg s.log)]) ∨
    s.waiting = 1 ∧ s.armed = [] ∧ due cfg s.log ≤ s.now
  spaced : Spaced cfg s.log

variable {cfg : Config} {s t : State} {e : Event}

theorem Spaced.reconciled (h : Spaced cfg s.log) (hdue : due cfg s.log ≤ s.now) :
    Spaced cfg (.reconciled s.now :: s.log) := by
  cases hlog : s.log with
  | nil => exact .singleton _
  | cons before rest =>
    rw [hlog] at h hdue
    refine isChain_cons_cons.mpr ⟨?_, h⟩
    rintro now earlier ⟨⟩ rfl
    exact hdue

theorem Inv.step (h : Inv cfg s) (hr : replaces s e = true) (hstep : step cfg s e = some t) :
    Inv cfg t := by
  cases e with
  | tick =>
    cases hstep
    exact ⟨h.single.imp_right fun hs => ⟨hs.1, hs.2.1, Nat.le_succ_of_le hs.2.2⟩, h.spaced⟩
  | fire ref =>
    obtain ⟨hany, rfl⟩ := ite_some_none_eq_some.mp hstep
    obtain ⟨hwaiting, ref', harmed⟩ | ⟨-, harmed, -⟩ := h.single
    · obtain ⟨rfl, hdue⟩ : ref' = ref ∧ due cfg s.log ≤ s.now := by simpa [harmed] using hany
      exact ⟨.inr ⟨by simp [hwaiting], by simp [harmed], hdue⟩, h.spaced⟩
    · simp [harmed] at hany
  | reconcile =>
    obtain ⟨hpos, rfl⟩ := ite_some_none_eq_some.mp hstep
    obtain ⟨hwaiting, -⟩ | ⟨hwaiting, harmed, hdue⟩ := h.single
    · omega
    · exact ⟨.inl ⟨by simp [hwaiting], s.next, by simp [sendAfter, harmed, due]⟩,
        h.spaced.reconciled hdue⟩
  | nodeChange =>
    cases hstep
    obtain ⟨hwaiting, ref, harmed⟩ | ⟨-, harmed, -⟩ := h.single
    · have htimer : some ref = s.timer := by simpa [replaces, harmed] using hr
      refine ⟨.inl ⟨hwaiting, s.next, ?_⟩, isChain_cons.mpr ⟨fun _ _ _ _ => nofun, h.spaced⟩⟩
      simp [sendAfter, cancelTimer, harmed, htimer, due]
    · simp [replaces, harmed] at hr
  | call =>
    cases hstep
    exact h

/-- Where each node event replaces the armed timer, there is one timer or message at a time, due
when the last entry says, and reconciliations with no node event between them are an interval
apart. -/
theorem one_reconcile_loop {es : List Event} (h : run (step cfg) (init cfg) es = some s)
    (hr : Along (step cfg) (fun s e => replaces s e = true) (init cfg) es) :
    s.armed.length + s.waiting = 1 ∧ (∀ timer ∈ s.armed, timer.2 = due cfg s.log) ∧ Spaced cfg s.log := by
  have hinit : Inv cfg (init cfg) := ⟨.inl ⟨rfl, 0, rfl⟩, .nil⟩
  obtain ⟨hsingle, hspaced⟩ := run_invariant_along Inv.step hinit hr h
  obtain ⟨hwaiting, ref, harmed⟩ | ⟨hwaiting, harmed, -⟩ := hsingle
  · exact ⟨by simp [hwaiting, harmed], by simp [harmed], hspaced⟩
  · exact ⟨by simp [hwaiting, harmed], by simp [harmed], hspaced⟩

theorem one_reconcile_loop_replaced : ∃ s,
    run (step ⟨3, 1⟩) (init ⟨3, 1⟩) [.tick, .fire 0, .reconcile, .nodeChange] = some s ∧
    s.armed.length + s.waiting = 1 ∧ (∀ timer ∈ s.armed, timer.2 = due ⟨3, 1⟩ s.log) ∧ Spaced ⟨3, 1⟩ s.log :=
  ⟨_, rfl, @one_reconcile_loop _ _ [.tick, .fire 0, .reconcile, .nodeChange] rfl (by decide +kernel)⟩

/-- The first timer is not remembered, so a node event before it fires arms a second one. -/
theorem node_event_adds_loop : ∃ s, run (step {}) (init {}) [.nodeChange] = some s ∧
    s.armed = [(0, 1000), (1, 2000)] := ⟨_, rfl, rfl⟩

end Converger.ConsumerTimers
