import Converger.GuardedRuns
import Mathlib.Data.List.Chain

/-!
# The reconnects of the .NET agent

`LoopAsync` over the outcomes of `ConnectOnceAsync`; no close reason has a `retryAfterMs`.
-/
namespace Converger.AgentReconnects
open GuardedRuns List

structure Outcome where
  code : ℕ
  welcomed : Bool

/-- `immediate` says that the next attempt follows without a delay. -/
structure Attempt extends Outcome where
  immediate : Bool

/-- `waiting attempt` lasts for `Backoff(attempt)`. -/
inductive Phase where
  | connecting
  | waiting (attempt : ℕ)
  | returned
  | closed (code : ℕ)
  deriving DecidableEq

/-- `attempts` has the last one first. -/
structure State where
  attempt : ℕ := 0
  authRetried : Bool := false
  phase : Phase := .connecting
  attempts : List Attempt := []

def forGood (code : ℕ) : Bool := code == 1008 || code == 4400 || code == 4401 || code == 4403

def handle (s : State) (o : Outcome) : State :=
  let attempt := if o.welcomed then 0 else s.attempt
  if o.code == 4401 && !s.authRetried then
    {s with attempt, authRetried := true, attempts := ⟨o, true⟩ :: s.attempts}
  else if forGood o.code then
    {s with attempt, phase := .closed o.code, attempts := ⟨o, false⟩ :: s.attempts}
  else
    {attempt := attempt + 1, authRetried := if o.welcomed then false else s.authRetried,
      phase := .waiting (attempt + 1), attempts := ⟨o, false⟩ :: s.attempts}

/-- `cancelled` is the token of `RunAsync`, seen after a connection or in a delay. -/
inductive Event where
  | outcome (o : Outcome)
  | delayed
  | cancelled

def step (s : State) (e : Event) : Option State :=
  match s.phase, e with
  | .connecting, .outcome o => some (handle s o)
  | .waiting _, .delayed => some {s with phase := .connecting}
  | .connecting, .cancelled | .waiting _, .cancelled => some {s with phase := .returned}
  | _, _ => none

variable {s t : State} {e : Event}

theorem step_cases (h : step s e = some t) :
    (∃ o, e = .outcome o ∧ s.phase = .connecting ∧ t = handle s o) ∨
      ∃ phase, t = {s with phase} ∧ ∀ code, s.phase ≠ .closed code ∧ phase ≠ .closed code := by
  revert h
  fun_cases step s e with
  | case1 o hphase =>
    rintro ⟨⟩
    exact .inl ⟨o, rfl, hphase, rfl⟩
  | case2 _ hphase | case3 hphase | case4 _ hphase =>
    rintro ⟨⟩
    exact .inr ⟨_, rfl, fun code => ⟨by simp [hphase], nofun⟩⟩
  | case5 => nofun

/-- A retry without a delay spends the only one. -/
structure Retried (s : State) : Prop where
  spent : ∀ a ∈ s.attempts.head?, a.immediate = true → s.authRetried = true
  apart : s.attempts.IsChain fun next a => ¬(a.immediate = true ∧ next.immediate = true)

theorem Retried.push {a : Attempt} (h : Retried s) (ht : t.attempts = a :: s.attempts)
    (ha : a.immediate = true → s.authRetried = false ∧ t.authRetried = true) : Retried t := by
  refine ⟨?_, ?_⟩ <;> rw [ht]
  · rintro b ⟨⟩ himmediate
    exact (ha himmediate).2
  · refine isChain_cons.mpr ⟨fun b hb => ?_, h.apart⟩
    rintro ⟨hbefore, hnext⟩
    exact absurd (h.spent b hb hbefore) (by simp [(ha hnext).1])

theorem Retried.keeps (h : Retried s) (hstep : step s e = some t) : Retried t := by
  obtain ⟨o, -, -, rfl⟩ | ⟨phase, rfl, -⟩ := step_cases hstep
  · fun_cases handle s o with
    | case1 _ hretry =>
      have hfirst : s.authRetried = false := by simpa using (Bool.and_eq_true_iff.mp hretry).2
      exact h.push rfl fun _ => ⟨hfirst, rfl⟩
    | case2 | case3 => exact h.push rfl nofun
  · exact {h with}

/-- While the retry is spent, an attempt that was welcomed does not end with 4401, and one that
was not is closed for good. -/
def separate (s : State) : Event → Bool
  | .outcome o => !s.authRetried || if o.welcomed then o.code ≠ 4401 else forGood o.code
  | _ => true

/-- The last two attempts were closed with 4401, the last of them before its welcome. -/
def Refused (attempts : List Attempt) : Prop :=
  ∃ last before earlier, attempts = last :: before :: earlier ∧ last.code = 4401 ∧ last.welcomed = false ∧
    before.code = 4401

structure Renewed (s : State) : Prop where
  retried : s.authRetried = true → (∀ code, s.phase ≠ .closed code) →
    ∃ a earlier, s.attempts = a :: earlier ∧ a.code = 4401
  closed : s.phase = .closed 4401 → Refused s.attempts

theorem Renewed.keeps (h : Renewed s) (he : separate s e = true)
    (hstep : step s e = some t) : Renewed t := by
  obtain ⟨o, rfl, hphase, rfl⟩ | ⟨phase, rfl, hphase⟩ := step_cases hstep
  · have hopen : ∀ code, s.phase ≠ .closed code := by simp [hphase]
    fun_cases handle s o with
    | case1 _ hretry =>
      have hcode : o.code = 4401 := by simpa using (Bool.and_eq_true_iff.mp hretry).1
      exact ⟨fun _ _ => ⟨_, _, rfl, hcode⟩, fun hclosed => absurd hclosed (hopen 4401)⟩
    | case2 _ hretry =>
      refine ⟨fun _ hclosed => absurd rfl (hclosed _), fun hclosed => ?_⟩
      have hcode : o.code = 4401 := Phase.closed.inj hclosed
      have hspent : s.authRetried = true := by simpa [hcode] using hretry
      obtain ⟨a, earlier, hattempts, ha⟩ := h.retried hspent hopen
      have hwelcomed : o.welcomed = false := by simpa [separate, forGood, hspent, hcode] using he
      exact ⟨_, a, earlier, congrArg _ hattempts, hcode, hwelcomed, ha⟩
    | case3 _ _ hgood =>
      refine ⟨fun hretried _ => ?_, nofun⟩
      have hlater : o.welcomed = false ∧ s.authRetried = true := by simpa using hretried
      exact absurd (by simpa [separate, hlater] using he) hgood
  · exact ⟨fun hretried _ => h.retried hretried fun code => (hphase code).1,
      fun hclosed => absurd hclosed (hphase 4401).2⟩

/-- `RunAsync` ends with 4401 only when it was refused twice, where expiries and other failures
stay away from a spent retry; two attempts in a row are never both followed without a delay. -/
theorem reconnects {es : List Event} {s : State} (h : run step {} es = some s) :
    (Along step (fun s e => separate s e = true) {} es → s.phase = .closed 4401 → Refused s.attempts) ∧
      s.attempts.IsChain fun next a => ¬(a.immediate = true ∧ next.immediate = true) := by
  refine ⟨fun hseparate => ?_, ?_⟩
  · have hinit : Renewed {} := ⟨nofun, nofun⟩
    exact (run_invariant_along Renewed.keeps hinit hseparate h).closed
  · have hinit : Retried {} := ⟨nofun, .nil⟩
    exact (run_invariant Retried.keeps hinit h).apart

def refusedTwice : List Event :=
  [.outcome ⟨1006, true⟩, .delayed, .outcome ⟨4401, true⟩, .outcome ⟨4401, false⟩]

theorem reconnects_refusedTwice : ∃ s, run step {} refusedTwice = some s ∧ s.phase = .closed 4401 ∧
    Refused s.attempts ∧ s.attempts.IsChain fun next a => ¬(a.immediate = true ∧ next.immediate = true) := by
  obtain ⟨s, hs, hclosed⟩ : ∃ s, run step {} refusedTwice = some s ∧ s.phase = .closed 4401 := by
    decide +kernel
  obtain ⟨hrefused, happart⟩ := reconnects hs
  exact ⟨s, hs, hclosed, hrefused (by decide +kernel) hclosed, happart⟩

/-- Each token is welcomed and expires; the second expiry ends the agent. -/
theorem expired_twice_stops : ∃ s,
    run step {} [.outcome ⟨4401, true⟩, .outcome ⟨4401, true⟩] = some s ∧ s.phase = .closed 4401 ∧
      ∀ a ∈ s.attempts, a.welcomed = true := by decide +kernel

end Converger.AgentReconnects
