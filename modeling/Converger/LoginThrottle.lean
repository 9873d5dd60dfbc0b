import Converger.GuardedRuns
import Converger.KeyedLists

/-!
# The lockout of failed logins

A login, or the code of a second factor, is let through while fewer failures than the limit are
recorded, is then compared, and is recorded only when the comparison has failed. The bound on the
comparisons is therefore the limit and the number of attempts that overlap.
-/
namespace Converger.LoginThrottle
open GuardedRuns KeyedLists List

structure Config where
  ipLimit : ℕ
  accountLimit : ℕ
  accountId : String → String

structure Attempt where
  remoteIp : String
  account : String

/-- Where an attempt is: `check/2` reads the two counters in turn, and `record_failure/2` raises
them in turn after the comparison has failed. -/
inductive Phase where
  | started
  | ipAllowed
  | allowed
  | refused
  | wrong
  | ipRecorded
  | finished
deriving DecidableEq

/-- What is said about the credential; that of a deactivated account is not compared. -/
inductive Verdict where
  | right
  | inactive
  | wrong

/-- The counters of one window, the attempts, and the accounts whose credential was compared and
was wrong. -/
structure State where
  ips : String → ℕ := fun _ => 0
  accounts : String → ℕ := fun _ => 0
  attempts : List (Attempt × Phase) := []
  compared : List String := []

inductive Event where
  | start (attempt : Attempt)
  | advance (i : ℕ) (verdict : Verdict)

/-- `RateLimit.peek/2`, which does not count. -/
def peek (counts : String → ℕ) (limit : ℕ) (id : String) : Bool := !(limit ≤ counts id)

def record (counts : String → ℕ) (id : String) : String → ℕ :=
  Function.update counts id (counts id + 1)

def State.goto (s : State) (i : ℕ) (a : Attempt) (p : Phase) : State :=
  {s with attempts := s.attempts.set i (a, p)}

def next (cfg : Config) (s : State) (i : ℕ) (a : Attempt) : Phase → Verdict → Option State
  | .started, _ =>
    some (s.goto i a (if peek s.ips cfg.ipLimit a.remoteIp then .ipAllowed else .refused))
  | .ipAllowed, _ =>
    some (s.goto i a (if peek s.accounts cfg.accountLimit (cfg.accountId a.account) then .allowed
      else .refused))
  | .allowed, .wrong =>
    some ({s with compared := s.compared ++ [cfg.accountId a.account]}.goto i a .wrong)
  | .allowed, _ => some (s.goto i a .finished)
  | .wrong, _ => some ({s with ips := record s.ips a.remoteIp}.goto i a .ipRecorded)
  | .ipRecorded, _ => some
    ({s with accounts := record s.accounts (cfg.accountId a.account)}.goto i a .finished)
  | .refused, _ => none
  | .finished, _ => none

def step (cfg : Config) (s : State) : Event → Option State
  | .start a => some {s with attempts := s.attempts ++ [(a, .started)]}
  | .advance i v => s.attempts[i]?.bind fun x => next cfg s i x.1 x.2 v

def State.inPhase (cfg : Config) (s : State) (id : String) (phases : List Phase) : ℕ :=
  s.attempts.countP fun x => cfg.accountId x.1.account = id ∧ x.2 ∈ phases

def State.running (cfg : Config) (s : State) (id : String) : ℕ :=
  s.inPhase cfg id [.allowed, .wrong, .ipRecorded]

/-- When an attempt on the account reads its counter, at most `n` others are running. -/
def Overlap (cfg : Config) (id : String) (n : ℕ) (s : State) : Event → Prop
  | .start _ => True
  | .advance i _ => ∀ x ∈ s.attempts[i]?, x.2 = .ipAllowed → cfg.accountId x.1.account = id →
      s.running cfg id ≤ n

instance decidableOverlap (cfg : Config) (id : String) (n : ℕ) (s : State) :
    ∀ e, Decidable (Overlap cfg id n s e)
  | .start _ => .isTrue trivial
  | .advance i _ => inferInstanceAs (Decidable (∀ x ∈ s.attempts[i]?, _))

/-- A comparison that failed is recorded or being recorded, and those that are recorded or running
are within the limit and the overlap. -/
structure Inv (cfg : Config) (id : String) (n : ℕ) (s : State) : Prop where
  compared : s.compared.count id = s.accounts id + s.inPhase cfg id [.wrong, .ipRecorded]
  bound : s.accounts id + s.running cfg id ≤ cfg.accountLimit + n

variable {cfg : Config} {s t : State} {id : String} {n i : ℕ} {a : Attempt} {p q : Phase}

/-- An attempt leaves the group of its phase and enters that of the next one. -/
theorem inPhase_goto (cfg : Config) (id : String) (q : Phase) (h : s.attempts[i]? = some (a, p))
    (phases : List Phase) :
    (s.goto i a q).inPhase cfg id phases +
        (if cfg.accountId a.account = id ∧ p ∈ phases then 1 else 0) =
      s.inPhase cfg id phases +
        (if cfg.accountId a.account = id ∧ q ∈ phases then 1 else 0) := by
  have hset := countP_set_add (f := fun x : Attempt × Phase =>
    cfg.accountId x.1.account = id ∧ x.2 ∈ phases) h (a, q)
  simp only [decide_eq_true_eq] at hset
  exact hset

theorem record_apply (counts : String → ℕ) (key : String) :
    record counts key id = counts id + if key = id then 1 else 0 := by
  rw [record, Function.update_apply]
  grind

theorem Inv.next {v : Verdict} (h : Inv cfg id n s) (hi : s.attempts[i]? = some (a, p))
    (hoverlap : p = .ipAllowed → cfg.accountId a.account = id → s.running cfg id ≤ n)
    (ht : next cfg s i a p v = some t) : Inv cfg id n t := by
  obtain ⟨hcompared, hbound⟩ := h
  -- The groups after the attempt's phase has become `q`.
  have hfail := fun q => inPhase_goto cfg id q hi [.wrong, .ipRecorded]
  have hrun := fun q => inPhase_goto cfg id q hi [.allowed, .wrong, .ipRecorded]
  simp only [State.running, State.inPhase, State.goto] at hcompared hbound hoverlap hfail hrun
  constructor
  all_goals
    simp only [State.running, State.inPhase]
    unfold LoginThrottle.next at ht
    split at ht <;> cases ht
  all_goals
    simp only [State.goto, count_append, count_singleton, record_apply]
    grind [peek]

theorem Inv.step {e : Event} (h : Inv cfg id n s) (hoverlap : Overlap cfg id n s e)
    (ht : step cfg s e = some t) : Inv cfg id n t := by
  cases e with
  | start a =>
    cases ht
    have hnew : ∀ phases, .started ∉ phases → State.inPhase cfg
        {s with attempts := s.attempts ++ [(a, .started)]} id phases = s.inPhase cfg id phases := by
      intro phases hphases
      rw [State.inPhase, countP_append, countP_singleton]
      simp [hphases, State.inPhase]
    exact ⟨by rw [hnew _ (by decide)]; exact h.compared,
      by rw [State.running, hnew _ (by decide)]; exact h.bound⟩
  | advance i v =>
    obtain ⟨⟨a, p⟩, hi, ht⟩ := Option.bind_eq_some_iff.mp ht
    exact h.next hi (hoverlap _ hi) ht

/-- With at most `n` attempts running whenever an attempt on the account is checked, at most `n`
more wrong credentials than the limit are compared, and an attempt that finds so many failures
recorded or running is refused. -/
theorem wrong_credentials_bounded (cfg : Config) (id : String) (n : ℕ) (es : List Event)
    (s : State) (h : run (LoginThrottle.step cfg) {} es = some s)
    (hoverlap : Along (LoginThrottle.step cfg) (Overlap cfg id n) {} es) :
    s.compared.count id ≤ cfg.accountLimit + n ∧
      ∀ i a v t, s.attempts[i]? = some (a, .ipAllowed) → cfg.accountId a.account = id →
        s.running cfg id ≤ n → cfg.accountLimit + n ≤ s.accounts id + s.running cfg id →
        LoginThrottle.step cfg s (.advance i v) = some t → t = s.goto i a .refused := by
  have hinv : Inv cfg id n s := by
    refine run_invariant_along (fun hs he ht => hs.step he ht) ?_ hoverlap h
    constructor <;> simp [State.running, State.inPhase]
  constructor
  · have hle : s.inPhase cfg id [.wrong, .ipRecorded] ≤ s.running cfg id := by
      apply countP_mono_left
      grind
    have hcompared := hinv.compared
    have hbound := hinv.bound
    omega
  · intro i a v t hi hid hrunning hmany ht
    rw [LoginThrottle.step, hi] at ht
    cases ht
    rw [peek, hid, decide_eq_true (by omega)]
    rfl

def defaults : Config where
  ipLimit := 5
  accountLimit := 5
  accountId := fun account => account

def guess : Attempt := ⟨"10.0.0.1", "admin:a@example.com"⟩

def attempt (i : ℕ) : List Event :=
  .start guess :: List.replicate 5 (.advance i .wrong)

theorem wrong_credentials_bounded_five :
    ∃ s, run (LoginThrottle.step defaults) {} ((List.range 5).flatMap attempt) = some s ∧
      s.compared.count guess.account ≤ 5 := by
  have hrun : (run (LoginThrottle.step defaults) {} ((List.range 5).flatMap attempt)).isSome :=
    by decide +kernel
  obtain ⟨s, hs⟩ := Option.isSome_iff_exists.mp hrun
  exact ⟨s, hs, (wrong_credentials_bounded defaults guess.account 0 _ s hs (by decide +kernel)).1⟩

/-- Six attempts that are checked before the first of them is recorded are all compared. -/
theorem overlapping_attempts_compared :
    (run (LoginThrottle.step defaults) {} (List.replicate 6 (.start guess) ++
      (List.range 12).map (fun k => .advance (k / 2) .wrong) ++
      (List.range 6).map fun i => .advance i .wrong)).any
        (fun s => s.compared.count guess.account = 6) = true := by
  decide +kernel

end Converger.LoginThrottle
