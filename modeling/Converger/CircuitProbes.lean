import Converger.Circuit

/-!
# Waking parked deliveries

The delivery jobs of a channel and the job of `ChannelCircuitProbeWorker` next to the breaker. A
breaker that opens parks the waiting jobs and schedules the probe worker, which wakes one parked
job per cooldown. The probe job is unique among the incomplete ones of its channel: scheduling it
while it is waiting or executing inserts nothing. It ends when it finds nothing parked, although
deliveries that are enqueued later are inserted parked.
-/
namespace Converger.CircuitProbes
open Circuit GuardedRuns Option

/-- The state of a delivery job. A job that Oban calls `executing` has loaded the channel, and is
`attempting` once it is admitted. -/
inductive JobState where
  | available | scheduled | retryable
  | executing (seen : CircuitState)
  | attempting
  | completed
  deriving DecidableEq

def defaultPriority : ℕ := 1

def demotedPriority : ℕ := 2

def parkedPriority : ℕ := 3

structure Job where
  state : JobState := .available
  priority : ℕ := defaultPriority
  scheduledAt : ℤ := 0
  deriving DecidableEq

/-- The job is one `parked_jobs_query/1` selects. -/
def Job.parked (job : Job) : Bool := job.state = .scheduled ∧ job.priority = parkedPriority

/-- When a job parked now wakes on its own; `jitter` is what the random part came to. -/
def wakeTime (cfg : Config) (now : ℤ) (jitter : ℕ) : ℤ := now + (cfg.parkSeconds + jitter) * 1000000

/-- `park_backlog/1` on one job. -/
def parkBacklog (cfg : Config) (now : ℤ) (jitter : ℕ) (job : Job) : Job :=
  if job.priority ≠ parkedPriority ∧ job.state ∈ [.available, .scheduled, .retryable] then
    {state := .scheduled, priority := parkedPriority, scheduledAt := wakeTime cfg now jitter}
  else job

/-- `demote_backlog/1` on one job. -/
def demoteBacklog (job : Job) : Job :=
  if job.state = .available ∧ job.priority < demotedPriority then
    {job with priority := demotedPriority}
  else job

def released (now : ℤ) : Job := {state := .available, scheduledAt := now}

/-- `release_parked/1` on one job. -/
def releaseParked (now : ℤ) (job : Job) : Job := if job.parked then released now else job

/-- `wake_probe/1`: the oldest parked job, and how many were woken. -/
def wakeProbe (now : ℤ) : List Job → List Job × ℕ
  | [] => ([], 0)
  | job :: jobs =>
    if job.parked then (released now :: jobs, 1)
    else (job :: (wakeProbe now jobs).1, (wakeProbe now jobs).2)

/-- `insert_opts/1`, for a channel that was loaded in state `seen`. -/
def newJob (cfg : Config) (now : ℤ) (jitter : ℕ) : CircuitState → Job
  | .opened | .halfOpen | .paused =>
    {state := .scheduled, priority := parkedPriority, scheduledAt := wakeTime cfg now jitter}
  | .closed => {scheduledAt := now}

/-- `max_attempts` of the probe worker. -/
def probeMaxAttempts : ℕ := 3

/-- The incomplete probe job, with the channel it has read while it is executing. -/
structure ProbeJob where
  attempt : ℕ := 0
  seen : Option Channel := none
  deriving DecidableEq

structure State where
  channel : Channel := {}
  jobs : List Job := []
  probe : Option ProbeJob := none
  deriving DecidableEq

/-- `ChannelCircuitProbeWorker.schedule/2`: unique among the incomplete jobs. -/
def schedule (probe : Option ProbeJob) : Option ProbeJob :=
  match probe with
  | none => some {}
  | some job => some job

/-- `schedule_follow_up/2` after a transition to `target`. -/
def followUp (cfg : Config) (now : ℤ) (jitter : ℕ) (s : State) : CircuitState → State
  | .opened =>
    {s with jobs := s.jobs.map (parkBacklog cfg now jitter), probe := schedule s.probe}
  | .paused => {s with jobs := s.jobs.map (parkBacklog cfg now jitter)}
  | .closed => {s with jobs := s.jobs.map (releaseParked now), probe := schedule s.probe}
  | .halfOpen => s

inductive Move where
  | failures | unhealthy | probeFailed | probeSucceeded | pause | resume
  deriving DecidableEq

def Move.sources : Move → List CircuitState
  | .failures | .unhealthy => [.closed]
  | .probeFailed => [.halfOpen]
  | .probeSucceeded => breakerStates
  | .pause => [.closed, .opened, .halfOpen]
  | .resume => [.paused, .opened, .halfOpen]

def Move.target : Move → CircuitState
  | .failures | .unhealthy | .probeFailed => .opened
  | .probeSucceeded | .resume => .closed
  | .pause => .paused

def remainingCooldownMs (cfg : Config) (now : ℤ) (c : Channel) : ℤ :=
  match c.circuitChangedAt with
  | none => 0
  | some changedAt => cfg.cooldownMs - (now / 1000 - changedAt / 1000)

/-- The rest of `perform/1` of the probe worker, after it has read the channel. -/
def perform (cfg : Config) (now : ℤ) (s : State) (probe : ProbeJob) (seen : Channel) : State :=
  -- a snooze is taken back from the attempts
  let snoozed : ProbeJob := {attempt := probe.attempt - 1}
  match seen.circuitState with
  | .opened | .halfOpen =>
    if 0 < remainingCooldownMs cfg now seen then {s with probe := some snoozed}
    else
      let woken := wakeProbe now s.jobs
      {s with jobs := woken.1, probe := if woken.2 = 1 then some snoozed else none}
  | .closed => {s with jobs := s.jobs.map (releaseParked now), probe := none}
  | .paused => {s with probe := none}

inductive Ending where
  | completed | retryable
  deriving DecidableEq

def Ending.state : Ending → JobState
  | .completed => .completed
  | .retryable => .retryable

inductive Event where
  | move (m : Move) (now : ℤ) (jitter : ℕ)
  | enqueue (seen : CircuitState) (now : ℤ) (jitter : ℕ)
  | stage (i : ℕ) (now : ℤ)
  | demote
  | execute (i : ℕ)
  | busy (i : ℕ) (now : ℤ)
  | admission (i : ℕ) (now : ℤ) (limited : Option ℕ) (jitter : ℕ)
  | finish (i : ℕ) (ending : Ending) (now : ℤ)
  | probeStart
  | probeFinish (now : ℤ)
  | probeCrash
  deriving DecidableEq

def State.setJob (s : State) (i : ℕ) (job : Job) : State := {s with jobs := s.jobs.set i job}

/-- A transition comes with its follow-ups; an execution of a job is several steps. -/
def step (cfg : Config) (s : State) : Event → Option State
  | .move m now jitter =>
    some (match transition m.sources m.target now s.channel with
      | some c => followUp cfg now jitter {s with channel := c} m.target
      | none => s)
  | .enqueue seen now jitter => some {s with jobs := s.jobs ++ [newJob cfg now jitter seen]}
  | .stage i now => s.jobs[i]?.bind fun job =>
    if job.state ∈ [.scheduled, .retryable] ∧ job.scheduledAt ≤ now then
      some (s.setJob i {job with state := .available})
    else none
  | .demote => some {s with jobs := s.jobs.map demoteBacklog}
  | .execute i => s.jobs[i]?.bind fun job =>
    if job.state = .available then
      some (s.setJob i {job with state := .executing s.channel.circuitState})
    else none
  -- over the cap of running deliveries
  | .busy i now => s.jobs[i]?.bind fun job =>
    if job.state = .available then
      some (s.setJob i {job with state := .scheduled, scheduledAt := now + 1000000})
    else none
  | .admission i now limited jitter => s.jobs[i]?.bind fun job =>
    match job.state with
    | .executing seen =>
      match admitChannel cfg now limited seen s.channel with
      | (.ok, claimed) =>
        some {s.setJob i {job with state := .attempting} with
          channel := claimed.getD s.channel}
      | (.park _, _) =>
        some (s.setJob i
          {state := .scheduled, priority := parkedPriority, scheduledAt := wakeTime cfg now jitter})
      | (.snooze seconds, _) =>
        some (s.setJob i {job with state := .scheduled, scheduledAt := now + seconds * 1000000})
    | _ => none
  | .finish i ending now => s.jobs[i]?.bind fun job =>
    if job.state = .attempting then
      some (s.setJob i {job with state := ending.state, scheduledAt := now})
    else none
  | .probeStart => s.probe.bind fun probe =>
    if probe.seen = none then
      some {s with probe := some {attempt := probe.attempt + 1, seen := some s.channel}}
    else none
  | .probeFinish now => s.probe.bind fun probe => probe.seen.map (perform cfg now s probe)
  | .probeCrash => s.probe.bind fun probe =>
    if probe.seen = none then none
    else some {s with
      probe := if probeMaxAttempts ≤ probe.attempt then none else some {attempt := probe.attempt}}

/-- The probe worker runs to its end, while the breaker is open or half open, only if it has read
it so, and finds the cooldown not over or a parked job; and it is not discarded then. -/
def Watched (cfg : Config) (s : State) : Event → Prop
  | .probeFinish now => s.channel.circuitState ∈ breakerStates →
    ∀ probe ∈ s.probe, ∀ seen ∈ probe.seen, seen.circuitState ∈ breakerStates ∧
      (0 < remainingCooldownMs cfg now seen ∨ ∃ job ∈ s.jobs, job.parked = true)
  | .probeCrash => s.channel.circuitState ∈ breakerStates →
    ∀ probe ∈ s.probe, probe.attempt < probeMaxAttempts
  | _ => True

instance (cfg : Config) (s : State) : ∀ e, Decidable (Watched cfg s e)
  | .probeFinish _ => inferInstanceAs (Decidable (_ → _))
  | .probeCrash => inferInstanceAs (Decidable (_ → _))
  | .move _ _ _ | .enqueue _ _ _ | .stage _ _ | .demote | .execute _ | .busy _ _ | .admission _ _ _ _
  | .finish _ _ _ | .probeStart => .isTrue trivial

/-! ## Waking one job -/

theorem wakeProbe_of_parked {now : ℤ} {jobs : List Job} (h : ∃ job ∈ jobs, job.parked = true) :
    (wakeProbe now jobs).2 = 1 ∧ ∃ i job, jobs[i]? = some job ∧ job.parked = true ∧
      (wakeProbe now jobs).1 = jobs.set i (released now) := by
  induction jobs with
  | nil =>
    obtain ⟨job, hmem, -⟩ := h
    cases hmem
  | cons job jobs ih =>
    by_cases hparked : job.parked = true
    · refine ⟨by simp [wakeProbe, hparked], 0, job, rfl, hparked, ?_⟩
      simp [wakeProbe, hparked]
    · have hrest : ∃ job ∈ jobs, job.parked = true := by
        obtain ⟨job', hmem, hparked'⟩ := h
        obtain rfl | hmem := List.mem_cons.mp hmem
        · exact absurd hparked' hparked
        · exact ⟨job', hmem, hparked'⟩
      obtain ⟨hone, i, job', hi, hparked', hset⟩ := ih hrest
      refine ⟨by simp [wakeProbe, hparked, hone], i + 1, job', by simpa using hi, hparked', ?_⟩
      simp [wakeProbe, hparked, hset]

theorem remainingCooldownMs_nonpos {cfg : Config} {now : ℤ} {c : Channel}
    (h : c.cooledDown cfg now = true) : remainingCooldownMs cfg now c ≤ 0 := by
  unfold remainingCooldownMs
  unfold Channel.cooledDown at h
  cases hchanged : c.circuitChangedAt with
  | none => exact Int.le_refl 0
  | some changedAt =>
    rw [hchanged] at h
    have hpast := of_decide_eq_true h
    show (cfg.cooldownMs : ℤ) - (now / 1000 - changedAt / 1000) ≤ 0
    omega

/-! ## The waker -/

def Guarded (s : State) : Prop := s.channel.circuitState ∈ breakerStates → s.probe.isSome = true

namespace Guarded
variable {cfg : Config} {s t : State}

theorem schedule_isSome (probe : Option ProbeJob) : (schedule probe).isSome = true := by
  cases probe <;> rfl

/-- A transition to the open state schedules the probe worker, and no other transition leads
into an outage. -/
theorem move (m : Move) (now : ℤ) (jitter : ℕ) (h : Guarded s)
    (hstep : step cfg s (.move m now jitter) = some t) : Guarded t := by
  simp only [step, Option.some.injEq] at hstep
  subst hstep
  split
  · rename_i c hc
    obtain ⟨-, rfl⟩ := transition_eq_some.mp hc
    intro hbreaker
    cases m <;> simp_all [followUp, Move.target, breakerStates, schedule_isSome]
  · exact h

theorem admission {i : ℕ} {now : ℤ} {limited : Option ℕ} {jitter : ℕ} (h : Guarded s)
    (hstep : step cfg s (.admission i now limited jitter) = some t) : Guarded t := by
  obtain ⟨job, -, hstep⟩ := bind_eq_some_iff.mp hstep
  split at hstep
  · rename_i seen hseen
    split at hstep <;> cases hstep
    · rename_i claimed hadmission
      cases claimed with
      | none => exact h
      | some c =>
        -- only an open or half-open breaker is claimed
        have hbreaker : s.channel.circuitState ∈ breakerStates := by
          obtain ⟨hnone, -⟩ | ⟨c', hc, -, hclaim⟩ := admitChannel_ok hadmission
          · cases hnone
          · exact (claimProbe_eq_some.mp hclaim).1.1
        exact fun _ => h hbreaker
    · exact h
    · exact h
  · cases hstep

theorem probeFinish {now : ℤ} (hcond : Watched cfg s (.probeFinish now))
    (hstep : step cfg s (.probeFinish now) = some t) : Guarded t := by
  obtain ⟨probe, hprobe, hstep⟩ := bind_eq_some_iff.mp hstep
  obtain ⟨seen, hseen, rfl⟩ := map_eq_some_iff.mp hstep
  intro hbreaker
  have hchannel : (perform cfg now s probe seen).channel = s.channel := by
    unfold perform
    split <;> [split_ifs; split_ifs; skip; skip] <;> rfl
  rw [hchannel] at hbreaker
  obtain ⟨hread, hfound⟩ := hcond hbreaker probe hprobe seen hseen
  unfold perform
  split
  case h_3 hclosed => simp [hclosed, breakerStates] at hread
  case h_4 hpaused => simp [hpaused, breakerStates] at hread
  all_goals
    split_ifs with hremaining
    · rfl
    · have hparked := hfound.resolve_left hremaining
      simp [(wakeProbe_of_parked hparked).1]

theorem step {e : Event} (h : Guarded s) (hcond : Watched cfg s e)
    (hstep : step cfg s e = some t) : Guarded t := by
  cases e with
  | move m now jitter => exact h.move m now jitter hstep
  | admission i now limited jitter => exact h.admission hstep
  -- the other events of the jobs touch neither the row nor the probe
  | enqueue seen now jitter | demote =>
    cases hstep
    exact h
  | stage i now | execute i | busy i now | finish i ending now =>
    obtain ⟨job, -, hstep⟩ := bind_eq_some_iff.mp hstep
    split_ifs at hstep
    cases hstep
    exact h
  | probeStart =>
    obtain ⟨probe, -, hstep⟩ := bind_eq_some_iff.mp hstep
    split_ifs at hstep
    cases hstep
    exact fun _ => rfl
  | probeFinish now => exact probeFinish hcond hstep
  | probeCrash =>
    obtain ⟨probe, hprobe, hstep⟩ := bind_eq_some_iff.mp hstep
    split_ifs at hstep with hidle hlast
    · cases hstep
      intro hbreaker
      exact absurd hlast (Nat.not_le.mpr (hcond hbreaker probe hprobe))
    · cases hstep
      exact fun _ => rfl

end Guarded

/-- In every run in which the probe worker does not end during an outage, a parked delivery has a
probe job; and where that job is waiting, its next run after the cooldown wakes a parked
delivery. -/
theorem parked_delivery_has_probe (cfg : Config) (events : List Event) (t : State)
    (hrun : run (step cfg) {} events = some t) (hcond : Along (step cfg) (Watched cfg) {} events)
    (hbreaker : t.channel.circuitState ∈ breakerStates) (hparked : ∃ job ∈ t.jobs, job.parked = true) :
    ∃ probe, t.probe = some probe ∧ ∀ now, probe.seen = none →
      t.channel.cooledDown cfg now = true →
      ∃ i job, t.jobs[i]? = some job ∧ job.parked = true ∧
        run (step cfg) t [.probeStart, .probeFinish now] =
          some {t with jobs := t.jobs.set i (released now)} := by
  have hguarded : Guarded t := run_invariant_along Guarded.step
    (by simp [Guarded, breakerStates]) hcond hrun
  obtain ⟨probe, hprobe⟩ := isSome_iff_exists.mp (hguarded hbreaker)
  refine ⟨probe, hprobe, fun now hseen hcooled => ?_⟩
  obtain ⟨hone, i, job, hi, hjob, hset⟩ := @wakeProbe_of_parked now t.jobs hparked
  refine ⟨i, job, hi, hjob, ?_⟩
  have hremaining := remainingCooldownMs_nonpos hcooled
  obtain ⟨attempt, seen⟩ := probe
  cases hseen
  simp only [breakerStates, List.mem_cons, List.not_mem_nil, or_false] at hbreaker
  obtain hstate | hstate := hbreaker
  · simp [run, step, hprobe, perform, hstate, hone, hset, Int.not_lt.mpr hremaining]
  · simp [run, step, hprobe, perform, hstate, hone, hset, Int.not_lt.mpr hremaining]

def backlogParked : List Event := [.enqueue .closed 0 0, .move .unhealthy 0 30]

theorem parked_delivery_has_probe_backlog :
    ∃ t, run (step {}) {} backlogParked = some t ∧ ∃ i job, t.jobs[i]? = some job ∧
      job.parked = true ∧ run (step {}) t [.probeStart, .probeFinish 30000000] =
        some {t with jobs := t.jobs.set i (released 30000000)} := by
  have hfacts : (run (step {}) {} backlogParked).any (fun t =>
      t.channel.circuitState ∈ breakerStates ∧ (∃ job ∈ t.jobs, job.parked = true) ∧
        t.channel.cooledDown {} 30000000 = true ∧ t.probe = some {}) = true := by decide
  obtain ⟨t, ht, hfacts⟩ := (any_eq_true _ _).mp hfacts
  obtain ⟨hbreaker, hparked, hcooled, hprobe⟩ := of_decide_eq_true hfacts
  obtain ⟨probe, hsome, hwakes⟩ :=
    parked_delivery_has_probe {} backlogParked t ht (by decide) hbreaker hparked
  rw [hprobe] at hsome
  cases hsome
  exact ⟨t, ht, hwakes 30000000 rfl hcooled⟩

/-- The probe worker finds nothing parked and ends; a delivery that is enqueued after that is
inserted parked, and nothing wakes it before its ten minutes are over. -/
theorem parked_delivery_without_probe :
    ∃ t, run (step {}) {} [.move .unhealthy 0 0, .probeStart, .probeFinish 30000000,
        .enqueue .opened 30000001 0] = some t ∧
      t.channel.circuitState = .opened ∧ t.probe = none ∧
      t.jobs = [{state := .scheduled, priority := 3, scheduledAt := 630000001}] :=
  ⟨_, rfl, rfl, rfl, rfl⟩

end Converger.CircuitProbes
