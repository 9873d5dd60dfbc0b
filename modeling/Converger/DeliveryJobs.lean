import Converger.Deliveries
import Converger.GuardedRuns

/-!
# Delivery jobs

One activity on its way to one channel: its row of the `deliveries` table, the Oban jobs of
`ActivityDeliveryWorker` for the pair, the circuit breaker that parks and releases both, and
the transaction that replays a dead letter, and the receipts of the provider. Every event is
one statement of one process, so a run is an interleaving of all of them.

Oban counts an execution when it fetches the job, takes a snooze back from the count, and
discards a job that fails on its last attempt. An execution that raises counts like one that
returns an error, and the worker rescues nothing: the row keeps what was stored before.
-/
namespace Converger.DeliveryJobs
open Deliveries RetryPolicy StaleWrites Text List Option

/-- `max_attempts` of the worker. -/
def workerMaxAttempts : ℕ := 100

/-- What `perform/1` returns for a delivery that was admitted. -/
inductive Result where
  | ok | error | cancel
  deriving DecidableEq, Repr

/-- The state of a job. A job that Oban calls `executing` is `started` until the worker has
read the delivery, then `attempting` with the struct it read, then has `returned`. -/
inductive JobState where
  | available | scheduled | retryable | suspended
  | started
  | attempting (struct : Delivery)
  | returned (result : Result)
  | completed | cancelled | discarded
  deriving DecidableEq, Repr

/-- A job, with the number of executions counted so far. `parked` is the lowest priority. -/
structure Job where
  state : JobState := .available
  attempt : ℕ := 0
  parked : Bool := false
  deriving DecidableEq, Repr

/-- `completed`, `cancelled` and `discarded` are final; `enqueue_retries/1` looks for the rest. -/
def Job.final (job : Job) : Bool := job.state ∈ [.completed, .cancelled, .discarded]

/-- Oban calls the job `executing`. -/
def JobState.executing : JobState → Bool
  | .started | .attempting _ | .returned _ => true
  | _ => false

def Job.willAttempt (job : Job) : Bool :=
  match job.state with
  | .available | .scheduled | .retryable | .suspended | .started | .attempting _ => true
  | .returned .error => job.attempt < workerMaxAttempts
  | _ => false

inductive Refusal where
  | optedOut (recipient : String)
  | unsupported (type : String)
  | halted (reason : String)

def Refusal.message : Refusal → String
  | .optedOut recipient => s!"recipient {recipient} opted out"
  | .unsupported type => s!"skipped: unsupported activity type {type}"
  | .halted reason => s!"halted: {reason}"

inductive Outcome where
  | sent (response : Metadata)
  | pending (response : Metadata)
  | failed (retryable : Bool) (message : String)
  | refused (refusal : Refusal)

def resultAttrs (policy : Policy) (now : ℕ) (struct : Delivery) : Outcome → Attrs
  | .sent response => markSent now struct response
  | .pending response => markHandedOff struct response
  | .failed true message => markAttemptFailed policy struct message
  | .failed false message => markDead struct message
  | .refused refusal => markDead struct refusal.message

def workerResult (policy : Policy) (now : ℕ) (struct : Delivery) (outcome : Outcome) : Result :=
  match outcome with
  | .sent _ | .pending _ => .ok
  | .failed _ _ | .refused _ =>
    if (resultAttrs policy now struct outcome).status = some .failed then .cancel else .error

def Outcome.handsOff : Outcome → Bool
  | .pending _ => true
  | _ => false

def ackState (attempt : ℕ) : Result → JobState
  | .ok => .completed
  | .cancel => .cancelled
  | .error => if workerMaxAttempts ≤ attempt then .discarded else .retryable

inductive Work where
  | fetch
  | snooze (parked : Bool)
  | load
  | record (outcome : Outcome) (now : ℕ)
  | raise
  | ack
  | stage

def work (policy : Policy) (row : Delivery) (handedOff : Bool) (job : Job) :
    Work → Option (Delivery × Bool × Job)
  | .fetch =>
    match job.state with
    | .available => some (row, handedOff, {job with state := .started, attempt := job.attempt + 1})
    | _ => none
  | .snooze parked =>
    match job.state with
    | .started =>
      some (row, handedOff, {state := .scheduled, attempt := job.attempt - 1, parked := parked || job.parked})
    | _ => none
  | .load =>
    match job.state with
    | .started =>
      -- A delivery that was sent before is not sent again.
      some (row, handedOff,
        {job with state := if row.status.settled then .returned .ok else .attempting row})
    | _ => none
  | .record outcome now =>
    match job.state with
    | .attempting struct =>
      some (update now struct row (resultAttrs policy now struct outcome),
        handedOff || outcome.handsOff,
        {job with state := .returned (workerResult policy now struct outcome)})
    | _ => none
  -- The adapter, or what follows a write of the row, such as the broadcast of the new status.
  | .raise =>
    if job.state.executing then some (row, handedOff, { job with state := .returned .error })
    else none
  | .ack =>
    match job.state with
    | .returned result => some (row, handedOff, {job with state := ackState job.attempt result})
    | _ => none
  | .stage =>
    match job.state with
    | .scheduled | .retryable => some (row, handedOff, {job with state := .available})
    | _ => none

/-- The first statement of `park_backlog/1`, on one job. -/
def Job.park (job : Job) : Job :=
  if job.parked = false ∧ job.state ∈ [.available, .scheduled, .retryable] then
    {job with state := .scheduled, parked := true}
  else job

/-- The first statement of `release_parked/1`, on one job. -/
def Job.release (job : Job) : Job :=
  if job.state = .scheduled ∧ job.parked then {job with state := .available, parked := false}
  else job

/-- The second statement of `park_backlog/1`, and that of `park/3`, on one row. -/
def parkRow (now : ℕ) (row : Delivery) : Delivery :=
  if row.status = .pending then {row with status := .paused, updatedAt := now} else row

/-- The second statement of `release_parked/1`, on one row. -/
def releaseRow (now : ℕ) (row : Delivery) : Delivery :=
  if row.status = .paused then {row with status := .pending, updatedAt := now} else row

/-- How far the transaction of a replay has come: the row is flipped and locked, then the
jobs of the pair have been looked up. -/
inductive Replay where
  | flipped
  | looked (running : Bool)
  deriving DecidableEq, Repr

/-- `row` is the committed row. `handedOff` records that the attempt in charge ended with
the receipt still to come. `receipts` are the structs that receipts have read and not yet
advanced. -/
structure State where
  row : Delivery
  handedOff : Bool := false
  jobs : List Job
  replay : Option Replay := none
  receipts : List Delivery := []

inductive Event where
  | work (job : ℕ) (w : Work)
  | parkJobs | releaseJobs
  | parkRow (now : ℕ) | releaseRow (now : ℕ)
  | flip | look | commit (actor : String) (now : ℕ) | rollback
  | receive
  | advance (receipt : ℕ) (u : StatusUpdate) (now : ℕ)

/-- A flipped row is locked, so the result of an attempt waits for the replay to end. -/
def Work.waits : Work → Option Replay → Bool
  | .record _ _, some _ => true
  | _, _ => false

def step (policy : Policy) (s : State) : Event → Option State
  | .work i w =>
    if w.waits s.replay then none
    else do
      let job ← s.jobs[i]?
      let (row, handedOff, job) ← work policy s.row s.handedOff job w
      some {s with row := row, handedOff := handedOff, jobs := s.jobs.set i job}
  | .parkJobs => some {s with jobs := s.jobs.map Job.park}
  | .releaseJobs => some {s with jobs := s.jobs.map Job.release}
  | .parkRow now => some {s with row := parkRow now s.row}
  | .releaseRow now => some {s with row := releaseRow now s.row}
  | .flip =>
    if s.row.status = .failed ∧ s.replay = none then some {s with replay := some .flipped}
    else none
  | .look =>
    if s.replay = some .flipped then
      some {s with replay := some (.looked (s.jobs.any fun job => !job.final))}
    else none
  | .commit actor now =>
    match s.replay with
    | some (.looked running) =>
      some
        { s with
          row := resetDeadLetter now actor s.row
          handedOff := false
          jobs := if running then s.jobs else s.jobs ++ [{}]
          replay := none }
    | _ => none
  | .rollback => if s.replay.isSome then some {s with replay := none} else none
  | .receive => some { s with receipts := s.receipts ++ [s.row] }
  | .advance i u now =>
    if s.replay.isSome then none
    else do
      let struct ← s.receipts[i]?
      match advanceStatus struct u with
      | .written attrs =>
        some
          { s with
            row := update now struct s.row attrs
            receipts := s.receipts.eraseIdx i }
      | _ => some { s with receipts := s.receipts.eraseIdx i }

def State.enqueued (row : Delivery) : State where
  row := row
  jobs := [{}]

def Unsent (row : Delivery) (handedOff : Bool) : Prop :=
  row.status.waiting = true ∧ handedOff = false

def Passed (row : Delivery) (handedOff : Bool) : Prop :=
  row.status.settled = true ∨ handedOff = true ∧ row.status.waiting = true

/-- How the row and the job in charge of it fit together, as long as no execution raises. The
two attempt counters agree between attempts, and the row's is one behind during an attempt. -/
def Shape (row : Delivery) (handedOff : Bool) (job : Job) : Prop :=
  match job.state with
  | .available | .scheduled | .retryable | .suspended =>
    Unsent row handedOff ∧ row.attempts = job.attempt ∧ job.attempt < workerMaxAttempts
  | .started =>
    Unsent row handedOff ∧ row.attempts + 1 = job.attempt ∧ job.attempt ≤ workerMaxAttempts
  | .attempting struct =>
    Unsent row handedOff ∧ row.attempts + 1 = job.attempt ∧ job.attempt ≤ workerMaxAttempts ∧
      struct.status.waiting = true ∧ struct.attempts = row.attempts ∧
      struct.lastError = row.lastError
  | .returned .error =>
    Unsent row handedOff ∧ row.attempts = job.attempt ∧ job.attempt ≤ workerMaxAttempts
  | .returned .ok | .completed => Passed row handedOff
  | .returned .cancel | .cancelled => row.status = .failed
  | .discarded => Unsent row handedOff

theorem Unsent.not_settled {row : Delivery} {handedOff : Bool} (h : Unsent row handedOff) :
    row.status.settled = false := by
  obtain ⟨hwaiting, -⟩ := h
  cases hs : row.status <;> simp_all [Status.waiting, Status.settled]

theorem put_pending_waiting {old cur : Status} (hcur : cur.waiting = true) :
    (put (some .pending) old cur).waiting = true := by
  by_cases h : Status.pending = old
  · rw [← h, put_same]
    exact hcur
  · rw [put_of_ne h]
    rfl

theorem put_of_waiting {new old : Status} (hold : old.waiting = true) (hnew : new.waiting = false)
    (cur : Status) : put (some new) old cur = new := by
  refine put_of_ne (fun h => ?_) cur
  rw [h, hold] at hnew
  cases hnew

theorem put_succ (n cur : ℕ) : put (some (n + 1)) n cur = n + 1 := put_of_ne (Nat.succ_ne_self n) cur

inductive Recorded (policy : Policy) (row row' : Delivery) : Outcome → Result → Prop
  | sent {response : Metadata} (h : row'.status.settled = true) :
      Recorded policy row row' (.sent response) .ok
  | pending {response : Metadata} (h : row'.status.waiting = true) :
      Recorded policy row row' (.pending response) .ok
  | again {message : String} (h : row'.status.waiting = true)
      (hattempts : row'.attempts = row.attempts + 1)
      (hlt : row.attempts + 1 < policy.maxAttempts) :
      Recorded policy row row' (.failed true message) .error
  | exhausted {message : String} (h : row'.status = .failed)
      (herror : row'.lastError = castText message)
      (hle : policy.maxAttempts ≤ row.attempts + 1) :
      Recorded policy row row' (.failed true message) .cancel
  | permanent {message : String} (h : row'.status = .failed)
      (herror : row'.lastError = castText message) :
      Recorded policy row row' (.failed false message) .cancel
  | refused {refusal : Refusal} (h : row'.status = .failed)
      (herror : row'.lastError = castText refusal.message) :
      Recorded policy row row' (.refused refusal) .cancel

/-- The result of an attempt whose struct still shows the row's attempts and error. -/
theorem recorded {policy : Policy} {now : ℕ} {struct row : Delivery}
    (hrow : row.status.waiting = true) (hstruct : struct.status.waiting = true)
    (hattempts : struct.attempts = row.attempts) (herror : struct.lastError = row.lastError)
    (outcome : Outcome) :
    Recorded policy row (update now struct row (resultAttrs policy now struct outcome)) outcome
      (workerResult policy now struct outcome) := by
  have hdead : ∀ message, (update now struct row (markDead struct message)).status = .failed :=
    fun _ => put_of_waiting hstruct rfl _
  have hlast : ∀ message,
      (update now struct row (markDead struct message)).lastError = castText message := by
    intro message
    rw [update_lastError, herror]
    exact put_current _ _
  cases outcome with
  | sent response =>
    refine .sent ?_
    rw [resultAttrs, update_status, markSent, put_of_waiting hstruct rfl]
    rfl
  | pending response => exact .pending (put_pending_waiting hrow)
  | refused refusal => exact .refused (hdead _) (hlast _)
  | failed retryable message =>
    cases retryable with
    | false => exact .permanent (hdead message) (hlast message)
    | true =>
      by_cases hmax : policy.maxAttempts ≤ struct.attempts + 1
      · have hattrs : resultAttrs policy now struct (.failed true message) =
            markDead struct message := markAttemptFailed_of_exhausted hmax
        simp only [workerResult, hattrs]
        exact .exhausted (hdead message) (hlast message) (hattempts ▸ hmax)
      · have hlt : struct.attempts + 1 < policy.maxAttempts := Nat.lt_of_not_le hmax
        simp only [workerResult, resultAttrs, markAttemptFailed_of_lt hlt]
        exact .again (put_pending_waiting hrow) ((put_succ _ _).trans (congrArg (· + 1) hattempts))
          (hattempts ▸ hlt)

inductive Works (policy : Policy) (row : Delivery) (handedOff : Bool) (attempt : ℕ)
    (parked : Bool) : JobState → Work → Delivery × Bool × Job → Prop
  | fetch : Works policy row handedOff attempt parked .available .fetch
      (row, handedOff, ⟨.started, attempt + 1, parked⟩)
  | snooze {parks : Bool} : Works policy row handedOff attempt parked .started (.snooze parks)
      (row, handedOff, ⟨.scheduled, attempt - 1, parks || parked⟩)
  | skip (h : row.status.settled = true) :
      Works policy row handedOff attempt parked .started .load
        (row, handedOff, ⟨.returned .ok, attempt, parked⟩)
  | load (h : row.status.settled = false) :
      Works policy row handedOff attempt parked .started .load
        (row, handedOff, ⟨.attempting row, attempt, parked⟩)
  | record {struct row' : Delivery} {outcome : Outcome} {now : ℕ} {result : Result}
      (hrow : row' = update now struct row (resultAttrs policy now struct outcome))
      (hresult : result = workerResult policy now struct outcome) :
      Works policy row handedOff attempt parked (.attempting struct) (.record outcome now)
        (row', handedOff || outcome.handsOff, ⟨.returned result, attempt, parked⟩)
  | raise {state : JobState} (h : state.executing = true) :
      Works policy row handedOff attempt parked state .raise
        (row, handedOff, ⟨.returned .error, attempt, parked⟩)
  | ack {result : Result} : Works policy row handedOff attempt parked (.returned result) .ack
      (row, handedOff, ⟨ackState attempt result, attempt, parked⟩)
  | stage : Works policy row handedOff attempt parked .scheduled .stage
      (row, handedOff, ⟨.available, attempt, parked⟩)
  | restage : Works policy row handedOff attempt parked .retryable .stage
      (row, handedOff, ⟨.available, attempt, parked⟩)

variable {policy : Policy} {row row' : Delivery} {handedOff handedOff' : Bool} {job job' : Job}
  {w : Work}

theorem work_works {r : Delivery × Bool × Job} (h : work policy row handedOff job w = some r) :
    Works policy row handedOff job.attempt job.parked job.state w r := by
  obtain ⟨state, attempt, parked⟩ := job
  cases w with
  | fetch => cases state <;> cases h; exact .fetch
  | snooze parks => cases state <;> cases h; exact .snooze
  | load =>
    cases state <;> cases h
    cases hsettled : row.status.settled with
    | true => exact .skip hsettled
    | false => exact .load hsettled
  | record outcome now => cases state <;> cases h; exact .record rfl rfl
  | raise =>
    simp only [work, ite_none_right_eq_some, some.injEq] at h
    obtain ⟨hexecuting, rfl⟩ := h
    exact .raise hexecuting
  | ack => cases state <;> cases h; exact .ack
  | stage =>
    cases state <;> cases h
    · exact .stage
    · exact .restage

/-- An attempt of the job in charge starts from a struct that still shows the row. -/
theorem Shape.attempt {struct : Delivery} {attempt : ℕ} {parked : Bool}
    (hs : Shape row handedOff ⟨.attempting struct, attempt, parked⟩) (policy : Policy) (now : ℕ)
    (outcome : Outcome) :
    handedOff = false ∧ row.attempts + 1 = attempt ∧ attempt ≤ workerMaxAttempts ∧
      Recorded policy row (update now struct row (resultAttrs policy now struct outcome)) outcome
        (workerResult policy now struct outcome) := by
  obtain ⟨⟨hrow, hhand⟩, hcount, hle, hstruct, hattempts, herror⟩ := hs
  exact ⟨hhand, hcount, hle, recorded hrow hstruct hattempts herror outcome⟩

/-- The job has not failed the last execution Oban allows with the delivery still waiting. -/
def Bounded (job : Job) : Prop :=
  match job.state with
  | .returned .error => job.attempt < workerMaxAttempts
  | .discarded => False
  | _ => True

/-- A transient failure of the last execution Oban allows uses up the policy, too. -/
def Within (policy : Policy) (job : Job) : Work → Prop
  | .record (.failed true _) _ =>
    workerMaxAttempts ≤ job.attempt → policy.maxAttempts ≤ workerMaxAttempts
  | _ => True

instance (policy : Policy) (job : Job) : ∀ w, Decidable (Within policy job w)
  | .record (.failed true _) _ => inferInstanceAs (Decidable (_ → _))
  | .record (.failed false _) _ | .record (.sent _) _ | .record (.pending _) _
  | .record (.refused _) _ | .fetch | .snooze _ | .load | .raise | .ack | .stage => .isTrue trivial

theorem Job.release_eq (job : Job) :
    job.release = job ∨
      job.state = .scheduled ∧ job.release = {job with state := .available, parked := false} := by
  by_cases h : job.state = .scheduled ∧ job.parked = true
  · exact .inr ⟨h.1, if_pos h⟩
  · exact .inl (if_neg h)

theorem bounded_park : Bounded job.park ↔ Bounded job := by
  obtain ⟨state, attempt, parked⟩ := job
  cases state <;> cases parked <;> simp [Bounded, Job.park]

theorem bounded_release : Bounded job.release ↔ Bounded job := by
  rcases job.release_eq with hjob | ⟨hstate, hjob⟩
  · rw [hjob]
  · rw [hjob]
    simp [Bounded, hstate]

/-- A statement of the circuit breaker on the row: a waiting status stays waiting and
nothing else that counts is touched. -/
structure Rests (row row' : Delivery) : Prop where
  waiting : row'.status.waiting = row.status.waiting
  settled : row'.status.settled = row.status.settled
  failed : row'.status = .failed ↔ row.status = .failed
  attempts : row'.attempts = row.attempts
  lastError : row'.lastError = row.lastError

theorem Rests.refl (row : Delivery) : Rests row row := ⟨rfl, rfl, .rfl, rfl, rfl⟩

theorem rests_ite (old new : Status) (hwaiting : new.waiting = old.waiting)
    (hsettled : new.settled = old.settled) (hfailed : new = .failed ↔ old = .failed) (now : ℕ)
    (row : Delivery) :
    Rests row (if row.status = old then {row with status := new, updatedAt := now} else row) := by
  split
  · rename_i h
    exact ⟨h ▸ hwaiting, h ▸ hsettled, h ▸ hfailed, rfl, rfl⟩
  · exact .refl row

theorem rests_parkRow (now : ℕ) (row : Delivery) : Rests row (parkRow now row) :=
  rests_ite .pending .paused rfl rfl (by decide) now row

theorem rests_releaseRow (now : ℕ) (row : Delivery) : Rests row (releaseRow now row) :=
  rests_ite .paused .pending rfl rfl (by decide) now row

section
variable (hs : Shape row handedOff job)
  (h : work policy row handedOff job w = some (row', handedOff', job'))
include hs

theorem Shape.park : Shape row handedOff job.park := by
  obtain ⟨state, attempt, parked⟩ := job
  cases state <;> cases parked <;> exact hs

theorem Shape.release : Shape row handedOff job.release := by
  rcases job.release_eq with hjob | ⟨hstate, hjob⟩
  · rwa [hjob]
  · rw [hjob]
    simpa only [Shape, hstate] using hs

theorem Shape.rests (h : Rests row row') : Shape row' handedOff job := by
  obtain ⟨hwaiting, hsettled, hfailed, hattempts, herror⟩ := h
  obtain ⟨state, attempt, parked⟩ := job
  simp only [Shape, Unsent, Passed, hwaiting, hsettled, hfailed, hattempts, herror] at hs ⊢
  exact hs

include h

variable (hw : w ≠ .raise)
include hw

theorem Shape.work : Shape row' handedOff' job' := by
  obtain ⟨state, attempt, parked⟩ := job
  cases work_works h with
  | fetch =>
    obtain ⟨hrow, hattempts, hlt⟩ := hs
    exact ⟨hrow, congrArg (· + 1) hattempts, hlt⟩
  | snooze =>
    obtain ⟨hrow, hattempts, hle⟩ := hs
    refine ⟨hrow, ?_, ?_⟩ <;> simp only at hattempts hle ⊢ <;> omega
  | skip hsettled =>
    rw [hs.1.not_settled] at hsettled
    cases hsettled
  | load =>
    obtain ⟨hrow, hattempts, hle⟩ := hs
    exact ⟨hrow, hattempts, hle, hrow.1, rfl, rfl⟩
  | @record struct _ outcome now _ hrow' hresult =>
    obtain ⟨rfl, hcount, hle, hrecorded⟩ := hs.attempt policy now outcome
    rw [← hrow', ← hresult] at hrecorded
    cases hrecorded with
    | sent hsettled => exact .inl hsettled
    | pending hwaiting => exact .inr ⟨rfl, hwaiting⟩
    | again hwaiting hnext _ => exact ⟨⟨hwaiting, rfl⟩, hnext.trans hcount, hle⟩
    | exhausted hfailed | permanent hfailed | refused hfailed => exact hfailed
  | raise => exact absurd rfl hw
  | @ack result =>
    cases result with
    | ok | cancel => exact hs
    | error =>
      obtain ⟨hrow, hattempts, hle⟩ := hs
      by_cases hmax : workerMaxAttempts ≤ attempt
      · simp only [Shape, ackState, hmax, if_true]
        exact hrow
      · simp only [Shape, ackState, hmax, if_false]
        exact ⟨hrow, hattempts, by omega⟩
  | stage | restage => exact hs

theorem bounded_work : Bounded job' ↔ Bounded job ∧ Within policy job w := by
  obtain ⟨state, attempt, parked⟩ := job
  cases work_works h with
  | @record struct _ outcome now _ hrow' hresult =>
    obtain ⟨-, hcount, hle, hrecorded⟩ := hs.attempt policy now outcome
    rw [← hrow', ← hresult] at hrecorded
    cases hrecorded with
    | sent | pending | permanent | refused => simp [Bounded, Within]
    | again _ _ hlt =>
      simp only [Bounded, Within, true_and]
      omega
    | exhausted _ _ hmax =>
      simp only [Bounded, Within, true_and, true_iff]
      omega
  | raise => exact absurd rfl hw
  | @ack result =>
    cases result with
    | ok | cancel => simp [Bounded, Within, ackState]
    | error =>
      by_cases hmax : workerMaxAttempts ≤ attempt
      · simp [Bounded, Within, ackState, hmax]
      · simp [Bounded, Within, ackState, hmax, Nat.lt_of_not_le hmax]
  | fetch | snooze | skip | load | stage | restage => simp [Bounded, Within]

end

theorem Job.final_iff :
    job.final = true ↔
      job.state = .completed ∨ job.state = .cancelled ∨ job.state = .discarded := by
  simp [Job.final]

end Converger.DeliveryJobs
