import Converger.DeliveryJobs
import Converger.GrowingLists

/-!
# Replays of a dead letter

A replay flips the row back to `pending` and enqueues a job unless it finds one that is not
final. The job that dead-lettered the delivery is executing until Oban has cancelled it. A
dead letter may also have a job to come: a receipt failed the delivery between two attempts,
or the execution raised once it had stored the failure.
-/
namespace Converger.DeliveryJobs
open Deliveries RetryPolicy StaleWrites GuardedRuns Option

/-- A delivery that is pending and was not handed off has a job that will attempt it. -/
def Attended (s : State) : Prop :=
  s.row.status = .pending → s.handedOff = false → ∃ job ∈ s.jobs, job.willAttempt = true

def JobState.isReturned : JobState → Bool
  | .returned _ => true
  | _ => false

/-- The delivery as the execution loaded it. -/
def JobState.struct? : JobState → Option Delivery
  | .attempting struct => some struct
  | _ => none

@[simp] theorem struct?_ackState (attempt : ℕ) (result : Result) :
    (ackState attempt result).struct? = none := by
  fun_cases ackState attempt result <;> rfl

/-- A failure that dead-letters is not recorded from a struct that shows the delivery failed
once it waits again, and the last execution Oban allows records no other failure. -/
def Spends (policy : Policy) (row struct : Delivery) (attempt : ℕ) : Outcome → Prop
  | .sent _ | .pending _ => True
  | .failed true _ =>
    if policy.maxAttempts ≤ struct.attempts + 1 then
      struct.status = .failed → row.status.waiting = false
    else attempt < workerMaxAttempts
  | .failed false _ | .refused _ => struct.status = .failed → row.status.waiting = false

instance (policy : Policy) (row struct : Delivery) (attempt : ℕ) :
    ∀ outcome, Decidable (Spends policy row struct attempt outcome)
  | .sent _ | .pending _ => .isTrue trivial
  | .failed true _ => inferInstanceAs (Decidable (ite _ _ _))
  | .failed false _ | .refused _ => inferInstanceAs (Decidable (_ → _))

/-- A replay looks for jobs once no worker is about to leave the delivery, and no execution
ends the attempts of a delivery that waits for another one. -/
def Timely (policy : Policy) (s : State) : Event → Prop
  | .look => ∀ job ∈ s.jobs, job.state.isReturned = false
  | .work i .raise => ∀ job ∈ s.jobs[i]?, job.attempt < workerMaxAttempts
  | .work i (.record outcome _) =>
    ∀ job ∈ s.jobs[i]?, ∀ struct ∈ job.state.struct?,
      Spends policy s.row struct job.attempt outcome
  | _ => True

instance (policy : Policy) (s : State) : ∀ e, Decidable (Timely policy s e)
  | .look => inferInstanceAs (Decidable (∀ _ ∈ _, _))
  | .work _ .raise => inferInstanceAs (Decidable (∀ _ ∈ _, _))
  | .work _ (.record _ _) => inferInstanceAs (Decidable (∀ _ ∈ _, ∀ _ ∈ _, _))
  | .work _ .fetch | .work _ (.snooze _) | .work _ .load | .work _ .ack | .work _ .stage
  | .parkJobs | .releaseJobs | .parkRow _ | .releaseRow _ | .flip | .commit _ _ | .rollback
  | .receive | .advance _ _ _ => .isTrue trivial

/-- What every step keeps. The delivery is failed until a replay commits, and the job its
look-up found is still to attempt it then. -/
structure Kept (s : State) : Prop where
  attended : s.row.status.waiting = true → s.handedOff = false →
    ∃ job ∈ s.jobs, job.willAttempt = true
  unsettled : ∀ job ∈ s.jobs, ∀ struct ∈ job.state.struct?, struct.status.settled = false
  locked : s.replay.isSome = true → s.row.status = .failed
  found : s.replay = some (.looked true) → ∃ job ∈ s.jobs, job.willAttempt = true

variable {job job' : Job} {row row' : Delivery} {handedOff handedOff' : Bool} {policy : Policy}
  {w : Work} {s t : State} {e : Event}

theorem not_settled_of_waiting {status : Status} (h : status.waiting = true) :
    status.settled = false := by
  cases status <;> simp_all [Status.waiting, Status.settled]

/-- A step that records no result leaves a job that will attempt one that will, unless the
delivery was sent before. -/
theorem willAttempt_work (h : work policy row handedOff job w = some (row', handedOff', job'))
    (hrecord : ∀ outcome now, w ≠ .record outcome now)
    (hraise : w = .raise → job.attempt < workerMaxAttempts)
    (hsettled : row.status.settled = false) (hjob : job.willAttempt = true) :
    job'.willAttempt = true := by
  obtain ⟨state, attempt, parked⟩ := job
  cases work_works h with
  | fetch | snooze | load | stage | restage => rfl
  | skip hskip =>
    rw [hsettled] at hskip
    cases hskip
  | record => exact absurd rfl (hrecord _ _)
  | raise => exact decide_eq_true (hraise rfl)
  | @ack result =>
    cases result with
    | ok | cancel => cases hjob
    | error =>
      have hlt : attempt < workerMaxAttempts := of_decide_eq_true hjob
      simp [ackState, Job.willAttempt, Nat.not_le.mpr hlt]

/-- The result of an attempt leaves the delivery waiting only with a job that will attempt
it, or handed off. -/
theorem attended_record {struct : Delivery} {attempt : ℕ} {outcome : Outcome}
    (now : ℕ) (parked : Bool) (hstruct : struct.status.settled = false)
    (hspends : Spends policy row struct attempt outcome)
    (hwaiting : (update now struct row (resultAttrs policy now struct outcome)).status.waiting =
      true)
    (hhand : outcome.handsOff = false) :
    Job.willAttempt ⟨.returned (workerResult policy now struct outcome), attempt, parked⟩ =
      true := by
  have hdead : (struct.status = .failed → row.status.waiting = false) →
      (put (some Status.failed) struct.status row.status).waiting = false := by
    intro hfresh
    by_cases hfailed : Status.failed = struct.status
    · rw [← hfailed, put_same]
      exact hfresh hfailed.symm
    · rw [put_of_ne hfailed]
      rfl
  cases outcome with
  | sent response =>
    have hne : Status.sent ≠ struct.status := by
      intro hsent
      rw [← hsent] at hstruct
      cases hstruct
    rw [update_status, resultAttrs, markSent, put_of_ne hne] at hwaiting
    cases hwaiting
  | pending response => cases hhand
  | refused refusal =>
    rw [update_status, resultAttrs, markDead, deadLetter, hdead hspends] at hwaiting
    cases hwaiting
  | failed retryable message =>
    cases retryable with
    | false =>
      rw [update_status, resultAttrs, markDead, deadLetter, hdead hspends] at hwaiting
      cases hwaiting
    | true =>
      by_cases hmax : policy.maxAttempts ≤ struct.attempts + 1
      · simp only [Spends, hmax, if_true] at hspends
        rw [update_status, resultAttrs, markAttemptFailed_of_exhausted hmax, markDead, deadLetter,
          hdead hspends] at hwaiting
        cases hwaiting
      · simp only [Spends, hmax, if_false] at hspends
        simp [workerResult, resultAttrs, markAttemptFailed_of_lt (Nat.lt_of_not_le hmax),
          Job.willAttempt, hspends]

theorem Kept.work {i : ℕ} (hs : Kept s) (he : Timely policy s (.work i w))
    (h : step policy s (.work i w) = some t) : Kept t := by
  simp only [step, ite_none_left_eq_some, bind_eq_bind, bind_eq_some_iff] at h
  obtain ⟨hwaits, job, hj, ⟨row, handedOff, job'⟩, hwork, ht⟩ := h
  cases some.inj ht
  have hraise : w = .raise → job.attempt < workerMaxAttempts := by
    rintro rfl
    exact he job hj
  -- A write of the row waits for a replay to end, so in a replay the row stays failed.
  by_cases hw : ∃ outcome now, w = .record outcome now
  · obtain ⟨outcome, now, rfl⟩ := hw
    have hreplay : s.replay = none := by
      cases hr : s.replay with
      | none => rfl
      | some phase => simp [hr, Work.waits] at hwaits
    obtain ⟨state, attempt, parked⟩ := job
    cases work_works hwork with
    | @record struct _ _ _ _ hrow hresult =>
      have hstruct := hs.unsettled _ (List.mem_of_getElem? hj) struct rfl
      have hspends := he _ hj struct rfl
      subst hrow hresult
      refine ⟨fun hwaiting hhand => ?_, ?_, ?_, ?_⟩
      · obtain ⟨-, hhand⟩ := Bool.or_eq_false_iff.mp hhand
        exact ⟨_, List.mem_set (List.getElem?_eq_some_iff.mp hj).1 _,
          attended_record now parked hstruct hspends hwaiting hhand⟩
      · exact List.forall_mem_set hs.unsettled (by simp [JobState.struct?])
      · simp [hreplay]
      · simp [hreplay]
  · have hrecord : ∀ outcome now, w ≠ .record outcome now := fun outcome now heq =>
      hw ⟨outcome, now, heq⟩
    have hsame : row = s.row ∧ handedOff = s.handedOff ∧
        ∀ struct ∈ job'.state.struct?, struct.status.settled = false := by
      obtain ⟨state, attempt, parked⟩ := job
      cases work_works hwork with
      | record => exact absurd rfl (hrecord _ _)
      | load hsettled => exact ⟨rfl, rfl, by simpa [JobState.struct?] using hsettled⟩
      | ack => exact ⟨rfl, rfl, by simp⟩
      | fetch | snooze | skip | raise | stage | restage =>
        exact ⟨rfl, rfl, by simp [JobState.struct?]⟩
    obtain ⟨rfl, rfl, hstruct⟩ := hsame
    refine ⟨fun hwaiting hhand => ?_, List.forall_mem_set hs.unsettled hstruct, hs.locked,
      fun hlooked => ?_⟩
    · exact List.exists_mem_set hj (hs.attended hwaiting hhand)
        (willAttempt_work hwork hrecord hraise (not_settled_of_waiting hwaiting))
    · have hfailed : s.row.status = .failed := hs.locked (by rw [hlooked]; rfl)
      exact List.exists_mem_set hj (hs.found hlooked)
        (willAttempt_work hwork hrecord hraise (by rw [hfailed]; rfl))

/-- A statement on the waiting jobs of the channel. -/
theorem Kept.map {f : Job → Job} (hs : Kept s)
    (hwill : ∀ job : Job, (f job).willAttempt = job.willAttempt)
    (hstruct : ∀ job : Job, (f job).state.struct? = job.state.struct?) :
    Kept { s with jobs := s.jobs.map f } := by
  have hmap : (∃ job ∈ s.jobs, job.willAttempt = true) →
      ∃ job ∈ s.jobs.map f, job.willAttempt = true := by
    rintro ⟨job, hmem, hjob⟩
    exact ⟨f job, List.mem_map_of_mem hmem, (hwill job).trans hjob⟩
  refine ⟨fun hwaiting hhand => hmap (hs.attended hwaiting hhand), ?_, hs.locked,
    fun hlooked => hmap (hs.found hlooked)⟩
  intro job hjob
  obtain ⟨job, hmem, rfl⟩ := List.mem_map.mp hjob
  rw [hstruct]
  exact hs.unsettled job hmem

theorem Kept.rests {receipts : List Delivery} (hs : Kept s)
    (hwaiting : row.status.waiting = true → s.row.status.waiting = true)
    (hfailed : s.replay.isSome = true → row.status = s.row.status) :
    Kept { s with row := row, receipts := receipts } :=
  ⟨fun h hhand => hs.attended (hwaiting h) hhand, hs.unsettled,
    fun h => (hfailed h).trans (hs.locked h), hs.found⟩

theorem Kept.rested (hs : Kept s) (hrests : Rests s.row row) : Kept { s with row := row } := by
  refine hs.rests (fun hw => hrests.waiting ▸ hw) fun hr => ?_
  rw [hs.locked hr, hrests.failed.mpr (hs.locked hr)]

/-- A receipt leaves no delivery waiting that did not wait before. -/
theorem waiting_of_advance {struct : Delivery} {u : StatusUpdate} {attrs : Attrs} {now : ℕ}
    (h : advanceStatus struct u = .written attrs)
    (hwaiting : (update now struct row attrs).status.waiting = true) :
    row.status.waiting = true := by
  obtain ⟨status, hstatus, hshould⟩ : ∃ status, attrs.status = some status ∧
      shouldUpdate struct (some status) = true := by
    revert h
    fun_cases advanceStatus struct u <;> intro h <;> cases h <;> exact ⟨_, rfl, by assumption⟩
  rw [update_status, hstatus] at hwaiting
  by_cases heq : status = struct.status
  · rwa [heq, put_same] at hwaiting
  · rw [put_of_ne heq] at hwaiting
    cases status <;> cases hstruct : struct.status <;>
      simp_all [shouldUpdate, Status.rank, Status.waiting]

theorem Kept.step (hs : Kept s) (he : Timely policy s e) (h : step policy s e = some t) :
    Kept t := by
  cases e with
  | work i w => exact hs.work he h
  | parkJobs | releaseJobs =>
    cases some.inj h
    refine hs.map (fun job => ?_) fun job => ?_ <;> obtain ⟨state, attempt, parked⟩ := job <;>
      cases state <;> cases parked <;> rfl
  | parkRow now =>
    cases some.inj h
    exact hs.rested (rests_parkRow now s.row)
  | releaseRow now =>
    cases some.inj h
    exact hs.rested (rests_releaseRow now s.row)
  | flip =>
    simp only [DeliveryJobs.step, ite_none_right_eq_some, some.injEq] at h
    obtain ⟨⟨hrow, -⟩, rfl⟩ := h
    exact ⟨hs.attended, hs.unsettled, fun _ => hrow, by simp⟩
  | look =>
    simp only [DeliveryJobs.step, ite_none_right_eq_some, some.injEq] at h
    obtain ⟨hreplay, rfl⟩ := h
    refine ⟨hs.attended, hs.unsettled, fun _ => hs.locked (by rw [hreplay]; rfl),
      fun hlooked => ?_⟩
    have hany : (s.jobs.any fun job => !job.final) = true := by simpa using hlooked
    obtain ⟨job, hmem, hfinal⟩ := List.any_eq_true.mp hany
    have hreturned := he job hmem
    refine ⟨job, hmem, ?_⟩
    obtain ⟨state, attempt, parked⟩ := job
    cases state with
    | completed | cancelled | discarded => cases hfinal
    | returned result => cases hreturned
    | _ => rfl
  | commit actor now =>
    simp only [DeliveryJobs.step] at h
    split at h
    · rename_i running hreplay
      cases some.inj h
      cases running with
      | true => exact ⟨fun _ _ => hs.found hreplay, hs.unsettled, by simp, by simp⟩
      | false =>
        refine ⟨fun _ _ => ⟨{}, by simp, rfl⟩, ?_, by simp, by simp⟩
        exact List.forall_mem_snoc hs.unsettled (by simp [JobState.struct?])
    · cases h
  | rollback =>
    simp only [DeliveryJobs.step, ite_none_right_eq_some, some.injEq] at h
    obtain ⟨-, rfl⟩ := h
    exact ⟨hs.attended, hs.unsettled, by simp, by simp⟩
  | receive =>
    cases some.inj h
    exact hs.rests id fun _ => rfl
  | advance i u now =>
    simp only [DeliveryJobs.step, ite_none_left_eq_some, bind_eq_bind, bind_eq_some_iff] at h
    obtain ⟨hreplay, struct, -, h⟩ := h
    split at h
    · rename_i attrs hattrs
      cases some.inj h
      exact hs.rests (waiting_of_advance hattrs) fun hr => absurd hr hreplay
    · cases some.inj h
      exact hs.rests id fun _ => rfl

/-- In a run whose replays look for jobs at the right time, and whose executions end no attempts
that are still due, a pending delivery that was not handed off has a job that will attempt it. -/
theorem pending_attended (policy : Policy) (id : Uuid) (activity : Activity) (channelId : Uuid)
    (now : ℕ) {es : List Event} {t : State}
    (hes : Along (step policy) (Timely policy)
      (.enqueued (createDelivery id activity channelId now)) es)
    (h : run (step policy) (.enqueued (createDelivery id activity channelId now)) es = some t) :
    Attended t := by
  have hstart : Kept (.enqueued (createDelivery id activity channelId now)) :=
    ⟨fun _ _ => ⟨{}, List.mem_singleton_self _, rfl⟩, by simp [State.enqueued, JobState.struct?],
      by simp [State.enqueued], by simp [State.enqueued]⟩
  have ht : Kept t := run_invariant_along Kept.step hstart hes h
  intro hpending hhand
  exact ht.attended (by rw [hpending]; rfl) hhand

/-- The first execution raises, the second sends, and a receipt of the provider fails the
delivery, which is then replayed. -/
def failedByReceipt : List Event :=
  [.work 0 .fetch, .work 0 .load, .work 0 .raise, .work 0 .ack, .work 0 .stage,
    .work 0 .fetch, .work 0 .load, .work 0 (.record (.sent []) 1), .work 0 .ack,
    .receive, .advance 0 { status := some .failed, timestamp := some 2 } 2,
    .flip, .look, .commit "admin" 3]

theorem pending_attended_replayed :
    ∃ t, run (step {}) (.enqueued (createDelivery 1 { id := 2, conversationId := 3, seq := 1 } 4 0))
        failedByReceipt = some t ∧
      t.row.status = .pending ∧ t.jobs.map Job.state = [.completed, .available] ∧ Attended t := by
  have hrun : (run (step {}) (.enqueued (createDelivery 1
      { id := 2, conversationId := 3, seq := 1 } 4 0)) failedByReceipt).map
        (fun t => (t.row.status, t.jobs.map Job.state)) =
        some (.pending, [.completed, .available]) := by
    decide +kernel
  obtain ⟨t, ht, hend⟩ := map_eq_some_iff.mp hrun
  simp only [Prod.mk.injEq] at hend
  exact ⟨t, ht, hend.1, hend.2, pending_attended {} _ _ _ _ (by decide +kernel) ht⟩

def deadLettered : List Event :=
  [.work 0 .fetch, .work 0 .load, .work 0 (.record (.failed false "invalid recipient") 1)]

/-- The replay sees the job that dead-lettered the delivery as running and enqueues none. -/
theorem replay_left_without_job :
    ∃ t, run (step {}) (.enqueued {})
        (deadLettered ++ [.flip, .look, .commit "admin" 2, .work 0 .ack]) = some t ∧
      t.row.retryCount = 1 ∧ t.jobs.map Job.state = [.cancelled] ∧ ¬ Attended t := by
  have hrun : (run (step {}) (.enqueued {})
      (deadLettered ++ [.flip, .look, .commit "admin" 2, .work 0 .ack])).map
        (fun t => (t.row.status, t.row.retryCount, t.handedOff, t.jobs)) =
          some (.pending, 1, false, [⟨.cancelled, 1, false⟩]) := by
    decide +kernel
  obtain ⟨t, ht, hend⟩ := Option.map_eq_some_iff.mp hrun
  simp only [Prod.mk.injEq] at hend
  obtain ⟨hstatus, hcount, hhand, hjobs⟩ := hend
  refine ⟨t, ht, hcount, by simp [hjobs], fun hattended => ?_⟩
  obtain ⟨job, hjob, hwill⟩ := hattended hstatus hhand
  rw [hjobs, List.mem_singleton] at hjob
  subst hjob
  cases hwill

end Converger.DeliveryJobs
