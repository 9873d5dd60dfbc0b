import Converger.DeliveryJobs

/-!
# Where a delivery stands when its job ends

Two counters limit the attempts: the policy's, kept in the delivery row, and Oban's own
limit for the worker. Validation bounds the first from below only.
-/
namespace Converger.DeliveryJobs
open Deliveries RetryPolicy Text GuardedRuns List Option

def Settles (s : State) : Prop :=
  Passed s.row s.handedOff ∨ s.row.status = .failed ∧ s.row.lastError.isSome = true

/-- The steps of jobs whose adapter returns and of the circuit breaker; the rest are executions
that raise, receipts of the provider and replays by an operator. -/
def Event.ofWorker : Event → Bool
  | .work _ .raise => false
  | .work _ _ | .parkJobs | .releaseJobs | .parkRow _ | .releaseRow _ => true
  | .flip | .look | .commit _ _ | .rollback | .receive | .advance _ _ _ => false

def Explained (row : Delivery) (job : Job) : Prop :=
  match job.state with
  | .returned .cancel | .cancelled => row.lastError.isSome = true
  | _ => True

/-- The failure that ends the delivery has a message with something in it. -/
def Named (policy : Policy) (job : Job) : Work → Prop
  | .record (.failed retryable message) _ =>
    (retryable = true → policy.maxAttempts ≤ job.attempt) → blank message = false
  | _ => True

theorem Refusal.message_not_blank (refusal : Refusal) : blank refusal.message = false := by
  have hlead : ∀ lead rest : String, blank lead = false → blank (lead ++ rest) = false :=
    fun lead rest h => by rw [blank_append, h, Bool.false_and]
  cases refusal with
  | optedOut recipient => exact hlead _ _ (hlead "recipient " recipient (by decide))
  | unsupported type => exact hlead "skipped: unsupported activity type " type (by decide)
  | halted reason => exact hlead "halted: " reason (by decide)

variable {row row' : Delivery} {job : Job} {policy : Policy} {handedOff : Bool} {s : State}

theorem explained_work {handedOff' : Bool} {job' : Job} {w : Work} (hs : Shape row handedOff job)
    (h : work policy row handedOff job w = some (row', handedOff', job')) (hw : w ≠ .raise) :
    Explained row' job' ↔ Explained row job ∧ Named policy job w := by
  obtain ⟨state, attempt, parked⟩ := job
  cases work_works h with
  | @record struct _ outcome now _ hrow' hresult =>
    obtain ⟨-, hcount, -, hrecorded⟩ := hs.attempt policy now outcome
    rw [← hrow', ← hresult] at hrecorded
    cases hrecorded with
    | sent | pending => simp [Explained, Named]
    | again _ _ hlt =>
      have hmax : ¬ policy.maxAttempts ≤ attempt := by omega
      simp [Explained, Named, hmax]
    | exhausted _ hlast hmax =>
      have hmax : policy.maxAttempts ≤ attempt := by omega
      simp [Explained, Named, hlast, hmax]
    | permanent _ hlast => simp [Explained, Named, hlast]
    | refused _ hlast => simp [Explained, Named, hlast, Refusal.message_not_blank]
  | raise => exact absurd rfl hw
  | @ack result =>
    cases result with
    | ok | cancel => simp [Explained, Named, ackState]
    | error =>
      by_cases hmax : workerMaxAttempts ≤ attempt <;> simp [Explained, Named, ackState, hmax]
  | fetch | snooze | skip | load | stage | restage => simp [Explained, Named]

theorem explained_park : Explained row job.park ↔ Explained row job := by
  obtain ⟨state, attempt, parked⟩ := job
  cases state <;> cases parked <;> simp [Explained, Job.park]

theorem explained_release : Explained row job.release ↔ Explained row job := by
  rcases job.release_eq with hjob | ⟨hstate, hjob⟩
  · rw [hjob]
  · rw [hjob]
    simp [Explained, hstate]

theorem explained_rests (h : Rests row row') : Explained row' job ↔ Explained row job := by
  simp only [Explained, h.lastError]

/-- A step ends no delivery without its reason and no job before its delivery. -/
def Sound (policy : Policy) (s : State) : Event → Prop
  | .work i w => ∀ job ∈ s.jobs[i]?, Within policy job w ∧ Named policy job w
  | _ => True

def Single (s : State) : Prop := ∃ job, s.jobs = [job] ∧ Shape s.row s.handedOff job

def Answered (s : State) : Prop := ∀ job ∈ s.jobs, Bounded job ∧ Explained s.row job

/-- What a step of the worker or of the circuit breaker does where `job` is the only job. -/
inductive Moves (policy : Policy) (s : State) (job : Job) : Event → State → Prop
  | work {w : Work} {row : Delivery} {handedOff : Bool} {job' : Job} (hw : w ≠ .raise)
      (hwork : work policy s.row s.handedOff job w = some (row, handedOff, job')) :
      Moves policy s job (.work 0 w)
        { s with row := row, handedOff := handedOff, jobs := [job'] }
  | parkJobs : Moves policy s job .parkJobs { s with jobs := [job.park] }
  | releaseJobs : Moves policy s job .releaseJobs { s with jobs := [job.release] }
  | parkRow {now : ℕ} : Moves policy s job (.parkRow now) { s with row := parkRow now s.row }
  | releaseRow {now : ℕ} :
      Moves policy s job (.releaseRow now) { s with row := releaseRow now s.row }

theorem step_moves {t : State} {e : Event} (hjobs : s.jobs = [job]) (he : e.ofWorker = true)
    (h : step policy s e = some t) : Moves policy s job e t := by
  cases e with
  | work i w =>
    have hw : w ≠ .raise := by
      rintro rfl
      cases he
    simp only [step, ite_none_left_eq_some, bind_eq_bind, bind_eq_some_iff] at h
    obtain ⟨-, j, hj, ⟨row, handedOff, job'⟩, hwork, ht⟩ := h
    cases some.inj ht
    rw [hjobs, getElem?_singleton, ite_none_right_eq_some] at hj
    obtain ⟨rfl, hj⟩ := hj
    obtain rfl := some.inj hj
    simp only [hjobs, set_cons_zero]
    exact .work hw hwork
  | parkJobs =>
    cases some.inj h
    simp only [hjobs, map_cons, map_nil]
    exact .parkJobs
  | releaseJobs =>
    cases some.inj h
    simp only [hjobs, map_cons, map_nil]
    exact .releaseJobs
  | parkRow now =>
    cases some.inj h
    exact .parkRow
  | releaseRow now =>
    cases some.inj h
    exact .releaseRow
  | flip | look | commit | rollback | receive | advance => cases he

theorem step_answered {t : State} {e : Event} (hs : Single s) (he : e.ofWorker = true)
    (h : step policy s e = some t) : Single t ∧ (Answered t ↔ Answered s ∧ Sound policy s e) := by
  obtain ⟨job, hjobs, hshape⟩ := hs
  cases step_moves hjobs he h with
  | @work w row handedOff job' hw hwork =>
    refine ⟨⟨job', rfl, hshape.work hwork hw⟩, ?_⟩
    simp only [Answered, Sound, hjobs, forall_mem_singleton,
      bounded_work hshape hwork hw, explained_work hshape hwork hw,
      getElem?_cons_zero, mem_some_iff, forall_eq']
    exact and_and_and_comm
  | parkJobs =>
    refine ⟨⟨job.park, rfl, hshape.park⟩, ?_⟩
    simp [Answered, Sound, hjobs, bounded_park, explained_park]
  | releaseJobs =>
    refine ⟨⟨job.release, rfl, hshape.release⟩, ?_⟩
    simp [Answered, Sound, hjobs, bounded_release, explained_release]
  | @parkRow now =>
    refine ⟨⟨job, hjobs, hshape.rests (rests_parkRow now s.row)⟩, ?_⟩
    simp [Answered, Sound, hjobs, explained_rests (rests_parkRow now s.row)]
  | @releaseRow now =>
    refine ⟨⟨job, hjobs, hshape.rests (rests_releaseRow now s.row)⟩, ?_⟩
    simp [Answered, Sound, hjobs, explained_rests (rests_releaseRow now s.row)]

theorem Unsent.not_passed (h : Unsent row handedOff) : ¬ Passed row handedOff := by
  rintro (hsettled | ⟨hhand, -⟩)
  · rw [h.not_settled] at hsettled
    cases hsettled
  · rw [h.2] at hhand
    cases hhand

theorem settles_iff_answered (hs : Single s)
    (hfinal : ∀ job ∈ s.jobs, job.final = true) : Settles s ↔ Answered s := by
  obtain ⟨⟨state, attempt, parked⟩, hjobs, hshape⟩ := hs
  simp only [hjobs, forall_mem_singleton, Job.final_iff] at hfinal
  simp only [Answered, hjobs, forall_mem_singleton]
  rcases hfinal with rfl | rfl | rfl
  · have hpassed : Passed s.row s.handedOff := hshape
    simp [Settles, hpassed, Bounded, Explained]
  · have hfailed : s.row.status = .failed := hshape
    simp [Settles, Passed, hfailed, Status.settled, Status.waiting, Bounded, Explained]
  · have hunsent : Unsent s.row s.handedOff := hshape
    have hne : s.row.status ≠ .failed := by
      intro hfailed
      have hwaiting := hunsent.1
      rw [hfailed] at hwaiting
      cases hwaiting
    simp [Settles, hunsent.not_passed, hne, Bounded]

theorem single_enqueued (id : Uuid) (activity : Activity) (channelId : Uuid) (now : ℕ) :
    Single (.enqueued (createDelivery id activity channelId now)) :=
  ⟨{}, rfl, ⟨rfl, rfl⟩, rfl, by decide⟩

/-- A job that ends leaves its delivery sent, handed off or failed with a reason exactly
where no transient failure of the last execution leaves the policy attempts, and the failure
that ends the delivery has a message. -/
theorem job_end_settles_iff {default base : Policy} {adapter channel : List (String × Json)}
    (hbase : merge default adapter = some base) (hvalid : validate channel = some (.ok ()))
    (id : Uuid) (activity : Activity) (channelId : Uuid) (now : ℕ) :
    ∃ policy, forChannel default adapter channel = some policy ∧
      ∀ (es : List Event) (t : State), (∀ e ∈ es, e.ofWorker = true) →
        run (step policy) (.enqueued (createDelivery id activity channelId now)) es = some t →
        (∀ job ∈ t.jobs, job.final = true) →
        (Settles t ↔ Along (step policy) (Sound policy)
          (.enqueued (createDelivery id activity channelId now)) es) := by
  obtain ⟨policy, hpolicy⟩ := merge_of_valid hvalid base
  refine ⟨policy, by rw [forChannel, hbase]; exact hpolicy, fun es t hes hrun hfinal => ?_⟩
  have hstart := single_enqueued id activity channelId now
  have hstep : ∀ s e t, Single s → Event.ofWorker e = true → step policy s e = some t →
      Single t ∧ (Answered t ↔ Answered s ∧ Sound policy s e) := fun _ _ _ => step_answered
  have hsingle : Single t :=
    run_invariant_forall (fun hs he hst => (hstep _ _ _ hs he hst).1) hstart hes hrun
  rw [settles_iff_answered hsingle hfinal]
  exact run_iff_along hstep hstart (by simp [Answered, State.enqueued, Bounded, Explained]) hes hrun

/-- One execution that the provider fails with a timeout, and the wait for the next. -/
def failedRound : List Event :=
  [.work 0 .fetch, .work 0 .load, .work 0 (.record (.failed true "timeout") 0), .work 0 .ack]

/-- The breaker opens and closes again, and the third failure uses up the policy. -/
def parkedThenFailed : List Event :=
  [.parkJobs, .parkRow 1, .releaseJobs, .releaseRow 2] ++
    (List.replicate 2 (failedRound ++ [.work 0 .stage])).flatten ++ failedRound

theorem job_end_settles_iff_parked :
    ∃ policy, forChannel {} [("timeout_ms", .int 10000)] [("max_attempts", .int 3)] =
        some policy ∧
      ∃ t, run (step policy) (.enqueued (createDelivery 1 {id := 2, conversationId := 3, seq := 1}
          4 0)) parkedThenFailed = some t ∧
        t.jobs.map Job.state = [.cancelled] ∧
        (Settles t ↔ Along (step policy) (Sound policy) (.enqueued (createDelivery 1
          {id := 2, conversationId := 3, seq := 1} 4 0)) parkedThenFailed) := by
  obtain ⟨policy, hpolicy, hsettles⟩ :=
    @job_end_settles_iff {} {timeoutMs := 10000} [("timeout_ms", .int 10000)]
      [("max_attempts", .int 3)] (by decide +kernel) (by decide +kernel) 1
      {id := 2, conversationId := 3, seq := 1} 4 0
  have hmerged : forChannel {} [("timeout_ms", .int 10000)] [("max_attempts", .int 3)] =
      some {maxAttempts := 3, timeoutMs := 10000} := by decide +kernel
  obtain rfl := some.inj (hmerged.symm.trans hpolicy)
  have hrun : (run (step {maxAttempts := 3, timeoutMs := 10000}) (.enqueued (createDelivery 1
      {id := 2, conversationId := 3, seq := 1} 4 0)) parkedThenFailed).map
        (fun t => (t.jobs.map Job.state, t.jobs.all Job.final)) = some ([.cancelled], true) := by
    decide +kernel
  obtain ⟨t, ht, hend⟩ := map_eq_some_iff.mp hrun
  simp only [Prod.mk.injEq, List.all_eq_true] at hend
  exact ⟨_, hpolicy, t, ht, hend.1, hsettles _ t (by decide +kernel) ht hend.2⟩

def hundredFailures : List Event :=
  (List.replicate 99 (failedRound ++ [.work 0 .stage])).flatten ++ failedRound

theorem discarded_while_pending :
    validate [("max_attempts", .int 150)] = some (.ok ()) ∧
      ∃ policy, forChannel {} [] [("max_attempts", .int 150)] = some policy ∧
        (∀ e ∈ hundredFailures, e.ofWorker = true) ∧
        ∃ t, run (step policy) (.enqueued {}) hundredFailures = some t ∧
          t.jobs.map Job.state = [.discarded] ∧ t.row.status = .pending ∧ ¬ Settles t := by
  refine ⟨by decide +kernel, {maxAttempts := 150}, by decide +kernel, by decide +kernel, ?_⟩
  have hrun : (run (step {maxAttempts := 150}) (.enqueued {}) hundredFailures).map
      (fun t => (t.jobs.map Job.state, t.row.status, t.handedOff)) =
        some ([.discarded], .pending, false) := by
    decide +kernel
  obtain ⟨t, ht, hend⟩ := map_eq_some_iff.mp hrun
  simp only [Prod.mk.injEq] at hend
  obtain ⟨hjobs, hstatus, hhand⟩ := hend
  refine ⟨t, ht, hjobs, hstatus, ?_⟩
  simp [Settles, Passed, hstatus, hhand, Status.settled]

end Converger.DeliveryJobs
