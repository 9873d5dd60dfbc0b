import Converger.BackboneDispatch

/-!
# Publishing backbone events to a broker

`Backbone.publish/2`, `publish_in_transaction/2` and the `BackbonePublishWorker` jobs of one broker,
with a step for every access to the registry, the broker and the database. A publish that fails
marks the broker as down on its node and parks the event in a job; within the down window events are
parked without asking the broker. Jobs are fetched in any order and at any time after their backoff.
-/
namespace Converger.BackbonePublish
open BackboneDispatch Function GuardedRuns List Option

section FirstOccurrence
variable {α : Type*} [DecidableEq α] {order new : List (α × α)} {log : List α} {a : α}

/-- For every pair the first component is in the log before the second one. -/
def KeepsOrder (order : List (α × α)) (log : List α) : Prop :=
  ∀ p ∈ order, p.2 ∈ log → log.idxOf p.1 < log.idxOf p.2

instance (order : List (α × α)) (log : List α) : Decidable (KeepsOrder order log) :=
  inferInstanceAs (Decidable (∀ p ∈ order, p.2 ∈ log → log.idxOf p.1 < log.idxOf p.2))

theorem keepsOrder_append_order (hnew : ∀ p ∈ new, p.2 ∉ log) :
    KeepsOrder (order ++ new) log ↔ KeepsOrder order log := by
  constructor
  · intro h p hp
    exact h p (mem_append_left _ hp)
  · intro h p hp hlog
    obtain hp | hp := mem_append.mp hp
    · exact h p hp hlog
    · exact absurd hlog (hnew p hp)

/-- An entry keeps the order exactly if it is not its first one or comes after all that precede it. -/
theorem keepsOrder_append_singleton :
    KeepsOrder order (log ++ [a]) ↔
      KeepsOrder order log ∧ (a ∉ log → ∀ p ∈ order, p.2 = a → p.1 ∈ log) := by
  constructor
  · intro h
    constructor
    · intro p hp hlog
      have hlt := h p hp (mem_append_left _ hlog)
      rw [idxOf_append_of_mem hlog] at hlt
      by_cases hfirst : p.1 ∈ log
      · rwa [idxOf_append_of_mem hfirst] at hlt
      · have hlast := idxOf_lt_length_iff.mpr hlog
        rw [idxOf_append_of_notMem hfirst] at hlt
        omega
    · rintro ha p hp rfl
      by_contra hfirst
      have hlt := h p hp (mem_concat_self)
      rw [idxOf_append_of_notMem hfirst, idxOf_append_of_notMem ha, idxOf_cons_self] at hlt
      omega
  · rintro ⟨h, ha⟩ p hp hlog
    by_cases hsecond : p.2 ∈ log
    · have hlt := h p hp hsecond
      have hfirst : p.1 ∈ log :=
        idxOf_lt_length_iff.mp (Nat.lt_trans hlt (idxOf_lt_length_iff.mpr hsecond))
      rwa [idxOf_append_of_mem hfirst, idxOf_append_of_mem hsecond]
    · have heq : p.2 = a := by simpa [hsecond] using hlog
      have hfirst : p.1 ∈ log := ha (heq ▸ hsecond) p hp heq
      rw [idxOf_append_of_mem hfirst, idxOf_append_of_notMem hsecond]
      exact Nat.lt_add_right _ (idxOf_lt_length_iff.mpr hfirst)

end FirstOccurrence

structure Config where
  downMs : ℕ := 5000
  /-- `max_attempts` of the worker. -/
  maxAttempts : ℕ := 50

/-- `published` is an executing job whose event the broker has taken. -/
inductive JobState where
  | available | executing | published | completed | discarded
  deriving DecidableEq, Repr

structure Job where
  event : BackboneEvent
  attempt : ℕ := 0
  state : JobState := .available
  deriving DecidableEq, Repr

/-- Where a call of `publish_to/2` is. -/
inductive Phase where
  | check | produce | markUp | markDown | park
  | returned (ok : Bool)
  | crashed
  deriving DecidableEq, Repr

structure Call where
  node : ℕ
  event : BackboneEvent
  phase : Phase := .check
  deriving DecidableEq, Repr

/-- The clock and the down windows of the nodes, the calls and the jobs; the events the broker took,
in their order; and the order of publishing: the events that are published (the publish returned
`:ok`, or its transaction is committed), the events a publish has begun for, and the pairs of one
conversation where the first was published before the second one began. -/
structure State where
  clock : ℕ := 0
  downUntil : ℕ → Option ℕ := fun _ => none
  calls : ℕ → Option Call := fun _ => none
  jobs : List Job := []
  handed : List BackboneEvent := []
  published : List BackboneEvent := []
  requested : List BackboneEvent := []
  order : List (BackboneEvent × BackboneEvent) := []

/-- Whether the broker answered `:ok`, the insert of a job was committed, and its answer arrived. -/
structure Answer where
  ok : Bool := true
  inserted : Bool := true
  answered : Bool := true
  deriving DecidableEq, Repr

inductive Event where
  | tick (ms : ℕ)
  | publish (pid node : ℕ) (event : BackboneEvent)
  /-- The commit of a transaction with `publish_in_transaction/2`. -/
  | commit (events : List BackboneEvent)
  | advance (pid : ℕ) (a : Answer)
  | crash (pid : ℕ)
  | fetch (job : ℕ)
  /-- `perform/1`: the broker's answer to a job. -/
  | perform (job : ℕ) (ok : Bool)
  | complete (job node : ℕ)
  /-- The node of an executing job died. -/
  | rescue (job : ℕ)
  deriving DecidableEq, Repr

namespace State

def setCall (s : State) (pid : ℕ) (call : Call) : State :=
  {s with calls := update s.calls pid (some call)}

def request (s : State) (event : BackboneEvent) : State :=
  if event ∈ s.requested then s
  else {s with
    requested := s.requested ++ [event]
    order := s.order ++ (s.published.filter fun earlier =>
      earlier.topic = event.topic ∧ earlier.key = event.key).map (·, event)}

def isDown (s : State) (node : ℕ) : Bool := (s.downUntil node).any (s.clock < ·)

end State

/-- A step of `publish_to/2`. -/
def next (cfg : Config) (s : State) (pid : ℕ) (call : Call) (a : Answer) : Option State :=
  match call.phase with
  | .check => some (s.setCall pid {call with phase := if s.isDown call.node then .park else .produce})
  | .produce =>
    if a.ok then
      some ({s with handed := s.handed ++ [call.event]}.setCall pid {call with phase := .markUp})
    else some (s.setCall pid {call with phase := .markDown})
  | .markUp =>
    some ({s with
      downUntil := update s.downUntil call.node none
      published := s.published ++ [call.event]}.setCall pid {call with phase := .returned true})
  | .markDown =>
    some ({s with
      downUntil := update s.downUntil call.node (some (s.clock + cfg.downMs))}.setCall pid
        {call with phase := .park})
  | .park =>
    let jobs := if a.inserted then s.jobs ++ [{event := call.event}] else s.jobs
    if a.inserted ∧ a.answered then
      some ({s with jobs, published := s.published ++ [call.event]}.setCall pid
        {call with phase := .returned true})
    else some ({s with jobs}.setCall pid {call with phase := .returned false})
  | .returned _ | .crashed => none

def Job.failed (cfg : Config) (job : Job) : Job :=
  {job with state := if cfg.maxAttempts ≤ job.attempt then .discarded else .available}

def step (cfg : Config) (s : State) : Event → Option State
  | .tick ms => some {s with clock := s.clock + ms}
  | .publish pid node event =>
    if s.calls pid = none then some ((s.request event).setCall pid {node, event}) else none
  | .commit events =>
    let s' := events.foldl State.request s
    some {s' with
      jobs := s'.jobs ++ events.map fun event => {event}
      published := s'.published ++ events}
  | .advance pid a => (s.calls pid).bind fun call => next cfg s pid call a
  | .crash pid => (s.calls pid).bind fun call =>
    match call.phase with
    | .returned _ | .crashed => none
    | _ => some (s.setCall pid {call with phase := .crashed})
  | .fetch j => s.jobs[j]?.bind fun job =>
    if job.state = .available then
      some {s with jobs := s.jobs.set j {job with state := .executing, attempt := job.attempt + 1}}
    else none
  | .perform j ok => s.jobs[j]?.bind fun job =>
    if job.state = .executing then
      if ok then
        some {s with
          handed := s.handed ++ [job.event]
          jobs := s.jobs.set j {job with state := .published}}
      else some {s with jobs := s.jobs.set j (job.failed cfg)}
    else none
  | .complete j node => s.jobs[j]?.bind fun job =>
    if job.state = .published then
      some {s with
        downUntil := update s.downUntil node none
        jobs := s.jobs.set j {job with state := .completed}}
    else none
  | .rescue j => s.jobs[j]?.bind fun job =>
    if job.state = .executing ∨ job.state = .published then
      some {s with jobs := s.jobs.set j (job.failed cfg)}
    else none

def handsOver (s : State) : Event → Option BackboneEvent
  | .advance pid a => (s.calls pid).bind fun call =>
    if call.phase = .produce ∧ a.ok then some call.event else none
  | .perform j ok => s.jobs[j]?.bind fun job =>
    if job.state = .executing ∧ ok then some job.event else none
  | _ => none

def State.queued (s : State) : List BackboneEvent := s.jobs.map Job.event

def SameKey (a b : BackboneEvent) : Prop := a.topic = b.topic ∧ a.key = b.key

instance (a b : BackboneEvent) : Decidable (SameKey a b) := inferInstanceAs (Decidable (_ ∧ _))

/-- The broker is asked to take an event only if it has taken the events of the conversation that are
in jobs: all of them for a call, for a job those of the jobs before it. -/
def Undisturbed (s : State) : Event → Prop
  | .advance pid _ => ∀ call ∈ s.calls pid, call.phase = .produce →
      ∀ event ∈ s.queued, SameKey event call.event → event ≠ call.event → event ∈ s.handed
  | .perform j _ => ∀ job ∈ s.jobs[j]?, ∀ event ∈ s.queued.take j, SameKey event job.event →
      event ∈ s.handed
  | _ => True

instance (s : State) : ∀ e, Decidable (Undisturbed s e)
  | .advance pid _ => inferInstanceAs (Decidable (∀ call ∈ s.calls pid, _))
  | .perform j _ => inferInstanceAs (Decidable (∀ job ∈ s.jobs[j]?, _))
  | .tick _ | .publish .. | .commit _ | .crash _ | .fetch _ | .complete .. | .rescue _ =>
    .isTrue trivial

/-- The broker does not take an event for the first time while a job still has one that was
published before it. -/
def NotOvertaking (s : State) (taken : Option BackboneEvent) : Prop :=
  ∀ event ∈ taken, event ∉ s.handed →
    ∀ earlier ∈ s.queued, (earlier, event) ∈ s.order → earlier ∈ s.handed

/-! ### What a step does -/

variable {cfg : Config} {s t : State} {e : Event} {pid clock : ℕ} {call : Call} {a : Answer}
  {event : BackboneEvent} {events handed published : List BackboneEvent}
  {taken : Option BackboneEvent} {downUntil : ℕ → Option ℕ} {jobs : List Job}

/-- An event that was published before another one is not taken by the broker only where it is in a
job before all jobs of the other. -/
def Ahead (s : State) (p : BackboneEvent × BackboneEvent) : Prop :=
  p.1 ∈ s.handed ∨ ∃ i : ℕ, s.queued[i]? = some p.1 ∧ ∀ j : ℕ, s.queued[j]? = some p.2 → i < j

structure Inv (s : State) : Prop where
  waiting : ∀ event ∈ s.published, event ∈ s.handed ∨ event ∈ s.queued
  order : ∀ p ∈ s.order, p.1 ∈ s.published ∧ SameKey p.1 p.2 ∧ p.1 ≠ p.2
  ahead : ∀ p ∈ s.order, Ahead s p
  handed : s.handed ⊆ s.requested
  queued : s.queued ⊆ s.requested
  calls : ∀ pid call, s.calls pid = some call →
    call.event ∈ s.requested ∧ (call.phase = .markUp → call.event ∈ s.handed)

/-- A step without a new publish, in which the broker takes `taken`. -/
structure Change (s : State) (taken : Option BackboneEvent) (t : State) : Prop where
  order : t.order = s.order
  requested : t.requested = s.requested
  handed : t.handed = s.handed ++ taken.toList
  known : ∀ event ∈ taken, event ∈ s.requested
  kept : s.published ⊆ t.published
  published : ∀ event ∈ t.published, event ∈ s.published ∨ event ∈ t.handed ∨ event ∈ t.queued
  appended : s.queued <+: t.queued
  queued : t.queued ⊆ s.requested
  calls : ∀ pid call, t.calls pid = some call →
    call.event ∈ s.requested ∧ (call.phase = .markUp → call.event ∈ t.handed)

theorem Ahead.of_change {p : BackboneEvent × BackboneEvent} (hp : Ahead s p) (h : Change s taken t) :
    Ahead t p := by
  obtain hhanded | ⟨i, hi, hfirst⟩ := hp
  · exact .inl (h.handed ▸ mem_append_left _ hhanded)
  · obtain ⟨new, hnew⟩ := h.appended
    have hlt : i < s.queued.length := (List.getElem?_eq_some_iff.mp hi).1
    refine .inr ⟨i, ?_, fun j hj => ?_⟩
    · rw [← hnew, getElem?_append_left hlt, hi]
    · rcases Nat.lt_or_ge j s.queued.length with hj' | hj'
      · rw [← hnew, getElem?_append_left hj'] at hj
        exact hfirst j hj
      · exact Nat.lt_of_lt_of_le hlt hj'

theorem Inv.of_change (hs : Inv s) (h : Change s taken t) : Inv t where
  waiting event hevent := by
    have hhanded : s.handed ⊆ t.handed := h.handed ▸ subset_append_left _ _
    obtain hold | hnew := h.published event hevent
    · exact (hs.waiting event hold).imp (@hhanded event) fun hwaiting => h.appended.subset hwaiting
    · exact hnew
  order p hp := (hs.order p (h.order ▸ hp)).imp_left (@h.kept p.1)
  ahead p hp := (hs.ahead p (h.order ▸ hp)).of_change h
  handed event hevent := by
    rw [h.handed, mem_append, mem_toList] at hevent
    rw [h.requested]
    exact hevent.elim (@hs.handed event) (h.known event)
  queued := h.requested ▸ h.queued
  calls := h.requested ▸ h.calls

theorem keepsOrder_of_change (hs : Inv s) (h : Change s taken t) :
    KeepsOrder t.order t.handed ↔ KeepsOrder s.order s.handed ∧ NotOvertaking s taken := by
  rw [h.order, h.handed]
  cases taken with
  | none => simp [NotOvertaking]
  | some event =>
    rw [toList_some, keepsOrder_append_singleton]
    refine and_congr_right fun _ => ?_
    constructor
    · intro hfirst event' hevent' hnew earlier _ hearlier
      cases mem_some_iff.mp hevent'
      exact hfirst hnew _ hearlier rfl
    · rintro hqueued hnew ⟨earlier, _⟩ hp rfl
      -- a published event that the broker has not taken is in a job
      refine (hs.waiting earlier (hs.order _ hp).1).elim id fun hwaiting => ?_
      exact hqueued _ rfl hnew earlier hwaiting hp

/-! ### New publishes -/

theorem request_frame (s : State) (event : BackboneEvent) :
    (s.request event).handed = s.handed ∧ (s.request event).jobs = s.jobs ∧
      (s.request event).calls = s.calls ∧ (s.request event).published = s.published := by
  unfold State.request
  split <;> exact ⟨rfl, rfl, rfl, rfl⟩

theorem requested_subset (s : State) (event : BackboneEvent) :
    s.requested ⊆ (s.request event).requested := by
  unfold State.request
  split
  · exact List.Subset.refl _
  · exact subset_append_left _ _

theorem mem_request (s : State) (event : BackboneEvent) : event ∈ (s.request event).requested := by
  unfold State.request
  split
  · assumption
  · exact mem_append_right _ (mem_singleton_self event)

section
variable (hs : Inv s)
include hs

theorem Inv.request (event : BackboneEvent) : Inv (s.request event) := by
  obtain ⟨hhanded, hjobs, hcalls, hpublished⟩ := request_frame s event
  have hqueued : (s.request event).queued = s.queued := congrArg (List.map Job.event) hjobs
  have hsub := requested_subset s event
  constructor
  · rw [hpublished, hhanded, hqueued]
    exact hs.waiting
  · rw [hpublished]
    unfold State.request
    split
    · exact hs.order
    · rename_i hnew
      refine forall_mem_append.mpr ⟨hs.order, fun p hp => ?_⟩
      obtain ⟨earlier, hearlier, rfl⟩ := List.mem_map.mp hp
      obtain ⟨hmem, hkey⟩ := mem_filter.mp hearlier
      refine ⟨hmem, of_decide_eq_true hkey, ?_⟩
      intro (heq : earlier = event)
      subst heq
      exact hnew ((hs.waiting earlier hmem).elim (@hs.handed earlier) (@hs.queued earlier))
  · unfold Ahead
    rw [hhanded, hqueued]
    unfold State.request
    split
    · exact hs.ahead
    · rename_i hnew
      refine forall_mem_append.mpr ⟨hs.ahead, fun p hp => ?_⟩
      obtain ⟨earlier, hearlier, rfl⟩ := List.mem_map.mp hp
      -- no job has the new event
      refine (hs.waiting earlier (mem_filter.mp hearlier).1).imp_right fun hwaiting => ?_
      obtain ⟨i, hi⟩ := mem_iff_getElem?.mp hwaiting
      exact ⟨i, hi, fun j hj => absurd (hs.queued (mem_of_getElem? hj)) hnew⟩
  · rw [hhanded]
    exact List.Subset.trans hs.handed hsub
  · rw [hqueued]
    exact List.Subset.trans hs.queued hsub
  · rw [hcalls, hhanded]
    exact fun pid call hcall => (hs.calls pid call hcall).imp_left (@hsub _)

theorem keepsOrder_request (event : BackboneEvent) :
    KeepsOrder (s.request event).order (s.request event).handed ↔ KeepsOrder s.order s.handed := by
  unfold State.request
  split
  · rfl
  · rename_i hnew
    refine keepsOrder_append_order ?_
    intro p hp hlog
    obtain ⟨earlier, -, rfl⟩ := List.mem_map.mp hp
    exact hnew (hs.handed hlog)

theorem Inv.requests (events : List BackboneEvent) :
    Inv (events.foldl State.request s) ∧
    (KeepsOrder (events.foldl State.request s).order (events.foldl State.request s).handed ↔
      KeepsOrder s.order s.handed) ∧
    s.requested ⊆ (events.foldl State.request s).requested ∧
    events ⊆ (events.foldl State.request s).requested := by
  induction events generalizing s with
  | nil => exact ⟨hs, Iff.rfl, List.Subset.refl _, nil_subset _⟩
  | cons event events ih =>
    obtain ⟨hinv, horder, hsub, hevents⟩ := ih (hs.request event)
    refine ⟨hinv, horder.trans (keepsOrder_request hs event),
      List.Subset.trans (requested_subset s event) hsub, ?_⟩
    exact cons_subset.mpr ⟨hsub (mem_request s event), hevents⟩

/-! ### The steps -/

theorem Change.tables (hhanded : handed = s.handed ++ taken.toList)
    (hknown : ∀ event ∈ taken, event ∈ s.requested) (happended : s.queued <+: jobs.map Job.event)
    (hqueued : jobs.map Job.event ⊆ s.requested) (hkept : s.published ⊆ published)
    (hpublished : ∀ event ∈ published, event ∈ s.published ∨ event ∈ handed ∨ event ∈ jobs.map Job.event) :
    Change s taken {s with clock, downUntil, jobs, handed, published} where
  order := rfl
  requested := rfl
  handed := hhanded
  known := hknown
  kept := hkept
  published := hpublished
  appended := happended
  queued := hqueued
  calls pid call hcall :=
    (hs.calls pid call hcall).imp_right fun hmarked hphase =>
      hhanded ▸ mem_append_left _ (hmarked hphase)

/-- The broker takes at most an event, and nothing else happens to the tables. -/
theorem Change.takes (hhanded : handed = s.handed ++ taken.toList)
    (hknown : ∀ event ∈ taken, event ∈ s.requested) (hjobs : jobs.map Job.event = s.queued) :
    Change s taken {s with clock, downUntil, jobs, handed} :=
  .tables hs hhanded hknown (hjobs ▸ prefix_refl _) (hjobs ▸ hs.queued) (List.Subset.refl _)
    fun _ h => .inl h

theorem Change.idle (hjobs : jobs.map Job.event = s.queued) :
    Change s none {s with clock, downUntil, jobs} :=
  .takes hs (append_nil _).symm nofun hjobs

theorem Change.parks {new : List Job}
    (hnew : new.map Job.event ⊆ s.requested) (hkept : s.published ⊆ published)
    (hpublished : ∀ event ∈ published, event ∈ s.published ∨ event ∈ new.map Job.event) :
    Change s none {s with jobs := s.jobs ++ new, published} := by
  have hjobs : (s.jobs ++ new).map Job.event = s.queued ++ new.map Job.event := map_append
  refine .tables hs (append_nil _).symm nofun ?_ ?_ hkept ?_
  · exact hjobs ▸ prefix_append _ _
  · exact hjobs ▸ append_subset.mpr ⟨hs.queued, hnew⟩
  · intro event hevent
    exact (hpublished event hevent).imp_right fun h => .inr (hjobs ▸ mem_append_right _ h)

end

theorem Change.setCall (hcall : call.event ∈ s.requested)
    (hphase : call.phase = .markUp → call.event ∈ t.handed) (h : Change s taken t) :
    Change s taken (t.setCall pid call) where
  order := h.order
  requested := h.requested
  handed := h.handed
  known := h.known
  kept := h.kept
  published := h.published
  appended := h.appended
  queued := h.queued
  calls q c hc := by
    by_cases hq : q = pid
    · subst hq
      have heq : call = c := by simpa [State.setCall] using hc
      exact heq ▸ ⟨hcall, hphase⟩
    · refine h.calls q c ?_
      simpa [State.setCall, hq] using hc

theorem Change.refl (hs : Inv s) : Change s none s := .idle hs rfl

theorem change_of_next (hs : Inv s) (hcall : s.calls pid = some call)
    (h : next cfg s pid call a = some t) : Change s (handsOver s (.advance pid a)) t := by
  obtain ⟨hknown, hmarked⟩ := hs.calls pid call hcall
  have hhands : handsOver s (.advance pid a) =
      if call.phase = .produce ∧ a.ok then some call.event else none := by
    simp [handsOver, hcall]
  rw [hhands]
  have hnew : [({event := call.event} : Job)].map Job.event ⊆ s.requested :=
    cons_subset.mpr ⟨hknown, nil_subset _⟩
  revert h
  fun_cases next cfg s pid call a with
  | case1 =>
    rintro ⟨⟩
    rw [if_neg (by simp [*])]
    exact .setCall hknown (by split <;> simp) (.refl hs)
  | case2 hphase hok =>
    rintro ⟨⟩
    rw [if_pos ⟨hphase, hok⟩]
    refine .setCall hknown (fun _ => mem_concat_self) ?_
    refine .takes hs rfl (fun event hevent => ?_) rfl
    exact mem_some_iff.mp hevent ▸ hknown
  | case3 _ hok =>
    rintro ⟨⟩
    rw [if_neg fun hh => hok hh.2]
    exact .setCall hknown nofun (.refl hs)
  | case4 hphase =>
    rintro ⟨⟩
    rw [if_neg (by simp [*])]
    refine .setCall hknown nofun ?_
    refine .tables hs (append_nil _).symm nofun (prefix_refl _)
      hs.queued (subset_append_left _ _) fun event hevent => ?_
    -- the broker has taken the event
    refine (mem_append.mp hevent).imp_right fun hnew => .inl ?_
    exact mem_singleton.mp hnew ▸ hmarked hphase
  | case5 =>
    rintro ⟨⟩
    rw [if_neg (by simp [*])]
    exact .setCall hknown nofun (.idle hs rfl)
  | case6 hphase jobs hanswer =>
    rintro ⟨⟩
    rw [if_neg (by simp [*])]
    simp only [jobs, hanswer.1, reduceIte]
    refine .setCall hknown nofun ?_
    refine .parks hs hnew (subset_append_left _ _) fun event hevent => ?_
    exact mem_append.mp hevent
  | case7 hphase jobs =>
    rintro ⟨⟩
    rw [if_neg (by simp [*])]
    refine .setCall hknown nofun ?_
    by_cases hinserted : a.inserted
    · simp only [jobs, hinserted, reduceIte]
      exact .parks hs hnew (List.Subset.refl _) fun _ h => .inl h
    · simp only [jobs, hinserted, reduceIte, Bool.false_eq_true]
      exact .refl hs
  | case8 | case9 => nofun

theorem queued_set {j : ℕ} {job job' : Job} (hjob : s.jobs[j]? = some job)
    (hevent : job'.event = job.event) : (s.jobs.set j job').map Job.event = s.queued := by
  obtain ⟨hlt, hget⟩ := List.getElem?_eq_some_iff.mp hjob
  rw [map_set, hevent, ← hget, State.queued]
  refine ext_getElem (by simp) fun i hi hi' => ?_
  rw [getElem_set]
  split <;> simp_all

/-- Every step is a change after the publishes that begin in it, and the broker takes nothing while
a publish begins. -/
theorem change_of_step (hs : Inv s) (h : step cfg s e = some t) :
    ∃ events : List BackboneEvent, (handsOver s e ≠ none → events = []) ∧
      Change (events.foldl State.request s) (handsOver s e) t := by
  cases e with
  | tick ms =>
    cases h
    exact ⟨[], fun _ => rfl, .idle hs rfl⟩
  | publish pid node event =>
    obtain ⟨-, rfl⟩ := ite_some_none_eq_some.mp h
    refine ⟨[event], fun hh => absurd rfl hh, ?_⟩
    exact .setCall (mem_request s event) nofun (.refl (hs.request event))
  | commit events =>
    cases h
    obtain ⟨hinv, -, -, hevents⟩ := hs.requests events
    refine ⟨events, fun hh => absurd rfl hh, ?_⟩
    have hnew : (events.map fun event => ({event} : Job)).map Job.event = events := by
      rw [List.map_map]
      exact List.map_id events
    refine .parks hinv (hnew.symm ▸ hevents) (subset_append_left _ _) fun event hevent => ?_
    rw [hnew]
    exact mem_append.mp hevent
  | advance pid a =>
    obtain ⟨call, hcall, hnext⟩ := bind_eq_some_iff.mp h
    exact ⟨[], fun _ => rfl, change_of_next hs hcall hnext⟩
  | crash pid =>
    obtain ⟨call, hcall, hcrash⟩ := bind_eq_some_iff.mp h
    split at hcrash <;> cases hcrash
    exact ⟨[], fun _ => rfl, .setCall (hs.calls pid call hcall).1 nofun (.refl hs)⟩
  | perform j ok =>
    obtain ⟨job, hjob, hperform⟩ := bind_eq_some_iff.mp h
    have hhands : handsOver s (.perform j ok) =
        if job.state = .executing ∧ ok then some job.event else none := by simp [handsOver, hjob]
    refine ⟨[], fun _ => rfl, ?_⟩
    rw [hhands]
    obtain ⟨hexecuting, hperform⟩ := ite_none_right_eq_some.mp hperform
    split at hperform <;> cases hperform
    · rename_i hok
      rw [if_pos ⟨hexecuting, hok⟩]
      refine .takes hs rfl (fun event hevent => ?_) (queued_set hjob rfl)
      rw [← mem_some_iff.mp hevent]
      exact hs.queued (List.mem_map_of_mem (mem_of_getElem? hjob))
    · rename_i hok
      rw [if_neg fun hh => hok hh.2]
      exact .idle hs (queued_set hjob rfl)
  | fetch j | complete j | rescue j =>
    obtain ⟨job, hjob, hset⟩ := bind_eq_some_iff.mp h
    obtain ⟨-, rfl⟩ := ite_some_none_eq_some.mp hset
    exact ⟨[], fun _ => rfl, .idle hs (queued_set hjob rfl)⟩

theorem step_keepsOrder (hs : Inv s) (h : step cfg s e = some t) :
    Inv t ∧ (KeepsOrder t.order t.handed ↔
      KeepsOrder s.order s.handed ∧ NotOvertaking s (handsOver s e)) := by
  obtain ⟨events, hempty, hchange⟩ := change_of_step hs h
  obtain ⟨hinv, horder, -, -⟩ := hs.requests events
  refine ⟨hinv.of_change hchange, (keepsOrder_of_change hinv hchange).trans ?_⟩
  rw [horder]
  refine and_congr_right fun _ => ?_
  by_cases hnone : handsOver s e = none
  · simp [NotOvertaking, hnone]
  · rw [hempty hnone, foldl_nil]

/-- What the broker takes when it is asked in order overtakes nothing. -/
theorem notOvertaking (hs : Inv s) (he : Undisturbed s e) : NotOvertaking s (handsOver s e) := by
  intro event htaken hnew earlier hqueued hpair
  obtain ⟨-, hkey, hne⟩ := hs.order _ hpair
  cases e with
  | advance pid a =>
    obtain ⟨call, hcall, hevent⟩ := bind_eq_some_iff.mp (Option.mem_def.mp htaken)
    obtain ⟨⟨hphase, -⟩, rfl⟩ := ite_some_none_eq_some.mp hevent
    exact he call hcall hphase earlier hqueued hkey hne
  | perform j ok =>
    obtain ⟨job, hjob, hevent⟩ := bind_eq_some_iff.mp (Option.mem_def.mp htaken)
    obtain ⟨-, rfl⟩ := ite_some_none_eq_some.mp hevent
    obtain hhanded | ⟨i, hi, hfirst⟩ := hs.ahead _ hpair
    · exact hhanded
    · have hlt : i < j := hfirst j (by rw [State.queued, getElem?_map, hjob]; rfl)
      have htake : (s.queued.take j)[i]? = some earlier := by rw [getElem?_take_of_lt hlt, hi]
      exact he job hjob earlier (mem_of_getElem? htake) hkey
  | tick _ | publish _ _ _ | commit _ | crash _ | fetch _ | complete _ _ | rescue _ => cases htaken

theorem inv_init : Inv {} := by
  constructor <;> simp [State.queued]

/-- The broker takes the events of every conversation in the order of their publishing in every run
in which it is never asked for one while a job has an earlier one of the conversation. -/
theorem publish_order_kept {es : List Event} (h : run (step cfg) {} es = some s)
    (hasked : Along (step cfg) Undisturbed {} es) : KeepsOrder s.order s.handed := by
  have hkeeps : ∀ {m e n}, Inv m ∧ KeepsOrder m.order m.handed → Undisturbed m e →
      step cfg m e = some n → Inv n ∧ KeepsOrder n.order n.handed := by
    rintro m e n ⟨hm, horder⟩ he hn
    obtain ⟨hinv, hiff⟩ := step_keepsOrder hm hn
    exact ⟨hinv, hiff.mpr ⟨horder, notOvertaking hm he⟩⟩
  have hinit : KeepsOrder ({} : State).order ({} : State).handed := by
    intro p hp
    cases hp
  exact (run_invariant_along hkeeps ⟨inv_init, hinit⟩ hasked h).2

def opened : BackboneEvent := { id := 1, topic := .events, key := some "c" }
def closed : BackboneEvent := { id := 2, topic := .events, key := some "c" }

/-- The broker refuses the first event, which is parked; five seconds later it can be reached. -/
def outage : List Event :=
  [.publish 1 0 opened, .advance 1 {}, .advance 1 {ok := false}, .advance 1 {}, .advance 1 {}, .tick 5000]

def publishClosed : List Event := [.publish 2 0 closed, .advance 2 {}, .advance 2 {}, .advance 2 {}]

/-- The second event is published while the broker is down, and the jobs run one after the other. -/
def bothParked : List Event :=
  [.publish 1 0 opened, .advance 1 {}, .advance 1 { ok := false }, .advance 1 {}, .advance 1 {},
    .publish 2 0 closed, .advance 2 {}, .advance 2 {}, .tick 5000, .fetch 0, .perform 0 true,
    .complete 0 0, .fetch 1, .perform 1 false, .fetch 1, .perform 1 true, .complete 1 0]

theorem publish_order_kept_parked :
    ∃ s, run (step {}) {} bothParked = some s ∧ s.handed = [opened, closed] ∧
      (opened, closed) ∈ s.order ∧ KeepsOrder s.order s.handed := by
  obtain ⟨s, hs, hhanded, horder⟩ : ∃ s, run (step {}) {} bothParked = some s ∧
      s.handed = [opened, closed] ∧ (opened, closed) ∈ s.order := by decide +kernel
  exact ⟨s, hs, hhanded, horder, publish_order_kept hs (by decide +kernel)⟩

/-- The second event is published before the job of the first one runs. -/
theorem parked_event_overtaken :
    ∃ s, run (step {}) {} (outage ++ publishClosed) = some s ∧ (opened, closed) ∈ s.order ∧
      s.handed = [closed] ∧ ¬ KeepsOrder s.order s.handed := by
  decide +kernel

end Converger.BackbonePublish
