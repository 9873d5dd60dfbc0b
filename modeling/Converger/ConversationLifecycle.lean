import Converger.CreateActivityOrder

/-!
# Closing and reopening a conversation

`close_conversation/2`, `reopen_conversation/2` and the expiry of inactive conversations change the
status with one conditional update, which waits for the row lock, and create the `conversationUpdate`
event that names the new status afterwards, in a transaction of its own. Any number of such calls and
of `create_activity/2` calls interleave, each statement being one step. An expiry that finds the
conversation active again is a change that does nothing.
-/
namespace Converger.ConversationLifecycle
open CreateActivity ActivityChangeset Option

/-- A call that changes the status: it has not run its update yet, the update matched no row, it has
changed the status, or it has called `create_activity/2` for its event. -/
inductive ChangePhase where
  | requested
  | unchanged
  | changed
  | emitting (pid : ℕ)
  deriving DecidableEq

structure Change where
  target : ConversationStatus
  phase : ChangePhase := .requested
  deriving DecidableEq

/-- The tables with the calls of `create_activity/2`, and the calls that change the status of one
conversation. `emitters` tells which change a call creates the event of, `pending` lists the changes
whose event is not stored, in the order in which they changed the status, and `transcript` the stored
activities of the conversation with the status named by those that are lifecycle events. -/
structure State where
  store : CreateActivity.State
  pids : List ℕ := []
  changes : List Change := []
  emitters : ℕ → Option ℕ := fun _ => none
  pending : List ℕ := []
  transcript : List (Activity × Option ConversationStatus) := []

/-- The attributes `emit_lifecycle_event/2` passes. -/
def lifecycleAttrs (conversationId tenantId : Uuid) : Attrs where
  type := some "conversationUpdate"
  tenantId := some tenantId
  conversationId := some conversationId
  sender := some "system"

def State.setChange (s : State) (i : ℕ) (change : Change) (phase : ChangePhase) : State :=
  {s with changes := s.changes.set i {change with phase}}

def State.names (s : State) (pid : ℕ) : Option ConversationStatus :=
  (s.emitters pid).bind fun i => (s.changes[i]?).map Change.target

def State.record (s : State) (conversationId : Uuid) (pid : ℕ) (a : Activity) : State :=
  if a.conversationId = conversationId then
    {s with
      transcript := s.transcript ++ [(a, s.names pid)]
      pending := match s.emitters pid with
        | some i => s.pending.erase i
        | none => s.pending}
  else s

inductive Event where
  /-- `create_activity/2` by anyone but the lifecycle: closed conversations refuse it. -/
  | create (pid : ℕ) (attrs : Attrs) (internal : Bool)
  | statement (pid : ℕ) (out : Outcome)
  | request (target : ConversationStatus)
  | update (i : ℕ)
  | emit (i pid : ℕ)

def step (cfg : Config) (conversationId tenantId : Uuid) (s : State) : Event → Option State
  | .create pid attrs internal => do
    let store ← CreateActivity.step cfg s.store (.call pid attrs {internal})
    return {s with store, pids := s.pids ++ [pid]}
  | .statement pid out => do
    let call ← s.store.calls pid
    let store ← CreateActivity.step cfg s.store (.statement pid out)
    match call.phase with
    | .commit a _ => return {s.record conversationId pid a with store}
    | _ => return {s with store}
  | .request target => some {s with changes := s.changes ++ [{target}]}
  | .update i => do
    let change ← s.changes[i]?
    let cv ← s.store.conversations conversationId
    if change.phase ≠ .requested then none
    else if cv.status = change.target then return s.setChange i change .unchanged
    else
      let store ← CreateActivity.step cfg s.store (.transition conversationId change.target)
      return {s.setChange i change .changed with store, pending := s.pending ++ [i]}
  | .emit i pid => do
    let change ← s.changes[i]?
    if change.phase ≠ .changed then none
    else
      let attrs := lifecycleAttrs conversationId tenantId
      let store ← CreateActivity.step cfg s.store (.call pid attrs {allowClosed := true})
      return {s.setChange i change (.emitting pid) with
        store
        pids := s.pids ++ [pid]
        emitters := Function.update s.emitters pid (some i)}

section Path
variable {cfg : Config} {s : CreateActivity.State} {conversationId tenantId : Uuid} {call : Call}
  {out : Outcome} {act : Action}

def phaseOf : Action → Phase
  | .goto p | .acquire _ p | .leave p => p
  | .commit _ a _ => .afterCommit a

theorem perform_calls (s : CreateActivity.State) (pid : ℕ) (call : Call) (act : Action) :
    (perform s pid call act).calls =
      Function.update s.calls pid (some {call with phase := phaseOf act}) := by
  cases act <;> simp [perform, phaseOf, State.setPhase, State.commit]

def Plain (conversationId : Uuid) (ch : Changes) : Prop :=
  ch.conversationId = conversationId ∧ ch.idempotencyKey = none ∧ ch.replyToId = none

def Due (conversationId : Uuid) : Phase → Prop
  | .fetchExisting | .nextSeq => True
  | .existingUnderLock ch _ | .checkReference ch _ | .insert ch _ _ => Plain conversationId ch
  | .stampTarget a _ | .enqueue a _ | .commit a _ => a.conversationId = conversationId
  | _ => False

theorem changeset_lifecycleAttrs (conversationId tenantId : Uuid) (maxTextBytes : ℕ)
    (internal : Bool) :
    ∃ ch, changeset maxTextBytes (lifecycleAttrs conversationId tenantId) internal = .ok ch ∧
      Plain conversationId ch :=
  ⟨_, rfl, rfl, rfl, rfl⟩

theorem indexRejects_eq_false {activities : List Activity} {a : Activity}
    (h : a.idempotencyKey = none) : indexRejects cfg activities a = false := by
  simp only [indexRejects, h, List.any_eq_false, decide_eq_true_eq, not_and]
  intro b _ _ hsome hnone
  simp [hnone] at hsome

/-- The event of a change is on its way until it is committed, where the database reports no
constraint and the deliveries are enqueued. -/
theorem next_due (hattrs : call.attrs = lifecycleAttrs conversationId tenantId)
    (hopts : call.opts.allowClosed = true) (hconv : (s.conversations conversationId).isSome = true)
    (herrors : out.constraintErrors = none) (henqueued : out.enqueued = true)
    (hdue : Due conversationId call.phase) (hnext : next cfg s call out = some act) :
    Due conversationId (phaseOf act) ∨ ∃ a stamp, call.phase = .commit a stamp := by
  unfold next at hnext
  cases hphase : call.phase with
  | commit a stamp => exact .inr ⟨a, stamp, rfl⟩
  | fetchExisting =>
    simp only [hphase, some.injEq] at hnext
    have hrows : existingRows s.activities call.attrs = [] := by rw [hattrs]; rfl
    rw [← hnext, fetchExisting, hrows]
    exact .inl trivial
  | nextSeq =>
    simp only [hphase] at hnext
    obtain ⟨ch, hch, hplain⟩ := changeset_lifecycleAttrs conversationId tenantId cfg.maxTextBytes
      call.opts.internal
    obtain ⟨cv, hcv⟩ := isSome_iff_exists.mp hconv
    rw [← hplain.1] at hcv
    simp only [nextSeq, hattrs, hch, hcv, hopts, true_or, ↓reduceIte] at hnext
    split at hnext <;> cases hnext
    exact .inl hplain
  | existingUnderLock ch seq =>
    simp only [hphase, some.injEq] at hnext
    have hplain : Plain conversationId ch := by simpa [hphase, Due] using hdue
    rw [← hnext, existingUnderLock, hplain.2.1]
    exact .inl hplain
  | checkReference ch seq =>
    simp only [hphase, some.injEq] at hnext
    have hplain : Plain conversationId ch := by simpa [hphase, Due] using hdue
    rw [← hnext, checkReference, hplain.2.2]
    exact .inl hplain
  | insert ch seq target =>
    simp only [hphase, some.injEq] at hnext
    have hplain : Plain conversationId ch := by simpa [hphase, Due] using hdue
    rw [← hnext, CreateActivity.insert, herrors]
    simp only [indexRejects_eq_false (a := toActivity ch seq out.id out.now) hplain.2.1]
    exact .inl hplain.1
  | stampTarget a target =>
    simp only [hphase, some.injEq] at hnext
    rw [hphase] at hdue
    exact .inl (hnext ▸ hdue)
  | enqueue a stamp =>
    simp only [hphase, henqueued, ↓reduceIte, some.injEq] at hnext
    rw [hphase] at hdue
    exact .inl (hnext ▸ hdue)
  | conversationExists ch | afterCommit a | rollback locked reason | recover errors | done result =>
    simp [hphase, Due] at hdue

end Path

end Converger.ConversationLifecycle
