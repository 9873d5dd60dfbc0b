import Converger.ActivityChangeset

/-!
# Creating an activity, statement by statement

`Activities.create_activity/2` under READ COMMITTED: every SQL statement of a call is one
step, any number of calls interleave, and what a transaction wrote is seen by others
after its commit only. The update that allocates the number locks the conversation row
until commit or rollback; a second one waits for it, which here means that its step is
not enabled.
-/
namespace Converger.CreateActivity
open ActivityChangeset Function

/-- Settings a call depends on. `month` gives the partition of an insertion time. -/
structure Config where
  maxTextBytes : ℕ := 65536
  month : ℕ → ℕ

structure Opts where
  allowClosed : Bool := false
  internal : Bool := false
  deriving DecidableEq

inductive Result where
  | ok (activity : Activity)
  | conversationClosed
  | deliveryEnqueueFailed
  | invalid (errors : List FieldError)
  | raised
  deriving DecidableEq

inductive Reason where
  | duplicate (existing : Activity)
  | conversationClosed
  | deliveryEnqueueFailed
  | invalid (errors : List FieldError)
  deriving DecidableEq

/-- The update `stamp_target/2` makes on the original of an edit or a delete. -/
structure Stamp where
  targetId : Uuid
  targetInsertedAt : ℕ
  deletes : Bool
  time : ℕ
  deriving DecidableEq

inductive Phase where
  | fetchExisting
  | nextSeq
  | conversationExists (ch : Changes)
  | existingUnderLock (ch : Changes) (seq : ℕ)
  | checkReference (ch : Changes) (seq : ℕ)
  | insert (ch : Changes) (seq : ℕ) (target : Option Activity)
  | stampTarget (activity : Activity) (target : Option Activity)
  | enqueue (activity : Activity) (stamp : Option Stamp)
  | commit (activity : Activity) (stamp : Option Stamp)
  | afterCommit (activity : Activity)
  | rollback (locked : Option Uuid) (reason : Reason)
  | recover (errors : List FieldError)
  | done (result : Result)
  deriving DecidableEq

structure Call where
  attrs : Attrs
  opts : Opts := {}
  phase : Phase := .fetchExisting
  deriving DecidableEq

/-- The committed tables, the row locks and the calls. `log` lists every committed
activity in commit order, `deleted` the ids of those removed later. -/
structure State where
  conversations : Uuid → Option Conversation
  activities : List Activity
  locks : Uuid → Option ℕ := fun _ => none
  calls : ℕ → Option Call := fun _ => none
  log : List Activity := []
  deleted : List Uuid := []

/-- What a statement gets from outside the tables: a generated id, the clock, a
constraint the database reports, and whether the deliveries were enqueued. -/
structure Outcome where
  id : Uuid := 0
  now : ℕ := 0
  constraintErrors : Option (List FieldError) := none
  enqueued : Bool := true

def withKey (activities : List Activity) (conversationId : Uuid) (key : String) : List Activity :=
  activities.filter fun a => a.conversationId = conversationId ∧ a.idempotencyKey = some key

/-- `Repo.get_by/2`: more than one row raises. -/
def getBy (rows : List Activity) : Except Unit (Option Activity) :=
  match rows with
  | [] => .ok none
  | [a] => .ok (some a)
  | _ => .error ()

/-- The rows `fetch_existing_activity/1` looks at. -/
def existingRows (activities : List Activity) (attrs : Attrs) : List Activity :=
  match attrs.conversationId, attrs.idempotencyKey with
  | some c, some k => withKey activities c k
  | _, _ => []

def verb : ActivityType → String
  | .messageUpdate => "edit"
  | _ => "delete"

def referenceError (type : ActivityType) (sender : String) : Option Activity → Option String
  | none => some "does not exist in this conversation"
  | some target =>
    if type ∉ referenceTypes then none
    else if target.type ≠ .message then some "must reference a message"
    else if type = .messageReaction then none
    else if target.sender ≠ sender then
      some ("can only " ++ verb type ++ " the sender's own messages")
    else if target.deletedAt ≠ none then some "references a deleted message"
    else none

def hasIdempotencyError (errors : List FieldError) : Bool :=
  errors.any fun e =>
    (e.1 = "idempotency_key" ∨ e.1 = "conversation_id") ∧ e.2 = "has already been taken"

def toActivity (ch : Changes) (seq id now : ℕ) : Activity where
  id := id
  conversationId := ch.conversationId
  seq := seq
  type := ch.type
  sender := ch.sender
  text := ch.text
  idempotencyKey := ch.idempotencyKey
  replyToId := ch.replyToId
  sourceChannelId := ch.sourceChannelId
  insertedAt := now

def stampOf (activity : Activity) (target : Option Activity) : Option Stamp :=
  match activity.type, target with
  | .messageUpdate, some t => some ⟨t.id, t.insertedAt, false, activity.insertedAt⟩
  | .messageDelete, some t => some ⟨t.id, t.insertedAt, true, activity.insertedAt⟩
  | _, _ => none

def Stamp.apply (st : Stamp) (a : Activity) : Activity :=
  if a.id = st.targetId ∧ a.insertedAt = st.targetInsertedAt then
    if st.deletes then {a with deletedAt := some st.time}
    else {a with editedAt := some st.time}
  else a

def applyStamp (stamp : Option Stamp) (activities : List Activity) : List Activity :=
  match stamp with
  | none => activities
  | some st => activities.map st.apply

/-- The unique index of a partition: a stored row of the same month has the key. -/
def indexRejects (cfg : Config) (activities : List Activity) (a : Activity) : Bool :=
  activities.any fun b => b.conversationId = a.conversationId ∧ b.idempotencyKey.isSome ∧
    b.idempotencyKey = a.idempotencyKey ∧ cfg.month b.insertedAt = cfg.month a.insertedAt

def Phase.lock : Phase → Option Uuid
  | .existingUnderLock ch _ | .checkReference ch _ | .insert ch _ _ => some ch.conversationId
  | .stampTarget a _ | .enqueue a _ | .commit a _ => some a.conversationId
  | .rollback locked _ => locked
  | _ => none

/-- What a statement does once it has read: stay in the transaction, lock a conversation
row, end the transaction without effect, or commit it. -/
inductive Action where
  | goto (phase : Phase)
  | acquire (conversationId : Uuid) (phase : Phase)
  | leave (phase : Phase)
  | commit (conversation : Conversation) (activity : Activity) (stamp : Option Stamp)
  deriving DecidableEq

/-- `next_seq/2` after the changeset was built: the conditional update locks the row and
hands out the next number, or matches no row. Where the row is locked it waits. -/
def nextSeq (cfg : Config) (s : State) (call : Call) : Option Action :=
  match changeset cfg.maxTextBytes call.attrs call.opts.internal with
  | .error errors => some (.goto (.rollback none (.invalid errors)))
  | .ok ch =>
    match s.conversations ch.conversationId with
    | none => some (.goto (.conversationExists ch))
    | some cv =>
      if call.opts.allowClosed ∨ cv.status = .active then
        if s.locks ch.conversationId = none then
          some (.acquire ch.conversationId (.existingUnderLock ch (cv.lastSeq + 1)))
        else none
      else some (.goto (.conversationExists ch))

/-- `fetch_existing_activity/1`, and where to go on when there is none. -/
def fetchExisting (s : State) (attrs : Attrs) (otherwise : Phase) : Action :=
  match getBy (existingRows s.activities attrs) with
  | .error _ => .leave (.done .raised)
  | .ok (some a) => .leave (.done (.ok a))
  | .ok none => .goto otherwise

def existingUnderLock (s : State) (ch : Changes) (seq : ℕ) : Action :=
  match getBy ((ch.idempotencyKey.toList).flatMap (withKey s.activities ch.conversationId)) with
  | .error _ => .leave (.done .raised)
  | .ok (some a) => .goto (.rollback (some ch.conversationId) (.duplicate a))
  | .ok none => .goto (.checkReference ch seq)

def checkReference (s : State) (ch : Changes) (seq : ℕ) : Action :=
  match ch.replyToId with
  | none => .goto (.insert ch seq none)
  | some r =>
    match getBy (s.activities.filter fun a => a.id = r ∧ a.conversationId = ch.conversationId) with
    | .error _ => .leave (.done .raised)
    | .ok target =>
      match referenceError ch.type ch.sender target with
      | none => .goto (.insert ch seq target)
      | some msg => .goto (.rollback (some ch.conversationId) (.invalid [("reply_to_id", msg)]))

def insert (cfg : Config) (s : State) (ch : Changes) (seq : ℕ) (target : Option Activity)
    (out : Outcome) : Action :=
  match out.constraintErrors with
  | some errors => .goto (.rollback (some ch.conversationId) (.invalid errors))
  | none =>
    if indexRejects cfg s.activities (toActivity ch seq out.id out.now) then
      .goto (.rollback (some ch.conversationId)
        (.invalid [("conversation_id", "has already been taken")]))
    else .goto (.stampTarget (toActivity ch seq out.id out.now) target)

/-- What `create_activity/2` returns for a rolled back transaction. -/
def afterRollback : Reason → Phase
  | .duplicate existing => .done (.ok existing)
  | .conversationClosed => .done .conversationClosed
  | .deliveryEnqueueFailed => .done .deliveryEnqueueFailed
  | .invalid errors =>
    if hasIdempotencyError errors then .recover errors else .done (.invalid errors)

def next (cfg : Config) (s : State) (call : Call) (out : Outcome) : Option Action :=
  match call.phase with
  | .fetchExisting => some (fetchExisting s call.attrs .nextSeq)
  | .nextSeq => nextSeq cfg s call
  | .conversationExists ch =>
    if (s.conversations ch.conversationId).isSome then
      some (.goto (.rollback none .conversationClosed))
    else some (.goto (.rollback none (.invalid [("conversation_id", "does not exist")])))
  | .existingUnderLock ch seq => some (existingUnderLock s ch seq)
  | .checkReference ch seq => some (checkReference s ch seq)
  | .insert ch seq target => some (insert cfg s ch seq target out)
  | .stampTarget a target => some (.goto (.enqueue a (stampOf a target)))
  | .enqueue a stamp =>
    if out.enqueued then some (.goto (.commit a stamp))
    else some (.goto (.rollback (some a.conversationId) .deliveryEnqueueFailed))
  | .commit a stamp => (s.conversations a.conversationId).map fun cv => .commit cv a stamp
  | .afterCommit a => some (.goto (.done (.ok a)))
  | .rollback _ reason => some (.leave (afterRollback reason))
  | .recover errors => some (fetchExisting s call.attrs (.done (.invalid errors)))
  | .done _ => none

namespace State

def setPhase (s : State) (pid : ℕ) (call : Call) (phase : Phase) : State :=
  {s with calls := update s.calls pid (some {call with phase := phase})}

def unlock (s : State) (locked : Option Uuid) : State :=
  match locked with
  | none => s
  | some c => {s with locks := update s.locks c none}

/-- A commit makes the number, the row and the stamp visible and frees the lock. -/
def commit (s : State) (cv : Conversation) (a : Activity) (stamp : Option Stamp) : State where
  conversations := update s.conversations a.conversationId
    (some {cv with lastSeq := a.seq})
  activities := applyStamp stamp s.activities ++ [a]
  locks := update s.locks a.conversationId none
  calls := s.calls
  log := s.log ++ [a]
  deleted := s.deleted

variable (s : State) (pid : ℕ) (call : Call) (p : Phase) (locked : Option Uuid)

@[simp] theorem setPhase_conversations : (s.setPhase pid call p).conversations = s.conversations := rfl

@[simp] theorem setPhase_activities : (s.setPhase pid call p).activities = s.activities := rfl

@[simp] theorem setPhase_locks : (s.setPhase pid call p).locks = s.locks := rfl

@[simp] theorem setPhase_log : (s.setPhase pid call p).log = s.log := rfl

@[simp] theorem setPhase_deleted : (s.setPhase pid call p).deleted = s.deleted := rfl

@[simp] theorem unlock_conversations : (s.unlock locked).conversations = s.conversations := by
  cases locked <;> rfl

@[simp] theorem unlock_activities : (s.unlock locked).activities = s.activities := by
  cases locked <;> rfl

@[simp] theorem unlock_calls : (s.unlock locked).calls = s.calls := by
  cases locked <;> rfl

@[simp] theorem unlock_log : (s.unlock locked).log = s.log := by
  cases locked <;> rfl

@[simp] theorem unlock_deleted : (s.unlock locked).deleted = s.deleted := by
  cases locked <;> rfl

end State

theorem forall_calls_update {calls : ℕ → Option Call} {pid : ℕ} {call : Call} {P : ℕ → Call → Prop} :
    (∀ q call', update calls pid (some call) q = some call' → P q call') ↔
      P pid call ∧ ∀ q, q ≠ pid → ∀ call', calls q = some call' → P q call' := by
  rw [Function.forall_update_iff calls fun q o => ∀ call', o = some call' → P q call']
  simp only [Option.some.injEq, forall_eq']

def perform (s : State) (pid : ℕ) (call : Call) : Action → State
  | .goto p => s.setPhase pid call p
  | .acquire c p => {s with locks := update s.locks c (some pid)}.setPhase pid call p
  | .leave p => (s.unlock call.phase.lock).setPhase pid call p
  | .commit cv a stamp => (s.commit cv a stamp).setPhase pid call (.afterCommit a)

inductive Event where
  | call (pid : ℕ) (attrs : Attrs) (opts : Opts)
  | statement (pid : ℕ) (out : Outcome)
  | crash (pid : ℕ)
  | transition (conversationId : Uuid) (status : ConversationStatus)
  | deleteActivity (id : Uuid)

/-- One step of the system. A crash may hit a call between any two statements; closing
and reopening wait for the row lock as well. -/
def step (cfg : Config) (s : State) : Event → Option State
  | .call pid attrs opts =>
    if s.calls pid = none then
      some {s with calls := update s.calls pid (some {attrs, opts})}
    else none
  | .statement pid out => (s.calls pid).bind fun call =>
    (next cfg s call out).map (perform s pid call)
  | .crash pid => (s.calls pid).bind fun call =>
    match call.phase with
    | .done _ => none
    | _ => some (perform s pid call (.leave (.done .raised)))
  | .transition c status =>
    match s.conversations c with
    | none => some s
    | some cv =>
      if cv.status = status then some s
      else if s.locks c = none then
        some { s with conversations := update s.conversations c
                        (some {cv with status := status})}
      else none
  | .deleteActivity id => some {s with
      activities := s.activities.filter fun a => a.id ≠ id
      deleted := s.deleted ++ [id]}

end Converger.CreateActivity
