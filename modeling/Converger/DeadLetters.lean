import Converger.Deliveries
import Converger.GuardedRuns
import Converger.OrderedPages
import Mathlib.Data.Prod.Lex

/-!
# Replays of dead letters

Any number of `retry_delivery/2` and `retry_dead_letters/3` calls work on the `deliveries` table,
while workers and receipts write to it. A write is prepared from a struct read earlier, with the
time it is prepared at, and stored later. A transaction holds the rows it has locked until it
commits: a bulk call passes over rows another one holds, and an `UPDATE` waits for them.
-/
namespace Converger.Deliveries.DeadLetters
open OrderedPages RetryPolicy

structure Actor where
  type : String
  id : String
  deriving DecidableEq, Repr

def Actor.retriedBy (actor : Actor) : String := actor.type ++ ":" ++ actor.id

structure Channel where
  tenantId : Uuid
  active : Bool := true
  deriving DecidableEq, Repr

/-- The filters of a search; `since` and `upTo` are `:from` and `:to`, and the text search `:q` is a
test of the activity's id and the last error. -/
structure Filters where
  channelId : Option Uuid := none
  activityId : Option Uuid := none
  tenantId : Option Uuid := none
  since : Option ℕ := none
  upTo : Option ℕ := none
  search : Uuid → Option String → Bool := fun _ _ => true

/-- `apply_filters/2`, the status apart. -/
def Filters.matches (filters : Filters) (channels : Uuid → Channel) (d : Delivery) : Bool :=
  filters.channelId.all (· = d.channelId) && filters.activityId.all (· = d.activityId) &&
    filters.tenantId.all (· = (channels d.channelId).tenantId) &&
    filters.since.all (· ≤ d.updatedAt) && filters.upTo.all (d.updatedAt ≤ ·) &&
    filters.search d.activityId d.lastError

/-- The filters with `:to` no later than the start of the call. -/
def Filters.startedAt (filters : Filters) (time : ℕ) : Filters :=
  {filters with upTo := some (filters.upTo.elim time (min · time))}

/-- `retryable_dead_letters/1`. -/
def retryable (channels : Uuid → Channel) (filters : Filters) (d : Delivery) : Bool :=
  d.status = .failed && filters.matches channels d && (channels d.channelId).active

/-! ### Calls -/

inductive Request where
  | one (struct : Delivery)
  | bulk (filters : Filters) (limit : ℕ)

def Request.limit : Request → ℕ
  | .one _ => 1
  | .bulk _ limit => limit

inductive Changes where
  | bulk
  | before (status : Status) (attempts : ℕ) (lastError : Option String)
  deriving DecidableEq, Repr

def Request.changes : Request → Changes
  | .one struct => .before struct.status struct.attempts struct.lastError
  | .bulk _ _ => .bulk

inductive Result where
  | retried (count : ℕ) (hasMore : Bool)
  | notFailed | channelInactive
  deriving DecidableEq, Repr

inductive Phase where
  /-- `retry_delivery/2` before its transaction reads the clock, and before its `UPDATE`. -/
  | begin | updating (now : ℕ)
  /-- `retry_chunks/4` before the `SELECT`, and before it reads the clock. -/
  | chunk | locked (ids : List Uuid)
  /-- The transaction holds the rows, and is about to commit. -/
  | commit (ids : List Uuid) (now : ℕ)
  /-- `dead_letters_left?/1` is to be asked. -/
  | left
  | returned (result : Result) | crashed
  deriving DecidableEq, Repr

/-- A call, with the time it started at, the dead letters of that time, what it has replayed and the
steps it has taken. -/
structure Call where
  request : Request
  actor : Actor
  phase : Phase
  startedAt : ℕ
  dead : List Uuid
  replayed : List Uuid := []
  steps : ℕ := 0

def Call.ended (call : Call) : Bool :=
  match call.phase with
  | .returned _ | .crashed => true
  | _ => false

def Call.held (call : Call) : List Uuid :=
  match call.phase with
  | .locked ids | .commit ids _ => ids
  | _ => []

structure AuditLog where
  call : ℕ
  tenantId : Uuid
  actor : Actor
  resourceId : Uuid
  changes : Changes
  activityId : Uuid
  channelId : Uuid
  retryCount : ℕ
  deriving DecidableEq, Repr

/-! ### Other writes -/

inductive Write where
  | sent (response : Metadata)
  | handedOff (response : Metadata)
  | attemptFailed (policy : Policy) (message : String)
  | dead (message : String)
  | receipt (u : StatusUpdate)

/-- The changeset of the write; `none` where a receipt is not applied. -/
def Write.attrs (now : ℕ) (struct : Delivery) : Write → Option Attrs
  | .sent response => some (markSent now struct response)
  | .handedOff response => some (markHandedOff struct response)
  | .attemptFailed policy message => some (markAttemptFailed policy struct message)
  | .dead message => some (markDead struct message)
  | .receipt u =>
    match advanceStatus struct u with
    | .written attrs => some attrs
    | _ => none

structure Prepared where
  struct : Delivery
  attrs : Attrs
  now : ℕ

/-! ### The system -/

/-- The tables, the row locks, the incomplete jobs (by activity and channel), the calls, the structs
that processes have read, and their prepared writes. -/
structure State where
  rows : List Delivery
  channels : Uuid → Channel
  locks : Uuid → Option ℕ := fun _ => none
  jobs : List (Uuid × Uuid) := []
  audits : List AuditLog := []
  calls : List Call := []
  structs : ℕ → Option Delivery := fun _ => none
  prepared : ℕ → Option Prepared := fun _ => none
  clock : ℕ := 0

namespace State

def find (s : State) (id : Uuid) : Option Delivery := s.rows.find? (·.id = id)

def deadLetters (s : State) : List Uuid := (s.rows.filter (·.status = .failed)).map (·.id)

def setCall (s : State) (pid : ℕ) (call : Call) : State := {s with calls := s.calls.set pid call}

def lock (s : State) (pid : ℕ) (ids : List Uuid) : State :=
  {s with locks := fun id => if id ∈ ids then some pid else s.locks id}

def unlock (s : State) (pid : ℕ) : State :=
  {s with locks := fun id => if s.locks id = some pid then none else s.locks id}

end State

def bulkRetryChunk : ℕ := 500

/-- The `SELECT ... FOR UPDATE SKIP LOCKED` of a chunk. -/
def selectChunk (s : State) (filters : Filters) (chunk : ℕ) : List Uuid :=
  let free := s.rows.filter fun d => retryable s.channels filters d && (s.locks d.id).isNone
  ((after (fun d => toLex (d.updatedAt, d.id)) none free).take chunk).map (·.id)

/-- The row is changed by the `UPDATE` of `reset_dead_letters/2`. -/
def flips (ids : List Uuid) (d : Delivery) : Bool := d.id ∈ ids && d.status = .failed

/-- The rows `reset_dead_letters/2` returns. -/
def resetDeadLetters (s : State) (actor : Actor) (ids : List Uuid) (now : ℕ) : List Delivery :=
  (s.rows.filter (flips ids)).map (resetDeadLetter now actor.retriedBy)

/-- The pairs `enqueue_retries/1` inserts a job for. -/
def enqueueRetries (s : State) (retried : List Delivery) : List (Uuid × Uuid) :=
  (retried.map fun d => (d.activityId, d.channelId)).filter (· ∉ s.jobs)

/-- An entry of `insert_retry_audit_logs/3`. -/
def retryAuditLog (s : State) (pid : ℕ) (call : Call) (d : Delivery) : AuditLog where
  call := pid
  tenantId := (s.channels d.channelId).tenantId
  actor := call.actor
  resourceId := d.id
  changes := call.request.changes
  activityId := d.activityId
  channelId := d.channelId
  retryCount := d.retryCount

def replay (s : State) (pid : ℕ) (call : Call) (ids : List Uuid) (now : ℕ) : State :=
  let retried := resetDeadLetters s call.actor ids now
  {s.unlock pid with
    rows := s.rows.map fun d =>
      if flips ids d then resetDeadLetter now call.actor.retriedBy d else d
    jobs := s.jobs ++ enqueueRetries s retried
    audits := s.audits ++ retried.map (retryAuditLog s pid call)}

/-- The phase after a transaction that has replayed `count` deliveries, after `done` before it. -/
def Request.next (request : Request) (done count : ℕ) : Phase :=
  match request with
  | .one _ => if count = 0 then .returned .notFailed else .returned (.retried count false)
  | .bulk _ limit =>
    if count < min bulkRetryChunk (limit - done) ∨ limit ≤ done + count then .left else .chunk

/-- The next step of a call; `none` where it has ended, or waits for a row. -/
def next (s : State) (pid : ℕ) (call : Call) : Option State :=
  let call := {call with steps := call.steps + 1}
  match call.phase, call.request with
  | .begin, _ => some (s.setCall pid {call with phase := .updating s.clock})
  | .updating now, .one struct =>
    if (s.find struct.id).any (·.status = .failed) then
      if (s.locks struct.id).isSome then none
      else some ((s.lock pid [struct.id]).setCall pid {call with phase := .commit [struct.id] now})
    else some (s.setCall pid {call with phase := .returned .notFailed})
  | .chunk, .bulk filters limit =>
    let ids := selectChunk s filters (min bulkRetryChunk (limit - call.replayed.length))
    some ((s.lock pid ids).setCall pid {call with phase := .locked ids})
  | .locked ids, _ => some (s.setCall pid {call with phase := .commit ids s.clock})
  | .commit ids now, request =>
    let retried := (resetDeadLetters s call.actor ids now).map (·.id)
    some ((replay s pid call ids now).setCall pid {call with
      phase := request.next call.replayed.length retried.length
      replayed := call.replayed ++ retried})
  | .left, .bulk filters limit =>
    let count := call.replayed.length
    let hasMore := limit ≤ count && s.rows.any (retryable s.channels filters)
    some (s.setCall pid {call with phase := .returned (.retried count hasMore)})
  | _, _ => none

inductive Event where
  | tick (time : ℕ)
  | channel (id : Uuid) (channel : Channel)
  | create (id : Uuid) (activity : Activity) (channelId : Uuid)
  /-- A process reads a delivery, prepares a write from its struct, and stores it. -/
  | read (process : ℕ) (id : Uuid)
  | prepare (process : ℕ) (write : Write)
  | write (process : ℕ)
  | finish (job : Uuid × Uuid)
  /-- `retry_delivery/2` on the struct of a process; `active` is the channel's status in it. -/
  | retryDelivery (process : ℕ) (actor : Actor) (active : Bool)
  | retryDeadLetters (filters : Filters) (actor : Actor) (limit : ℕ)
  | advance (pid : ℕ)
  | crash (pid : ℕ)

/-- The checks of `retry_delivery/2`, on the struct. -/
def checkDelivery (struct : Delivery) (active : Bool) : Phase :=
  if struct.status ≠ .failed then .returned .notFailed
  else if ¬ active then .returned .channelInactive
  else .begin

def step (s : State) : Event → Option State
  | .tick time => some {s with clock := s.clock + time}
  | .channel id channel => some {s with channels := Function.update s.channels id channel}
  | .create id activity channelId =>
    if id ∈ s.rows.map (·.id) then none
    else some {s with rows := s.rows ++ [createDelivery id activity channelId s.clock]}
  | .read process id =>
    (s.find id).map fun d => {s with structs := Function.update s.structs process (some d)}
  | .prepare process write => do
    let struct ← s.structs process
    let attrs ← write.attrs s.clock struct
    some {s with prepared := Function.update s.prepared process (some ⟨struct, attrs, s.clock⟩)}
  | .write process =>
    (s.prepared process).bind fun w =>
      if (s.locks w.struct.id).isSome then none
      else some {s with
        prepared := Function.update s.prepared process none
        rows := s.rows.map fun d =>
          if d.id = w.struct.id then update w.now w.struct d w.attrs else d}
  | .finish job => some {s with jobs := s.jobs.erase job}
  | .retryDelivery process actor active =>
    (s.structs process).map fun struct =>
      { s with calls := s.calls ++ [{
          request := .one struct, actor, phase := checkDelivery struct active
          startedAt := s.clock, dead := s.deadLetters}]}
  | .retryDeadLetters filters actor limit =>
    some { s with calls := s.calls ++ [{
        request := .bulk (filters.startedAt s.clock) limit, actor
        phase := if limit = 0 then .left else .chunk
        startedAt := s.clock, dead := s.deadLetters}]}
  | .advance pid => s.calls[pid]?.bind (next s pid)
  | .crash pid =>
    (s.calls[pid]?.filter (!·.ended)).map fun call =>
      (s.unlock pid).setCall pid {call with phase := .crashed}

def stored (rows : List Delivery) (channels : Uuid → Channel) (clock : ℕ) : State where
  rows := rows
  channels := channels
  clock := clock

end Converger.Deliveries.DeadLetters
