import Converger.Activity
import Converger.RetryPolicy
import Converger.StaleWrites
import Converger.Text

/-!
# Deliveries

The `deliveries` table and the writes of `Converger.Deliveries`. Each write starts from a
struct that was read earlier: `Repo.update` sets the fields whose new value differs from
that struct, so the stored row may keep what another process wrote meanwhile. Times are
microseconds and are arguments of the functions that read the clock.
-/
namespace Converger.Deliveries
open RetryPolicy StaleWrites Text

/-- `Delivery.statuses/0`. -/
inductive Status where
  | pending | paused | sent | delivered | read | failed
  deriving DecidableEq, Repr

/-- `Delivery.status_rank/1`. -/
def Status.rank : Status → ℤ
  | .pending => 0
  | .paused => 0
  | .sent => 1
  | .delivered => 2
  | .read => 3
  | .failed => -1

abbrev Metadata := List (String × String)

/-- `Map.merge/2`: the second map wins. -/
def Metadata.merge (old new : Metadata) : Metadata :=
  old.filter (fun entry => entry.1 ∉ new.map Prod.fst) ++ new

structure Delivery where
  id : Uuid := 0
  activityId : Uuid := 0
  channelId : Uuid := 0
  activityInsertedAt : ℕ := 0
  status : Status := .pending
  attempts : ℕ := 0
  lastError : Option String := none
  sentAt : Option ℕ := none
  deliveredAt : Option ℕ := none
  readAt : Option ℕ := none
  providerMessageId : Option String := none
  metadata : Metadata := []
  retryCount : ℕ := 0
  retriedBy : Option String := none
  retriedAt : Option ℕ := none
  updatedAt : ℕ := 0
  deriving DecidableEq, Repr

/-- `create_delivery/2`: a new row, with the keys copied from the activity. -/
def createDelivery (id : Uuid) (activity : Activity) (channelId : Uuid) (now : ℕ) : Delivery where
  id := id
  activityId := activity.id
  channelId := channelId
  activityInsertedAt := activity.insertedAt
  updatedAt := now

/-- The attributes of a changeset, as cast; `none` is a field that is not given. -/
structure Attrs where
  status : Option Status := none
  attempts : Option ℕ := none
  lastError : Option (Option String) := none
  sentAt : Option (Option ℕ) := none
  deliveredAt : Option (Option ℕ) := none
  readAt : Option (Option ℕ) := none
  providerMessageId : Option (Option String) := none
  metadata : Option Metadata := none

/-- The changeset of `attrs` on `struct` has a change. -/
def changed (struct : Delivery) (attrs : Attrs) : Bool :=
  differs attrs.status struct.status || differs attrs.attempts struct.attempts ||
    differs attrs.lastError struct.lastError || differs attrs.sentAt struct.sentAt ||
    differs attrs.deliveredAt struct.deliveredAt || differs attrs.readAt struct.readAt ||
    differs attrs.providerMessageId struct.providerMessageId ||
    differs attrs.metadata struct.metadata

/-- The row after `struct |> Delivery.changeset(attrs) |> Repo.update()`. -/
def update (now : ℕ) (struct row : Delivery) (attrs : Attrs) : Delivery :=
  {row with
    status := put attrs.status struct.status row.status
    attempts := put attrs.attempts struct.attempts row.attempts
    lastError := put attrs.lastError struct.lastError row.lastError
    sentAt := put attrs.sentAt struct.sentAt row.sentAt
    deliveredAt := put attrs.deliveredAt struct.deliveredAt row.deliveredAt
    readAt := put attrs.readAt struct.readAt row.readAt
    providerMessageId :=
      put attrs.providerMessageId struct.providerMessageId row.providerMessageId
    metadata := put attrs.metadata struct.metadata row.metadata
    updatedAt := if changed struct attrs then now else row.updatedAt}

section Update
variable (now : ℕ) (struct row : Delivery) (attrs : Attrs)

@[simp] theorem update_status :
    (update now struct row attrs).status = put attrs.status struct.status row.status := rfl

@[simp] theorem update_lastError :
    (update now struct row attrs).lastError =
      put attrs.lastError struct.lastError row.lastError := rfl

end Update

/-- The metadata keys that carry the provider's id of the message, in order. -/
def providerMessageIdKeys : List String :=
  ["provider_message_id", "whatsapp_message_id", "infobip_message_id"]

def providerMessageId (response : Metadata) : Option String :=
  providerMessageIdKeys.findSome? fun key => response.lookup key

def markSent (now : ℕ) (delivery : Delivery) (response : Metadata) : Attrs where
  status := some .sent
  sentAt := some (some now)
  attempts := some (delivery.attempts + 1)
  metadata := some (delivery.metadata.merge response)
  providerMessageId := (providerMessageId response).map castText

def markHandedOff (delivery : Delivery) (response : Metadata) : Attrs where
  status := some .pending
  attempts := some (delivery.attempts + 1)
  lastError := some none
  metadata := some (delivery.metadata.merge response)

def deadLetter (attempts : ℕ) (errorMessage : String) : Attrs where
  status := some .failed
  attempts := some attempts
  lastError := some (castText errorMessage)

def markAttemptFailed (policy : Policy) (delivery : Delivery) (errorMessage : String) : Attrs :=
  let attempts := delivery.attempts + 1
  if exhausted policy attempts then deadLetter attempts errorMessage
  else
    { status := some .pending
      attempts := some attempts
      lastError := some (castText errorMessage)}

def markDead (delivery : Delivery) (errorMessage : String) : Attrs :=
  deadLetter (delivery.attempts + 1) errorMessage

/-- A provider's status update. An unknown status is `none`, a timestamp whose conversion
raises is `none`, and so is an error that is not a text. -/
structure StatusUpdate where
  status : Option Status
  timestamp : Option ℕ
  error : Option (Option String) := some none

/-- What `advance_status/2` does with an update. -/
inductive Advance where
  | ignored | raised | rejected
  | written (attrs : Attrs)

def shouldUpdate (delivery : Delivery) (new : Option Status) : Bool :=
  match new with
  | none => false
  | some .failed => delivery.status ≠ .read
  | some status => delivery.status.rank < status.rank && 0 ≤ delivery.status.rank

def advanceAttrs (status : Status) (timestamp : ℕ) (error : Option String) : Attrs where
  status := some status
  sentAt := if status = .sent then some (some timestamp) else none
  deliveredAt := if status = .delivered then some (some timestamp) else none
  readAt := if status = .read then some (some timestamp) else none
  lastError := if status = .failed then some (error.bind castText) else none

def advanceStatus (delivery : Delivery) (u : StatusUpdate) : Advance :=
  match u.status with
  | none => .ignored
  | some status =>
    if shouldUpdate delivery (some status) then
      match u.timestamp, u.error with
      | none, _ => .raised
      | some timestamp, some error => .written (advanceAttrs status timestamp error)
      -- The error is only part of the changeset of a failure.
      | some timestamp, none =>
        if status = .failed then .rejected else .written (advanceAttrs status timestamp none)
    else .ignored

/-- The replay of a dead letter, as the `UPDATE ... WHERE status = 'failed'` stores it. -/
def resetDeadLetter (now : ℕ) (actor : String) (row : Delivery) : Delivery :=
  {row with
    status := .pending
    attempts := 0
    retriedBy := some actor
    retriedAt := some now
    updatedAt := now
    retryCount := row.retryCount + 1}

def Status.settled (status : Status) : Bool := status ∈ [.sent, .delivered, .read]

/-- A delivery whose send is still to come. `paused` ranks like `pending`. -/
def Status.waiting (status : Status) : Bool := status ∈ [.pending, .paused]

variable {policy : Policy} {delivery : Delivery} {message : String}

theorem markAttemptFailed_of_exhausted (h : policy.maxAttempts ≤ delivery.attempts + 1) :
    markAttemptFailed policy delivery message = markDead delivery message := by
  simp [markAttemptFailed, markDead, exhausted, h]

theorem markAttemptFailed_of_lt (h : delivery.attempts + 1 < policy.maxAttempts) :
    markAttemptFailed policy delivery message =
      { status := some .pending, attempts := some (delivery.attempts + 1),
        lastError := some (castText message)} := by
  simp [markAttemptFailed, exhausted, Nat.not_le.mpr h]

end Converger.Deliveries
