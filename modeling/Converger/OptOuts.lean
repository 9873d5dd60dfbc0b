import Converger.DeliveryJobs
import Converger.Middleware
import Converger.Sms

/-!
# Opted-out recipients

A participant who has opted out gets nothing on the channel: `Pipeline.deliver/2` looks for
an opted-out recipient before anything else. It compares the values of the activity as they
are written, before the transformations; the adapter sends to the normal form of the value it
finds after them.
-/
namespace Converger.OptOuts
open Deliveries DeliveryJobs Middleware Sms List Option

structure Participant where
  id : Uuid
  channelId : Uuid
  externalId : String
  optedOutAt : Option ℕ := none
  deriving DecidableEq

structure Directory where
  participants : List Participant
  participantOf : Uuid → Option Uuid

structure Channel where
  id : Uuid
  defaultCountryCode : Option Json := none
  transformations : List Transformation := []

def Directory.optedOut (dir : Directory) (channelId : Uuid) (externalId : String) : Bool :=
  dir.participants.any fun p =>
    p.channelId = channelId ∧ p.externalId = externalId ∧ p.optedOutAt.isSome

/-- `Participants.recipient_for/2`: the conversation's participant, if it is the channel's. -/
def Directory.recipientFor (dir : Directory) (a : Outbound) (channelId : Uuid) : Option String :=
  (dir.participantOf a.conversationId).bind fun id =>
    (dir.participants.find? fun p => p.id = id ∧ p.channelId = channelId).map (·.externalId)

def metadataField (a : Outbound) (key : String) : Option Json := (a.metadata.getD []).lookup key

/-- A value that is neither missing nor `nil` nor `false`. -/
def truthy : Option Json → Option Json
  | none | some .null | some (.bool false) => none
  | some value => some value

def asText : Option Json → Option String
  | some (.str s) => if s = "" then none else some s
  | _ => none

def writtenRecipients (dir : Directory) (a : Outbound) (channelId : Uuid) : List String :=
  [(dir.recipientFor a channelId).map Json.str, metadataField a "to",
    metadataField a "recipient_phone"].filterMap asText

def Directory.optedOutRecipient (dir : Directory) (a : Outbound) (channelId : Uuid) :
    Option String :=
  (writtenRecipients dir a channelId).eraseDups.find? fun s => dir.optedOut channelId s

inductive RecipientError
  | noRecipient
  | notE164 (raw : Json)

/-- The value `Sms.recipient/2` starts from. -/
def rawRecipient (dir : Directory) (channel : Channel) (a : Outbound) : Option Json :=
  ((truthy (metadataField a "to")).or (truthy (metadataField a "recipient_phone"))).or
    ((dir.recipientFor a channel.id).map Json.str)

def recipient (dir : Directory) (channel : Channel) (a : Outbound) :
    Except RecipientError String :=
  match rawRecipient dir channel a with
  | none => .error .noRecipient
  | some raw =>
    match normalizeE164 raw channel.defaultCountryCode with
    | some e164 => .ok e164
    | none => .error (.notE164 raw)

/-- `Downgrade.plan/2`: every downgrade is a plain message with another text. -/
inductive Plan
  | native
  | downgrade (text : Option String)
  | skip
  deriving DecidableEq

def Plan.planned : Plan → Outbound → Outbound
  | .downgrade text, a => { a with type := "message", text}
  | _, a => a

inductive Result
  | alreadySent
  | refused (refusal : Refusal)
  | called (activity : Outbound)

section Deliver
variable (rt : Runtime) (matched : Outbound → List (List Transformation)) (plan : Outbound → Plan)
  (dir : Directory) (channel : Channel)

def runDelivery (a : Outbound) : Result :=
  match transform rt channel.transformations matched a with
  | .ok transformed => .called transformed
  | .error reason => .refused (.halted reason)

def planDelivery (a : Outbound) : Result :=
  match plan a with
  | .skip => .refused (.unsupported a.type)
  | p => runDelivery rt matched channel (p.planned a)

def attemptDelivery (a : Outbound) : Result :=
  match dir.optedOutRecipient a channel.id with
  | some r => .refused (.optedOut r)
  | none => planDelivery rt matched plan channel a

def deliver (delivery : Delivery) (a : Outbound) : Result :=
  if delivery.status.settled then .alreadySent
  else attemptDelivery rt matched plan dir channel a

end Deliver

def Result.recorded (now : ℕ) (delivery : Delivery) : Result → Delivery
  | .refused refusal => update now delivery delivery (markDead delivery refusal.message)
  | _ => delivery

section
variable {rt : Runtime} {matched : Outbound → List (List Transformation)} {plan : Outbound → Plan}
  {dir : Directory} {channel : Channel}

end

variable {number : String} {t : Outbound}

def stopped : Directory where
  participants := [⟨7, 1, "+905321112233", some 5⟩]
  participantOf := fun conversationId => if conversationId = 3 then some 7 else none

end Converger.OptOuts
