import Converger.CreateActivity
import Converger.Deliveries
import Mathlib.Data.List.MinMax

/-!
# Receiving a message

`Inbound.receive_message/3` for messages that name no conversation: look for the activity
the message became before, find or open its conversation, and create the activity there.
Each look-up and each transaction of a processing is a step of its own, so any number of
processings of the same message interleave with each other and with conversations being
closed and reopened. The tables are those of one tenant, and the activity is created
statement by statement as `create_activity/2` does.
-/
namespace Converger.Inbound
open ActivityChangeset Deliveries

structure Channel where
  id : Uuid
  tenantId : Uuid
  idleTimeoutSeconds : Option ℕ := none

/-- A parsed provider message. `content` has the fields a client may set. -/
structure Message where
  content : ActivityChangeset.Attrs := {}
  sender : Option String := none
  idempotencyKey : Option String := none
  threadRefs : List String := []
  threadActivityIds : List Uuid := []
  externalId : Option String := none
  replyToProviderId : Option String := none
  deriving DecidableEq

structure Participant where
  id : Uuid
  channelId : Uuid
  externalId : String

/-- A message the received one replies to: a provider's id, or one of ours. -/
inductive Ref where
  | provider (id : String)
  | activity (id : Uuid)

inductive Result where
  | created (activity : Activity)
  | duplicate (activity : Activity)
  | rejected
  | error
  | raised

inductive Phase where
  | lookup
  | thread (refs : List Ref)
  | candidate (conversationId : Uuid) (rest : List Ref)
  | participant
  | newConversation
  | creating (conversationId : Uuid)
  | done (result : Result)

structure Receiving where
  message : Message
  phase : Phase := .lookup

/-- The tables and the processings, numbered in the order they started. A processing makes
its `create_activity/2` call under its own number. -/
structure State where
  store : CreateActivity.State
  conversationIds : List Uuid := []
  deliveries : List Delivery := []
  participants : List Participant := []
  receiving : List Receiving := []

structure Input where
  conversationId : Uuid := 0
  participantId : Uuid := 0
  now : ℕ := 0
  fails : Bool := false

def participantAttrs (message : Message) : Option String := message.externalId.filter (· ≠ "")

def refs (message : Message) : List Ref :=
  (message.threadRefs.filter (· ≠ "")).map .provider ++ message.threadActivityIds.map .activity

/-- The first activity with the key in any conversation that belongs to the channel. -/
def getActivityByChannelIdempotencyKey (s : State) (channelId : Uuid) (key : Option String) :
    Option Activity :=
  key.bind fun k =>
    (s.store.activities.filter fun a => a.idempotencyKey = some k &&
      (s.store.conversations a.conversationId).any fun cv => cv.channelId = channelId).argmin
        Activity.insertedAt

def getActivity (s : State) (id : Uuid) : Option Activity :=
  s.store.activities.find? fun a => a.id = id

/-- Two deliveries of the channel with the same provider id make the look-up raise. -/
def getActivityByProviderMessageId (s : State) (channelId : Uuid) (id : String) :
    Except Unit (Option Activity) :=
  match getActivityByChannelIdempotencyKey s channelId (some id) with
  | some a => .ok (some a)
  | none =>
    match s.deliveries.filter fun d => d.channelId = channelId && d.providerMessageId = some id with
    | [] => .ok none
    | [d] => .ok (getActivity s d.activityId)
    | _ => .error ()

def deliveredConversationId (s : State) (channelId activityId : Uuid) : Option Uuid :=
  if s.deliveries.any fun d => d.channelId = channelId && d.activityId = activityId then
    (getActivity s activityId).map Activity.conversationId
  else none

def refConversation (s : State) (channelId : Uuid) : Ref → Except Unit (Option Uuid)
  | .provider id =>
    (getActivityByProviderMessageId s channelId id).map (·.map Activity.conversationId)
  | .activity id => .ok (deliveredConversationId s channelId id)

def isActive (s : State) (c : Uuid) : Bool :=
  (s.store.conversations c).any fun cv => cv.status = .active

def lastActivityAt (s : State) (cv : Conversation) : ℕ :=
  ((s.store.activities.filter fun a => a.conversationId = cv.id).argmax Activity.insertedAt).elim
    cv.insertedAt Activity.insertedAt

def idle (s : State) (cv : Conversation) (timeoutSeconds now : ℕ) : Bool :=
  timeoutSeconds < now / 1000000 - lastActivityAt s cv / 1000000

/-- The participant's latest active conversation on the channel, unless it has been idle. -/
def openConversation (ch : Channel) (s : State) (participantId now : ℕ) : Option Conversation :=
  (((s.conversationIds.filterMap s.store.conversations).filter fun cv =>
    cv.participantId = some participantId && cv.channelId = ch.id &&
      cv.status = .active).argmax Conversation.insertedAt).filter fun cv =>
    !ch.idleTimeoutSeconds.any fun timeout => idle s cv timeout now

def findParticipant (ch : Channel) (s : State) (externalId : String) : Option Participant :=
  s.participants.find? fun p => p.channelId = ch.id && p.externalId = externalId

def joins (ch : Channel) (s : State) (message : Message) (id : Uuid) : State :=
  match participantAttrs message with
  | none => s
  | some externalId =>
    match findParticipant ch s externalId with
    | some _ => s
    | none => {s with participants := s.participants ++ [⟨id, ch.id, externalId⟩]}

/-- A new conversation, of the sender where there is one. The id is a generated one. -/
def opens (ch : Channel) (s : State) (message : Message) (inp : Input) : Option State :=
  if (s.store.conversations inp.conversationId).isSome then none
  else
    some {s with
      store := {s.store with
        conversations := Function.update s.store.conversations inp.conversationId
          (some {
            id := inp.conversationId
            channelId := ch.id
            participantId := (participantAttrs message).bind fun externalId =>
              (findParticipant ch s externalId).map Participant.id
            insertedAt := inp.now})}
      conversationIds := s.conversationIds ++ [inp.conversationId]}

/-- `resolve_reference/3`: the provider's id of the message it refers to becomes ours. -/
def resolveReference (ch : Channel) (s : State) (conversationId : Uuid) (message : Message) :
    Except Unit ActivityChangeset.Attrs := do
  let target ← match message.replyToProviderId with
    | none => .ok none
    | some id => getActivityByProviderMessageId s ch.id id
  let isReference := (message.content.type.any fun type => type ∈ referenceTypes.map typeName)
  match target.filter fun a =>
      a.conversationId = conversationId && (a.type = .message || !isReference) with
  | some a => return {message.content with replyToId := some a.id}
  | none =>
    if isReference && message.replyToProviderId.isSome && message.content.replyToId.isNone then
      return { message.content with type := some "event" }
    else return message.content

/-- The attributes of the `create_client_activity/2` call. -/
def activityAttrs (ch : Channel) (conversationId : Uuid) (message : Message)
    (content : ActivityChangeset.Attrs) : ActivityChangeset.Attrs :=
  {content with
    tenantId := some ch.tenantId
    conversationId := some conversationId
    sourceChannelId := some ch.id
    sender := message.sender
    idempotencyKey := message.idempotencyKey}

def ofResult : CreateActivity.Result → Result
  | .ok activity => .created activity
  | .invalid _ => .rejected
  | .conversationClosed | .deliveryEnqueueFailed => .error
  | .raised => .raised

def State.setPhase (s : State) (pid : ℕ) (r : Receiving) (phase : Phase) : State :=
  {s with receiving := s.receiving.set pid {r with phase := phase}}

def senderConversation (ch : Channel) (s : State) (message : Message) (now : ℕ) :
    Option Conversation := do
  let externalId ← participantAttrs message
  let participant ← findParticipant ch s externalId
  openConversation ch s participant.id now

/-- `create_activity/2` under way: issue the call, and take over what it returned. -/
def createActivity (ch : Channel) (s : State) (pid : ℕ) (r : Receiving) (c : Uuid) :
    Option State :=
  match s.store.calls pid with
  | none =>
    match resolveReference ch s c r.message with
    | .error _ => some (s.setPhase pid r (.done .raised))
    | .ok content =>
      some {s with store := {s.store with
        calls := Function.update s.store.calls pid
          (some {attrs := activityAttrs ch c r.message content})}}
  | some call =>
    match call.phase with
    | .done result => some (s.setPhase pid r (.done (ofResult result)))
    | _ => none

/-- The next statement of a processing. The transaction that resolves a participant's
conversation holds the participant's row, so it is one step. -/
def advance (ch : Channel) (s : State) (pid : ℕ) (r : Receiving) (inp : Input) : Option State :=
  match r.phase with
  | .lookup =>
    match getActivityByChannelIdempotencyKey s ch.id r.message.idempotencyKey with
    | some a => some (s.setPhase pid r (.done (.duplicate a)))
    | none => some (s.setPhase pid r (.thread (refs r.message)))
  | .thread [] =>
    some (s.setPhase pid r
      (if (participantAttrs r.message).isSome then .participant else .newConversation))
  | .thread (ref :: rest) =>
    match refConversation s ch.id ref with
    | .error _ => some (s.setPhase pid r (.done .raised))
    | .ok none => some (s.setPhase pid r (.thread rest))
    | .ok (some c) => some (s.setPhase pid r (.candidate c rest))
  | .candidate c rest =>
    if isActive s c then
      some ((joins ch s r.message inp.participantId).setPhase pid r (.creating c))
    else some (s.setPhase pid r (.thread rest))
  | .participant =>
    if inp.fails then some (s.setPhase pid r (.done .rejected))
    else
      let joined := joins ch s r.message inp.participantId
      match senderConversation ch s r.message inp.now with
      | some cv => some (joined.setPhase pid r (.creating cv.id))
      | none => (opens ch joined r.message inp).map (·.setPhase pid r (.creating inp.conversationId))
  | .newConversation =>
    if inp.fails then some (s.setPhase pid r (.done .rejected))
    else (opens ch s r.message inp).map (·.setPhase pid r (.creating inp.conversationId))
  | .creating c => createActivity ch s pid r c
  | .done _ => none

inductive Event where
  | receive (message : Message)
  | advance (pid : ℕ) (inp : Input)
  | statement (pid : ℕ) (out : CreateActivity.Outcome)
  | crash (pid : ℕ)
  | transition (conversationId : Uuid) (status : ConversationStatus)
  | deliver (delivery : Delivery)

def step (cfg : CreateActivity.Config) (ch : Channel) (s : State) : Event → Option State
  | .receive message => some {s with receiving := s.receiving ++ [{message := message}]}
  | .advance pid inp => s.receiving[pid]?.bind fun r => advance ch s pid r inp
  | .statement pid out =>
    (CreateActivity.step cfg s.store (.statement pid out)).map ({s with store := ·})
  | .crash pid =>
    match s.store.calls pid with
    | some _ => (CreateActivity.step cfg s.store (.crash pid)).map ({ s with store := · })
    | none => s.receiving[pid]?.bind fun r =>
      match r.phase with
      | .done _ => none
      | _ => some (s.setPhase pid r (.done .raised))
  | .transition c status =>
    (CreateActivity.step cfg s.store (.transition c status)).map ({s with store := ·})
  | .deliver delivery => some {s with deliveries := s.deliveries ++ [delivery]}

end Converger.Inbound
