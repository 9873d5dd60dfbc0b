import Converger.OrderedPages
import Converger.RoutingRules
import Mathlib.Data.Prod.Lex

/-!
# Planning the deliveries of an activity

`RoutingRules.route/3` and `Pipeline.plan/2`: the direction of an activity, the rules that match it,
the channels that are candidates for a delivery, and why some of them are left out. The conditions
of the rules are evaluated for the one activity that is planned, so a rule carries conditions of any
type and the test for them is an argument. The database orders names by a collation, which is an
argument too.
-/
namespace Converger.Pipeline
open OrderedPages Text
open RoutingRules (Mode)

/-! ### Adapters -/

inductive MessageTypes where
  | all
  | listed (types : List String)
  deriving DecidableEq, Repr

inductive Capability where
  | outbound | lifecycleEvents
  | activityTypes (types : List ActivityType)
  | messageTypes (types : MessageTypes)
  | other (name : String)
  deriving DecidableEq, Repr

def Capability.activityTypes? : Capability → Option (List ActivityType)
  | .activityTypes types => some types
  | _ => none

def Capability.messageTypes? : Capability → Option MessageTypes
  | .messageTypes types => some types
  | _ => none

/-- The capabilities of the adapter for a channel type; none where there is no adapter. -/
abbrev Adapters := String → List Capability

def internalTypes : List ActivityType := [.deliveryReceipt]

def clientTypes : List ActivityType :=
  [.message, .event, .typing, .messageReaction, .messageUpdate, .messageDelete,
    .conversationUpdate, .endOfConversation]

def Adapters.activityTypes (adapters : Adapters) (type : String) : List ActivityType :=
  ((adapters type).findSome? (·.activityTypes?)).getD clientTypes

def Adapters.messageTypes (adapters : Adapters) (type : String) : MessageTypes :=
  ((adapters type).findSome? (·.messageTypes?)).getD
    (if ((adapters type).findSome? (·.activityTypes?)).isSome then .listed [] else .all)

/-! ### Rows -/

structure Channel where
  id : Uuid
  type : String
  mode : Mode := .duplex
  active : Bool := true
  /-- The keys `unsupported_activities` and `show_tool_traces` of the configuration. -/
  unsupportedActivities : Option String := none
  showToolTraces : Bool := false
  deriving DecidableEq

structure Participant where
  channelId : Uuid
  externalId : String
  deriving DecidableEq

structure Conversation where
  tenantId : Uuid
  channelId : Option Uuid
  originChannelId : Option Uuid := none

/-- `Conversation.origin_channel_id/1`. -/
def Conversation.origin (c : Conversation) : Option Uuid :=
  match c.originChannelId with
  | some id => some id
  | none => c.channelId

/-- What `RichContent` and the stored stream make of a typed message: whether it is one no end user
gets, its text, the caption of its attachment, the text of a finished stream, and a tool call's name
and status. -/
structure Rendering where
  skips : Bool := false
  text : Option String := none
  attachment : Option (Option String) := none
  stream : Option String := none
  tool : Option (String × String) := none
  deriving DecidableEq

/-- An activity as it is planned. The type of a transient signal is no activity type. -/
structure Message where
  type : Option ActivityType := some .message
  sender : Option String
  text : Option String := none
  sourceChannelId : Option Uuid := none
  messageType : Option String := none
  rendering : Rendering := {}
  deriving DecidableEq

universe u v
variable {C : Type u} {N : Type v} [LinearOrder N]

structure Rule (C : Type u) where
  id : Uuid
  tenantId : Uuid
  name : String
  sourceChannelId : Uuid
  targetChannelIds : List Uuid
  enabled : Bool := true
  priority : ℤ := 100
  conditions : C
  stopProcessing : Bool := false

structure Db (C : Type u) where
  channels : List Channel
  rules : List (Rule C)
  participants : List Participant := []
  channels_nodup : (channels.map (·.id)).Nodup
  rules_nodup : (rules.map (·.id)).Nodup

def Db.getChannel (db : Db C) (id : Option Uuid) : Option Channel :=
  id.bind fun id => db.channels.find? (·.id = id)

/-! ### Downgrades -/

namespace Downgrade

inductive Plan where
  | native
  | downgrade (text : Option String)
  | skip
  deriving DecidableEq

/-- `policy/1` is `"skip"`. -/
def skips (channel : Channel) : Bool := channel.unsupportedActivities = some "skip"

def text (m : Message) : Option String :=
  match m.type with
  | some .messageReaction =>
    (m.text.filter (!blank ·)).map fun emoji => m.sender.getD "" ++ " reacted with " ++ emoji
  | some .messageUpdate => (m.text.filter (!blank ·)).map ("(edited) " ++ ·)
  | some .messageDelete => some (m.sender.getD "" ++ " deleted a message")
  | some .typing => none
  | _ => m.text.filter (!blank ·)

def ofText : Option String → Plan
  | none => .skip
  | some text => .downgrade (some text)

def textMessage (m : Message) : Plan := ofText (m.rendering.text <|> text m)

/-- `RichContent.media_types/0` and `well_known_types/0`. -/
def attached : List String := ["image", "file", "video", "audio", "location", "contact"]

def nativeMessage (m : Message) (type : String) : Plan :=
  if type ∈ attached then
    match m.rendering.attachment with
    | some caption => .downgrade caption
    | none => textMessage m
  else .native

/-- `plan_message_type/2`, for the message types the adapter lists. -/
def planMessageType (m : Message) (channel : Channel) (types : List String) (type : String) :
    Plan :=
  if type = "tool_call" then
    match m.rendering.tool with
    | some (name, status) =>
      if channel.showToolTraces then .downgrade (some (name ++ ": " ++ status)) else .skip
    | none => .skip
  else if type = "genui" then ofText m.rendering.stream
  else if m.rendering.skips then .skip
  else if type ∈ types then nativeMessage m type
  else textMessage m

def planType (adapters : Adapters) (m : Message) (type : ActivityType) (channel : Channel) : Plan :=
  if type ∈ adapters.activityTypes channel.type then .native
  else if skips channel then .skip
  else ofText (text m)

def plan (adapters : Adapters) (m : Message) (type : ActivityType) (channel : Channel) : Plan :=
  if type ∈ internalTypes then .skip
  else
    match m.messageType, adapters.messageTypes channel.type with
    | some messageType, .listed types => planMessageType m channel types messageType
    | _, _ => planType adapters m type channel

end Downgrade

/-! ### Routes -/

inductive Direction where
  | inbound | reply
  deriving DecidableEq, Repr

inductive Outcome where
  | matched | notMatched | skipped
  deriving DecidableEq, Repr

def Rule.key (collate : String → N) (rule : Rule C) : ℤ ×ₗ N ×ₗ Uuid :=
  toLex (rule.priority, toLex (collate rule.name, rule.id))

def Rule.ofSource (sourceChannelId tenantId : Uuid) (rule : Rule C) : Bool :=
  rule.sourceChannelId = sourceChannelId && rule.tenantId = tenantId && rule.enabled

def Db.enabledRulesForSource (db : Db C) (collate : String → N) (sourceChannelId : Option Uuid)
    (tenantId : Uuid) : List (Rule C) :=
  match sourceChannelId with
  | none => []
  | some id => after (Rule.key collate) none (db.rules.filter (Rule.ofSource id tenantId))

/-- `evaluate/2`; the flag tells whether a rule has ended the evaluation. `holds` is `none`
where the test of the conditions raises. -/
def evaluate (holds : C → Option Bool) : Bool → List (Rule C) → Option (List (Rule C × Outcome))
  | _, [] => some []
  | true, rule :: rules => (evaluate holds true rules).map ((rule, .skipped) :: ·)
  | false, rule :: rules =>
    (holds rule.conditions).bind fun matches? =>
      if matches? then (evaluate holds rule.stopProcessing rules).map ((rule, .matched) :: ·)
      else (evaluate holds false rules).map ((rule, .notMatched) :: ·)

def matched (evaluations : List (Rule C × Outcome)) : List (Rule C) :=
  (evaluations.filter (·.2 = .matched)).map (·.1)

structure Route (C : Type u) where
  direction : Direction
  originChannelId : Option Uuid
  sourceChannelId : Option Uuid
  evaluations : List (Rule C × Outcome)

def Route.matched (route : Route C) : List (Rule C) := Pipeline.matched route.evaluations

def direction (m : Message) (c : Conversation) : Direction :=
  if m.sourceChannelId.isNone ∨ m.sourceChannelId = c.origin then .inbound else .reply

def ruleSource (m : Message) (c : Conversation) : Option Uuid :=
  match direction m c with
  | .reply => m.sourceChannelId
  | .inbound => c.origin

def routeOf (m : Message) (c : Conversation) (evaluations : List (Rule C × Outcome)) :
    Route C where
  direction := direction m c
  originChannelId := c.origin
  sourceChannelId := m.sourceChannelId
  evaluations := evaluations

def route (db : Db C) (collate : String → N) (holds : C → Option Bool) (m : Message)
    (c : Conversation) : Option (Route C) :=
  (evaluate holds false (db.enabledRulesForSource collate (ruleSource m c) c.tenantId)).map
    (routeOf m c)

/-! ### Candidates -/

inductive Reason where
  | origin | replyBack | sourceHub | rule
  deriving DecidableEq, Repr

inductive Exclusion where
  | notDeliverable | inboundOnly | inactive | echo | unsupportedActivity
  deriving DecidableEq, Repr

structure Entry where
  channel : Channel
  reason : Reason
  ruleIds : List Uuid
  excluded : Option Exclusion := none
  deriving DecidableEq

def fixed (db : Db C) (route : Route C) : List (Option Uuid × Reason) :=
  match route.direction with
  | .inbound => [(route.originChannelId, .origin)]
  | .reply =>
    (route.originChannelId, .replyBack) ::
      if (db.getChannel route.sourceChannelId).any (·.type = "websocket") then
        [(route.sourceChannelId, .sourceHub)]
      else []

/-- The targets of the matched rules, in rule order, each once; none of the fixed ones. -/
def orderedTargets (db : Db C) (route : Route C) : List Uuid :=
  (route.matched.flatMap (·.targetChannelIds)).eraseDups.filter
    fun id => some id ∉ (fixed db route).map (·.1)

def ruleIds (route : Route C) (id : Option Uuid) : List Uuid :=
  ((route.matched.flatMap fun rule => rule.targetChannelIds.map fun target => (target, rule.id)).filter
    fun pair => some pair.1 = id).map (·.2)

def entry (db : Db C) (route : Route C) (candidate : Option Uuid × Reason) : Option Entry :=
  (db.getChannel candidate.1).map fun channel =>
    {channel, reason := candidate.2, ruleIds := ruleIds route candidate.1}

def candidates (db : Db C) (route : Route C) : List Entry :=
  (fixed db route ++ (orderedTargets db route).map fun id => (some id, Reason.rule)).filterMap
    (entry db route)

/-! ### Exclusions -/

def deliverable (adapters : Adapters) (channel : Channel) : Bool :=
  .outbound ∈ adapters channel.type

def excludeUndeliverable (adapters : Adapters) (e : Entry) : Entry :=
  if ¬ deliverable adapters e.channel then {e with excluded := some .notDeliverable}
  else if e.channel.mode = .inbound then {e with excluded := some .inboundOnly}
  else if e.reason = .rule ∧ ¬ e.channel.active then {e with excluded := some .inactive}
  else e

def Db.channelsWithParticipant (db : Db C) (ids : List Uuid) (externalId : Option String) :
    List Uuid :=
  (db.participants.filter fun p => p.channelId ∈ ids ∧ some p.externalId = externalId).map
    (·.channelId)

/-- The conversation's own participant is the sender: their channel, unless it is a hub. `none`
where the channel is gone and the lookup raises. -/
def ownChannel (db : Db C) (m : Message) (participant : Option Participant) : Option (List Uuid) :=
  match participant with
  | none => some []
  | some p =>
    if some p.externalId = m.sender then
      (db.getChannel (some p.channelId)).map fun channel =>
        if channel.type = "websocket" then [] else [p.channelId]
    else some []

def participantEchoChannelIds (db : Db C) (m : Message) (participant : Option Participant)
    (channels : List Channel) : Option (List Uuid) :=
  (ownChannel db m participant).map fun own => own ++
    db.channelsWithParticipant ((channels.filter (·.type ≠ "websocket")).map (·.id)) m.sender

/-- Entries that are not excluded yet are, with the reason, where the test holds. -/
def exclude (reason : Exclusion) (test : Channel → Bool) (e : Entry) : Entry :=
  if e.excluded = none ∧ test e.channel then {e with excluded := some reason} else e

def plannedChannels (entries : List Entry) : List Channel :=
  (entries.filter (·.excluded = none)).map (·.channel)

def excludeEcho (db : Db C) (m : Message) (participant : Option Participant)
    (entries : List Entry) : Option (List Entry) :=
  (participantEchoChannelIds db m participant (plannedChannels entries)).map fun ids =>
    entries.map (exclude .echo (·.id ∈ ids))

def lifecycleEvent (m : Message) : Bool :=
  m.type = some .conversationUpdate && m.sender = some "system"

def acceptsActivity (adapters : Adapters) (m : Message) (channel : Channel) : Bool :=
  (!lifecycleEvent m || .lifecycleEvents ∈ adapters channel.type) &&
    m.type.all fun type => Downgrade.plan adapters m type channel ≠ .skip

/-- The entries of `plan/2`. -/
def plan (db : Db C) (adapters : Adapters) (collate : String → N) (holds : C → Option Bool)
    (m : Message) (c : Conversation) (participant : Option Participant) : Option (List Entry) :=
  (route db collate holds m c).bind fun route =>
    let entries := (candidates db route).map (excludeUndeliverable adapters)
    (excludeEcho db m participant entries).map fun entries =>
      entries.map (exclude .unsupportedActivity fun channel => !acceptsActivity adapters m channel)

def resolveDeliveryChannels (db : Db C) (adapters : Adapters) (collate : String → N)
    (holds : C → Option Bool) (m : Message) (c : Conversation)
    (participant : Option Participant) : Option (List Channel) :=
  (plan db adapters collate holds m c participant).map plannedChannels

end Converger.Pipeline
