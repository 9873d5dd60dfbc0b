import Converger.JsonValues
import Mathlib.Tactic.NormNum

/-!
# Protocol frames over gRPC

`ConvergerWeb.GRPC.Frames`: the mapping between the JSON frames of the protocol and the protobuf
messages. A frame is sent as its typed message where that maps back to the same frame, and as a
`google.protobuf.Struct` otherwise. The typed messages are those a client decodes, through a `Wire`
that is known only on absent values and on values that fit their field. A function that raises
returns `none`. Frames have string keys, so that `stringify/1` leaves them alone.
-/
namespace Converger.GrpcFrames
open JsonValues

/-! ### Fields -/

/-- `data[key]`: a missing key gives null, and so does null itself. -/
def get (data : Value) (key : String) : Option Value :=
  match data with
  | .obj fields => some ((fields.lookup key).getD .null)
  | .null => some .null
  | _ => none

/-- `value || []` and `value || %{}`: the default is that of an absent field. -/
def orEmpty : Value → Value
  | .bool false => .null
  | v => v

namespace Fits

def string : Value → Option String
  | .str s => some s
  | _ => none

def bool : Value → Option Bool
  | .bool b => some b
  | _ => none

def integer (low high : ℤ) : Value → Option ℤ
  | .int n => if low ≤ n ∧ n ≤ high then some n else none
  | _ => none

def uint32 : Value → Option ℤ := integer 0 (2 ^ 32 - 1)

def uint64 : Value → Option ℤ := integer 0 (2 ^ 64 - 1)

def int64 : Value → Option ℤ := integer (-2 ^ 63) (2 ^ 63 - 1)

/-- A `repeated string`. -/
def strings : Value → Option (List String)
  | .arr items => items.mapM string
  | _ => none

/-- A `map < string, uint64>`. -/
def counters : Value → Option (List (String × ℤ))
  | .obj fields => fields.mapM fun field => (uint64 field.2).map (field.1, ·)
  | _ => none

end Fits

/-- The fields of one type, encoded and decoded. An absent value is the default of a plain field
and stays absent in an optional one; a value of the type comes back. It is open what becomes of any
other value: encoding may raise, leave it out, or convert it. -/
structure WireField {α : Type} (fits : Value → Option α) (default : α) where
  plain : Value → Option α
  optional : Value → Option (Option α)
  plain_null : plain .null = some default
  optional_null : optional .null = some none
  plain_of_fits : ∀ v a, fits v = some a → plain v = some a
  optional_of_fits : ∀ v a, fits v = some a → optional v = some (some a)

theorem same_null_of_fits {α : Type} {fits : Value → Option α} (h : fits .null = none) {v : Value}
    {a : α} (hv : fits v = some a) : v.same .null = false := by
  cases v with
  | null =>
    rw [h] at hv
    cases hv
  | _ => rfl

/-- The field in which nothing but its values and their absence can be encoded. -/
def WireField.strict {α : Type} (fits : Value → Option α) (default : α)
    (h : fits .null = none) : WireField fits default where
  plain v := if v.same .null then some default else fits v
  optional v := if v.same .null then some none else (fits v).map some
  plain_null := rfl
  optional_null := rfl
  plain_of_fits v a hv := by
    rw [same_null_of_fits h hv]
    exact hv
  optional_of_fits v a hv := by
    rw [same_null_of_fits h hv, hv]
    rfl

structure Wire where
  doubles : Doubles
  string : WireField Fits.string ""
  bool : WireField Fits.bool false
  uint32 : WireField Fits.uint32 0
  uint64 : WireField Fits.uint64 0
  int64 : WireField Fits.int64 0
  strings : WireField Fits.strings []
  counters : WireField Fits.counters []

def Wire.strict (doubles : Doubles) : Wire where
  doubles := doubles
  string := .strict _ _ rfl
  bool := .strict _ _ rfl
  uint32 := .strict _ _ rfl
  uint64 := .strict _ _ rfl
  int64 := .strict _ _ rfl
  strings := .strict _ _ rfl
  counters := .strict _ _ rfl

section Structs
variable (w : Wire)

def toStruct : Value → Option Struct
  | .obj fields => some (Pb.ofFields w.doubles fields)
  | _ => none

def optionalStruct : Value → Option (Option Struct)
  | .null => some none
  | .obj fields => (toStruct w (.obj fields)).map some
  | _ => none

/-- `Enum.map(value || [], &to_struct/1)`: an empty map has no elements, and those of another map
are not maps. -/
def structs (v : Value) : Option (List Struct) :=
  match orEmpty v with
  | .null | .obj [] => some []
  | .arr items => items.mapM (toStruct w)
  | _ => none

end Structs

def fromStruct (struct : Struct) : Value := .obj (Value.ofStruct struct)

def put (fields : List (String × Value)) (key : String) : Option Value → List (String × Value)
  | none => fields
  | some v => fields.filter (·.1 ≠ key) ++ [(key, v)]

def compact (fields : List (String × Option Value)) : List (String × Value) :=
  fields.filterMap fun field => field.2.map (field.1, ·)

def strs (texts : List String) : Value := .arr (texts.map .str)

def fromStructs (structs : List Struct) : Value := .arr (structs.map fromStruct)

/-- `non_empty/1`, for structs. -/
def nonEmpty (structs : List Struct) : Option Value :=
  if structs.isEmpty then none else some (fromStructs structs)

/-! ### Shared messages -/

structure Sender where
  id : String
  role : Option String
  name : Option String

def sender (w : Wire) : Value → Option (Option Sender)
  | .null => some none
  | .obj fields => do
    let id ← fields.lookup "id"
    let id ← w.string.plain id
    let role ← w.string.optional (← get (.obj fields) "role")
    let name ← w.string.optional (← get (.obj fields) "name")
    return some {id, role, name}
  | _ => none

def fromSender (s : Sender) : Value :=
  .obj (put (put [("id", .str s.id)] "role" (s.role.map .str)) "name" (s.name.map .str))

structure ReplyTo where
  id : String
  seq : Option ℤ

def replyTo (w : Wire) : Value → Option (Option ReplyTo)
  | .null => some none
  | .obj fields => do
    let id ← fields.lookup "id"
    let id ← w.string.plain id
    let seq ← w.uint64.optional (← get (.obj fields) "seq")
    return some {id, seq}
  | _ => none

def fromReplyTo (r : ReplyTo) : Value := .obj (put [("id", .str r.id)] "seq" (r.seq.map .int))

inductive Payload where
  | text (text : String) (attachments : List Struct)
  | data (struct : Struct)

/-- `payload/2`, for the `data` of a text frame that is a text and attachments. -/
def textPayload (w : Wire) (fields : List (String × Value)) (text : String) : Option Payload :=
  if fields.any fun field => field.1 ∉ ["text", "attachments"] then some (.data (Pb.ofFields w.doubles fields))
  else
    match (fields.lookup "attachments").getD .null with
    | .null => some (.text text [])
    | .arr (.obj first :: rest) => do
      let attachments ← (Value.obj first :: rest).mapM (toStruct w)
      return .text text attachments
    | _ => some (.data (Pb.ofFields w.doubles fields))

def payload (w : Wire) (type : String) : Value → Option (Option Payload)
  | .null => some none
  | .obj fields =>
    match type, fields.lookup "text" with
    | "text", some (.str text) => (textPayload w fields text).map some
    | _, _ => some (some (.data (Pb.ofFields w.doubles fields)))
  | _ => none

def fromPayload : Payload → Value
  | .text text [] => .obj [("text", .str text)]
  | .text text attachments => .obj [("text", .str text), ("attachments", fromStructs attachments)]
  | .data struct => fromStruct struct

structure Capabilities where
  acks : Option Bool
  receipts : Option Bool
  presence : Option Bool
  typing : Option Bool
  regenerate : Option Bool
  edit : Option Bool
  messageTypes : List String

def capabilities (w : Wire) : Value → Option (Option Capabilities)
  | .null => some none
  | .obj fields => do
    let flag := fun key => do w.bool.optional (← get (.obj fields) key)
    let acks ← flag "acks"
    let receipts ← flag "receipts"
    let presence ← flag "presence"
    let typing ← flag "typing"
    let regenerate ← flag "regenerate"
    let edit ← flag "edit"
    let messageTypes ← w.strings.plain (orEmpty (← get (.obj fields) "messageTypes"))
    return some {acks, receipts, presence, typing, regenerate, edit, messageTypes}
  | _ => none

def fromCapabilities (c : Capabilities) : Value :=
  .obj (compact [("acks", c.acks.map .bool), ("receipts", c.receipts.map .bool),
    ("presence", c.presence.map .bool), ("typing", c.typing.map .bool),
    ("regenerate", c.regenerate.map .bool), ("edit", c.edit.map .bool),
    ("messageTypes", if c.messageTypes = [] then none else some (strs c.messageTypes))])

/-- The keys of `Limits`, in the order of its fields. -/
def limitKeys : List String :=
  ["maxFrameBytes", "maxTextBytes", "maxMetadataBytes", "maxInFlight", "heartbeatIntervalMs",
    "idleTimeoutMs", "replayBatch", "replayMax", "maxConversations"]

/-- The fields of `Limits` are optional 64-bit numbers, kept here under their keys. -/
abbrev Limits := List (String × Option ℤ)

def limits (w : Wire) : Value → Option (Option Limits)
  | .null => some none
  | .obj fields => do
    let limits ← limitKeys.mapM fun key => do
      return (key, ← w.uint64.optional (← get (.obj fields) key))
    return some limits
  | _ => none

def fromLimits (limits : Limits) : Value :=
  .obj (compact (limits.map fun field => (field.1, field.2.map .int)))

/-! ### Server frames -/

structure Welcome where
  protocol : String
  compat : List String
  scope : Option String
  conversationId : Option String
  userId : Option String
  connectionId : String
  watermark : Option ℤ
  pending : List Struct
  expiresAt : Option ℤ
  channelId : Option String
  capabilities : Option Capabilities
  limits : Option Limits

structure Activity where
  type : String
  id : String
  seq : ℤ
  «from» : String
  sender : Option Sender
  payload : Option Payload
  timestamp : ℤ
  metadata : Option Struct
  clientId : Option String
  replyTo : Option ReplyTo
  actions : List Struct

structure Ack where
  clientId : String
  id : String
  seq : ℤ
  timestamp : ℤ
  duplicate : Bool

structure Error where
  code : String
  message : String
  number : Option ℤ
  retryable : Option Bool
  retryAfterMs : Option ℤ
  clientId : Option String
  frameType : Option String
  details : Option Struct

structure DeliveryError where
  code : String
  message : Option String
  retryable : Option Bool

structure DeliveryStatus where
  activityId : Option String
  seq : Option ℤ
  upToSeq : Option ℤ
  channelId : Option String
  status : String
  «by» : Option Sender
  attempt : Option ℤ
  error : Option DeliveryError
  timestamp : ℤ

structure Typing where
  isTyping : Bool
  «from» : Option String
  sender : Option Sender
  seq : Option ℤ
  id : Option String
  timestamp : Option ℤ

structure Presence where
  participant : Option Sender
  status : String
  connections : Option ℤ
  lastSeenAt : Option ℤ

structure Heartbeat where
  timestamp : ℤ
  nonce : Option String
  headSeq : Option ℤ

structure Close where
  code : ℤ
  reason : String
  retryAfterMs : Option ℤ

/-- A `ServerFrame`; `unset` where no case of the `oneof` is. -/
inductive ServerFrame where
  | welcome (w : Welcome)
  | activity (a : Activity)
  | ack (a : Ack)
  | error (e : Error)
  | deliveryStatus (s : DeliveryStatus)
  | typing (t : Typing)
  | presence (p : Presence)
  | heartbeat (h : Heartbeat)
  | tokenRefreshed (expiresAt : ℤ)
  | replayTruncated (watermark headSeq : ℤ)
  | close (c : Close)
  | raw (struct : Struct)
  | unset

section Server
variable (w : Wire)

def typedWelcome (data : Value) : Option Welcome := do
  let protocol ← w.string.plain (← get data "protocol")
  let compat ← w.strings.plain (orEmpty (← get data "compat"))
  let scope ← w.string.optional (← get data "scope")
  let conversationId ← w.string.optional (← get data "conversationId")
  let userId ← w.string.optional (← get data "userId")
  let connectionId ← w.string.plain (← get data "connectionId")
  let watermark ← w.uint64.optional (← get data "watermark")
  let pending ← structs w (← get data "pending")
  let expiresAt ← w.int64.optional (← get data "expiresAt")
  let channelId ← w.string.optional (← get data "channelId")
  let capabilities ← capabilities w (← get data "capabilities")
  let limits ← limits w (← get data "limits")
  return { protocol, compat, scope, conversationId, userId, connectionId, watermark, pending,
           expiresAt, channelId, capabilities, limits}

def typedAck (frame : Value) : Option Ack := do
  let clientId ← w.string.plain (← get frame "clientId")
  let id ← w.string.plain (← get frame "id")
  let seq ← w.uint64.plain (← get frame "seq")
  let timestamp ← w.int64.plain (← get frame "timestamp")
  let duplicate ← get frame "duplicate"
  return {clientId, id, seq, timestamp, duplicate := duplicate.same (.bool true)}

def typedError (data : Value) : Option Error := do
  let code ← w.string.plain (← get data "code")
  let message ← w.string.plain (← get data "message")
  let number ← w.uint32.optional (← get data "number")
  let retryable ← w.bool.optional (← get data "retryable")
  let retryAfterMs ← w.uint64.optional (← get data "retryAfterMs")
  let clientId ← w.string.optional (← get data "clientId")
  let frameType ← w.string.optional (← get data "frameType")
  let details ← optionalStruct w (← get data "details")
  return {code, message, number, retryable, retryAfterMs, clientId, frameType, details}

def typedDeliveryError : Value → Option (Option DeliveryError)
  | .null => some none
  | .obj fields => do
    let code ← w.string.plain (← get (.obj fields) "code")
    let message ← w.string.optional (← get (.obj fields) "message")
    let retryable ← w.bool.optional (← get (.obj fields) "retryable")
    return some {code, message, retryable}
  | _ => none

def typedDeliveryStatus (data : Value) : Option DeliveryStatus := do
  let error ← typedDeliveryError w (← get data "error")
  let activityId ← w.string.optional (← get data "activityId")
  let seq ← w.uint64.optional (← get data "seq")
  let upToSeq ← w.uint64.optional (← get data "upToSeq")
  let channelId ← w.string.optional (← get data "channelId")
  let status ← w.string.plain (← get data "status")
  let «by» ← sender w (← get data "by")
  let attempt ← w.uint32.optional (← get data "attempt")
  let timestamp ← w.int64.plain (← get data "timestamp")
  return {activityId, seq, upToSeq, channelId, status, «by», attempt, error, timestamp}

def typedTyping (frame : Value) : Option Typing := do
  let isTyping ← w.bool.plain (← get frame "isTyping")
  let «from» ← w.string.optional (← get frame "from")
  let sender ← sender w (← get frame "sender")
  let seq ← w.uint64.optional (← get frame "seq")
  let id ← w.string.optional (← get frame "id")
  let timestamp ← w.int64.optional (← get frame "timestamp")
  return {isTyping, «from», sender, seq, id, timestamp}

def typedPresence (data : Value) : Option Presence := do
  let participant ← sender w (← get data "participant")
  let status ← w.string.plain (← get data "status")
  let connections ← w.uint32.optional (← get data "connections")
  let lastSeenAt ← w.int64.optional (← get data "lastSeenAt")
  return {participant, status, connections, lastSeenAt}

def typedHeartbeat (frame : Value) : Option Heartbeat := do
  let timestamp ← w.int64.plain (← get frame "timestamp")
  let nonce ← w.string.optional (← get frame "nonce")
  let headSeq ← w.uint64.optional (← get frame "headSeq")
  return {timestamp, nonce, headSeq}

def typedActivity (frame : Value) (type : String) (seq : ℤ) : Option Activity := do
  let id ← w.string.plain (← get frame "id")
  let seq ← w.uint64.plain (.int seq)
  let «from» ← w.string.plain (← get frame "from")
  let sender ← sender w (← get frame "sender")
  let payload ← payload w type (← get frame "data")
  let timestamp ← w.int64.plain (← get frame "timestamp")
  let metadata ← optionalStruct w (← get frame "metadata")
  let clientId ← w.string.optional (← get frame "clientId")
  let replyTo ← replyTo w (← get frame "replyTo")
  let actions ← structs w (← get frame "actions")
  return {type, id, seq, «from», sender, payload, timestamp, metadata, clientId, replyTo, actions}

def transient : List String :=
  ["welcome", "ack", "error", "deliveryStatus", "typing", "presence", "heartbeat",
    "tokenRefreshed", "replayTruncated"]

/-- The transient frames, by their type and `data`. -/
def typedTransient (frame : Value) (type : String) (data : Option Value) : Option ServerFrame :=
  match type, data with
  | "welcome", some data => (typedWelcome w data).map .welcome
  | "ack", _ => (typedAck w frame).map .ack
  | "error", some data => (typedError w data).map .error
  | "deliveryStatus", some data => (typedDeliveryStatus w data).map .deliveryStatus
  | "typing", _ => (typedTyping w frame).map .typing
  | "presence", some data => (typedPresence w data).map .presence
  | "heartbeat", _ => (typedHeartbeat w frame).map .heartbeat
  | "tokenRefreshed", some data => do
    let expiresAt ← w.int64.plain (← get data "expiresAt")
    return .tokenRefreshed expiresAt
  | "replayTruncated", some data => do
    let watermark ← w.uint64.plain (← get data "watermark")
    let headSeq ← w.uint64.plain (← get data "headSeq")
    return .replayTruncated watermark headSeq
  | _, _ => none

/-- `typed_server_frame/1`, through the wire format; `none` where there is no typed message, and
where it raises. -/
def typedServerFrame (fields : List (String × Value)) : Option ServerFrame :=
  match fields.lookup "type" with
  | some (.str type) =>
    if type ∈ transient then typedTransient w (.obj fields) type (fields.lookup "data")
    else
      match fields.lookup "seq" with
      | some (.int seq) => (typedActivity w (.obj fields) type seq).map .activity
      | _ => none
  | _ => none

end Server

def fromWelcome (w : Welcome) : Value :=
  -- required in conversation scope, absent in channel scope
  let pending :=
    if w.scope = some "channel" ∧ w.pending.isEmpty then none else some (fromStructs w.pending)
  let data := [("protocol", .str w.protocol), ("compat", strs w.compat),
    ("connectionId", .str w.connectionId)]
  let data := put data "scope" (w.scope.map .str)
  let data := put data "conversationId" (w.conversationId.map .str)
  let data := put data "userId" (w.userId.map .str)
  let data := put data "watermark" (w.watermark.map .int)
  let data := put data "pending" pending
  let data := put data "expiresAt" (w.expiresAt.map .int)
  let data := put data "channelId" (w.channelId.map .str)
  let data := put data "capabilities" (w.capabilities.map fromCapabilities)
  let data := put data "limits" (w.limits.map fromLimits)
  .obj [("type", .str "welcome"), ("data", .obj data)]

def fromActivity (a : Activity) : Value :=
  let frame := [("type", .str a.type), ("id", .str a.id), ("seq", .int a.seq), ("from", .str a.from),
    ("timestamp", .int a.timestamp), ("data", (a.payload.map fromPayload).getD .null)]
  let frame := put frame "sender" (a.sender.map fromSender)
  let frame := put frame "metadata" (a.metadata.map fromStruct)
  let frame := put frame "clientId" (a.clientId.map .str)
  let frame := put frame "replyTo" (a.replyTo.map fromReplyTo)
  .obj (put frame "actions" (nonEmpty a.actions))

def fromAck (a : Ack) : Value :=
  .obj (put [("type", .str "ack"), ("clientId", .str a.clientId), ("id", .str a.id),
    ("seq", .int a.seq), ("timestamp", .int a.timestamp)] "duplicate"
    (if a.duplicate then some (.bool true) else none))

def fromError (e : Error) : Value :=
  let data := [("code", .str e.code), ("message", .str e.message)]
  let data := put data "number" (e.number.map .int)
  let data := put data "retryable" (e.retryable.map .bool)
  let data := put data "retryAfterMs" (e.retryAfterMs.map .int)
  let data := put data "clientId" (e.clientId.map .str)
  let data := put data "frameType" (e.frameType.map .str)
  let data := put data "details" (e.details.map fromStruct)
  .obj [("type", .str "error"), ("data", .obj data)]

def fromDeliveryError (e : DeliveryError) : Value :=
  .obj (put (put [("code", .str e.code)] "message" (e.message.map .str)) "retryable"
    (e.retryable.map .bool))

def fromDeliveryStatus (s : DeliveryStatus) : Value :=
  let data := [("status", .str s.status), ("timestamp", .int s.timestamp)]
  let data := put data "activityId" (s.activityId.map .str)
  let data := put data "seq" (s.seq.map .int)
  let data := put data "upToSeq" (s.upToSeq.map .int)
  let data := put data "channelId" (s.channelId.map .str)
  let data := put data "by" (s.by.map fromSender)
  let data := put data "attempt" (s.attempt.map .int)
  let data := put data "error" (s.error.map fromDeliveryError)
  .obj [("type", .str "deliveryStatus"), ("data", .obj data)]

def fromTyping (t : Typing) : Value :=
  let frame := [("type", .str "typing"), ("isTyping", .bool t.isTyping)]
  let frame := put frame "from" (t.from.map .str)
  let frame := put frame "sender" (t.sender.map fromSender)
  let frame := put frame "seq" (t.seq.map .int)
  let frame := put frame "id" (t.id.map .str)
  .obj (put frame "timestamp" (t.timestamp.map .int))

def fromPresence (p : Presence) : Value :=
  let data := [("status", .str p.status)]
  let data := put data "participant" (p.participant.map fromSender)
  let data := put data "connections" (p.connections.map .int)
  let data := put data "lastSeenAt" (p.lastSeenAt.map .int)
  .obj [("type", .str "presence"), ("data", .obj data)]

def fromHeartbeat (h : Heartbeat) : Value :=
  .obj (put (put [("type", .str "heartbeat"), ("timestamp", .int h.timestamp)] "nonce"
    (h.nonce.map .str)) "headSeq" (h.headSeq.map .int))

def fromClose (c : Close) : Value :=
  .obj (put [("type", .str "close"), ("code", .int c.code), ("reason", .str c.reason)]
    "retryAfterMs" (c.retryAfterMs.map .int))

/-- `from_server_frame/1`; null is `nil`. -/
def fromServerFrame : ServerFrame → Value
  | .welcome w => fromWelcome w
  | .activity a => fromActivity a
  | .ack a => fromAck a
  | .error e => fromError e
  | .deliveryStatus s => fromDeliveryStatus s
  | .typing t => fromTyping t
  | .presence p => fromPresence p
  | .heartbeat h => fromHeartbeat h
  | .tokenRefreshed expiresAt =>
    .obj [("type", .str "tokenRefreshed"), ("data", .obj [("expiresAt", .int expiresAt)])]
  | .replayTruncated watermark headSeq =>
    .obj [("type", .str "replayTruncated"),
      ("data", .obj [("watermark", .int watermark), ("headSeq", .int headSeq)])]
  | .close c => fromClose c
  | .raw struct => fromStruct struct
  | .unset => .null

/-! ### Client frames -/

inductive Position where
  | watermark (seq : ℤ)
  | legacyWatermark (value : String)

structure Hello where
  protocol : Option String
  conversationId : Option String
  userId : Option String
  position : Option Position
  token : Option String
  «meta» : Option Struct
  watermarks : List (String × ℤ)
  componentsHash : Option String
  tools : List Struct
  skillsHash : Option String
  skills : List Struct

structure MessageSend where
  type : String
  clientId : Option String
  payload : Option Payload
  metadata : Option Struct
  «meta» : Option Struct
  replyTo : Option ReplyTo
  id : Option String
  timestamp : Option ℤ

/-- A `ClientFrame`; `unset` where no case of the `oneof` is. -/
inductive ClientFrame where
  | hello (h : Hello)
  | message (m : MessageSend)
  | typing (isTyping : Bool)
  | read (watermark : ℤ)
  | sync (position : Option Position)
  | ping (nonce : Option String)
  | auth (token : String)
  | raw (struct : Struct)
  | unset

def toPosition (w : Wire) : Value → Option (Option Position)
  | .null => some none
  | .int n => if 0 ≤ n then (w.uint64.plain (.int n)).map (some ∘ .watermark) else none
  | .str s => some (some (.legacyWatermark s))
  | _ => none

/-- `position/1`. -/
def fromPosition : Position → Value
  | .watermark seq => .int seq
  | .legacyWatermark value => .str value

section Client
variable (w : Wire)

def typedHello (frame : Value) : Option Hello := do
  let protocol ← w.string.optional (← get frame "protocol")
  let conversationId ← w.string.optional (← get frame "conversationId")
  let userId ← w.string.optional (← get frame "userId")
  let position ← toPosition w (← get frame "watermark")
  let token ← w.string.optional (← get frame "token")
  let «meta» ← optionalStruct w (← get frame "meta")
  let watermarks ← w.counters.plain (orEmpty (← get frame "watermarks"))
  let componentsHash ← w.string.optional (← get frame "componentsHash")
  let tools ← structs w (← get frame "tools")
  let skillsHash ← w.string.optional (← get frame "skillsHash")
  let skills ← structs w (← get frame "skills")
  return { protocol, conversationId, userId, position, token, «meta», watermarks, componentsHash,
           tools, skillsHash, skills}

def typedMessage (frame : Value) (type : String) (data : Value) : Option MessageSend := do
  let clientId ← w.string.optional (← get frame "clientId")
  let payload ← payload w type data
  let metadata ← optionalStruct w (← get frame "metadata")
  let «meta» ← optionalStruct w (← get frame "meta")
  let replyTo ← replyTo w (← get frame "replyTo")
  let id ← w.string.optional (← get frame "id")
  let timestamp ← w.int64.optional (← get frame "timestamp")
  return {type, clientId, payload, metadata, «meta», replyTo, id, timestamp}

/-- The last clause of `typed_client_frame/1` with a message. -/
def typedTurn (fields : List (String × Value)) (type : String) : Option ClientFrame :=
  match fields.lookup "data" with
  | some (.obj data) => (typedMessage w (.obj fields) type (.obj data)).map .message
  | _ => none

/-- `typed_client_frame/1`, through the wire format; `none` where there is no typed message, and
where it raises. -/
def typedClientFrame (fields : List (String × Value)) : Option ClientFrame :=
  match fields.lookup "type" with
  | some (.str "hello") => (typedHello w (.obj fields)).map .hello
  | some (.str "typing") =>
    match fields.lookup "isTyping" with
    | some (.bool isTyping) => some (.typing isTyping)
    | _ => typedTurn w fields "typing"
  | some (.str "read") =>
    match fields.lookup "watermark" with
    | some (.int watermark) => (w.uint64.plain (.int watermark)).map .read
    | _ => typedTurn w fields "read"
  | some (.str "sync") => do
    let position ← toPosition w (← get (.obj fields) "watermark")
    return .sync position
  | some (.str "ping") => do
    let nonce ← w.string.optional (← get (.obj fields) "nonce")
    return .ping nonce
  | some (.str "auth") =>
    match fields.lookup "token" with
    | some (.str token) => some (.auth token)
    | _ => typedTurn w fields "auth"
  | some (.str type) => typedTurn w fields type
  | _ => none

end Client

def fromHello (h : Hello) : Value :=
  let frame := [("type", Value.str "hello")]
  let frame := put frame "protocol" (h.protocol.map .str)
  let frame := put frame "conversationId" (h.conversationId.map .str)
  let frame := put frame "userId" (h.userId.map .str)
  let frame := put frame "watermark" (h.position.map fromPosition)
  let frame := put frame "token" (h.token.map .str)
  let frame := put frame "meta" (h.meta.map fromStruct)
  let frame := put frame "watermarks" (if h.watermarks = [] then none
    else some (.obj (h.watermarks.map fun field => (field.1, .int field.2))))
  let frame := put frame "componentsHash" (h.componentsHash.map .str)
  let frame := put frame "tools" (nonEmpty h.tools)
  let frame := put frame "skillsHash" (h.skillsHash.map .str)
  .obj (put frame "skills" (nonEmpty h.skills))

def fromMessage (m : MessageSend) : Value :=
  let frame := [("type", Value.str m.type)]
  let frame := put frame "clientId" (m.clientId.map .str)
  let frame := put frame "data" (m.payload.map fromPayload)
  let frame := put frame "metadata" (m.metadata.map fromStruct)
  let frame := put frame "meta" (m.meta.map fromStruct)
  let frame := put frame "replyTo" (m.replyTo.map fromReplyTo)
  let frame := put frame "id" (m.id.map .str)
  .obj (put frame "timestamp" (m.timestamp.map .int))

def fromClientFrame : ClientFrame → Value
  | .hello h => fromHello h
  | .message m => fromMessage m
  | .typing isTyping => .obj [("type", .str "typing"), ("isTyping", .bool isTyping)]
  | .read watermark => .obj [("type", .str "read"), ("watermark", .int watermark)]
  | .sync position => .obj (put [("type", .str "sync")] "watermark" (position.map fromPosition))
  | .ping nonce => .obj (put [("type", .str "ping")] "nonce" (nonce.map .str))
  | .auth token => .obj [("type", .str "auth"), ("token", .str token)]
  | .raw struct => fromStruct struct
  | .unset => .obj []

/-! ### The mapping -/

section Mapping
variable {F : Type} (w : Wire)

/-- `to_server_frame/1` and `to_client_frame/1`: the typed message where it maps back to the frame,
the frame as a struct otherwise. `none` where the argument is not a map, or cannot be converted. -/
def toFrame (typed : List (String × Value) → Option F) (back : F → Value) (raw : Struct → F) :
    Value → Option F
  | .obj fields =>
    match typed fields with
    | some frame =>
      if (back frame).same (.obj fields) then some frame else (toStruct w (.obj fields)).map raw
    | none => (toStruct w (.obj fields)).map raw
  | _ => none

def toServerFrame : Value → Option ServerFrame :=
  toFrame w (typedServerFrame w) fromServerFrame .raw

def toClientFrame : Value → Option ClientFrame :=
  toFrame w (typedClientFrame w) fromClientFrame .raw

variable {w}

theorem exists_toFrame (typed : List (String × Value) → Option F) (back : F → Value)
    (raw : Struct → F) (hraw : ∀ struct, back (raw struct) = fromStruct struct)
    {fields : List (String × Value)} (h : (Value.obj fields).WellFormed) :
    ∃ frame, toFrame w typed back raw (.obj fields) = some frame ∧
      (back frame).same (.obj fields) = true := by
  have hstruct : (back (raw (Pb.ofFields w.doubles fields))).same (.obj fields) = true := by
    rw [hraw]
    exact same_ofPb_ofValue w.doubles (.obj fields) h
  have htoStruct : (toStruct w (.obj fields)).map raw = some (raw (Pb.ofFields w.doubles fields)) := rfl
  cases htyped : typed fields with
  | none =>
    refine ⟨_, ?_, hstruct⟩
    simp only [toFrame, htyped, htoStruct]
  | some frame =>
    by_cases hback : (back frame).same (.obj fields) = true
    · refine ⟨frame, ?_, hback⟩
      simp only [toFrame, htyped, if_pos hback]
    · refine ⟨_, ?_, hstruct⟩
      simp only [toFrame, htyped, if_neg hback, htoStruct]

theorem toFrame_of_typed {typed : List (String × Value) → Option F} {back : F → Value}
    {raw : Struct → F} {fields : List (String × Value)} {frame : F}
    (htyped : typed fields = some frame) (hback : (back frame).same (.obj fields) = true) :
    toFrame w typed back raw (.obj fields) = some frame := by
  simp only [toFrame, htyped, if_pos hback]

theorem fits_integer {low high n : ℤ} (h : low ≤ n ∧ n ≤ high) :
    Fits.integer low high (.int n) = some n := if_pos h

section
variable (a : Ack) (hseq : 0 ≤ a.seq ∧ a.seq ≤ 2 ^ 64 - 1)
  (htimestamp : -2 ^ 63 ≤ a.timestamp ∧ a.timestamp ≤ 2 ^ 63 - 1)
include a hseq htimestamp

theorem typedAck_fromAck : typedAck w (fromAck a) = some a := by
  have hstring (s : String) : w.string.plain (.str s) = some s := w.string.plain_of_fits _ _ rfl
  have hseq := w.uint64.plain_of_fits _ _ (fits_integer hseq)
  have htimestamp := w.int64.plain_of_fits _ _ (fits_integer htimestamp)
  obtain ⟨clientId, id, seq, timestamp, duplicate⟩ := a
  cases duplicate with
  | false | true =>
    simp [typedAck, fromAck, put, get, List.lookup_cons, hstring, hseq, htimestamp, Value.same]

/-- The mapping is not always by structs: an acknowledgement is sent as its typed message,
whatever the wire does with values that do not fit. -/
theorem toServerFrame_fromAck : toServerFrame w (fromAck a) = some (.ack a) := by
  have hack := typedAck_fromAck (w := w) a hseq htimestamp
  obtain ⟨clientId, id, seq, timestamp, duplicate⟩ := a
  apply toFrame_of_typed
  · have hframe := congrArg (Option.map ServerFrame.ack) hack
    cases duplicate with
    | false | true => exact hframe
  · cases duplicate with
    | false | true => simp [fromServerFrame, fromAck, put, Value.same, Value.sameFields, List.lookup_cons]

end

/-- Every frame is mapped to a message, in both directions of the stream, and comes back the
same. -/
theorem frames_round_trip (w : Wire) (fields : List (String × Value))
    (h : (Value.obj fields).WellFormed) :
    (∃ frame, toServerFrame w (.obj fields) = some frame ∧
      (fromServerFrame frame).same (.obj fields) = true) ∧
    (∃ frame, toClientFrame w (.obj fields) = some frame ∧
      (fromClientFrame frame).same (.obj fields) = true) := by
  constructor
  · exact exists_toFrame (typedServerFrame w) fromServerFrame .raw (fun _ => rfl) h
  · exact exists_toFrame (typedClientFrame w) fromClientFrame .raw (fun _ => rfl) h

def exactDoubles : Doubles where
  round q := q
  round_of_representable _ _ := rfl

/-- An acknowledgement with a timestamp that is not whole and an unknown field: no typed message
carries it. -/
def extendedAck : List (String × Value) :=
  [("type", .str "ack"), ("clientId", .str "c1"), ("id", .str "a1"), ("seq", .int 3),
    ("timestamp", .float (1 / 2)), ("note", .obj [("tags", .arr []), ("by", .null)])]

theorem wellFormed_extendedAck : (Value.obj extendedAck).WellFormed := by
  have hthree : Representable ((3 : ℤ) : ℚ) := ⟨3, 0, by norm_num⟩
  have hhalf : Representable (1 / 2) := ⟨1, -1, by norm_num⟩
  refine ⟨by decide, trivial, trivial, trivial, hthree, hhalf, ?_, trivial⟩
  exact ⟨by decide, trivial, trivial, trivial⟩

theorem frames_round_trip_extendedAck :
    (Value.obj extendedAck).WellFormed ∧
    (∃ frame, toServerFrame (.strict exactDoubles) (.obj extendedAck) = some frame ∧
      (fromServerFrame frame).same (.obj extendedAck) = true) ∧
    (∃ frame, toClientFrame (.strict exactDoubles) (.obj extendedAck) = some frame ∧
      (fromClientFrame frame).same (.obj extendedAck) = true) :=
  ⟨wellFormed_extendedAck, frames_round_trip _ _ wellFormed_extendedAck⟩

end Mapping

end Converger.GrpcFrames
