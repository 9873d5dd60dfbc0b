import Converger.ClientKeys
import Converger.JsonSchema
import Converger.Text

/-!
# The schemas of Protocol v1

The schemas under `priv/protocol/v1` that a typed message is validated against: those of the message
frame with the `data` of every known type, and of the frames that the bot protocol has of its own.
-/
namespace Converger.ProtocolSchemas
open ClientKeys JsonSchema JsonValues Text List

def object (required : List String) (properties : List (String × Schema)) : Schema :=
  .allOf (.type [.object] :: .required required :: properties.map fun p => .property p.1 p.2)

def const (s : String) : Schema := .enum [.str s]

def oneOfStrings (names : List String) : Schema := .enum (names.map .str)

def string : Schema := .type [.string]

def stringUpTo (max : ℕ) : Schema := .allOf [string, .maxLength max]

def nonEmpty : Schema := .allOf [string, .minLength 1]

def nonEmptyUpTo (max : ℕ) : Schema := .allOf [string, .minLength 1, .maxLength max]

def integerFrom (min : ℚ) : Schema := .allOf [.type [.integer], .minimum min]

def numberBetween (min max : ℚ) : Schema := .allOf [.type [.number], .minimum min, .maximum max]

def boolean : Schema := .type [.boolean]

def anyObject : Schema := .type [.object]

/-- The schema `true`. -/
def anything : Schema := .allOf []

def arrayOf (keywords : List Schema) (items : Schema) : Schema :=
  .allOf (.type [.array] :: .items items :: keywords)

/-! ### Shared definitions -/

def isMessageType (s : String) : Bool := wholeLine (isName ['_', '-']) s.toList

def isNamespace (s : String) : Bool := wholeLine (isName ['_', '.', '-']) s.toList

def isUrl (s : String) : Bool :=
  ["http://", "https://", "/api/v1/converger/attachments/"].any fun start =>
    start.toList.isPrefixOf s.toList

def seq : Schema := integerFrom 1

def timestamp : Schema := integerFrom 0

def opaqueId : Schema := nonEmptyUpTo 256

def clientId : Schema := .allOf [string, .pattern isClientId]

def sender : Schema := object ["id"]
  [("id", nonEmptyUpTo 256), ("role", oneOfStrings ["user", "bot", "agent", "system"]),
    ("name", stringUpTo 256)]

def messageType : Schema := .allOf [string, .pattern isMessageType]

def reservedFrameTypes : List String :=
  ["hello", "welcome", "text", "resume", "genui_event", "client_tools", "client_skills", "abort",
    "tool_call", "skill", "skills", "genui", "genui_components", "interrupt", "interrupt_resolved",
    "run", "error", "typing", "survey", "regenerate", "edit", "ack", "deliveryStatus", "presence",
    "conversationUpdate", "endOfConversation", "event", "heartbeat", "ping", "read", "sync", "auth",
    "tokenRefreshed", "replayTruncated", "subscribe", "unsubscribe", "subscribed", "unsubscribed",
    "message", "activity", "activitySet", "frame"]

def extensions : Schema :=
  .allOf [anyObject, .propertyNames isNamespace, .additionalProperties [] anyObject]

def url : Schema := .allOf [nonEmptyUpTo 2048, .pattern isUrl]

def messageAction : Schema :=
  object ["label"] [("label", nonEmptyUpTo 256), ("value", anything), ("url", url)]

def messageActions : Schema := arrayOf [.minItems 1, .maxItems 10] messageAction

def aiChunk : Schema :=
  let chunkId := .type [.string, .integer]
  .oneOf [
    object ["type", "component"] [("type", const "ui"), ("component", nonEmpty),
      ("props", anyObject), ("id", chunkId)],
    object ["type", "content"] [("type", const "text"), ("content", string), ("id", chunkId)],
    object ["type", "name"] [("type", const "event"), ("name", nonEmpty), ("payload", anything),
      ("id", chunkId), ("for", chunkId)]]

def interruptData : Schema := object ["payload"]
  [("payload", anything),
    ("ui", object ["component"] [("component", nonEmpty), ("props", anyObject)]),
    ("actions", arrayOf [] messageAction), ("event", string),
    ("tool", object ["name"] [("name", string), ("params", anything)])]

/-! ### The data of the known message types -/

def textData : Schema := object ["text"]
  [("text", stringUpTo 65536), ("urls", arrayOf [.maxItems 10] url),
    ("previewVariant", oneOfStrings ["compact", "expanded"]), ("streaming", boolean),
    ("attachments", arrayOf [.maxItems 10] anyObject), ("extensions", extensions)]

def quickReplyData : Schema := object ["text", "actions"]
  [("text", stringUpTo 4096), ("actions", messageActions), ("keepActions", boolean),
    ("extensions", extensions)]

def buttonsData : Schema := object ["buttons"]
  [("text", stringUpTo 4096), ("persistent", boolean), ("buttons", messageActions),
    ("extensions", extensions)]

def cardData : Schema := object ["title"]
  [("title", nonEmptyUpTo 256), ("subtitle", stringUpTo 1024), ("image", url),
    ("text", stringUpTo 4096), ("buttons", messageActions), ("extensions", extensions)]

def carouselData : Schema := object ["cards"]
  [("text", stringUpTo 4096), ("cards", arrayOf [.minItems 1, .maxItems 10] cardData),
    ("extensions", extensions)]

def imageData : Schema := object ["src"]
  [("src", url), ("alt", stringUpTo 1024), ("caption", stringUpTo 4096),
    ("mimeType", stringUpTo 255), ("size", integerFrom 0), ("width", integerFrom 1),
    ("height", integerFrom 1), ("text", stringUpTo 4096), ("extensions", extensions)]

def fileData : Schema := object ["url", "name"]
  [("url", url), ("name", nonEmptyUpTo 255), ("size", integerFrom 0), ("mimeType", stringUpTo 255),
    ("caption", stringUpTo 4096), ("text", stringUpTo 4096), ("extensions", extensions)]

def videoData : Schema := object ["src"]
  [("src", url), ("poster", url), ("caption", stringUpTo 4096), ("mimeType", stringUpTo 255),
    ("size", integerFrom 0), ("durationMs", integerFrom 0), ("text", stringUpTo 4096),
    ("extensions", extensions)]

def audioData : Schema := object ["src"]
  [("src", url), ("caption", stringUpTo 4096), ("mimeType", stringUpTo 255),
    ("size", integerFrom 0), ("durationMs", integerFrom 0), ("voice", boolean),
    ("text", stringUpTo 65536), ("extensions", extensions)]

def locationData : Schema := object ["latitude", "longitude"]
  [("latitude", numberBetween (-90) 90), ("longitude", numberBetween (-180) 180),
    ("name", stringUpTo 1024), ("address", stringUpTo 1024), ("url", url),
    ("text", stringUpTo 4096), ("extensions", extensions)]

def contactData : Schema := object ["name"]
  [("name", nonEmptyUpTo 256), ("organization", stringUpTo 256),
    ("phones", arrayOf [.maxItems 10]
      (object ["number"] [("number", nonEmptyUpTo 64), ("label", stringUpTo 64)])),
    ("emails", arrayOf [.maxItems 10]
      (object ["address"] [("address", .allOf [string, .minLength 3, .maxLength 320]),
        ("label", stringUpTo 64)])),
    ("url", url), ("text", stringUpTo 4096), ("extensions", extensions)]

def toolCallData : Schema := object ["id", "name", "status"]
  [("id", nonEmpty), ("name", nonEmpty), ("description", string),
    ("status", oneOfStrings ["running", "completed", "error"]), ("params", anyObject),
    ("result", anything), ("error", string), ("startedAt", .type [.number]),
    ("endedAt", .type [.number])]

def skillData : Schema := object ["id", "name", "status"]
  [("id", nonEmpty), ("name", nonEmpty), ("status", oneOfStrings ["loaded", "error"]),
    ("source", oneOfStrings ["server", "client"]), ("error", string)]

/-! ### Frames -/

def dataSchemas : List (String × Schema) :=
  [("text", textData), ("quick-reply", quickReplyData), ("buttons", buttonsData),
    ("card", cardData), ("carousel", carouselData), ("image", imageData), ("file", fileData),
    ("video", videoData), ("audio", audioData), ("location", locationData),
    ("contact", contactData)]

/-- The type of a message frame: a name that the protocol does not own, or `text`. -/
def messageFrameType : Schema :=
  .allOf [messageType, .ifThen (oneOfStrings reservedFrameTypes) (const "text")]

/-- `frames/server/message.schema.json`. -/
def messageFrame : Schema :=
  .allOf [
    object ["type", "id", "seq", "from", "data", "timestamp"]
      [("type", messageFrameType), ("id", opaqueId), ("seq", seq),
        ("from", oneOfStrings ["user", "bot"]), ("data", anyObject), ("timestamp", timestamp),
        ("actions", messageActions), ("sender", sender), ("metadata", anyObject),
        ("clientId", clientId)],
    .allOf (dataSchemas.map fun p =>
      .ifThen (.property "type" (const p.1)) (.property "data" p.2))]

/-- `frames/server/<type>.schema.json` of a frame of the bot protocol. -/
def nativeFrame (type : String) : Schema :=
  let required := ["type", "seq"]
  let properties := [("type", const type), ("seq", seq)]
  match type with
  | "tool_call" => object (required ++ ["data"]) (properties ++ [("data", toolCallData)])
  | "skill" => object (required ++ ["data"]) (properties ++ [("data", skillData)])
  | "genui" => object (required ++ ["streamId", "done", "chunk"])
      (properties ++ [("streamId", nonEmpty), ("done", boolean), ("chunk", aiChunk)])
  | "interrupt" => object (required ++ ["id", "data"])
      (properties ++ [("id", opaqueId), ("data", interruptData)])
  | _ => object (required ++ ["id", "data"])
      (properties ++ [("id", opaqueId), ("data", object [] [("answer", anything)])])

/-! ### What a valid message frame is -/

variable {frame : List (String × Value)} {required : List String}
  {properties : List (String × Schema)} {schema : Schema} {type : String}

theorem valid_property_of_object (h : (object required properties).valid (.obj frame) = true)
    {name : String} (hmem : (name, schema) ∈ properties) :
    (Schema.property name schema).valid (.obj frame) = true := by
  apply Schema.valid_allOf.mp h
  exact mem_cons_of_mem _ (mem_cons_of_mem _ (mem_map.mpr ⟨_, hmem, rfl⟩))

theorem exists_of_object (h : (object required properties).valid (.obj frame) = true) (name : String)
    (hname : name ∈ required) : ∃ w, frame.lookup name = some w :=
  Schema.exists_of_required (Schema.valid_allOf.mp h _ (mem_cons_of_mem _ mem_cons_self)) hname

section
variable (h : messageFrame.valid (.obj frame) = true)
include h

end

end Converger.ProtocolSchemas
