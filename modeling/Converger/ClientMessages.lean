import Converger.ActivityChangeset
import Converger.MessagePayload

/-!
# Messages of end users

The two ways an end user stores a message: the body of a REST request and a frame sent over a Protocol
v1 connection. Both become parameters of one changeset, so what they can store differs only by what
stands before it. The interrupts of a conversation that count as open are read off what is stored.
-/
namespace Converger.ClientMessages
open ActivityChangeset ClientKeys JsonValues KeyedLists MessagePayload ProtocolSchemas Text List

/-- The limits, and what is computed elsewhere: the size of a value as JSON, that of a received
frame, the checks of attachments, and the id that a text names. -/
structure Config where
  maxTextBytes : ℕ := 65536
  maxAttachments : ℕ := 10
  maxMetadataBytes : ℕ := 16384
  maxPayloadBytes : ℕ := 131072
  maxFrameBytes : ℕ := 131072
  jsonSize : Value → ℕ
  frameBytes : Fields → ℕ
  attachmentErrors : List Value → List FieldError
  uuid : String → Option Uuid

/-! ### The changeset -/

/-- The fields that a client may set, as they are given; `null` is one that is not. -/
structure ClientParams where
  type : Value := .str "message"
  text : Value := .null
  attachments : Value := .arr []
  metadata : Value := .obj []
  replyToId : Value := .null
  messageType : Value := .null
  payload : Value := .null

structure SystemAttrs where
  sender : String
  tenantId : Uuid
  conversationId : Uuid
  idempotencyKey : Option String := none
  sourceChannelId : Option Uuid := none

def castString : Value → Option String
  | .str s => castText s
  | _ => none

def castMap : Value → Option Fields
  | .obj fields => some fields
  | _ => none

def castArray : Value → List Value
  | .arr items => items
  | _ => []

def isObject : Value → Bool
  | .obj _ => true
  | _ => false

def isNull : Value → Bool
  | .null => true
  | _ => false

def castErrors (field : String) (castable : Value → Bool) (v : Value) : List FieldError :=
  if isNull v || castable v then [] else [(field, "is invalid")]

def isObjectArray : Value → Bool
  | .arr items => items.all isObject
  | _ => false

/-- `validate_json_size/3`. -/
def sizeErrors (cfg : Config) (field : String) (max : ℕ) (v : Value) : List FieldError :=
  let size := cfg.jsonSize v
  if max < size then [(field, s!"is {size} bytes, max is {max}")] else []

def attachmentsErrors (cfg : Config) (attachments : List Value) : List FieldError :=
  if attachments.isEmpty then []
  else
    let max := cfg.maxAttachments
    (if max < attachments.length then [("attachments", s!"should have at most {max} item(s)")]
    else []) ++ cfg.attachmentErrors attachments

def metadataErrors (cfg : Config) (metadata : Option Fields) : List FieldError :=
  match metadata with
  | none | some [] => []
  | some metadata => sizeErrors cfg "metadata" cfg.maxMetadataBytes (.obj metadata)

def replyToErrors (cfg : Config) (replyToId : Option String) : List FieldError :=
  match replyToId with
  | none => []
  | some id => if (cfg.uuid id).isSome then [] else [("reply_to_id", "is invalid")]

/-- `validate_message_payload/1`, with the size of the payload, which is checked before. -/
def messagePayloadErrors (cfg : Config) (type : Option ActivityType) (messageType : Option String)
    (payload : Option Fields) : List FieldError :=
  let size := payload.toList.flatMap fun body =>
    sizeErrors cfg "payload" cfg.maxPayloadBytes (.obj body)
  size ++
    match messageType, payload with
    | none, none => []
    | none, some _ => [("message_type", "is required with payload")]
    | some _, none => [("payload", "is required with message_type")]
    | some messageType, some body =>
      if type ≠ some .message then [("message_type", "is only allowed on message activities")]
      else if size ≠ [] then []
      else if validate messageType body then [] else [("payload", "is invalid")]

def attrsOf (cfg : Config) (params : ClientParams) (system : SystemAttrs) : Attrs where
  type := castString params.type
  text := castString params.text
  replyToId := (castString params.replyToId).bind cfg.uuid
  hasAttachments := !(castArray params.attachments).isEmpty
  contentErrors :=
    castErrors "type" isString params.type ++ castErrors "text" isString params.text ++
    castErrors "attachments" isObjectArray params.attachments ++
    castErrors "metadata" isObject params.metadata ++
    castErrors "reply_to_id" isString params.replyToId ++
    castErrors "message_type" isString params.messageType ++
    castErrors "payload" isObject params.payload ++
    attachmentsErrors cfg (castArray params.attachments) ++
    metadataErrors cfg (castMap params.metadata) ++
    replyToErrors cfg (castString params.replyToId) ++
    messagePayloadErrors cfg (castType (castString params.type)) (castString params.messageType)
      (castMap params.payload)
  tenantId := some system.tenantId
  conversationId := some system.conversationId
  sender := some system.sender
  idempotencyKey := system.idempotencyKey
  sourceChannelId := system.sourceChannelId

structure Stored where
  changes : Changes
  metadata : Fields
  messageType : Option String
  payload : Option Fields

/-- `create_client_activity/2`, as far as the changeset decides it. -/
def createClientActivity (cfg : Config) (params : ClientParams) (system : SystemAttrs) :
    Except (List FieldError) Stored :=
  (changeset cfg.maxTextBytes (attrsOf cfg params system) false).map fun changes =>
    { changes, metadata := (castMap params.metadata).getD []
      messageType := castString params.messageType, payload := castMap params.payload}

/-! ### REST -/

/-- A field of a body or a frame; `null` where it is missing. -/
def get (fields : Fields) (name : String) : Value := (fields.lookup name).getD .null

/-- The operator `||`. -/
def orElse : Value → Value → Value
  | .null, w | .bool false, w => w
  | v, _ => v

def clientParams (body : Fields) : ClientParams where
  type := orElse (get body "type") (.str "message")
  text := get body "text"
  attachments := orElse (get body "attachments") (.arr [])
  metadata := orElse (get body "channelData") (orElse (get body "metadata") (.obj []))
  replyToId := get body "replyToId"
  messageType := get body "messageType"
  payload := get body "payload"

/-- `ActivityController.create/2` for a caller with access to the conversation. -/
def create (cfg : Config) (system : SystemAttrs) (body : Fields) : Except (List FieldError) Stored :=
  createClientActivity cfg (clientParams body) system

/-! ### Protocol v1 -/

structure SendError where
  code : String
  message : String
  clientId : Option String := none
  frameType : Option String := none
  deriving DecidableEq, Repr

def badRequest (message : String) (clientId : Option String) : SendError :=
  { code := "bad_request", message, clientId}

def reserved : List String :=
  ["welcome", "resume", "genui_event", "client_tools", "client_skills", "abort", "tool_call",
    "skill", "skills", "genui", "genui_components", "interrupt", "interrupt_resolved", "run",
    "error", "typing", "survey", "regenerate", "edit", "ack", "deliveryStatus", "presence",
    "conversationUpdate", "endOfConversation", "event", "heartbeat", "ping", "read", "sync", "auth",
    "tokenRefreshed", "replayTruncated", "subscribe", "unsubscribe", "subscribed", "unsubscribed",
    "message", "activity", "activitySet", "frame", "hello"]

inductive Kind where
  | text | reserved | rich | unknown
  deriving DecidableEq, Repr

def kind (type : String) : Kind :=
  if type = "text" then .text
  else if type ∈ reserved then .reserved
  else if isMessageType type then .rich
  else .unknown

def clientId (frame : Fields) : Except SendError (Option String) :=
  match get frame "clientId", get frame "id" with
  | .null, .str id => .ok (if isClientId id then some id else none)
  | .null, _ => .ok none
  | .str id, _ =>
    if isClientId id then .ok (some id) else .error (badRequest "invalid clientId" none)
  | _, _ => .error (badRequest "invalid clientId" none)

def metadataOf (frame : Fields) (clientId : Option String) : Except SendError Fields :=
  match orElse (get frame "metadata") (.obj []) with
  | .obj metadata => .ok metadata
  | _ => .error (badRequest "metadata must be an object" clientId)

def replyToOf (frame : Fields) : Value :=
  match get frame "replyTo" with
  | .obj replyTo =>
    match get replyTo "id" with
    | .str id => .str id
    | _ => .null
  | _ => .null

def typedParams (frame metadata : Fields) (type : String) (payload : Fields) : ClientParams where
  messageType := .str type
  payload := .obj payload
  metadata := .obj metadata
  replyToId := replyToOf frame

def plainParams (frame data metadata : Fields) (clientId : Option String) :
    Except SendError ClientParams :=
  match orElse (get data "attachments") (.arr []) with
  | .arr attachments =>
    .ok { text := get data "text", attachments := .arr attachments, metadata := .obj metadata
          replyToId := replyToOf frame}
  | _ => .error (badRequest "data.attachments must be an array" clientId)

def messageParams (type : String) (frame : Fields) (clientId : Option String) :
    Except SendError ClientParams :=
  match get frame "data" with
  | .obj data =>
    if type = "text" ∧ isString (get data "text") = false then
      .error (badRequest "a text frame needs data.text" clientId)
    else do
      let metadata ← metadataOf frame clientId
      match fromFrame type frame false with
      | none => plainParams frame data metadata clientId
      | some payload => .ok (typedParams frame metadata type payload)
  | _ =>
    if type = "text" then .error (badRequest "a text frame needs data.text" clientId)
    else .error (badRequest ("a " ++ type ++ " frame needs a data object") clientId)

def sessionFrames : List String :=
  ["hello", "ping", "auth", "sync", "typing", "read", "resume", "genui_event", "client_tools",
    "client_skills", "abort", "survey", "regenerate", "edit"]

inductive Answer where
  | handled
  | refused (error : SendError)
  | invalid (errors : List FieldError)
  | stored (stored : Stored)

/-- The id that `replyTo` names, where it names none the one of the activity with its number. -/
def resolvedReplyTo (bySeq : ℤ → Option String) (replyToId : Value) (frame : Fields) : Value :=
  match replyToId, get frame "replyTo" with
  | .null, .obj replyTo =>
    match get replyTo "seq" with
    | .int seq => (bySeq seq).elim .null .str
    | _ => .null
  | replyToId, _ => replyToId

/-- `Send.resolve_reply_to/3`; `bySeq` is the id of the activity with a number. -/
def resolveReplyTo (bySeq : ℤ → Option String) (params : ClientParams) (frame : Fields) :
    ClientParams :=
  {params with replyToId := resolvedReplyTo bySeq params.replyToId frame}

/-- `send_message/2` of a session. -/
def sendMessage (cfg : Config) (bySeq : ℤ → Option String) (system : SystemAttrs) (type : String)
    (frame : Fields) : Answer :=
  match clientId frame >>= messageParams type frame with
  | .error error => .refused {error with frameType := some type}
  | .ok params =>
    match createClientActivity cfg (resolveReplyTo bySeq params frame) system with
    | .error errors => .invalid errors
    | .ok stored => .stored stored

/-- `handle_frame/2` of a session of one conversation whose token may write. -/
def handleFrame (cfg : Config) (bySeq : ℤ → Option String) (system : SystemAttrs) (frame : Fields) :
    Answer :=
  if cfg.maxFrameBytes < cfg.frameBytes frame then
    .refused { code := "payload_too_large", message := s!"frame exceeds {cfg.maxFrameBytes} bytes" }
  else
    match get frame "type" with
    | .str type =>
      if type ∈ sessionFrames then .handled
      else
        match kind type with
        | .text | .rich => sendMessage cfg bySeq system type frame
        | .reserved =>
          .refused { badRequest (type ++ " is not a client frame") none with frameType := some type}
        | .unknown => .refused (badRequest "unknown frame type" none)
    | _ => .refused (badRequest "a frame needs a string type" none)

/-! ### What can be stored -/

variable {name : String} {v : Value} {id : Option String} {bySeq : ℤ → Option String}

section
variable {cfg : Config} {system : SystemAttrs} {params : ClientParams} {stored : Stored}
  {type : String} {payload frame : Fields}

def bareParams (type : String) (payload : Fields) : ClientParams where
  messageType := .str type
  payload := .obj payload

structure Acceptable (cfg : Config) (type : String) (payload : Fields) : Prop where
  named : blank type = false
  fits : cfg.jsonSize (.obj payload) ≤ cfg.maxPayloadBytes
  valid : validate type payload = true

theorem sizeErrors_eq_nil {field : String} {max : ℕ} :
    sizeErrors cfg field max v = [] ↔ cfg.jsonSize v ≤ max := by
  simp [sizeErrors]

theorem messagePayloadErrors_eq_nil {activityType : Option ActivityType} :
    messagePayloadErrors cfg activityType (some type) (some payload) = [] ↔
      activityType = some .message ∧ cfg.jsonSize (.obj payload) ≤ cfg.maxPayloadBytes ∧
        validate type payload = true := by
  have hflat : (some payload).toList.flatMap (fun body =>
      sizeErrors cfg "payload" cfg.maxPayloadBytes (.obj body)) =
      sizeErrors cfg "payload" cfg.maxPayloadBytes (.obj payload) := by
    simp
  rw [messagePayloadErrors, hflat, append_eq_nil_iff]
  constructor
  · rintro ⟨hsize, hrest⟩
    by_cases htype : activityType = some .message
    · rw [if_neg (not_not_intro htype), if_neg (not_not_intro hsize)] at hrest
      refine ⟨htype, sizeErrors_eq_nil.mp hsize, ?_⟩
      by_contra hinvalid
      rw [if_neg hinvalid] at hrest
      cases hrest
    · rw [if_pos htype] at hrest
      cases hrest
  · rintro ⟨htype, hsize, hvalid⟩
    have hnone : sizeErrors cfg "payload" cfg.maxPayloadBytes (.obj payload) = [] :=
      sizeErrors_eq_nil.mpr hsize
    refine ⟨hnone, ?_⟩
    rw [if_neg (not_not_intro htype), if_neg (not_not_intro hnone), if_pos hvalid]

theorem castString_eq_some {s : String} : castString v = some s ↔ v = .str s ∧ blank s = false := by
  cases v with
  | str t =>
    rw [castString, castText_eq_some]
    constructor
    · rintro ⟨hblank, rfl⟩
      exact ⟨rfl, hblank⟩
    · rintro ⟨heq, hblank⟩
      cases heq
      exact ⟨hblank, rfl⟩
  | null | bool | int | float | arr | obj => simp [castString]

theorem of_createClientActivity (h : createClientActivity cfg params system = .ok stored) :
    stored.messageType = castString params.messageType ∧ stored.payload = castMap params.payload ∧
      (attrsOf cfg params system).contentErrors = [] := by
  unfold createClientActivity at h
  cases hchangeset : changeset cfg.maxTextBytes (attrsOf cfg params system) false with
  | error errors =>
    rw [hchangeset] at h
    cases h
  | ok changes =>
    rw [hchangeset] at h
    cases h
    exact ⟨rfl, rfl, contentErrors_of_changeset hchangeset⟩

theorem Acceptable.of_stored (h : createClientActivity cfg params system = .ok stored)
    (htype : stored.messageType = some type) (hpayload : stored.payload = some payload) :
    Acceptable cfg type payload := by
  obtain ⟨hname, hbody, hcontent⟩ := of_createClientActivity h
  rw [htype] at hname
  rw [hpayload] at hbody
  have herrors := (append_eq_nil_iff.mp hcontent).2
  rw [← hname, ← hbody] at herrors
  obtain ⟨-, hfits, hvalid⟩ := messagePayloadErrors_eq_nil.mp herrors
  exact ⟨(castString_eq_some.mp hname.symm).2, hfits, hvalid⟩

theorem Acceptable.exists_stored (h : Acceptable cfg type payload) (system : SystemAttrs)
    (hsender : blank system.sender = false) :
    ∃ stored, createClientActivity cfg (bareParams type payload) system = .ok stored ∧
      stored.messageType = some type ∧ stored.payload = some payload := by
  have hnamed : castString (.str type) = some type := castString_eq_some.mpr ⟨rfl, h.named⟩
  have hmessage : castString (.str "message") = some "message" := by decide
  have hcast : castType (some "message") = some .message := by decide
  have herrors : (attrsOf cfg (bareParams type payload) system).contentErrors = [] := by
    have hpayload := messagePayloadErrors_eq_nil.mpr ⟨rfl, h.fits, h.valid⟩
    simp only [attrsOf, bareParams, hnamed, hmessage, hcast, castMap, hpayload]
    rfl
  have hnone : castString .null = none := rfl
  have hsome : castText system.sender = some system.sender := castText_eq_some.mpr ⟨hsender, rfl⟩
  have hok : ∃ changes, changeset cfg.maxTextBytes (attrsOf cfg (bareParams type payload) system)
      false = .ok changes := by
    unfold changeset
    simp only [herrors]
    simp [attrsOf, bareParams, hmessage, hnone, hcast, hsome, validateType, tooLong,
      validateTypeRules, required, internalTypes, referenceTypes]
  obtain ⟨changes, hchanges⟩ := hok
  refine ⟨⟨changes, [], castString (.str type), some payload⟩, ?_, hnamed, rfl⟩
  rw [createClientActivity, hchanges]
  rfl

def RestStorable (cfg : Config) (type : String) (payload : Fields) : Prop :=
  ∃ system body stored, create cfg system body = .ok stored ∧
    stored.messageType = some type ∧ stored.payload = some payload

def SendStorable (cfg : Config) (type : String) (payload : Fields) : Prop :=
  ∃ bySeq system frame stored, handleFrame cfg bySeq system frame = .stored stored ∧
    stored.messageType = some type ∧ stored.payload = some payload

theorem restStorable_iff : RestStorable cfg type payload ↔ Acceptable cfg type payload := by
  constructor
  · rintro ⟨system, body, stored, h, htype, hpayload⟩
    exact .of_stored h htype hpayload
  · intro h
    let system : SystemAttrs := { sender := "user", tenantId := 0, conversationId := 0}
    have hbody : clientParams [("messageType", .str type), ("payload", .obj payload)] =
        bareParams type payload := by
      simp [clientParams, bareParams, get, orElse, lookup_cons]
    obtain ⟨stored, hstored, hfields⟩ := h.exists_stored system (by decide)
    exact ⟨system, _, stored, by rw [create, hbody, hstored], hfields⟩

theorem messageType_of_plainParams {data metadata : Fields}
    (h : plainParams frame data metadata id = .ok params) : params.messageType = .null := by
  unfold plainParams at h
  split at h <;> cases h
  rfl

/-- The parameters of a frame are those of a plain message, or they have its payload. -/
theorem of_messageParams (h : messageParams type frame id = .ok params) :
    params.messageType = .null ∨ params.messageType = .str type ∧
      ∃ payload, fromFrame type frame false = some payload ∧ params.payload = .obj payload := by
  unfold messageParams at h
  split at h
  · split at h
    · cases h
    · cases hmetadata : metadataOf frame id with
      | error error =>
        rw [hmetadata] at h
        cases h
      | ok metadata =>
        rw [hmetadata] at h
        cases hfrom : fromFrame type frame false with
        | none =>
          simp only [hfrom] at h
          exact .inl (messageType_of_plainParams h)
        | some payload =>
          simp only [hfrom] at h
          cases h
          exact .inr ⟨rfl, payload, rfl, rfl⟩
  · split at h <;> cases h

/-- A typed message that a frame stores has the type and the payload of the frame. -/
theorem of_sendMessage (h : sendMessage cfg bySeq system type frame = .stored stored)
    (hname : stored.messageType = some name) (hpayload : stored.payload = some payload) :
    name = type ∧ fromFrame type frame false = some payload ∧ Acceptable cfg type payload := by
  unfold sendMessage at h
  split at h
  · cases h
  · rename_i params hparams
    split at h <;> cases h
    rename_i stored' hstored
    have haccept := Acceptable.of_stored hstored hname hpayload
    obtain ⟨hcast, hbody, -⟩ := of_createClientActivity hstored
    rw [hname] at hcast
    rw [hpayload] at hbody
    change some name = castString params.messageType at hcast
    change some payload = castMap params.payload at hbody
    cases hid : clientId frame with
    | error error =>
      rw [hid] at hparams
      cases hparams
    | ok id =>
      rw [hid] at hparams
      rcases of_messageParams hparams with hnull | ⟨htype, body, hfrom, hparams⟩
      · rw [hnull] at hcast
        cases hcast
      · rw [hparams] at hbody
        cases hbody
        rw [htype] at hcast
        obtain ⟨heq, -⟩ := castString_eq_some.mp hcast.symm
        cases heq
        exact ⟨rfl, hfrom, haccept⟩

/-- What a frame stores is a message of its own type, which is not one of the protocol's. -/
theorem of_handleFrame (h : handleFrame cfg bySeq system frame = .stored stored)
    (htype : stored.messageType = some type) (hpayload : stored.payload = some payload) :
    kind type ≠ .reserved ∧ fromFrame type frame false = some payload ∧
      Acceptable cfg type payload := by
  unfold handleFrame at h
  split at h
  · cases h
  · split at h
    · rename_i name hname
      split at h
      · cases h
      · split at h
        · rename_i hkind
          obtain ⟨rfl, hfields⟩ := of_sendMessage h htype hpayload
          exact ⟨by rw [hkind]; decide, hfields⟩
        · rename_i hkind
          obtain ⟨rfl, hfields⟩ := of_sendMessage h htype hpayload
          exact ⟨by rw [hkind]; decide, hfields⟩
        · cases h
        · cases h
    · cases h

end

/-! ### Open interrupts -/

structure Row where
  seq : ℕ
  messageType : Option String
  payload : Fields
  deleted : Bool := false

section
variable (asText : Value → Option String)

def ofType (name : String) (rows : List Row) : List Row :=
  rows.filter fun row => row.messageType = some name

/-- The operator `->>` on the id of a payload; `asText` is the text of a value, `none` for `null`. -/
def idText (row : Row) : Option String := (row.payload.lookup "id").bind asText

def resolvedAfter (rows : List Row) (id : Option String) (seq : ℕ) : Bool :=
  (ofType "interrupt_resolved" rows).any fun row =>
    seq < row.seq && id.isSome && idText asText row = id

def interruptOpen (rows : List Row) (id : String) : Bool :=
  let latest := ((ofType "interrupt" rows).filter fun row => idText asText row = some id).getLast?
  !resolvedAfter asText rows (some id) ((latest.map Row.seq).getD 0)

/-- An interrupt that is listed has a text as its id and an object as its data. -/
def isPending (payload : Fields) : Bool :=
  isString (get payload "id") && isObject (get payload "data")

def openInterrupts (rows : List Row) : List Fields :=
  let pending := (ofType "interrupt" rows).filter fun row =>
    !row.deleted && !resolvedAfter asText rows (idText asText row) row.seq
  let payloads := (pending.map Row.payload).filter isPending
  (payloads.reverse.eraseDupsBy fun p q => (get p "id").same (get q "id")).reverse.map
    fun payload => payload.filter (·.1 ∈ ["id", "data"])

variable {asText} {rows : List Row} {row : Row}

end

/-- What a connection takes as it is: a type that is not the bot protocol's own, and a body without
the server's fields that is not a plain text and fits into a frame. -/
structure Sendable (cfg : Config) (type : String) (payload : Fields) : Prop where
  native : type ∉ native
  body : ∀ field ∈ payload, field.1 ∉ "id" :: envelope
  plain : isPlain type payload = false
  fits : cfg.frameBytes (("type", .str type) :: payload) ≤ cfg.maxFrameBytes

def roomy : Config where
  jsonSize _ := 0
  frameBytes _ := 0
  attachmentErrors _ := []
  uuid _ := none

end Converger.ClientMessages
