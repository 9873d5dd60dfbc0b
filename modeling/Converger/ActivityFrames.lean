import Converger.ClientMessages

/-!
# The frames of activities

`Frames.activity/3`: the persistent frame of an activity as its viewer sees it. The frame of a typed
message is the stored payload with the fields that the server owns set over it, so a payload without
these fields cannot change what the frame says about its sender.
-/
namespace Converger.ActivityFrames
open ClientKeys ClientMessages JsonValues KeyedLists MessagePayload Option Text

/-- The columns of an activity but `payload`. -/
structure Columns where
  id : String
  seq : ℕ
  type : ActivityType := .message
  sender : String
  text : Option String := none
  attachments : List Value := []
  metadata : Fields := []
  idempotencyKey : Option String := none
  replyToId : Option String := none
  messageType : Option String := none
  sourceChannelId : Option String := none
  insertedAt : ℕ := 0

/-- `Serializer.canonical/1`, without what no frame shows. -/
structure Canonical extends Columns where
  payload : Option Fields := none

/-- Who a frame is for: the end user of a conversation, or the agent of a channel. -/
inductive Viewer where
  | user (id : String)
  | agent (sender : String) (originChannelId : String)

inductive Role where
  | user | bot | system
  deriving DecidableEq, Repr

def Role.name : Role → String
  | .user => "user"
  | .bot => "bot"
  | .system => "system"

def role (c : Columns) (viewer : Viewer) : Role :=
  if c.sender = "system" then .system
  else
    match viewer with
    | .user id => if c.sender = id then .user else .bot
    | .agent sender origin =>
      if c.sender = sender then .bot
      else if c.sourceChannelId.all (· = origin) then .user
      else .bot

def senderId (sender : String) : String := if sender = "" then "unknown" else sender

/-- `maybe_put/3`. -/
def putMaybe (name : String) (v : Option Value) (fields : Fields) : Fields :=
  match v with
  | none => fields
  | some v => put name v fields

theorem lookup_putMaybe (name : String) (v : Option Value) (fields : Fields) (key : String) :
    (putMaybe name v fields).lookup key =
      if key = name then v.or (fields.lookup key) else fields.lookup key := by
  cases v with
  | none => simp [putMaybe]
  | some v =>
    rw [putMaybe, lookup_put]
    rfl

/-! ### The fields of the server -/

def baseFrom (role : Role) : Value := .str (if role = .user then "user" else "bot")

def baseSender (c : Columns) (role : Role) : Value :=
  .obj [("id", .str (senderId c.sender)), ("role", .str role.name)]

def base (c : Columns) (role : Role) : Fields :=
  [("id", .str c.id), ("seq", .int c.seq), ("from", baseFrom role), ("sender", baseSender c role)]

/-- `Protocol.to_ms/1`. -/
def timestamp (c : Columns) : Value := .int (c.insertedAt / 1000 : ℕ)

def metadataField (c : Columns) : Option Value :=
  if c.metadata.isEmpty then none else some (.obj c.metadata)

def replyToField (c : Columns) : Option Value := c.replyToId.map fun id => .obj [("id", .str id)]

/-- The `clientId` in a key of the sender's own. -/
def clientIdOf (sender key : String) : Option String :=
  let start := (clientKey sender "").toList
  if start.isPrefixOf key.toList then
    let id := String.ofList (key.toList.drop start.length)
    if isClientId id then some id else none
  else none

def clientIdField (c : Columns) (role : Role) : Option Value :=
  if role = .user then (c.idempotencyKey.bind (clientIdOf c.sender)).map .str else none

def agentMeta (c : Columns) : Fields :=
  putMaybe "channel" (c.sourceChannelId.map fun id => .obj [("id", .str id)])
    [("participant", .obj [("id", .str (senderId c.sender))])]

/-! ### The frame -/

/-- `Downgrade.text/1` of an activity about another one. -/
def referenceText (c : Columns) : Option String :=
  let given := c.text.filter fun text => !blank text
  match c.type with
  | .messageReaction => given.map fun emoji => c.sender ++ " reacted with " ++ emoji
  | .messageUpdate => given.map fun text => "(edited) " ++ text
  | _ => some (c.sender ++ " deleted a message")

def referenceData (c : Columns) : Fields :=
  let value := putMaybe "attachments"
    (if c.attachments.isEmpty then none else some (.arr c.attachments))
    (putMaybe "text" (c.text.map .str) [("replyToId", c.replyToId.elim .null .str)])
  [("name", .str (ActivityChangeset.typeName c.type)), ("text", .str ((referenceText c).getD "")),
    ("value", .obj value)]

def textData (c : Columns) : Fields :=
  let text := ("text", Value.str (c.text.getD ""))
  if c.attachments.isEmpty then [text] else [text, ("attachments", .arr c.attachments)]

/-- A value that is `nil` is not put. -/
def given (fields : Fields) (name : String) : Option Value :=
  (fields.lookup name).filter fun v => !isNull v

def putEnvelope (c : Columns) (role : Role) (frame : Fields) : Fields :=
  putMaybe "clientId" (clientIdField c role) (putMaybe "replyTo" (replyToField c)
    (putMaybe "metadata" (metadataField c) (put "timestamp" (timestamp c) frame)))

/-- A typed message: the stored body, with the envelope unless it is a frame of the bot protocol. -/
def typedMessage (c : Columns) (role : Role) (messageType : String) (payload : Fields) : Fields :=
  let frame := toFrame messageType payload
  if messageType ∈ native then put "seq" (.int c.seq) frame
  else putEnvelope c role (putNew "id" (.str c.id) (merge frame (delete "id" (base c role))))

def typed (c : Canonical) (role : Role) (live : Bool) : Fields :=
  let base := base c.toColumns role
  match c.type with
  | .typing => merge base [("type", .str "typing"), ("isTyping", .bool live)]
  | .conversationUpdate =>
    put "timestamp" (timestamp c.toColumns)
      (merge base [("type", .str "conversationUpdate"), ("data", .obj c.metadata)])
  | .endOfConversation =>
    put "timestamp" (timestamp c.toColumns) (merge base [("type", .str "conversationUpdate"),
      ("data", .obj [("event", .str "conversation_ended"), ("status", .str "closed")])])
  | .messageReaction | .messageUpdate | .messageDelete =>
    putMaybe "metadata" (metadataField c.toColumns) (put "timestamp" (timestamp c.toColumns)
      (merge base [("type", .str "event"), ("data", .obj (referenceData c.toColumns))]))
  | .event =>
    let data := putMaybe "value" (given c.metadata "value") (putMaybe "name"
      (given c.metadata "name") [("text", .str (c.text.getD ""))])
    putMaybe "metadata" (metadataField c.toColumns) (put "timestamp" (timestamp c.toColumns)
      (merge base [("type", .str "event"), ("data", .obj data)]))
  | .message | .deliveryReceipt =>
    match c.type, c.messageType, c.payload with
    | .message, some messageType, some payload => typedMessage c.toColumns role messageType payload
    | _, _, _ => putEnvelope c.toColumns role
        (merge base [("type", .str "text"), ("data", .obj (textData c.toColumns))])

/-- `put_agent_meta/4`. A `meta` that is there wins; merging it raises unless it is an object. -/
def putAgentMeta (c : Columns) (viewer : Viewer) (role : Role) (frame : Fields) : Option Fields :=
  match viewer, role, frame.lookup "from" with
  | .agent _ _, .user, some (.str "user") =>
    match frame.lookup "meta" with
    | none => some (put "meta" (.obj (agentMeta c)) frame)
    | some (.obj own) => some (put "meta" (.obj (merge (agentMeta c) own)) frame)
    | some _ => none
  | _, _, _ => some frame

/-- `Frames.activity/3`; `none` where it raises. -/
def activity (c : Canonical) (viewer : Viewer) (live : Bool) : Option Fields :=
  let role := role c.toColumns viewer
  putAgentMeta c.toColumns viewer role (typed c role live)

/-- `meta.channel` with the type of the channel that it names. -/
def withChannelType (channelType : Value → Option String) : Value → Value
  | .obj own =>
    match own.lookup "channel" with
    | some (.obj ref) =>
      match (ref.lookup "id").bind channelType with
      | some type => .obj (put "channel" (.obj (put "type" (.str type) ref)) own)
      | none => .obj own
    | _ => .obj own
  | v => v

/-- `put_channel_type/2` of a channel session. -/
def putChannelType (channelType : Value → Option String) (frame : Fields) : Fields :=
  match frame.lookup "meta" with
  | some own => put "meta" (withChannelType channelType own) frame
  | none => frame

def shown (channelType : Value → Option String) (c : Canonical) (viewer : Viewer) (live : Bool) :
    Option Fields :=
  match viewer with
  | .user _ => activity c viewer live
  | .agent _ _ => (activity c viewer live).map (putChannelType channelType)

/-! ### Where the fields of the server come from -/

/-- The payload has none of the fields that a frame keeps where no column sets them; an id wins over
the column. No column sets `clientId` or `meta` for every viewer. -/
structure Own (c : Columns) (payload : Fields) : Prop where
  id : payload.lookup "id" = none ∨ payload.lookup "id" = some (.str c.id)
  metadata : payload.lookup "metadata" = none ∨ c.metadata.isEmpty = false
  replyTo : payload.lookup "replyTo" = none ∨ c.replyToId.isSome = true
  clientId : payload.lookup "clientId" = none
  agentMeta : payload.lookup "meta" = none

def serverFields : List String :=
  ["type", "id", "seq", "from", "timestamp", "sender", "clientId", "replyTo", "metadata", "meta"]

/-- The `meta` of a frame, which only agents are shown. -/
def serverMeta (channelType : Value → Option String) (c : Columns) (viewer : Viewer) : Option Value :=
  match viewer, role c viewer with
  | .agent _ _, .user => some (withChannelType channelType (.obj (agentMeta c)))
  | _, _ => none

def serverField (channelType : Value → Option String) (c : Columns) (viewer : Viewer) :
    String → Option Value
  | "type" => c.messageType.map .str
  | "id" => some (.str c.id)
  | "seq" => some (.int c.seq)
  | "from" => some (baseFrom (role c viewer))
  | "timestamp" => some (timestamp c)
  | "sender" => some (baseSender c (role c viewer))
  | "clientId" => clientIdField c (role c viewer)
  | "replyTo" => replyToField c
  | "metadata" => metadataField c
  | "meta" => serverMeta channelType c viewer
  | _ => none

section
variable {c : Columns} {r : Role} {messageType : String} {payload : Fields}
  {channelType : Value → Option String} {viewer : Viewer}

theorem lookup_base (c : Columns) (r : Role) (name : String) :
    (delete "id" (base c r)).lookup name =
      if name = "seq" then some (.int c.seq)
      else if name = "from" then some (baseFrom r)
      else if name = "sender" then some (baseSender c r) else none := by
  change List.lookup name [("seq", _), ("from", _), ("sender", _)] = _
  simp only [List.lookup_cons, List.lookup_nil, beq_eq_decide]
  split_ifs <;> simp_all

theorem typed_eq (hmessage : c.type = .message) (htype : c.messageType = some messageType)
    (live : Bool) : typed ⟨c, some payload⟩ r live = typedMessage c r messageType payload := by
  unfold typed
  simp only [hmessage, htype]

theorem lookup_putChannelType (frame : Fields) (name : String) :
    (putChannelType channelType frame).lookup name =
      if name = "meta" then (frame.lookup name).map (withChannelType channelType)
      else frame.lookup name := by
  unfold putChannelType
  by_cases hname : name = "meta"
  · subst hname
    cases hmeta : frame.lookup "meta" with
    | none => exact hmeta
    | some own => simp only [lookup_put, if_pos, map_some]
  · split
    · rw [lookup_put, if_neg hname, if_neg hname]
    · rw [if_neg hname]

variable (hnative : messageType ∉ native) (hown : Own c payload)
  (htype : c.messageType = some messageType)
include hnative

/-- The fields of the frame of a typed message. -/
theorem lookup_typedMessage :
    let frame := typedMessage c r messageType payload
    frame.lookup "type" = some (.str messageType) ∧ frame.lookup "seq" = some (.int c.seq) ∧
      frame.lookup "from" = some (baseFrom r) ∧ frame.lookup "timestamp" = some (timestamp c) ∧
      frame.lookup "sender" = some (baseSender c r) ∧
      frame.lookup "id" = (payload.lookup "id").or (some (.str c.id)) ∧
      frame.lookup "clientId" = (clientIdField c r).or (payload.lookup "clientId") ∧
      frame.lookup "replyTo" = (replyToField c).or (payload.lookup "replyTo") ∧
      frame.lookup "metadata" = (metadataField c).or (payload.lookup "metadata") ∧
      frame.lookup "meta" = payload.lookup "meta" := by
  simp only [typedMessage, if_neg hnative, putEnvelope, toFrame, lookup_putMaybe, lookup_put,
    lookup_putNew, lookup_merge, lookup_base]
  simp

/-- A frame for a viewer who does not take the sender for the user shows each of these fields. -/
theorem own_of_lookups (hrole : r ≠ .user) :
    let frame := typedMessage c r messageType payload
    frame.lookup "id" = some (.str c.id) → frame.lookup "clientId" = clientIdField c r →
      frame.lookup "replyTo" = replyToField c → frame.lookup "metadata" = metadataField c →
      frame.lookup "meta" = none → Own c payload := by
  obtain ⟨-, -, -, -, -, hid, hclientId, hreplyTo, hmetadata, hmeta⟩ :=
    @lookup_typedMessage c r messageType payload hnative
  simp only [hid, hclientId, hreplyTo, hmetadata, hmeta]
  intro hid hclientId hreplyTo hmetadata hmeta
  refine ⟨?_, ?_, ?_, ?_, hmeta⟩
  · cases hlookup : payload.lookup "id" with
    | none => exact .inl rfl
    | some v =>
      rw [hlookup, some_or] at hid
      exact .inr hid
  · cases hempty : c.metadata.isEmpty with
    | false => exact .inr rfl
    | true =>
      simp only [metadataField, hempty, if_true, none_or] at hmetadata
      exact .inl hmetadata
  · cases hreply : c.replyToId with
    | some id => exact .inr rfl
    | none =>
      simp only [replyToField, hreply, map_none, none_or] at hreplyTo
      exact .inl hreplyTo
  · simpa only [clientIdField, if_neg hrole, none_or] using hclientId

include hown

theorem lookup_typedMessage_own :
    let frame := typedMessage c r messageType payload
    frame.lookup "type" = some (.str messageType) ∧ frame.lookup "id" = some (.str c.id) ∧
      frame.lookup "seq" = some (.int c.seq) ∧ frame.lookup "from" = some (baseFrom r) ∧
      frame.lookup "timestamp" = some (timestamp c) ∧
      frame.lookup "sender" = some (baseSender c r) ∧
      frame.lookup "clientId" = clientIdField c r ∧ frame.lookup "replyTo" = replyToField c ∧
      frame.lookup "metadata" = metadataField c ∧ frame.lookup "meta" = none := by
  obtain ⟨htype, hseq, hfrom, htimestamp, hsender, hid, hclientId, hreplyTo, hmetadata, hmeta⟩ :=
    @lookup_typedMessage c r messageType payload hnative
  refine ⟨htype, ?_, hseq, hfrom, htimestamp, hsender, ?_, ?_, ?_, hmeta.trans hown.agentMeta⟩
  · rw [hid]
    rcases hown.id with hnone | hsome
    · rw [hnone, none_or]
    · rw [hsome, some_or]
  · rw [hclientId, hown.clientId, or_none]
  · rw [hreplyTo]
    rcases hown.replyTo with hnone | hsome
    · rw [hnone, or_none]
    · obtain ⟨id, hid⟩ := isSome_iff_exists.mp hsome
      rw [replyToField, hid, map_some, some_or]
  · rw [hmetadata]
    rcases hown.metadata with hnone | hsome
    · rw [hnone, or_none]
    · rw [metadataField, hsome]
      rfl

include htype

theorem serverField_of_typedMessage {frame : Fields}
    (hother : ∀ name ≠ "meta",
      frame.lookup name = (typedMessage c (role c viewer) messageType payload).lookup name)
    (hmeta : frame.lookup "meta" = serverMeta channelType c viewer) :
    ∀ name ∈ serverFields, frame.lookup name = serverField channelType c viewer name := by
  obtain ⟨htype', hid, hseq, hfrom, htimestamp, hsender, hclientId, hreplyTo, hmetadata, -⟩ :=
    @lookup_typedMessage_own c (role c viewer) messageType payload hnative hown
  simp only [serverFields, List.forall_mem_cons]
  refine ⟨?_, ?_, ?_, ?_, ?_, ?_, ?_, ?_, ?_, hmeta, nofun⟩
  · rw [hother _ (by decide), htype', serverField, htype]
    rfl
  · exact (hother _ (by decide)).trans hid
  · exact (hother _ (by decide)).trans hseq
  · exact (hother _ (by decide)).trans hfrom
  · exact (hother _ (by decide)).trans htimestamp
  · exact (hother _ (by decide)).trans hsender
  · exact (hother _ (by decide)).trans hclientId
  · exact (hother _ (by decide)).trans hreplyTo
  · exact (hother _ (by decide)).trans hmetadata

/-- The frame of a typed message, whose payload has none of the fields that a frame keeps. -/
theorem exists_shown (hmessage : c.type = .message) (live : Bool) :
    ∃ frame, shown channelType ⟨c, some payload⟩ viewer live = some frame ∧
      ∀ name ∈ serverFields, frame.lookup name = serverField channelType c viewer name := by
  obtain ⟨-, -, -, hfrom, -, -, -, -, -, hmeta⟩ :=
    @lookup_typedMessage_own c (role c viewer) messageType payload hnative hown
  set message := typedMessage c (role c viewer) messageType payload with hmessage'
  have hactivity : activity ⟨c, some payload⟩ viewer live =
      putAgentMeta c viewer (role c viewer) message := by
    rw [activity, typed_eq hmessage htype]
  cases viewer with
  | user id =>
    refine ⟨message, ?_, serverField_of_typedMessage hnative hown htype (fun _ _ => rfl) hmeta⟩
    rw [shown, hactivity]
    rfl
  | agent sender origin =>
    cases hrole : role c (.agent sender origin) with
    | user =>
      refine ⟨putChannelType channelType (put "meta" (.obj (agentMeta c)) message), ?_, ?_⟩
      · rw [shown, hactivity]
        simp only [putAgentMeta, hrole] at hfrom ⊢
        simp only [hfrom, hmeta]
        rfl
      · apply serverField_of_typedMessage hnative hown htype
        · intro name hname
          rw [lookup_putChannelType, if_neg hname, lookup_put, if_neg hname]
        · rw [lookup_putChannelType, if_pos rfl, lookup_put, if_pos rfl]
          simp only [serverMeta, hrole, map_some]
    | bot | system =>
      refine ⟨putChannelType channelType message, ?_, ?_⟩
      · rw [shown, hactivity, hrole]
        rfl
      · apply serverField_of_typedMessage hnative hown htype
        · intro name hname
          rw [lookup_putChannelType, if_neg hname]
        · rw [lookup_putChannelType, if_pos rfl, hmeta]
          simp only [serverMeta, hrole, map_none]

end

/-- Of the sender's own agent: no message of the sender is taken for the user's. -/
theorem role_ne_user (c : Columns) : role c (.agent c.sender "") ≠ .user := by
  unfold role
  split_ifs <;> simp

/-- The fields of the server in every frame of a typed message are what the columns but the payload
say, exactly if the payload has none of the fields that a frame keeps where no column sets them. A
message that was sent over a connection has none. -/
theorem server_fields_of_columns_iff (cfg : Config) {c : Columns} {messageType : String}
    {payload : Fields} (hmessage : c.type = .message) (htype : c.messageType = some messageType)
    (hnative : messageType ∉ native) :
    (SendStorable cfg messageType payload → Own c payload) ∧
    ((∀ channelType viewer live, ∃ frame,
        shown channelType ⟨c, some payload⟩ viewer live = some frame ∧
        ∀ name ∈ serverFields, frame.lookup name = serverField channelType c viewer name) ↔
      Own c payload) := by
  refine ⟨?_, fun h => ?_, fun hown channelType viewer live => ?_⟩
  · rintro ⟨bySeq, system, frame, stored, h, hname, hpayload⟩
    have hnone : ∀ name ∈ "id" :: envelope, payload.lookup name = none := fun name hmem =>
      lookup_fromFrame hnative (of_handleFrame h hname hpayload).2.1 hmem
    exact ⟨.inl (hnone _ (by decide)), .inl (hnone _ (by decide)), .inl (hnone _ (by decide)),
      hnone _ (by decide), hnone _ (by decide)⟩
  · obtain ⟨frame, hshown, hfields⟩ := h (fun _ => none) (.agent c.sender "") true
    have hrole := role_ne_user c
    have hframe : frame = putChannelType (fun _ => none)
        (typedMessage c (role c (.agent c.sender "")) messageType payload) := by
      rw [shown, activity, typed_eq hmessage htype] at hshown
      revert hshown
      cases hcase : role c (.agent c.sender "") with
      | user => exact absurd hcase hrole
      | bot | system => exact fun hshown => (Option.some.inj hshown).symm
    have hlookup : ∀ name ∈ serverFields, name ≠ "meta" →
        (typedMessage c (role c (.agent c.sender "")) messageType payload).lookup name =
          serverField (fun _ => none) c (.agent c.sender "") name := by
      intro name hmem hname
      rw [← hfields name hmem, hframe, lookup_putChannelType, if_neg hname]
    have hmeta := hfields "meta" (by decide)
    rw [hframe, lookup_putChannelType, if_pos rfl] at hmeta
    have hnone : serverField (fun _ => none) c (.agent c.sender "") "meta" = none := by
      change serverMeta _ c (.agent c.sender "") = none
      unfold serverMeta
      split
      · exact absurd ‹_› hrole
      · rfl
    rw [hnone, map_eq_none_iff] at hmeta
    exact own_of_lookups hnative hrole (hlookup _ (by decide) (by decide))
      (hlookup _ (by decide) (by decide)) (hlookup _ (by decide) (by decide))
      (hlookup _ (by decide) (by decide)) hmeta
  · exact exists_shown hnative hown htype hmessage live

/-- A note that the user `u` has stored. -/
def note : Columns where
  id := "a1"
  seq := 1
  sender := "u"
  messageType := some "note"
  sourceChannelId := some "web"

/-- A payload with metadata of its own, where the column has some. -/
def described : Fields := [("data", .obj []), ("metadata", .obj [("b", .int 2)])]

theorem server_fields_of_columns_iff_note :
    RestStorable roomy "note" described ∧
    ∃ frame, shown (fun _ => none) ⟨{ note with metadata := [("a", .int 1)] }, some described⟩
        (.agent "bot" "web") true = some frame ∧
      ∀ name ∈ serverFields, frame.lookup name = serverField (fun _ => none)
        { note with metadata := [("a", .int 1)] } (.agent "bot" "web") name := by
  refine ⟨restStorable_iff.mpr ⟨by decide, by decide, by decide +kernel⟩, ?_⟩
  exact (server_fields_of_columns_iff roomy rfl rfl (by decide)).2.mpr
    ⟨.inl rfl, .inr rfl, .inl rfl, rfl, rfl⟩ _ _ _

def forged : Fields :=
  [("data", .obj []), ("id", .str "a0"), ("clientId", .str "c0"),
    ("meta", .obj [("participant", .obj [("id", .str "admin")])])]

/-- The agent is shown the participant, the id and the `clientId` of the payload. -/
theorem forged_fields_shown : RestStorable roomy "note" forged ∧
    ∃ frame own, shown (fun _ => none) ⟨note, some forged⟩ (.agent "bot" "web") true = some frame ∧
      frame.lookup "id" = some (.str "a0") ∧ frame.lookup "clientId" = some (.str "c0") ∧
      frame.lookup "meta" = some (.obj own) ∧
      own.lookup "participant" = some (.obj [("id", .str "admin")]) ∧
      serverField (fun _ => none) note (.agent "bot" "web") "id" = some (.str "a1") ∧
      serverField (fun _ => none) note (.agent "bot" "web") "clientId" = none := by
  refine ⟨restStorable_iff.mpr ⟨by decide, by decide, by decide +kernel⟩, ?_⟩
  exact ⟨_, _, rfl, rfl, rfl, rfl, rfl, rfl, rfl⟩

end Converger.ActivityFrames
