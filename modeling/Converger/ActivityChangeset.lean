import Converger.Activity
import Converger.Text

/-!
# The changeset of a new activity

`Activity.changeset/3` as far as creating an activity depends on it: the cast of the
client and system fields and the rules that need no database. The checks of
attachments, metadata and typed payloads look at nothing else, so what they report is
part of the attributes.
-/
namespace Converger.ActivityChangeset
open Text

abbrev FieldError := String × String

/-- The attributes of a `create_activity/2` call. -/
structure Attrs where
  type : Option String := none
  text : Option String := none
  replyToId : Option Uuid := none
  hasAttachments : Bool := false
  contentErrors : List FieldError := []
  tenantId : Option Uuid := none
  conversationId : Option Uuid := none
  sender : Option String := none
  idempotencyKey : Option String := none
  sourceChannelId : Option Uuid := none
  deriving DecidableEq, Repr

structure Changes where
  type : ActivityType
  text : Option String
  replyToId : Option Uuid
  sender : String
  conversationId : Uuid
  idempotencyKey : Option String
  sourceChannelId : Option Uuid
  deriving DecidableEq, Repr

def typeName : ActivityType → String
  | .message => "message"
  | .event => "event"
  | .typing => "typing"
  | .messageReaction => "messageReaction"
  | .messageUpdate => "messageUpdate"
  | .messageDelete => "messageDelete"
  | .conversationUpdate => "conversationUpdate"
  | .endOfConversation => "endOfConversation"
  | .deliveryReceipt => "deliveryReceipt"

def types : List ActivityType :=
  [.message, .event, .typing, .messageReaction, .messageUpdate, .messageDelete,
    .conversationUpdate, .endOfConversation, .deliveryReceipt]

def internalTypes : List ActivityType := [.deliveryReceipt]

def referenceTypes : List ActivityType := [.messageReaction, .messageUpdate, .messageDelete]

/-- `type` after the cast: a missing or blank one is the default, an unknown one `none`. -/
def castType (type : Option String) : Option ActivityType :=
  match type.bind castText with
  | none => some .message
  | some s => types.find? fun t => typeName t = s

def maxReactionBytes : ℕ := 64

def tooLong (max : ℕ) (text : Option String) : List FieldError :=
  if text.any fun s => max < s.utf8ByteSize then
    [("text", s!"should be at most {max} byte(s)")]
  else []

def validateType (internal : Bool) (type : Option ActivityType) : List FieldError :=
  match type with
  | none => [("type", "is invalid")]
  | some t => if t ∈ internalTypes ∧ ¬ internal then [("type", "is invalid")] else []

def validateTypeRules (type : Option ActivityType) (text : Option String) (attrs : Attrs) :
    List FieldError :=
  match type with
  | none => []
  | some t =>
    (if t ∈ referenceTypes ∧ attrs.replyToId = none then
      [("reply_to_id", "is required for " ++ typeName t)] else []) ++
    match t with
    | .messageReaction => tooLong maxReactionBytes text
    | .messageUpdate =>
      if text = none ∧ ¬ attrs.hasAttachments then
        [("text", "is required for messageUpdate (or attachments)")] else []
    | _ => []

def required (field : String) (missing : Bool) : List FieldError :=
  if missing then [(field, "can't be blank")] else []

/-- `Activity.changeset/3` followed by `apply_action`. -/
def changeset (maxTextBytes : ℕ) (attrs : Attrs) (internal : Bool) :
    Except (List FieldError) Changes :=
  let type := castType attrs.type
  let text := attrs.text.bind castText
  let sender := attrs.sender.bind castText
  let errors := validateType internal type ++ tooLong maxTextBytes text ++ attrs.contentErrors ++
    validateTypeRules type text attrs ++ required "sender" sender.isNone ++
    required "tenant_id" attrs.tenantId.isNone ++
    required "conversation_id" attrs.conversationId.isNone
  match type, sender, attrs.conversationId, errors with
  | some type, some sender, some conversationId, [] =>
    .ok { type, text, replyToId := attrs.replyToId, sender, conversationId,
          idempotencyKey := attrs.idempotencyKey.bind castText,
          sourceChannelId := attrs.sourceChannelId}
  | _, _, _, errors => .error errors

variable {maxTextBytes : ℕ} {attrs : Attrs} {internal : Bool} {ch : Changes}

section
variable (h : changeset maxTextBytes attrs internal = .ok ch)
include h

theorem changeset_eq_ok :
    attrs.conversationId = some ch.conversationId ∧
      ch.idempotencyKey = attrs.idempotencyKey.bind castText := by
  simp only [changeset] at h
  split at h <;> cases h
  exact ⟨‹_›, rfl⟩

theorem content_of_changeset :
    castType attrs.type = some ch.type ∧ attrs.sender.bind castText = some ch.sender ∧
      ch.text = attrs.text.bind castText ∧ ch.replyToId = attrs.replyToId := by
  simp only [changeset] at h
  split at h <;> cases h
  rename_i htype hsender _ _
  exact ⟨htype, hsender, rfl, rfl⟩

theorem contentErrors_of_changeset : attrs.contentErrors = [] := by
  simp only [changeset] at h
  split at h
  · rename_i herrors
    simp only [List.append_eq_nil_iff] at herrors
    exact herrors.1.1.1.1.2
  · cases h

end

end Converger.ActivityChangeset
