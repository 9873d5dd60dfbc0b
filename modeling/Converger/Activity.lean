import Mathlib.Data.List.Basic

/-!
# Activities and conversations

The rows of the `activities` and `conversations` tables, restricted to the columns
the modelled functions read or write. Ids are opaque and only compared; times are
microseconds. The `seq` column is `NOT NULL`, so a stored activity always has one.
-/
namespace Converger

abbrev Uuid := ℕ

/-- `Activity.types/0`. -/
inductive ActivityType where
  | message | event | typing | messageReaction | messageUpdate | messageDelete
  | conversationUpdate | endOfConversation | deliveryReceipt
  deriving DecidableEq, Repr

structure Activity where
  id : Uuid
  conversationId : Uuid
  seq : ℕ
  type : ActivityType := .message
  sender : String := ""
  text : Option String := none
  idempotencyKey : Option String := none
  replyToId : Option Uuid := none
  sourceChannelId : Option Uuid := none
  editedAt : Option ℕ := none
  deletedAt : Option ℕ := none
  insertedAt : ℕ := 0
  deriving DecidableEq, Repr

/-- `Conversation.status`: only an active conversation accepts activities. -/
inductive ConversationStatus where
  | active | closed
  deriving DecidableEq, Repr

/-- A stored conversation. `lastSeq` is the highest `seq` handed out in it. -/
structure Conversation where
  id : Uuid
  channelId : Uuid := 0
  status : ConversationStatus := .active
  lastSeq : ℕ := 0
  participantId : Option Uuid := none
  insertedAt : ℕ := 0
  deriving DecidableEq, Repr

end Converger
