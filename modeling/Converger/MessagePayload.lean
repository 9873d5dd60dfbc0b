import Converger.KeyedLists
import Converger.ProtocolSchemas

/-!
# Typed message payloads

What a typed message stores of its frame: the fields that are not the server's. A payload is validated
as a frame, with stand-ins for the fields that the server sets.
-/
namespace Converger.MessagePayload
open JsonSchema JsonValues KeyedLists ProtocolSchemas

abbrev Fields := List (String × Value)

def native : List String := ["tool_call", "skill", "genui", "interrupt", "interrupt_resolved"]

def envelope : List String :=
  ["type", "seq", "from", "timestamp", "sender", "metadata", "clientId", "replyTo", "meta"]

def placeholders : Fields := [("seq", .int 1), ("from", .str "bot"), ("timestamp", .int 0)]

def isString : Value → Bool
  | .str _ => true
  | _ => false

def isPlainData : Value → Bool
  | .obj data => data.all (·.1 ∈ ["text", "attachments"]) && (data.lookup "text").any isString
  | _ => false

def isPlain (type : String) (payload : Fields) : Bool :=
  type = "text" && payload.map Prod.fst = ["data"] && (payload.lookup "data").any isPlainData

def bodyOf (type : String) (frame : Fields) (keepId : Bool) : Fields :=
  if type ∈ native then drop ["type", "seq"] frame
  else if keepId then drop envelope frame
  else delete "id" (drop envelope frame)

/-- `from_frame/2`; `none` is `:plain`. -/
def fromFrame (type : String) (frame : Fields) (keepId : Bool) : Option Fields :=
  if isPlain type (bodyOf type frame keepId) then none else some (bodyOf type frame keepId)

def toFrame (messageType : String) (payload : Fields) : Fields :=
  put "type" (.str messageType) payload

def validatedFrame (messageType : String) (payload : Fields) : Fields :=
  put "type" (.str messageType)
    (if messageType ∈ native then put "seq" (.int 1) payload
    else merge (put "id" (.str "placeholder") placeholders)
      (drop (placeholders.map Prod.fst) payload))

/-- `validate/2`, without what it says about an invalid payload. -/
def validate (messageType : String) (payload : Fields) : Bool :=
  (if messageType ∈ native then nativeFrame messageType else messageFrame).valid
    (.obj (validatedFrame messageType payload))

variable {type : String} {frame payload : Fields}

section
variable (hnative : type ∉ native)
  (hbody : ∀ field ∈ payload, field.1 ∉ "id" :: envelope)
  (h : validate type payload = true)
include hnative

theorem lookup_fromFrame (h : fromFrame type frame false = some payload) {name : String}
    (hname : name ∈ "id" :: envelope) : payload.lookup name = none := by
  obtain ⟨-, heq⟩ := Option.ite_none_left_eq_some.mp h
  cases heq
  rw [bodyOf, if_neg hnative, if_neg Bool.false_ne_true, lookup_delete, lookup_drop]
  rcases List.mem_cons.mp hname with rfl | hmem
  · exact if_pos rfl
  · rw [if_pos hmem, ite_self]

include h

end

end Converger.MessagePayload
