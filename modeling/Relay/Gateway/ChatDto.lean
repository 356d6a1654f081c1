import Relay.Chat.Service

/-!
# Requests to send a message

What the gateway checks of a request to send or to schedule a message, and the request it then makes to the
chat service. The fields are those the validation pipe has converted; the identifiers in them are valid by
their types. The texts of the failed constraints and what the gateway does with the answer are left out.
-/

namespace Relay.Gateway.ChatDto

open Relay.Lib Relay.Chat

/-! ## The validator -/

/-- Asks for the character before it as a text or as an emoji. -/
def isVariationSelector (c : Char) : Bool := c = '\uFE0E' || c = '\uFE0F'

/-- How the validator measures a text: by its characters, but the variation selectors need not count. -/
structure TextLength where
  measure : Text → Nat
  plain : ∀ t : Text, t.any isVariationSelector = false → measure t = t.length

/-- A number as JavaScript reads it. -/
inductive JsNumber where
  | int (n : Int)
  | other
deriving DecidableEq

/-- `IsOptional`, `IsString` and `MaxLength`. -/
def maxLength (length : TextLength) (max : Nat) (t : Option Text) : Bool :=
  t.all fun t => length.measure t ≤ max

/-- `IsString`, `IsNotEmpty` and `MaxLength`. -/
def requiredText (length : TextLength) (max : Nat) (t : Option Text) : Bool :=
  t.any fun t => t ≠ [] ∧ length.measure t ≤ max

/-- `IsOptional`, `IsInt` and `Min`. -/
def minInt (min : Int) : Option JsNumber → Bool
  | none => true
  | some (.int n) => min ≤ n
  | some .other => false

/-- `IsOptional` and `IsEnum(MessageType)`. -/
def isMessageType (t : Option Text) : Bool := t.all fun t => (MessageType.ofText t).isSome

/-- The fields that fail their checks. -/
def failed (checks : List (String × Bool)) : List String :=
  (checks.filter fun check => !check.2).map Prod.fst

/-! ## The requests -/

structure SendMessageDto where
  body : Option Text
  type : Option Text
  replyToMessageId : Option MessageId
  attachmentUrl : Option Text
  attachmentMime : Option Text
  attachmentName : Option Text
  attachmentSize : Option JsNumber
  mentionUserIds : Option (List UserId)
  linkPreview : Option LinkPreview
deriving DecidableEq

/-- `ValidateIf((dto) => !dto.attachmentUrl)`. -/
def SendMessageDto.validatesBody (dto : SendMessageDto) : Bool := orNull dto.attachmentUrl = none

def SendMessageDto.checks (length : TextLength) (dto : SendMessageDto) : List (String × Bool) :=
  [("body", !dto.validatesBody || requiredText length 4000 dto.body),
    ("type", isMessageType dto.type),
    ("attachmentUrl", maxLength length 1000 dto.attachmentUrl),
    ("attachmentMime", maxLength length 120 dto.attachmentMime),
    ("attachmentName", maxLength length 255 dto.attachmentName),
    ("attachmentSize", minInt 1 dto.attachmentSize)]

structure ScheduleMessageDto extends SendMessageDto where
  /-- `scheduledFor` is a text in the format of a date. -/
  isDateString : Bool
  /-- `new Date(scheduledFor)`; nothing when the text is no date. -/
  scheduledFor : Option Time
deriving DecidableEq

def ScheduleMessageDto.checks (length : TextLength) (dto : ScheduleMessageDto) : List (String × Bool) :=
  dto.toSendMessageDto.checks length ++ [("scheduledFor", dto.isDateString)]

def JsNumber.toNat : JsNumber → Nat
  | .int n => n.toNat
  | .other => 0

def SendMessageDto.payload (dto : SendMessageDto) (actorId : UserId) (conversationId : ConversationId) :
    SendMessage where
  actorId := actorId
  conversationId := conversationId
  body := dto.body
  type := dto.type
  replyToMessageId := dto.replyToMessageId
  attachmentUrl := dto.attachmentUrl
  attachmentMime := dto.attachmentMime
  attachmentName := dto.attachmentName
  attachmentSize := dto.attachmentSize.map JsNumber.toNat
  mentionUserIds := dto.mentionUserIds
  linkPreview := dto.linkPreview
  systemCall := false

def ScheduleMessageDto.payload (dto : ScheduleMessageDto) (actorId : UserId)
    (conversationId : ConversationId) : ScheduleMessage where
  actorId := actorId
  conversationId := conversationId
  body := dto.body
  type := dto.type
  replyToMessageId := dto.replyToMessageId
  attachmentUrl := dto.attachmentUrl
  attachmentMime := dto.attachmentMime
  attachmentName := dto.attachmentName
  attachmentSize := dto.attachmentSize.map JsNumber.toNat
  mentionUserIds := dto.mentionUserIds
  linkPreview := dto.linkPreview
  scheduledFor := dto.scheduledFor

/-! ## The endpoints -/

inductive Exception where
  /-- "The request was well-formed but failed validation", with the fields that did. -/
  | validation (fields : List String)
  | badRequest (message : String)
  | chat (failure : Failure)
deriving DecidableEq

/-- A request that passes its checks and is none for a line of the call history goes to the chat service. -/
def serve {α : Type} (checks : List (String × Bool)) (type : Option Text) (refusal : String)
    (p : Chat.M α) (db : Db) : Except Exception α × Db :=
  if failed checks ≠ [] then (.error (.validation (failed checks)), db)
  else if type = some "call".toList then (.error (.badRequest refusal), db)
  else ((Prog.run Chat.exec p db).1.mapError .chat, (Prog.run Chat.exec p db).2)

def sendMessage (length : TextLength) (u : UserId) (v : ConversationId) (dto : SendMessageDto) :
    Db → Except Exception SendMessageResult × Db :=
  serve (dto.checks length) dto.type "Call history messages are system-generated only"
    (Chat.sendMessage (dto.payload u v))

def scheduleMessage (length : TextLength) (u : UserId) (v : ConversationId) (dto : ScheduleMessageDto) :
    Db → Except Exception ScheduledMessageView × Db :=
  serve (dto.checks length) dto.type "Call history messages cannot be scheduled"
    (Chat.scheduleMessage (dto.payload u v))

end Relay.Gateway.ChatDto
