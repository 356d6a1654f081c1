import Relay.Lib.Requests
import Relay.Chat.System

/-!
# Attachments at the gateway

The gateway passes the requests about messages to the chat service and looks at what it returns: when a
message was deleted for everyone or has expired, and had an attachment, the gateway deletes the object
from its storage. A program here is such a handler; its calls are the repository calls of the chat service
and the deletions in the storage. The caches, broadcasts and notifications of the handlers are left out.
-/

namespace Relay.Gateway.Attachments

open Relay.Lib Relay.Chat

/-- `deleteByUrl` carries the message it is made for, which the storage does not see. -/
inductive Call where
  | chat (c : Chat.Call)
  | deleteByUrl (url : Text) (m : MessageId)
deriving DecidableEq

@[reducible] def Call.Answer : Call → Type
  | .chat c => c.Answer
  | .deleteByUrl _ _ => Unit

abbrev M (α : Type) := Prog Call Call.Answer Failure α

/-- The storage reports no failure, and its objects are not modelled. -/
def exec : (c : Call) → Db → Except Failure c.Answer × Db
  | .chat c, db => Chat.exec c db
  | .deleteByUrl _ _, db => (.ok (), db)

/-- `proxy.sendChat`. -/
def sendChat {α : Type} : Chat.M α → M α
  | .ret a => .ret a
  | .fail e => .fail e
  | .call c k => .call (.chat c) fun r => sendChat (k r)

/-- `if (result.removedAttachmentUrl) await storage.deleteByUrl(result.removedAttachmentUrl)`. -/
def removeAttachment (result : DeleteMessageResult) : M Unit :=
  match orNull result.removedAttachmentUrl with
  | none => return ()
  | some url => Prog.perform (Call.deleteByUrl url result.message.id)

def removeAttachments : List DeleteMessageResult → M Unit
  | [] => return ()
  | result :: results => do
    removeAttachment result
    removeAttachments results

/-- `ChatController.deleteMessage`. -/
def deleteMessage (c : ConversationId) (m : MessageId) (actorId : UserId) (forEveryone : Bool) :
    M MessageView := do
  let result ← sendChat (Chat.deleteMessage c m actorId forEveryone)
  if result.forEveryone then removeAttachment result
  return result.message

/-- `DisappearingMessageDispatcher.tick`; a failure is logged. -/
def disappearingTick : M Unit := do
  let _ ← (do
    let expired ← sendChat Chat.expireDueMessages
    removeAttachments expired : M Unit).attempt

/-- `ScheduledMessageDispatcher.tick`; a failure is logged. -/
def scheduledTick : M Unit := do
  let _ ← (sendChat Chat.dispatchDueScheduled).attempt

inductive Request where
  | sendMessage (payload : SendMessage)
  | forwardMessage (actorId : UserId) (source target : ConversationId) (m : MessageId)
  | scheduleMessage (payload : ScheduleMessage)
  | scheduledTick
  | deleteMessage (c : ConversationId) (m : MessageId) (actorId : UserId) (forEveryone : Bool)
  | disappearingTick

/-- The response to the client; a tick has none. -/
def Request.program : Request → M (Option Response)
  | .sendMessage payload => (some ∘ .sent) <$> sendChat (Chat.sendMessage payload)
  | .forwardMessage a source target m =>
    (some ∘ .sent) <$> sendChat (Chat.forwardMessage a source target m)
  | .scheduleMessage payload => (some ∘ .scheduled) <$> sendChat (Chat.scheduleMessage payload)
  | .scheduledTick => (fun _ => none) <$> Attachments.scheduledTick
  | .deleteMessage c m a forEveryone =>
    (some ∘ .message) <$> Attachments.deleteMessage c m a forEveryone
  | .disappearingTick => (fun _ => none) <$> Attachments.disappearingTick

end Relay.Gateway.Attachments
