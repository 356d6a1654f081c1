import Relay.Chat.Db

/-!
# Pure parts of the chat service

Views of rows and the small helpers of the service. A view shows a time as JavaScript has it.
-/

namespace Relay.Chat

open Relay.Lib

/-- A text or nothing, `text || null`. -/
def orNull (t : Option Text) : Option Text := t.filter fun t => t ≠ []

/-- `text?.trim() || null`. -/
def trimmed (t : Option Text) : Option Text := orNull (t.map Js.trim)

/-- `[userA, userB].sort().join(':')`. -/
def privatePairKey (userA userB : UserId) : Text :=
  if userB.text < userA.text then userB.text ++ ':' :: userA.text
  else userA.text ++ ':' :: userB.text

def escapeIlikePattern (value : Text) : Text :=
  value.flatMap fun c => if c = '\\' ∨ c = '%' ∨ c = '_' then ['\\', c] else [c]

/-- The pattern of the searches. -/
def searchPattern (query : Text) : Text := '%' :: escapeIlikePattern query ++ ['%']

def MessageType.toText : MessageType → Text
  | .text => "text".toList
  | .image => "image".toList
  | .file => "file".toList
  | .audio => "audio".toList
  | .call => "call".toList

def Failure.message : Failure → String
  | .rpc e => e.message
  | .query (.uniqueViolation constraint) =>
    "duplicate key value violates unique constraint " ++ constraint
  | .query (.notNullViolation column) =>
    "null value in column " ++ column ++ " violates not-null constraint"
  | .query (.driver message) => message

/-! ## Members -/

def activeMembers (members : List ConversationMember) : List ConversationMember :=
  members.filter fun member => member.leftAt = none

/-- `members.find((member) => member.userId === userId && !member.leftAt)`. -/
def findActive (members : List ConversationMember) (userId : UserId) : Option ConversationMember :=
  members.find? fun member => member.userId = userId ∧ member.leftAt = none

/-- `members.find((member) => member.userId !== actorId && !member.leftAt)`. -/
def findOther (members : List ConversationMember) (actorId : UserId) : Option ConversationMember :=
  members.find? fun member => member.userId ≠ actorId ∧ member.leftAt = none

def recipientIds (conversation : ConversationWithMembers) : List UserId :=
  (activeMembers conversation.members).map ConversationMember.userId

/-! ## Messages -/

def startsWith (pre : String) (t : Option Text) : Bool :=
  t.any fun t => pre.toList.isPrefixOf t

def buildReactionViews (reactions : List MessageReaction) (actorId : UserId) :
    List MessageReactionView :=
  (reactions.map MessageReaction.emoji).eraseDups.map fun emoji =>
    let mine := reactions.filter fun r => r.emoji = emoji
    { emoji
      count := mine.length
      reactedByMe := mine.any fun r => r.userId = actorId }

/-- The text of a reply preview. -/
def replyBody (replyTo : Message) : Text :=
  if replyTo.deletedForEveryoneAt ≠ none then []
  else if Js.trim replyTo.body ≠ [] then Js.trim replyTo.body
  else if startsWith "image/" replyTo.attachmentMime ∨ replyTo.type = .image then "Photo".toList
  else if startsWith "audio/" replyTo.attachmentMime ∨ replyTo.type = .audio then
    "Voice message".toList
  else if replyTo.type = .file ∨ orNull replyTo.attachmentUrl ≠ none then
    (trimmed replyTo.attachmentName).getD "File".toList
  else if replyTo.type = .call then "Call".toList
  else []

def toReplyView (replyTo : Message) : MessageReplyView where
  id := replyTo.id
  senderId := replyTo.senderId
  body := replyBody replyTo
  type := replyTo.type
  deletedForEveryone := replyTo.deletedForEveryoneAt != none

/-- The attachment of a message that has one, or of a scheduled message. -/
def toAttachmentView (url mime name : Option Text) (size : Option Nat) :
    Option MessageAttachmentView :=
  (orNull url).map fun url => ⟨url, mime.getD [], name.getD [], size.getD 0⟩

/-- The other active members who have read the message. -/
def seenBy (message : Message) (members : List ConversationMember) : List UserId :=
  if message.undelivered then []
  else
    (members.filter fun member =>
      member.leftAt = none ∧ member.userId ≠ message.senderId ∧
        member.lastReadAt.any fun t => jsDate message.createdAt ≤ jsDate t).map
      ConversationMember.userId

def toMessageView (message : Message) (members : List ConversationMember)
    (replyTo : Option Message) (reactions : List MessageReaction) (actorId : UserId) :
    MessageView :=
  let deletedForEveryone := message.deletedForEveryoneAt != none
  { id := message.id
    conversationId := message.conversationId
    senderId := message.senderId
    body := if deletedForEveryone then [] else message.body
    type := message.type
    replyTo := replyTo.map toReplyView
    attachment :=
      if deletedForEveryone then none
      else
        toAttachmentView message.attachmentUrl message.attachmentMime message.attachmentName
          message.attachmentSize
    reactions := if deletedForEveryone then [] else buildReactionViews reactions actorId
    mentions := if deletedForEveryone then [] else message.mentions
    linkPreview := if deletedForEveryone then none else message.linkPreview
    editedAt := message.editedAt.map jsDate
    pinned := message.pinnedAt != none && !deletedForEveryone
    pinnedAt := if deletedForEveryone then none else message.pinnedAt.map jsDate
    pinnedByUserId :=
      if deletedForEveryone ∨ message.pinnedAt = none then none else message.pinnedByUserId
    forwarded := message.forwardedFromMessageId != none
    deletedForEveryone
    seenBy := seenBy message members
    undelivered := message.undelivered
    expiresAt := if deletedForEveryone then none else message.expiresAt.map jsDate
    createdAt := jsDate message.createdAt }

/-- The rows of `loadReplyParents`, looked up by the id a message replies to. -/
def replyOf (parents : List Message) (message : Message) : Option Message :=
  message.replyToMessageId.bind fun id => parents.find? fun parent => parent.id = id

/-- The rows of `loadReactionsByMessageIds` of one message. -/
def reactionsOf (reactions : List MessageReaction) (messageId : MessageId) :
    List MessageReaction :=
  reactions.filter fun r => r.messageId = messageId

/-! ## Conversations and the other views -/

structure BlockFlags where
  blockedByMe : Bool
  blockedMe : Bool
deriving DecidableEq

def BlockFlags.none : BlockFlags := ⟨false, false⟩

def toConversationView (conversation : ConversationWithMembers) (actorId : UserId)
    (unreadCount : Nat) (lastMessage : Option Message) (blockFlags : BlockFlags) :
    ConversationView :=
  let active := activeMembers conversation.members
  let actor := active.find? fun member => member.userId = actorId
  { id := conversation.id
    type := conversation.type
    name := conversation.name
    createdBy := conversation.createdBy
    lastMessageAt := conversation.lastMessageAt.map jsDate
    lastMessage := lastMessage.map fun m => toMessageView m active none [] actorId
    lastReadAt := (actor.bind ConversationMember.lastReadAt).map jsDate
    muted := actor.any fun member => member.mutedAt ≠ none
    pinned := actor.any fun member => member.pinnedAt ≠ none
    disappearingDurationSeconds := conversation.disappearingDurationSeconds
    blockedByMe := blockFlags.blockedByMe
    blockedMe := blockFlags.blockedMe
    unreadCount
    members := active.map fun member =>
      { userId := member.userId
        role := member.role
        joinedAt := jsDate member.joinedAt
        lastReadAt := member.lastReadAt.map jsDate
        muted := member.mutedAt != none
        status := .offline
        lastSeenAt := none }
    createdAt := jsDate conversation.createdAt
    updatedAt := jsDate conversation.updatedAt }

def toScheduledMessageView (item : ScheduledMessage) : ScheduledMessageView where
  id := item.id
  conversationId := item.conversationId
  senderId := item.senderId
  body := item.body
  type := item.type
  replyToMessageId := item.replyToMessageId
  attachment :=
    toAttachmentView item.attachmentUrl item.attachmentMime item.attachmentName item.attachmentSize
  mentions := item.mentions
  linkPreview := item.linkPreview
  scheduledFor := jsDate item.scheduledFor
  status := item.status
  sentMessageId := item.sentMessageId
  error := item.error
  createdAt := jsDate item.createdAt

def toBlockView (block : UserBlock) : BlockView := ⟨block.blockedId, jsDate block.createdAt⟩

def toAuditView (item : AuditEvent) : AuditEventView where
  id := item.id
  actorId := item.actorId
  action := item.action
  targetType := item.targetType
  targetId := item.targetId
  info := item.info
  createdAt := jsDate item.createdAt

def toWorkspaceView (item : WorkspaceSettings) : WorkspaceSettingsView :=
  ⟨item.appName, item.tagline, item.primaryColor, item.logoUrl⟩

/-- Pinned conversations first, then by last activity, newest first. -/
def sortConversations (pinned : ConversationId → Bool) (items : List ConversationWithMembers) :
    List ConversationWithMembers :=
  let time (c : ConversationWithMembers) : Time := jsDate (c.lastMessageAt.getD c.createdAt)
  items.insertionSort fun a b =>
    (pinned a.id = true ∧ pinned b.id = false) ∨
      (pinned a.id = pinned b.id ∧ time b ≤ time a)

/-! ## The content of a new message -/

/-- `video/webm` is what browsers call a recorded voice note. -/
def attachmentMimeOf (mime type : Option Text) : Option Text :=
  let raw := trimmed mime
  if raw = some "video/webm".toList ∧ type = some "audio".toList then some "audio/webm".toList
  else raw

/-- The type of a message by its attachment; without one, the type of the request. -/
def attachmentType (attachmentUrl attachmentMime type : Option Text) (requested : MessageType) :
    MessageType :=
  if attachmentUrl = none then requested
  else if startsWith "image/" attachmentMime then .image
  else if startsWith "audio/" attachmentMime ∨ type = some "audio".toList ∨
      attachmentMime = some "video/webm".toList then .audio
  else .file

/-- The body, or a placeholder for an attachment. -/
def bodyOf (rawBody : Text) (type : MessageType) : Text :=
  if rawBody ≠ [] then rawBody
  else match type with
    | .image => "[Image]".toList
    | .audio => "[Voice note]".toList
    | .file => "[File]".toList
    | .text | .call => []

/-- The mentions of a request, without doubles, empty ids and the actor. -/
def mentionIds (mentions : Option (List UserId)) (actorId : UserId) : List UserId :=
  ((mentions.getD []).filter fun u => u.text ≠ []).eraseDups.filter fun u => u ≠ actorId

/-- The mentions that are active members. -/
def validMentions (mentions : Option (List UserId)) (actorId : UserId)
    (members : List ConversationMember) : List UserId :=
  (mentionIds mentions actorId).filter fun u =>
    u ∈ (activeMembers members).map ConversationMember.userId

/-- When a message sent at `now` into the conversation disappears. -/
def expiryAt (conversation : ConversationWithMembers) (now : Time) : Option Time :=
  if 0 < conversation.disappearingDurationSeconds then
    some (now + ms (conversation.disappearingDurationSeconds * 1000))
  else none

end Relay.Chat
