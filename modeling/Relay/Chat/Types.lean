import Relay.Lib.Js
import Relay.Common.Ids
import Relay.Common.Rpc

/-!
# The data of the chat service

Rows as the tables keep them, the payloads of the requests and the views of the answers. A time in a
row has the resolution of the database; JavaScript sees `jsDate` of it.
-/

namespace Relay.Chat

inductive ConversationType where
  | priv | group
deriving DecidableEq, Repr

inductive ConversationMemberRole where
  | owner | admin | member
deriving DecidableEq, Repr

inductive MessageType where
  | text | image | file | audio | call
deriving DecidableEq, Repr

inductive PresenceStatus where
  | online | offline
deriving DecidableEq, Repr

def MessageType.all : List (Text × MessageType) :=
  [("text".toList, .text), ("image".toList, .image), ("file".toList, .file),
    ("audio".toList, .audio), ("call".toList, .call)]

/-- `Object.values(MessageType).includes(type)`, with the value found. -/
def MessageType.ofText (t : Text) : Option MessageType := MessageType.all.lookup t

def ALLOWED_REACTIONS : List Text :=
  ["👍".toList, "❤️".toList, "😂".toList, "😮".toList, "😢".toList, "🙏".toList]

/-! ## Rows -/

structure Conversation where
  id : ConversationId
  type : ConversationType
  name : Option Text
  createdBy : UserId
  pairKey : Option Text
  lastMessageAt : Option Time
  /-- 0 is off; otherwise new messages expire after this many seconds. -/
  disappearingDurationSeconds : Nat
  createdAt : Time
  updatedAt : Time
  deletedAt : Option Time
deriving DecidableEq

structure ConversationMember where
  id : Nat
  conversationId : ConversationId
  userId : UserId
  role : ConversationMemberRole
  joinedAt : Time
  lastReadAt : Option Time
  mutedAt : Option Time
  pinnedAt : Option Time
  leftAt : Option Time
deriving DecidableEq

structure LinkPreview where
  url : Text
  title : Text
  description : Text
  image : Option Text
deriving DecidableEq

structure Message where
  id : MessageId
  conversationId : ConversationId
  senderId : UserId
  body : Text
  type : MessageType
  replyToMessageId : Option MessageId
  deletedForEveryoneAt : Option Time
  editedAt : Option Time
  pinnedAt : Option Time
  pinnedByUserId : Option UserId
  attachmentUrl : Option Text
  attachmentMime : Option Text
  attachmentName : Option Text
  attachmentSize : Option Nat
  forwardedFromMessageId : Option MessageId
  mentions : List UserId
  linkPreview : Option LinkPreview
  expiresAt : Option Time
  /-- True when the sender blocked the peer: visible to the sender only, never delivered. -/
  undelivered : Bool
  createdAt : Time
deriving DecidableEq

structure MessageHide where
  id : Nat
  messageId : MessageId
  userId : UserId
  createdAt : Time
deriving DecidableEq

structure MessageReaction where
  id : Nat
  messageId : MessageId
  userId : UserId
  emoji : Text
  createdAt : Time
deriving DecidableEq

inductive ScheduledMessageStatus where
  | pending | sending | sent | cancelled | failed
deriving DecidableEq, Repr

structure ScheduledMessage where
  id : Nat
  conversationId : ConversationId
  senderId : UserId
  body : Text
  type : MessageType
  replyToMessageId : Option MessageId
  attachmentUrl : Option Text
  attachmentMime : Option Text
  attachmentName : Option Text
  attachmentSize : Option Nat
  mentions : List UserId
  linkPreview : Option LinkPreview
  scheduledFor : Time
  status : ScheduledMessageStatus
  sentMessageId : Option MessageId
  error : Option Text
  cancelledAt : Option Time
  createdAt : Time
  updatedAt : Time
deriving DecidableEq

structure UserBlock where
  id : Nat
  blockerId : UserId
  blockedId : UserId
  createdAt : Time
deriving DecidableEq

/-- The `meta` of an audit event: what the service records, or what a client of `logAudit` sends. -/
inductive AuditMeta where
  | none
  | sent (messageId : MessageId) (type : MessageType) (undelivered : Bool)
  | scheduled (scheduledMessageId : Nat) (scheduledFor : Time)
  | disappearing (durationSeconds : Nat)
  | json (text : Text)
deriving DecidableEq

structure AuditEvent where
  id : Nat
  actorId : UserId
  action : Text
  targetType : Option Text
  targetId : Option Text
  info : AuditMeta
  createdAt : Time
deriving DecidableEq

structure WorkspaceSettings where
  appName : Text
  tagline : Text
  primaryColor : Text
  logoUrl : Option Text
deriving DecidableEq

/-- A conversation loaded with `relations: { members: true }`. -/
structure ConversationWithMembers extends Conversation where
  members : List ConversationMember
deriving DecidableEq

/-! ## Payloads -/

structure SendMessage where
  actorId : UserId
  conversationId : ConversationId
  body : Option Text
  type : Option Text
  replyToMessageId : Option MessageId
  attachmentUrl : Option Text
  attachmentMime : Option Text
  attachmentName : Option Text
  attachmentSize : Option Nat
  mentionUserIds : Option (List UserId)
  linkPreview : Option LinkPreview
  systemCall : Bool
deriving DecidableEq

structure ScheduleMessage where
  actorId : UserId
  conversationId : ConversationId
  body : Option Text
  type : Option Text
  replyToMessageId : Option MessageId
  attachmentUrl : Option Text
  attachmentMime : Option Text
  attachmentName : Option Text
  attachmentSize : Option Nat
  mentionUserIds : Option (List UserId)
  linkPreview : Option LinkPreview
  /-- `new Date(scheduledFor)`; nothing when the text is no date. -/
  scheduledFor : Option Time
deriving DecidableEq

inductive MediaKindFilter where
  | all | image | file | audio
deriving DecidableEq, Repr

/-! ## Views -/

structure MessageReplyView where
  id : MessageId
  senderId : UserId
  body : Text
  type : MessageType
  deletedForEveryone : Bool
deriving DecidableEq

structure MessageReactionView where
  emoji : Text
  count : Nat
  reactedByMe : Bool
deriving DecidableEq

structure MessageAttachmentView where
  url : Text
  mime : Text
  name : Text
  size : Nat
deriving DecidableEq

structure MessageView where
  id : MessageId
  conversationId : ConversationId
  senderId : UserId
  body : Text
  type : MessageType
  replyTo : Option MessageReplyView
  attachment : Option MessageAttachmentView
  reactions : List MessageReactionView
  mentions : List UserId
  linkPreview : Option LinkPreview
  editedAt : Option Time
  pinned : Bool
  pinnedAt : Option Time
  pinnedByUserId : Option UserId
  forwarded : Bool
  deletedForEveryone : Bool
  seenBy : List UserId
  undelivered : Bool
  expiresAt : Option Time
  createdAt : Time
deriving DecidableEq

structure SendMessageResult where
  view : MessageView
  recipientIds : List UserId
deriving DecidableEq

structure DeleteMessageResult where
  message : MessageView
  forEveryone : Bool
  recipientIds : List UserId
  removedAttachmentUrl : Option Text
deriving DecidableEq

structure ConversationMemberView where
  userId : UserId
  role : ConversationMemberRole
  joinedAt : Time
  lastReadAt : Option Time
  muted : Bool
  status : PresenceStatus
  lastSeenAt : Option Time
deriving DecidableEq

structure ConversationView where
  id : ConversationId
  type : ConversationType
  name : Option Text
  createdBy : UserId
  lastMessageAt : Option Time
  lastMessage : Option MessageView
  lastReadAt : Option Time
  muted : Bool
  pinned : Bool
  disappearingDurationSeconds : Nat
  blockedByMe : Bool
  blockedMe : Bool
  unreadCount : Nat
  members : List ConversationMemberView
  createdAt : Time
  updatedAt : Time
deriving DecidableEq

structure GlobalSearchConversationView where
  id : ConversationId
  type : ConversationType
  name : Option Text
  members : List UserId
deriving DecidableEq

structure GlobalSearchHitView where
  message : MessageView
  conversation : GlobalSearchConversationView
deriving DecidableEq

structure ScheduledMessageView where
  id : Nat
  conversationId : ConversationId
  senderId : UserId
  body : Text
  type : MessageType
  replyToMessageId : Option MessageId
  attachment : Option MessageAttachmentView
  mentions : List UserId
  linkPreview : Option LinkPreview
  scheduledFor : Time
  status : ScheduledMessageStatus
  sentMessageId : Option MessageId
  error : Option Text
  createdAt : Time
deriving DecidableEq

structure SeenResultView where
  conversationId : ConversationId
  userId : UserId
  lastReadAt : Time
  messageId : Option MessageId
  recipientIds : List UserId
deriving DecidableEq

structure BlockView where
  userId : UserId
  createdAt : Time
deriving DecidableEq

structure PrepareVoiceCallResult where
  conversationId : ConversationId
  kind : ConversationType
  peerIds : List UserId
  memberIds : List UserId
deriving DecidableEq

structure DeleteGroupResult where
  deleted : Bool
  recipientIds : List UserId
deriving DecidableEq

structure TopConversation where
  conversationId : ConversationId
  name : Option Text
  type : ConversationType
  messageCount : Nat
deriving DecidableEq

/-- Days are numbered; the texts `YYYY-MM-DD` stand for them one to one. -/
structure ChatAnalyticsView where
  totalConversations : Nat
  totalMessages : Nat
  messagesToday : Nat
  messagesThisWeek : Nat
  activeConversationsToday : Nat
  messagesByDay : List (Int × Nat)
  topConversations : List TopConversation
deriving DecidableEq

structure AuditEventView where
  id : Nat
  actorId : UserId
  action : Text
  targetType : Option Text
  targetId : Option Text
  info : AuditMeta
  createdAt : Time
deriving DecidableEq

structure WorkspaceSettingsView where
  appName : Text
  tagline : Text
  primaryColor : Text
  logoUrl : Option Text
deriving DecidableEq

end Relay.Chat
