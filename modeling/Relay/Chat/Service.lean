import Relay.Chat.View

/-!
# The chat service

The operations of the service, each the sequence of its repository calls with the pure parts of
`Chat.View` between them. Repository calls that the source starts together (`Promise.all`) are made
one after the other, in the order they are written.
-/

namespace Relay.Chat

open Relay.Lib

/-! ## Building blocks -/

abbrev perform (c : Call) : M c.Answer := Prog.perform c

def reject {α : Type} (e : RpcError) : M α := .fail (.rpc e)

/-- `if (condition) return RpcErrors…`. -/
def rejectIf (condition : Prop) [Decidable condition] (e : RpcError) : M Unit :=
  if condition then reject e else return ()

/-- A value that has to be there. -/
def require {α : Type} (a : Option α) (e : RpcError) : M α :=
  match a with
  | none => reject e
  | some a => return a

/-- A loop that collects what some of its rounds return. -/
def collect {α β : Type} (f : α → M (Option β)) : List α → M (List β)
  | [] => return []
  | a :: as => do
    let b ← f a
    let bs ← collect f as
    return b.toList ++ bs

def recordAudit (actorId : UserId) (action : String) (targetType targetId : Option Text)
    (info : AuditMeta) : M Unit := do
  let _ ← perform (.insertAudit actorId action.toList targetType targetId info)

/-- The text of a conversation id. -/
def idText (id : Nat) : Text := (toString id).toList

/-! ## Private methods -/

def requireMembership (conversationId : ConversationId) (actorId : UserId) :
    M ConversationWithMembers := do
  let found ← perform (.findConversation conversationId)
  let conversation ← require found (RpcErrors.notFound "Conversation")
  let _ ← require (findActive conversation.members actorId)
    (RpcErrors.forbidden "You are not a member of this conversation")
  return { conversation with members := activeMembers conversation.members }

def isGroupAdmin (role : ConversationMemberRole) : Bool := role = .owner || role = .admin

def assertGroupAdmin (conversation : ConversationWithMembers) (actorId : UserId) : M Unit := do
  rejectIf (conversation.type ≠ .group)
    (RpcErrors.badRequest "Only group conversations support this action")
  let membership := conversation.members.find? fun member => member.userId = actorId
  rejectIf (membership.any (fun member => isGroupAdmin member.role) = false)
    (RpcErrors.forbidden "Only group owners or admins can manage members")

def hasBlock (blockerId blockedId : UserId) : M Bool := do
  let count ← perform (.countBlocks blockerId blockedId)
  return decide (0 < count)

def isBlockedEitherWay (userA userB : UserId) : M Bool := do
  let count ← perform (.countBlocksEitherWay userA userB)
  return decide (0 < count)

structure Delivery where
  forbidden : Bool
  undelivered : Bool
  recipientIds : List UserId
deriving DecidableEq

/-- Delivery to all active members. -/
def openDelivery (conversation : ConversationWithMembers) : Delivery :=
  ⟨false, false, recipientIds conversation⟩

def resolvePrivateDelivery (conversation : ConversationWithMembers) (actorId : UserId) :
    M Delivery :=
  if conversation.type ≠ .priv then return openDelivery conversation
  else
    match findOther conversation.members actorId with
    | none => return openDelivery conversation
    | some other => do
      let blockedByMe ← hasBlock actorId other.userId
      let blockedMe ← hasBlock other.userId actorId
      return if blockedMe then ⟨true, false, []⟩
        else if blockedByMe then ⟨false, true, [actorId]⟩
        else openDelivery conversation

def blockFlagsForConversation (conversation : ConversationWithMembers) (actorId : UserId) :
    M BlockFlags :=
  if conversation.type ≠ .priv then return BlockFlags.none
  else
    match findOther conversation.members actorId with
    | none => return BlockFlags.none
    | some other => do
      let blockedByMe ← hasBlock actorId other.userId
      let blockedMe ← hasBlock other.userId actorId
      return ⟨blockedByMe, blockedMe⟩

/-- The private conversations with their other party. -/
def privatePeers (conversations : List ConversationWithMembers) (actorId : UserId) :
    List (ConversationId × UserId) :=
  (conversations.filter fun c => c.type = .priv).filterMap fun c =>
    (findOther c.members actorId).map fun other => (c.id, other.userId)

def blockFlagsForConversations (conversations : List ConversationWithMembers)
    (actorId : UserId) : M (List (ConversationId × BlockFlags)) :=
  let peers := privatePeers conversations actorId
  let map := conversations.map fun item => (item.id, BlockFlags.none)
  if peers = [] then return map
  else do
    let blocks ← perform (.findPeerBlocks actorId (peers.map Prod.snd).eraseDups)
    let blockedByMe := (blocks.filter fun b => b.blockerId = actorId).map UserBlock.blockedId
    let blockedMe := (blocks.filter fun b => b.blockedId = actorId).map UserBlock.blockerId
    -- the entry that was set last for a key is looked up first
    return (peers.map fun peer =>
      (peer.1, BlockFlags.mk (peer.2 ∈ blockedByMe) (peer.2 ∈ blockedMe))).reverse ++ map

def loadReplyParents (messages : List Message) : M (List Message) :=
  let ids := (messages.filterMap Message.replyToMessageId).eraseDups
  if ids = [] then return [] else perform (.findMessagesByIds ids)

def loadReactionsByMessageIds (messageIds : List MessageId) : M (List MessageReaction) :=
  if messageIds = [] then return [] else perform (.findReactions messageIds)

/-- The views of a listing. -/
def viewItems (items : List Message) (members : Message → List ConversationMember)
    (actorId : UserId) : M (List MessageView) := do
  let replyMap ← loadReplyParents items
  let reactionsByMessage ← loadReactionsByMessageIds (items.map Message.id)
  return items.map fun item =>
    toMessageView item (members item) (replyOf replyMap item) (reactionsOf reactionsByMessage item.id)
      actorId

/-- The message a reply points to, loaded by its id alone. -/
def loadReplyTo (message : Message) : M (Option Message) :=
  match message.replyToMessageId with
  | none => return none
  | some id => perform (.findMessageById id)

/-- The view of one message that an operation returns. -/
def viewOne (message : Message) (conversation : ConversationWithMembers) (actorId : UserId) :
    M MessageView := do
  let replyTo ← loadReplyTo message
  let reactions ← perform (.findReactions [message.id])
  return toMessageView message conversation.members replyTo reactions actorId

def unreadCounts (actorId : UserId) (conversationIds : List ConversationId) :
    M (List (ConversationId × Nat)) :=
  if conversationIds = [] then return [] else perform (.unreadRows actorId conversationIds)

def unreadCountFor (actorId : UserId) (conversationId : ConversationId) : M Nat := do
  let counts ← unreadCounts actorId [conversationId]
  return (counts.lookup conversationId).getD 0

def latestMessagesByConversation (conversationIds : List ConversationId) (actorId : UserId) :
    M (List Message) :=
  if conversationIds = [] then return [] else perform (.latestRows actorId conversationIds)

/-! ## Conversations -/

def MAX_GROUP_MEMBERS : Nat := 50

/-- The view of a conversation the actor has just loaded. -/
def viewConversation (conversation : ConversationWithMembers) (actorId : UserId) :
    M ConversationView := do
  let unread ← unreadCountFor actorId conversation.id
  let flags ← blockFlagsForConversation conversation actorId
  return toConversationView conversation actorId unread none flags

def createPrivate (actorId otherUserId : UserId) : M ConversationView := do
  rejectIf (actorId = otherUserId)
    (RpcErrors.badRequest "You cannot start a private chat with yourself")
  let pairKey := privatePairKey actorId otherUserId
  let existing ← perform (.findPrivateByPairKey pairKey)
  match existing with
  | some existing => viewConversation existing actorId
  | none => do
    -- Only the blocked party is barred from starting a new private chat.
    let blocked ← hasBlock otherUserId actorId
    rejectIf (blocked = true) (RpcErrors.forbidden "You cannot start a chat with this user")
    let saved ← perform (.createPrivateTx actorId otherUserId pairKey)
    let flags ← blockFlagsForConversation saved actorId
    return toConversationView saved actorId 0 none flags

def createGroup (actorId : UserId) (name : Text) (memberIds : List UserId) :
    M ConversationView := do
  let name := Js.trim name
  rejectIf (name = []) (RpcErrors.badRequest "Group name is required")
  let uniqueMemberIds := (memberIds.filter fun id => id ≠ actorId).eraseDups
  rejectIf (uniqueMemberIds.length < 1)
    (RpcErrors.badRequest "A group needs at least one other member")
  rejectIf (MAX_GROUP_MEMBERS < uniqueMemberIds.length + 1)
    (RpcErrors.badRequest "A group cannot have more than 50 members")
  let saved ← perform (.createGroupTx actorId uniqueMemberIds name)
  return toConversationView saved actorId 0 none BlockFlags.none

def listConversations (actorId : UserId) (page : Page) :
    M (PaginatedResult ConversationView) := do
  let memberships ← perform (.findMemberships actorId)
  let conversationIds := memberships.map ConversationMember.conversationId
  if conversationIds = [] then return buildPaginatedResult [] 0 page
  else do
    let items ← perform (.findConversations conversationIds)
    let pinned (c : ConversationId) : Bool :=
      memberships.any fun member => member.conversationId = c ∧ member.pinnedAt ≠ none
    let sorted := sortConversations pinned items
    let pageItems := (sorted.drop page.skip).take page.take
    let ids := pageItems.map fun item => item.id
    let unread ← unreadCounts actorId ids
    let latest ← latestMessagesByConversation ids actorId
    let blockFlags ← blockFlagsForConversations pageItems actorId
    let views := pageItems.map fun item =>
      toConversationView item actorId ((unread.lookup item.id).getD 0)
        (latest.find? fun m => m.conversationId = item.id)
        ((blockFlags.lookup item.id).getD BlockFlags.none)
    return buildPaginatedResult views items.length page

def getConversation (conversationId : ConversationId) (actorId : UserId) :
    M ConversationView := do
  let conversation ← requireMembership conversationId actorId
  viewConversation conversation actorId

/-! ## Reading messages -/

def listMessages (conversationId : ConversationId) (actorId : UserId) (page : Page) :
    M (PaginatedResult MessageView) := do
  let conversation ← requireMembership conversationId actorId
  let (items, total) ←
    perform (.listMessages ⟨[conversationId], actorId, none, none, false⟩ page.skip page.take)
  let views ← viewItems items (fun _ => conversation.members) actorId
  return buildPaginatedResult views total page

def searchMessages (conversationId : ConversationId) (actorId : UserId) (query : Text)
    (page : Page) : M (PaginatedResult MessageView) := do
  let conversation ← requireMembership conversationId actorId
  let query := Js.trim query
  rejectIf (query = []) (RpcErrors.badRequest "Search query is required")
  let (items, total) ← perform
    (.listMessages ⟨[conversationId], actorId, some (searchPattern query), none, true⟩ page.skip
      page.take)
  let views ← viewItems items (fun _ => conversation.members) actorId
  return buildPaginatedResult views total page

/-- The conversation part of a search hit. -/
def hitConversation (conversations : List ConversationWithMembers) (message : MessageView) :
    GlobalSearchConversationView :=
  match conversations.find? fun c => c.id = message.conversationId with
  | none => ⟨message.conversationId, .priv, none, []⟩
  | some c => ⟨c.id, c.type, c.name, (activeMembers c.members).map ConversationMember.userId⟩

/-- The active members of the conversation a search hit is in. -/
def hitMembers (conversations : List ConversationWithMembers) (item : Message) :
    List ConversationMember :=
  match conversations.find? fun c => c.id = item.conversationId with
  | none => []
  | some c => activeMembers c.members

/-- The conversations of the hits. -/
def loadConversations (ids : List ConversationId) : M (List ConversationWithMembers) :=
  if ids = [] then return [] else perform (.findConversations ids)

def searchGlobal (actorId : UserId) (query : Text) (page : Page) :
    M (PaginatedResult GlobalSearchHitView) := do
  let query := Js.trim query
  rejectIf (query = []) (RpcErrors.badRequest "Search query is required")
  if query.length < 2 then return buildPaginatedResult [] 0 page
  else do
    let memberships ← perform (.findMemberships actorId)
    let conversationIds := memberships.map ConversationMember.conversationId
    if conversationIds = [] then return buildPaginatedResult [] 0 page
    else do
      let (items, total) ← perform
        (.listMessages ⟨conversationIds, actorId, some (searchPattern query), none, true⟩ page.skip
          page.take)
      let uniqueConversationIds := (items.map Message.conversationId).eraseDups
      let conversations ← loadConversations uniqueConversationIds
      let views ← viewItems items (hitMembers conversations) actorId
      let hits := views.map fun view =>
        (⟨view, hitConversation conversations view⟩ : GlobalSearchHitView)
      return buildPaginatedResult hits total page

def listMedia (conversationId : ConversationId) (actorId : UserId) (kind : Option MediaKindFilter)
    (page : Page) : M (PaginatedResult MessageView) := do
  let conversation ← requireMembership conversationId actorId
  let (items, total) ← perform
    (.listMessages ⟨[conversationId], actorId, none, some (kind.getD .all), true⟩ page.skip
      page.take)
  let views ← viewItems items (fun _ => conversation.members) actorId
  return buildPaginatedResult views total page

def getMessage (conversationId : ConversationId) (messageId : MessageId) (actorId : UserId) :
    M MessageView := do
  let conversation ← requireMembership conversationId actorId
  let found ← perform (.findMessage messageId conversationId)
  let message ← require found (RpcErrors.notFound "Message not found")
  let hidden ← perform (.findHide message.id actorId)
  rejectIf (hidden ≠ none) (RpcErrors.notFound "Message not found")
  let replyMap ← loadReplyParents [message]
  let reactionsByMessage ← loadReactionsByMessageIds [message.id]
  return toMessageView message conversation.members (replyOf replyMap message)
    (reactionsOf reactionsByMessage message.id) actorId

def listPinnedMessages (conversationId : ConversationId) (actorId : UserId) :
    M (List MessageView) := do
  let conversation ← requireMembership conversationId actorId
  let items ← perform (.listPinned conversationId actorId)
  viewItems items (fun _ => conversation.members) actorId

/-! ## Sending -/

/-- `conversation.lastMessageAt = saved.createdAt` and `conversations.save(conversation)`. -/
def touchConversation (conversation : ConversationWithMembers) (saved : Message) : M Unit :=
  perform (.saveConversation { conversation with lastMessageAt := some (jsDate saved.createdAt) })

/-- Call history lines are system-only (gateway records after hangup/timeout). -/
def sendCallMessage (payload : SendMessage) (rawBody : Text) : M SendMessageResult := do
  rejectIf (payload.systemCall = false)
    (RpcErrors.badRequest "Call history messages are system-generated only")
  rejectIf (rawBody = []) (RpcErrors.badRequest "Call message body is required")
  let conversation ← requireMembership payload.conversationId payload.actorId
  let saved ← perform (.insertMessage
    { conversationId := conversation.id
      senderId := payload.actorId
      body := rawBody
      type := .call })
  touchConversation conversation saved
  return ⟨toMessageView saved conversation.members none [] payload.actorId,
    recipientIds conversation⟩

/-- The target of a reply, checked. -/
def replyTarget (conversation : ConversationWithMembers) (replyToMessageId : Option MessageId) :
    M (Option Message) :=
  match replyToMessageId with
  | none => return none
  | some id => do
    let found ← perform (.findMessage id conversation.id)
    let replyTo ← require found
      (RpcErrors.badRequest "Reply target must be a message in this conversation")
    rejectIf (replyTo.deletedForEveryoneAt ≠ none)
      (RpcErrors.badRequest "Cannot reply to a message deleted for everyone")
    return some replyTo

def sendMessage (payload : SendMessage) : M SendMessageResult := do
  let attachmentUrl := trimmed payload.attachmentUrl
  let rawBody := Js.trim (payload.body.getD [])
  rejectIf (rawBody = [] ∧ attachmentUrl = none)
    (RpcErrors.badRequest "Message body or attachment is required")
  let type ← require (MessageType.ofText (payload.type.getD "text".toList))
    (RpcErrors.badRequest "Unsupported message type")
  if type = .call then sendCallMessage payload rawBody
  else do
    let attachmentMime := attachmentMimeOf payload.attachmentMime payload.type
    let type := attachmentType attachmentUrl attachmentMime payload.type type
    let conversation ← requireMembership payload.conversationId payload.actorId
    let delivery ← resolvePrivateDelivery conversation payload.actorId
    rejectIf (delivery.forbidden = true) (RpcErrors.forbidden "You cannot message this user")
    let replyTo ← replyTarget conversation payload.replyToMessageId
    let now ← perform .newDate
    let saved ← perform (.insertMessage
      { conversationId := conversation.id
        senderId := payload.actorId
        body := bodyOf rawBody type
        type
        replyToMessageId := replyTo.map Message.id
        attachmentUrl
        attachmentMime
        attachmentName := trimmed payload.attachmentName
        attachmentSize := payload.attachmentSize
        mentions := validMentions payload.mentionUserIds payload.actorId conversation.members
        linkPreview := payload.linkPreview
        undelivered := delivery.undelivered
        expiresAt := expiryAt conversation now })
    touchConversation conversation saved
    recordAudit payload.actorId "message.sent" (some "conversation".toList)
      (some (idText conversation.id)) (.sent saved.id type delivery.undelivered)
    return ⟨toMessageView saved conversation.members replyTo [] payload.actorId,
      delivery.recipientIds⟩

/-- The copy `forwardMessage` stores. -/
def forwardDraft (source : Message) (toConversation : ConversationWithMembers) (actorId : UserId)
    (undelivered : Bool) (now : Time) : MessageDraft where
  conversationId := toConversation.id
  senderId := actorId
  body := source.body
  type := source.type
  attachmentUrl := source.attachmentUrl
  attachmentMime := source.attachmentMime
  attachmentName := source.attachmentName
  attachmentSize := source.attachmentSize
  forwardedFromMessageId := some source.id
  undelivered := undelivered
  expiresAt := if source.type ≠ .call then expiryAt toConversation now else none

def forwardMessage (actorId : UserId) (fromConversationId toConversationId : ConversationId)
    (messageId : MessageId) : M SendMessageResult := do
  let fromConversation ← requireMembership fromConversationId actorId
  let toConversation ← requireMembership toConversationId actorId
  let found ← perform (.findMessage messageId fromConversation.id)
  let source ← require found (RpcErrors.notFound "Message")
  rejectIf (source.deletedForEveryoneAt ≠ none) (RpcErrors.notFound "Message")
  -- the delivery of a group is open
  let delivery ← resolvePrivateDelivery toConversation actorId
  rejectIf (delivery.forbidden = true) (RpcErrors.forbidden "You cannot message this user")
  let now ← perform .newDate
  let saved ← perform
    (.insertMessage (forwardDraft source toConversation actorId delivery.undelivered now))
  touchConversation toConversation saved
  return ⟨toMessageView saved toConversation.members none [] actorId, delivery.recipientIds⟩

/-! ## Changing a message -/

def EDIT_WINDOW_MS : Nat := 15 * 60 * 1000

def editMessage (conversationId : ConversationId) (messageId : MessageId) (actorId : UserId)
    (body : Text) : M SendMessageResult := do
  let conversation ← requireMembership conversationId actorId
  let found ← perform (.findMessage messageId conversation.id)
  let message ← require found (RpcErrors.notFound "Message")
  rejectIf (message.senderId ≠ actorId)
    (RpcErrors.forbidden "Only the sender can edit this message")
  rejectIf (message.deletedForEveryoneAt ≠ none)
    (RpcErrors.badRequest "Cannot edit a deleted message")
  let now ← perform .newDate
  rejectIf (jsDate message.createdAt + ms EDIT_WINDOW_MS < now)
    (RpcErrors.badRequest "Messages can only be edited within 15 minutes")
  let body := Js.trim body
  rejectIf (body = []) (RpcErrors.badRequest "Message body is required")
  let editedAt ← perform .newDate
  let message := { message with body, editedAt := some editedAt }
  perform (.saveMessage message)
  let view ← viewOne message conversation actorId
  return ⟨view, recipientIds conversation⟩

/-- Adds the reaction of the actor, or takes it back. -/
def toggleReaction (messageId : MessageId) (actorId : UserId) (emoji : Text) : M Unit := do
  let existing ← perform (.findReaction messageId actorId emoji)
  match existing with
  | some existing => perform (.removeReaction existing)
  | none => perform (.insertReaction messageId actorId emoji)

def reactMessage (conversationId : ConversationId) (messageId : MessageId) (actorId : UserId)
    (emoji : Text) : M SendMessageResult := do
  let conversation ← requireMembership conversationId actorId
  rejectIf (emoji ∉ ALLOWED_REACTIONS) (RpcErrors.badRequest "Unsupported reaction")
  let found ← perform (.findMessage messageId conversation.id)
  let message ← require found (RpcErrors.notFound "Message")
  rejectIf (message.deletedForEveryoneAt ≠ none)
    (RpcErrors.badRequest "Cannot react to a deleted message")
  toggleReaction message.id actorId emoji
  let view ← viewOne message conversation actorId
  return ⟨view, recipientIds conversation⟩

/-- Sets or clears the pin of a loaded message and returns the message as it is then. -/
def setPinned (message : Message) (conversationId : ConversationId) (actorId : UserId)
    (pinned : Bool) : M Message :=
  if pinned then
    if message.pinnedAt = none then do
      let currentlyPinned ← perform (.countPinned conversationId)
      rejectIf (3 ≤ currentlyPinned)
        (RpcErrors.badRequest "You can pin up to 3 messages in a chat. Unpin one first.")
      let now ← perform .newDate
      let message := { message with pinnedAt := some now, pinnedByUserId := some actorId }
      perform (.saveMessage message)
      return message
    else return message
  else
    if message.pinnedAt ≠ none then do
      let message := { message with pinnedAt := none, pinnedByUserId := none }
      perform (.saveMessage message)
      return message
    else return message

def pinMessage (conversationId : ConversationId) (messageId : MessageId) (actorId : UserId)
    (pinned : Bool) : M SendMessageResult := do
  let conversation ← requireMembership conversationId actorId
  let found ← perform (.findMessage messageId conversation.id)
  let message ← require found (RpcErrors.notFound "Message")
  rejectIf (message.deletedForEveryoneAt ≠ none)
    (RpcErrors.badRequest "Cannot pin a deleted message")
  rejectIf (message.type = .call) (RpcErrors.badRequest "Cannot pin call history messages")
  let message ← setPinned message conversation.id actorId pinned
  let view ← viewOne message conversation actorId
  return ⟨view, recipientIds conversation⟩

/-- The entity as it is deleted for everyone: the attachment and the pin are cleared, the body
stays. -/
def Message.bury (message : Message) (now : Time) : Message :=
  { message with
    deletedForEveryoneAt := some now
    attachmentUrl := none
    attachmentMime := none
    attachmentName := none
    attachmentSize := none
    pinnedAt := none
    pinnedByUserId := none }

def DELETE_FOR_EVERYONE_WINDOW_MS : Nat := 0

def deleteForEveryone (message : Message) (conversation : ConversationWithMembers)
    (actorId : UserId) : M DeleteMessageResult := do
  rejectIf (message.senderId ≠ actorId)
    (RpcErrors.forbidden "Only the sender can delete a message for everyone")
  if message.deletedForEveryoneAt ≠ none then do
    let view ← viewOne message conversation actorId
    return ⟨view, true, recipientIds conversation, none⟩
  else do
    let now ← perform .newDate
    rejectIf (0 < DELETE_FOR_EVERYONE_WINDOW_MS ∧
        jsDate message.createdAt + ms DELETE_FOR_EVERYONE_WINDOW_MS < now)
      (RpcErrors.badRequest
        "Messages can only be deleted for everyone within the allowed time window")
    let deletedAt ← perform .newDate
    perform (.saveMessage (message.bury deletedAt))
    let view ← viewOne (message.bury deletedAt) conversation actorId
    return ⟨view, true, recipientIds conversation, message.attachmentUrl⟩

/-- Hides a message for the actor. -/
def hideMessage (messageId : MessageId) (actorId : UserId) : M Unit := do
  let existingHide ← perform (.findHide messageId actorId)
  if existingHide = none then perform (.insertHide messageId actorId) else return ()

def deleteMessage (conversationId : ConversationId) (messageId : MessageId) (actorId : UserId)
    (forEveryone : Bool) : M DeleteMessageResult := do
  let conversation ← requireMembership conversationId actorId
  let found ← perform (.findMessage messageId conversation.id)
  let message ← require found (RpcErrors.notFound "Message")
  if forEveryone then deleteForEveryone message conversation actorId
  else do
    hideMessage message.id actorId
    let view ← viewOne message conversation actorId
    return ⟨view, false, [actorId], none⟩

/-- One round of `expireDueMessages`. -/
def expireMessage (message : Message) : M (Option DeleteMessageResult) := do
  let found ← perform (.findConversation message.conversationId)
  match found with
  | none => do
    perform (.saveMessage { message with expiresAt := none })
    return none
  | some conversation => do
    let now ← perform .newDate
    let buried := { message.bury now with expiresAt := none }
    perform (.saveMessage buried)
    let replyTo ← loadReplyTo buried
    return some
      ⟨toMessageView buried conversation.members replyTo [] message.senderId, true,
        recipientIds conversation, message.attachmentUrl⟩

def expireDueMessages : M (List DeleteMessageResult) := do
  let now ← perform .newDate
  let due ← perform (.findDueMessages now)
  collect expireMessage due

/-! ## Scheduled messages -/

def SCHEDULE_MIN_DELAY_MS : Nat := 60 * 1000
def SCHEDULE_MAX_AHEAD_MS : Nat := 30 * 24 * 60 * 60 * 1000
def MAX_PENDING_SCHEDULED_PER_CHAT : Nat := 20

/-- The target of a scheduled reply, checked when it is scheduled. -/
def checkScheduledReply (conversation : ConversationWithMembers)
    (replyToMessageId : Option MessageId) : M Unit :=
  match replyToMessageId with
  | none => return ()
  | some id => do
    let replyTo ← perform (.findMessage id conversation.id)
    rejectIf (replyTo.all (fun m => m.deletedForEveryoneAt ≠ none) = true)
      (RpcErrors.badRequest "Reply target must be a message in this conversation")

def scheduleMessage (payload : ScheduleMessage) : M ScheduledMessageView := do
  let attachmentUrl := trimmed payload.attachmentUrl
  let rawBody := Js.trim (payload.body.getD [])
  rejectIf (rawBody = [] ∧ attachmentUrl = none)
    (RpcErrors.badRequest "Message body or attachment is required")
  let type ← require (MessageType.ofText (payload.type.getD "text".toList))
    (RpcErrors.badRequest "Unsupported message type")
  rejectIf (type = .call) (RpcErrors.badRequest "Call messages cannot be scheduled")
  let scheduledFor ← require payload.scheduledFor (RpcErrors.badRequest "Invalid scheduled time")
  let now ← perform .newDate
  rejectIf (scheduledFor < now + ms SCHEDULE_MIN_DELAY_MS)
    (RpcErrors.badRequest "Schedule at least 1 minute in the future")
  rejectIf (now + ms SCHEDULE_MAX_AHEAD_MS < scheduledFor)
    (RpcErrors.badRequest "Schedule time cannot be more than 30 days ahead")
  let conversation ← requireMembership payload.conversationId payload.actorId
  -- the delivery of a group is open
  let delivery ← resolvePrivateDelivery conversation payload.actorId
  rejectIf (delivery.forbidden = true) (RpcErrors.forbidden "You cannot message this user")
  let pendingCount ← perform (.countPending conversation.id payload.actorId)
  rejectIf (MAX_PENDING_SCHEDULED_PER_CHAT ≤ pendingCount)
    (RpcErrors.badRequest "You can have up to 20 scheduled messages in a chat")
  let attachmentMime := attachmentMimeOf payload.attachmentMime payload.type
  let type := attachmentType attachmentUrl attachmentMime payload.type type
  checkScheduledReply conversation payload.replyToMessageId
  let saved ← perform (.insertScheduled
    { conversationId := conversation.id
      senderId := payload.actorId
      body := bodyOf rawBody type
      type
      replyToMessageId := payload.replyToMessageId
      attachmentUrl
      attachmentMime
      attachmentName := trimmed payload.attachmentName
      attachmentSize := payload.attachmentSize
      mentions := validMentions payload.mentionUserIds payload.actorId conversation.members
      linkPreview := payload.linkPreview
      scheduledFor })
  recordAudit payload.actorId "message.scheduled" (some "conversation".toList)
    (some (idText conversation.id)) (.scheduled saved.id saved.scheduledFor)
  return toScheduledMessageView saved

def listScheduledMessages (conversationId : ConversationId) (actorId : UserId) :
    M (List ScheduledMessageView) := do
  let _ ← requireMembership conversationId actorId
  let items ← perform (.listPending conversationId actorId)
  return items.map toScheduledMessageView

def cancelScheduledMessage (conversationId : ConversationId) (scheduledMessageId : Nat)
    (actorId : UserId) : M ScheduledMessageView := do
  let _ ← requireMembership conversationId actorId
  let found ← perform (.findScheduled scheduledMessageId conversationId actorId)
  let item ← require found (RpcErrors.notFound "Scheduled message")
  rejectIf (item.status ≠ .pending)
    (RpcErrors.badRequest "Only pending scheduled messages can be cancelled")
  let now ← perform .newDate
  let item := { item with status := .cancelled, cancelledAt := some now }
  perform (.saveScheduled item)
  return toScheduledMessageView item

/-- The request `dispatchDueScheduled` makes for a row. -/
def ScheduledMessage.toPayload (row : ScheduledMessage) : SendMessage where
  actorId := row.senderId
  conversationId := row.conversationId
  body := some row.body
  type := some row.type.toText
  replyToMessageId := row.replyToMessageId
  attachmentUrl := row.attachmentUrl
  attachmentMime := row.attachmentMime
  attachmentName := row.attachmentName
  attachmentSize := row.attachmentSize
  mentionUserIds := some row.mentions
  linkPreview := row.linkPreview
  systemCall := false

/-- The `catch` block of `dispatchDueScheduled`. -/
def failScheduled (row : ScheduledMessage) (e : Failure) : M (Option SendMessageResult) := do
  perform (.saveScheduled
    { row with status := .failed, error := some (e.message.toList.take 500) })
  return none

/-- What a round does once `sendMessage` has returned or failed. The save of a sent row is part of
the `try` block, and a row whose save fails keeps the id of its message. -/
def settle (row : ScheduledMessage) : Except Failure SendMessageResult → M (Option SendMessageResult)
  | .ok result => do
    let row := { row with status := .sent, sentMessageId := some result.view.id, error := none }
    let saved ← (perform (.saveScheduled row)).attempt
    match saved with
    | .ok _ => return some result
    | .error e => failScheduled row e
  | .error e => failScheduled row e

/-- One round of `dispatchDueScheduled`. -/
def dispatchScheduled (row : ScheduledMessage) : M (Option SendMessageResult) := do
  let claimed ← perform (.claimScheduled row.id)
  if claimed = 0 then return none
  else do
    let outcome ← (sendMessage row.toPayload).attempt
    settle row outcome

def dispatchDueScheduled : M (List SendMessageResult) := do
  let now ← perform .newDate
  let due ← perform (.findDueScheduled now)
  collect dispatchScheduled due

/-! ## Memberships -/

/-- The operations that set one thing on the row of the actor. -/
def updateMembership (conversationId : ConversationId) (actorId : UserId)
    (update : Time → ConversationMember → ConversationMember) : M ConversationView := do
  let conversation ← requireMembership conversationId actorId
  let membership ← require (findActive conversation.members actorId)
    (RpcErrors.notFound "Membership")
  let now ← perform .newDate
  perform (.saveMember (update now membership))
  getConversation conversationId actorId

def pinConversation (conversationId : ConversationId) (actorId : UserId) (pinned : Bool) :
    M ConversationView :=
  updateMembership conversationId actorId fun now membership =>
    { membership with pinnedAt := if pinned then some now else none }

def muteConversation (conversationId : ConversationId) (actorId : UserId) (muted : Bool) :
    M ConversationView :=
  updateMembership conversationId actorId fun now membership =>
    { membership with mutedAt := if muted then some now else none }

/-- The message a read marker names, checked. -/
def seenMessage (conversationId : ConversationId) (messageId : Option MessageId) :
    M (Option MessageId) :=
  match messageId with
  | none => return none
  | some id => do
    let found ← perform (.findMessage id conversationId)
    let message ← require found (RpcErrors.notFound "Message")
    return some message.id

/-- Moves the read marker forward and returns it. -/
def advanceReadAt (membership : ConversationMember) (nextReadAt : Time) : M Time :=
  match membership.lastReadAt with
  | some t =>
    if jsDate t < nextReadAt then do
      perform (.saveMember { membership with lastReadAt := some nextReadAt })
      return nextReadAt
    else return jsDate t
  | none => do
    perform (.saveMember { membership with lastReadAt := some nextReadAt })
    return nextReadAt

def markSeen (conversationId : ConversationId) (actorId : UserId)
    (messageId : Option MessageId) : M SeenResultView := do
  let conversation ← requireMembership conversationId actorId
  let membership ← require (findActive conversation.members actorId)
    (RpcErrors.notFound "Membership")
  let nextReadAt ← perform .newDate
  let messageId ← seenMessage conversation.id messageId
  let lastReadAt ← advanceReadAt membership nextReadAt
  return ⟨conversation.id, actorId, lastReadAt, messageId, recipientIds conversation⟩

def DISAPPEARING_DURATIONS : List Nat := [0, 30, 60, 3600, 86400, 604800, 7776000]

def setDisappearingMessages (conversationId : ConversationId) (actorId : UserId)
    (durationSeconds : Nat) : M ConversationView := do
  let conversation ← requireMembership conversationId actorId
  rejectIf (durationSeconds ∉ DISAPPEARING_DURATIONS)
    (RpcErrors.badRequest "Unsupported disappearing duration")
  let actor := findActive conversation.members actorId
  rejectIf (conversation.type = .group ∧ actor.any (fun m => isGroupAdmin m.role) = false)
    (RpcErrors.forbidden "Only group owners and admins can change disappearing messages")
  perform (.saveConversation { conversation with disappearingDurationSeconds := durationSeconds })
  recordAudit actorId "conversation.disappearing_updated" (some "conversation".toList)
    (some (idText conversation.id)) (.disappearing durationSeconds)
  getConversation conversationId actorId

/-- One round of `addMembers`. -/
def addMember (conversation : ConversationWithMembers) (userId : UserId) : M Unit :=
  match conversation.members.find? fun member => member.userId = userId with
  | some existing =>
    if existing.leftAt = none then return ()
    else perform (.saveMember { existing with leftAt := none, role := .member })
  | none => perform (.insertMember conversation.id userId .member)

def addEach (conversation : ConversationWithMembers) : List UserId → M Unit
  | [] => return ()
  | userId :: rest => do
    addMember conversation userId
    addEach conversation rest

def addMembers (conversationId : ConversationId) (actorId : UserId) (memberIds : List UserId) :
    M ConversationView := do
  let conversation ← requireMembership conversationId actorId
  assertGroupAdmin conversation actorId
  let uniqueIds := (memberIds.filter fun id => id ≠ actorId).eraseDups
  rejectIf (uniqueIds.length = 0) (RpcErrors.badRequest "At least one member id is required")
  rejectIf (MAX_GROUP_MEMBERS < (activeMembers conversation.members).length + uniqueIds.length)
    (RpcErrors.badRequest "A group cannot have more than 50 members")
  addEach conversation uniqueIds
  getConversation conversationId actorId

def removeMember (conversationId : ConversationId) (actorId memberId : UserId) :
    M ConversationView := do
  let conversation ← requireMembership conversationId actorId
  assertGroupAdmin conversation actorId
  rejectIf (memberId = actorId) (RpcErrors.badRequest "Use leave to exit a group yourself")
  let target ← require (findActive conversation.members memberId) (RpcErrors.notFound "Member")
  rejectIf (target.role = .owner) (RpcErrors.forbidden "The group owner cannot be removed")
  let now ← perform .newDate
  perform (.saveMember { target with leftAt := some now })
  getConversation conversationId actorId

/-- The role of a request, `nothing` when the text is no role. -/
def setMemberRole (conversationId : ConversationId) (actorId memberId : UserId)
    (role : Option ConversationMemberRole) : M ConversationView := do
  let conversation ← requireMembership conversationId actorId
  rejectIf (conversation.type ≠ .group)
    (RpcErrors.badRequest "Only group conversations support this action")
  let actor := findActive conversation.members actorId
  rejectIf (actor.any (fun m => m.role = .owner) = false)
    (RpcErrors.forbidden "Only the group owner can change member roles")
  let role ← require (role.filter fun role => role = .admin ∨ role = .member)
    (RpcErrors.badRequest "Role must be ADMIN or MEMBER")
  let target ← require (findActive conversation.members memberId) (RpcErrors.notFound "Member")
  rejectIf (target.role = .owner) (RpcErrors.forbidden "The group owner role cannot be changed")
  rejectIf (target.userId = actorId) (RpcErrors.badRequest "Cannot change your own role")
  perform (.saveMember { target with role })
  getConversation conversationId actorId

/-- The member who takes over a group from its owner: the one who joined first. -/
def nextOwner (members : List ConversationMember) (actorId : UserId) :
    Option ConversationMember :=
  (orderAsc (fun m => jsDate m.joinedAt)
    (members.filter fun m => m.leftAt = none ∧ m.userId ≠ actorId)).head?

/-- Hands the group over when its owner leaves. -/
def handOver (membership : ConversationMember) (conversation : ConversationWithMembers)
    (actorId : UserId) : M Unit :=
  if membership.role = .owner then
    match nextOwner conversation.members actorId with
    | none => return ()
    | some next => perform (.saveMember { next with role := .owner })
  else return ()

def leave (conversationId : ConversationId) (actorId : UserId) : M Bool := do
  let conversation ← requireMembership conversationId actorId
  rejectIf (conversation.type = .priv)
    (RpcErrors.badRequest "Private chats cannot be left. Delete is not supported.")
  let membership ← require (findActive conversation.members actorId)
    (RpcErrors.notFound "Membership")
  handOver membership conversation actorId
  let now ← perform .newDate
  perform (.saveMember { membership with leftAt := some now })
  return true

def updateGroup (conversationId : ConversationId) (actorId : UserId) (name : Text) :
    M ConversationView := do
  let conversation ← requireMembership conversationId actorId
  assertGroupAdmin conversation actorId
  let name := Js.trim name
  rejectIf (name = []) (RpcErrors.badRequest "Group name is required")
  perform (.saveConversation { conversation with name := some name })
  getConversation conversationId actorId

def deleteGroup (conversationId : ConversationId) (actorId : UserId) : M DeleteGroupResult := do
  let conversation ← requireMembership conversationId actorId
  rejectIf (conversation.type ≠ .group) (RpcErrors.badRequest "Only group chats can be deleted")
  rejectIf (conversation.createdBy ≠ actorId)
    (RpcErrors.forbidden "Only the group creator can delete this group")
  let now ← perform .newDate
  perform (.saveMembers (conversation.members.map fun member =>
    if member.leftAt = none then { member with leftAt := some now } else member))
  perform (.softDeleteConversation conversation.id)
  return ⟨true, conversation.members.map ConversationMember.userId⟩

/-! ## Blocks -/

def blockUser (actorId userId : UserId) : M BlockView := do
  rejectIf (actorId = userId) (RpcErrors.badRequest "You cannot block yourself")
  let existing ← perform (.findBlock actorId userId)
  match existing with
  | some block => return toBlockView block
  | none => do
    let block ← perform (.insertBlock actorId userId)
    return toBlockView block

def unblockUser (actorId userId : UserId) : M Bool := do
  let affected ← perform (.deleteBlock actorId userId)
  return decide (0 < affected)

def listBlocks (actorId : UserId) : M (List BlockView) := do
  let blocks ← perform (.listBlocks actorId)
  return blocks.map toBlockView

/-! ## Calls -/

def MAX_GROUP_CALL : Nat := 8

/-- One round of the loop over the active members. -/
def callPeer (conversation : ConversationWithMembers) (actorId : UserId)
    (member : ConversationMember) : M (Option UserId) :=
  if member.userId = actorId then return none
  else do
    let blocked ← isBlockedEitherWay actorId member.userId
    rejectIf (blocked = true ∧ conversation.type = .priv)
      (RpcErrors.forbidden "You cannot call this user")
    return if blocked then none else some member.userId

/-- Validates membership + blocks before WebRTC signaling starts (private or group). -/
def prepareVoiceCall (conversationId : ConversationId) (actorId : UserId) :
    M PrepareVoiceCallResult := do
  let conversation ← requireMembership conversationId actorId
  let active := activeMembers conversation.members
  rejectIf (active.length < 2) (RpcErrors.badRequest "Not enough participants for a call")
  rejectIf (conversation.type = .group ∧ MAX_GROUP_CALL < active.length)
    (RpcErrors.badRequest "Group calls support up to 8 participants")
  let peerIds ← collect (callPeer conversation actorId) active
  rejectIf (peerIds.length = 0) (RpcErrors.badRequest "No participants available to call")
  return ⟨conversation.id, conversation.type, peerIds, active.map ConversationMember.userId⟩

/-! ## Analytics, audit and workspace -/

/-- The number of the UTC day of a time, the date part of `toISOString`. -/
def isoDay (t : Int) : Int := t / dayLength

def getAnalytics : M ChatAnalyticsView := do
  let now ← perform .newDate
  let timeZone ← perform .getTimeZone
  let today := startOfDay timeZone now
  let weekAgo := today - 6 * dayLength
  let totalConversations ← perform .countConversations
  let totalMessages ← perform .countMessages
  let messagesToday ← perform (.countMessagesSince today)
  let messagesThisWeek ← perform (.countMessagesSince weekAgo)
  let activeConversationsToday ← perform (.countConversationsSince today)
  let dayRows ← perform (.dayRows weekAgo)
  let messagesByDay := (List.range 7).map fun i =>
    let key := isoDay (weekAgo + i * dayLength)
    (key, (dayRows.lookup key).getD 0)
  let topConversations ← perform .topRows
  return ⟨totalConversations, totalMessages, messagesToday, messagesThisWeek,
    activeConversationsToday, messagesByDay, topConversations⟩

def listAuditEvents (page : Page) : M (PaginatedResult AuditEventView) := do
  let (items, total) ← perform (.listAudit page.skip page.take)
  return buildPaginatedResult (items.map toAuditView) total page

def logAudit (actorId : UserId) (action : Text) (targetType targetId info : Option Text) :
    M AuditEventView := do
  let saved ← perform
    (.insertAudit actorId action targetType targetId (info.elim .none .json))
  return toAuditView saved

def defaultWorkspace : WorkspaceSettings :=
  ⟨"Relay".toList, "Private team messenger".toList, "#2563eb".toList, none⟩

def getWorkspaceSettings : M WorkspaceSettingsView := do
  let found ← perform .findWorkspace
  match found with
  | some settings => return toWorkspaceView settings
  | none => do
    perform (.saveWorkspace defaultWorkspace)
    return toWorkspaceView defaultWorkspace

/-- A setting of the request replaces the old one when it is not blank. -/
def setting (requested : Option Text) (limit : Nat) (old : Text) : Text :=
  ((trimmed requested).map fun t => t.take limit).getD old

/-- `logoUrl` is absent, `null` or a text. -/
def updateWorkspaceSettings (actorId : UserId) (appName tagline primaryColor : Option Text)
    (logoUrl : Option (Option Text)) : M WorkspaceSettingsView := do
  let found ← perform .findWorkspace
  let settings := found.getD defaultWorkspace
  let settings : WorkspaceSettings :=
    { appName := setting appName 80 settings.appName
      tagline := setting tagline 200 settings.tagline
      primaryColor := setting primaryColor 16 settings.primaryColor
      logoUrl := (logoUrl.map trimmed).getD settings.logoUrl }
  perform (.saveWorkspace settings)
  recordAudit actorId "workspace.updated" (some "workspace".toList) (some ['1']) .none
  return toWorkspaceView settings

end Relay.Chat
