import Mathlib.Data.List.Sort
import Relay.Lib.Prog
import Relay.Lib.Rows
import Relay.Chat.Types

/-!
# The chat database and the repository calls

A table is a list of rows in the order of insertion. A `Call` is one call of a TypeORM repository,
query builder or transaction of the chat service, or one reading of the clock; `exec` is what the
call does when nothing else happens at the same time. A call that violates a constraint fails and
changes nothing.

Postgres keeps a user id by value, so a query or an insert uses the canonical spelling of an id
(`UserId.canon`). Where a query leaves the order of rows open, rows come in table order.

`save` of a loaded entity writes the whole row. For a conversation with its members loaded it also
sets the foreign key of every member row that is missing from the array to NULL, which the column
forbids. Message rows have a `deletedAt` column that nothing writes; it is left out, and so are the
length limits of the text columns, which the gateway checks.
-/

namespace Relay.Chat

open Relay.Lib Relay.Lib.Rows

structure Db where
  conversations : List Conversation
  members : List ConversationMember
  messages : List Message
  messageHides : List MessageHide
  messageReactions : List MessageReaction
  scheduledMessages : List ScheduledMessage
  userBlocks : List UserBlock
  auditEvents : List AuditEvent
  workspaceSettings : Option WorkspaceSettings
  /-- The next value of `gen_random_uuid`. -/
  nextId : Nat
  now : Time
  /-- Offset of the local time of process and database session, in microseconds. -/
  timeZone : Int
deriving DecidableEq

/-- A database with no rows. -/
def Db.empty (now : Time) (timeZone : Int) : Db :=
  ⟨[], [], [], [], [], [], [], [], none, 0, now, timeZone⟩

inductive QueryError where
  | uniqueViolation (constraint : String)
  | notNullViolation (column : String)
  /-- Any other failure of a call, such as a lost connection. -/
  | driver (message : String)
deriving DecidableEq

/-- How a request fails: with an error of its own, or with that of a repository call. -/
inductive Failure where
  | rpc (e : RpcError)
  | query (e : QueryError)
deriving DecidableEq

/-! ## Text search -/

/-- SQL `LIKE` with the escape character `\`. -/
def like : Text → Text → Bool
  | [], s => s.isEmpty
  | '%' :: p, s => s.tails.any fun t => like p t
  | '_' :: p, s => match s with
    | [] => false
    | _ :: s => like p s
  | '\\' :: c :: p, s => match s with
    | [] => false
    | d :: s => c == d && like p s
  | c :: p, s => match s with
    | [] => false
    | d :: s => c == d && like p s

/-- SQL `ILIKE`: both sides folded to lower case. -/
def ilike (s pattern : Text) : Bool := like (Js.toLower pattern) (Js.toLower s)

/-! ## Queries -/

/-- The `WHERE` clauses of the message listings. -/
structure MessageFilter where
  conversationIds : List ConversationId
  actorId : UserId
  pattern : Option Text
  media : Option MediaKindFilter
  /-- `deletedForEveryoneAt IS NULL`. -/
  onlyAlive : Bool
deriving DecidableEq

/-- The `kind` clause of `listMedia`; a comparison with NULL is not true. -/
def mediaKindMatches (kind : MediaKindFilter) (m : Message) : Bool :=
  let mimeLike (pattern : String) : Bool :=
    match m.attachmentMime with
    | none => false
    | some mime => ilike mime pattern.toList
  match kind with
  | .all => true
  | .image => m.type == .image || mimeLike "image/%"
  | .audio =>
    m.type == .audio || mimeLike "audio/%" || m.attachmentMime == some "video/webm".toList
  | .file =>
    m.type == .file ||
      (m.type != .image && m.type != .audio &&
        (m.attachmentMime == none ||
          (!mimeLike "image/%" && !mimeLike "audio/%" &&
            m.attachmentMime != some "video/webm".toList)))

/-- The user has hidden the message. -/
def Db.isHidden (db : Db) (messageId : MessageId) (userId : UserId) : Bool :=
  db.messageHides.any fun h => h.messageId == messageId && h.userId == userId.canon

def Db.filterMatches (db : Db) (f : MessageFilter) (m : Message) : Bool :=
  m.conversationId ∈ f.conversationIds &&
    (match f.pattern with
      | none => true
      | some p => ilike m.body p) &&
    (match f.media with
      | none => true
      | some kind =>
        m.attachmentUrl != none && m.attachmentUrl != some [] && mediaKindMatches kind m) &&
    (!f.onlyAlive || m.deletedForEveryoneAt == none) &&
    !db.isHidden m.id f.actorId &&
    (!m.undelivered || m.senderId == f.actorId.canon)

def Db.membersOf (db : Db) (c : ConversationId) : List ConversationMember :=
  db.members.filter fun m => m.conversationId = c

def Db.withMembers (db : Db) (c : Conversation) : ConversationWithMembers :=
  { c with members := db.membersOf c.id }

/-- `repository.find`: soft-deleted conversations are not seen. -/
def Db.findConversation (db : Db) (c : ConversationId) : Option Conversation :=
  db.conversations.find? fun row => row.id = c ∧ row.deletedAt = none

/-- `ORDER BY key DESC`. -/
def orderDesc {α : Type} (key : α → Nat) (rows : List α) : List α :=
  rows.insertionSort fun a b => key b ≤ key a

/-- `ORDER BY key ASC`. -/
def orderAsc {α : Type} (key : α → Nat) (rows : List α) : List α :=
  rows.insertionSort fun a b => key a ≤ key b

def Db.listMessages (db : Db) (f : MessageFilter) : List Message :=
  orderDesc Message.createdAt (db.messages.filter (db.filterMatches f))

def pinnedIn (c : ConversationId) (m : Message) : Bool :=
  m.conversationId == c && m.pinnedAt != none && m.deletedForEveryoneAt == none

/-- A message the unread counters count for the member row `cm`. -/
def Db.countsUnread (db : Db) (cm : ConversationMember) (m : Message) : Bool :=
  m.conversationId == cm.conversationId &&
    m.senderId != cm.userId &&
    (match cm.lastReadAt with
      | none => true
      | some t => t < m.createdAt) &&
    m.deletedForEveryoneAt == none &&
    (!m.undelivered || m.senderId == cm.userId) &&
    !db.isHidden m.id cm.userId

/-- The rows of the grouped join: each conversation of the list with its number of unread messages,
where that is not zero. -/
def Db.unreadRows (db : Db) (actorId : UserId) (ids : List ConversationId) :
    List (ConversationId × Nat) :=
  (ids.eraseDups.map fun c =>
    (c, ((db.membersOf c).filter fun cm => cm.userId = actorId.canon ∧ cm.leftAt = none).map
      (fun cm => (db.messages.filter (db.countsUnread cm)).length) |>.sum)).filter
    fun row => row.2 ≠ 0

/-- The newest visible message of each conversation of the list, one that is not deleted for
everyone if there is one. -/
def Db.latestRows (db : Db) (actorId : UserId) (ids : List ConversationId) : List Message :=
  ids.eraseDups.filterMap fun c =>
    let rows := orderDesc Message.createdAt (db.messages.filter fun m =>
      m.conversationId = c ∧ (m.undelivered = false ∨ m.senderId = actorId.canon))
    (rows.find? fun m => m.deletedForEveryoneAt = none).or rows.head?

/-! ### Days -/

def dayLength : Int := 86400000000

/-- The number of the local day of a time. -/
def localDay (timeZone : Int) (t : Int) : Int := (t + timeZone) / dayLength

/-- Local midnight before a time. -/
def startOfDay (timeZone : Int) (t : Int) : Int := localDay timeZone t * dayLength - timeZone

def Db.countSince (db : Db) (t : Int) : Nat :=
  (db.messages.filter fun m => t ≤ (m.createdAt : Int)).length

def Db.conversationsSince (db : Db) (t : Int) : Nat :=
  ((db.messages.filter fun m => t ≤ (m.createdAt : Int)).map Message.conversationId).eraseDups.length

/-- Messages since `t`, counted by local day. -/
def Db.dayRows (db : Db) (t : Int) : List (Int × Nat) :=
  let days := (db.messages.filter fun m => t ≤ (m.createdAt : Int)).map fun m =>
    localDay db.timeZone m.createdAt
  days.eraseDups.map fun day => (day, days.count day)

def Db.topRows (db : Db) : List TopConversation :=
  let rows := (db.conversations.filter fun c => c.deletedAt = none).map fun c =>
    (⟨c.id, c.name, c.type, (db.messages.filter fun m => m.conversationId = c.id).length⟩ :
      TopConversation)
  (orderDesc TopConversation.messageCount (rows.filter fun r => r.messageCount ≠ 0)).take 5

/-! ## Writes -/

/-- `UQ_conversation_members_active`, for a row about to be written. -/
def Db.memberTaken (db : Db) (m : ConversationMember) : Bool :=
  m.leftAt = none &&
    db.members.any fun row => row.id ≠ m.id && row.conversationId = m.conversationId &&
      row.userId = m.userId && row.leftAt = none

/-- A new member row; the user id is stored in its canonical spelling. -/
def Db.insertMember (db : Db) (c : ConversationId) (u : UserId) (role : ConversationMemberRole) :
    Option Db :=
  let row : ConversationMember := ⟨db.nextId, c, u.canon, role, db.now, none, none, none, none⟩
  if db.memberTaken row then none
  else some { db with members := db.members ++ [row], nextId := db.nextId + 1 }

def Db.insertMembers (db : Db) (c : ConversationId) :
    List (UserId × ConversationMemberRole) → Option Db
  | [] => some db
  | (u, role) :: rest =>
    match db.insertMember c u role with
    | none => none
    | some db' => db'.insertMembers c rest

def Db.saveMember (db : Db) (m : ConversationMember) : Option Db :=
  if db.memberTaken m then none
  else some { db with members := replaceRow ConversationMember.id m db.members }

def Db.saveMembers (db : Db) : List ConversationMember → Option Db
  | [] => some db
  | m :: rest =>
    match db.saveMember m with
    | none => none
    | some db' => db'.saveMembers rest

/-- `UQ_conversations_pairKey_active`. -/
def Db.pairKeyTaken (db : Db) (key : Text) : Bool :=
  db.conversations.any fun row => row.pairKey = some key && row.deletedAt = none

def Db.insertConversation (db : Db) (type : ConversationType) (name : Option Text)
    (createdBy : UserId) (pairKey : Option Text) : Db :=
  { db with
    conversations := db.conversations ++
      [⟨db.nextId, type, name, createdBy.canon, pairKey, none, 0, db.now, db.now, none⟩]
    nextId := db.nextId + 1 }

/-- The columns `messages.create` is given; the others take their defaults. -/
structure MessageDraft where
  conversationId : ConversationId
  senderId : UserId
  body : Text
  type : MessageType
  replyToMessageId : Option MessageId := none
  attachmentUrl : Option Text := none
  attachmentMime : Option Text := none
  attachmentName : Option Text := none
  attachmentSize : Option Nat := none
  forwardedFromMessageId : Option MessageId := none
  mentions : List UserId := []
  linkPreview : Option LinkPreview := none
  undelivered : Bool := false
  expiresAt : Option Time := none
deriving DecidableEq

def MessageDraft.toRow (d : MessageDraft) (id : MessageId) (createdAt : Time) : Message where
  id := id
  conversationId := d.conversationId
  senderId := d.senderId
  body := d.body
  type := d.type
  replyToMessageId := d.replyToMessageId
  deletedForEveryoneAt := none
  editedAt := none
  pinnedAt := none
  pinnedByUserId := none
  attachmentUrl := d.attachmentUrl
  attachmentMime := d.attachmentMime
  attachmentName := d.attachmentName
  attachmentSize := d.attachmentSize
  forwardedFromMessageId := d.forwardedFromMessageId
  mentions := d.mentions
  linkPreview := d.linkPreview
  expiresAt := d.expiresAt
  undelivered := d.undelivered
  createdAt := createdAt

structure ScheduledDraft where
  conversationId : ConversationId
  senderId : UserId
  body : Text
  type : MessageType
  replyToMessageId : Option MessageId
  attachmentUrl : Option Text
  attachmentMime : Option Text
  attachmentName : Option Text
  attachmentSize : Option Nat
  mentions : List UserId
  linkPreview : Option LinkPreview
  scheduledFor : Time
deriving DecidableEq

def ScheduledDraft.toRow (d : ScheduledDraft) (id : Nat) (now : Time) : ScheduledMessage where
  id := id
  conversationId := d.conversationId
  senderId := d.senderId
  body := d.body
  type := d.type
  replyToMessageId := d.replyToMessageId
  attachmentUrl := d.attachmentUrl
  attachmentMime := d.attachmentMime
  attachmentName := d.attachmentName
  attachmentSize := d.attachmentSize
  mentions := d.mentions
  linkPreview := d.linkPreview
  scheduledFor := d.scheduledFor
  status := .pending
  sentMessageId := none
  error := none
  cancelledAt := none
  createdAt := now
  updatedAt := now

/-! ## Calls -/

inductive Call where
  -- conversations
  | findPrivateByPairKey (pairKey : Text)
  | createPrivateTx (actorId otherUserId : UserId) (pairKey : Text)
  | createGroupTx (actorId : UserId) (memberIds : List UserId) (name : Text)
  | findConversations (ids : List ConversationId)
  | findConversation (id : ConversationId)
  | saveConversation (c : ConversationWithMembers)
  | softDeleteConversation (id : ConversationId)
  -- members
  | findMemberships (userId : UserId)
  | saveMember (m : ConversationMember)
  | saveMembers (ms : List ConversationMember)
  | insertMember (c : ConversationId) (userId : UserId) (role : ConversationMemberRole)
  -- messages
  | listMessages (f : MessageFilter) (skip take : Nat)
  | findMessage (id : MessageId) (c : ConversationId)
  | findMessageById (id : MessageId)
  | findMessagesByIds (ids : List MessageId)
  | insertMessage (d : MessageDraft)
  | saveMessage (m : Message)
  | countPinned (c : ConversationId)
  | listPinned (c : ConversationId) (actorId : UserId)
  | findDueMessages (before : Time)
  | unreadRows (actorId : UserId) (ids : List ConversationId)
  | latestRows (actorId : UserId) (ids : List ConversationId)
  -- hides
  | findHide (messageId : MessageId) (userId : UserId)
  | insertHide (messageId : MessageId) (userId : UserId)
  -- reactions
  | findReaction (messageId : MessageId) (userId : UserId) (emoji : Text)
  | removeReaction (r : MessageReaction)
  | insertReaction (messageId : MessageId) (userId : UserId) (emoji : Text)
  | findReactions (messageIds : List MessageId)
  -- scheduled messages
  | countPending (c : ConversationId) (senderId : UserId)
  | insertScheduled (d : ScheduledDraft)
  | listPending (c : ConversationId) (senderId : UserId)
  | findScheduled (id : Nat) (c : ConversationId) (senderId : UserId)
  | saveScheduled (row : ScheduledMessage)
  | findDueScheduled (before : Time)
  | claimScheduled (id : Nat)
  -- blocks
  | findBlock (blockerId blockedId : UserId)
  | insertBlock (blockerId blockedId : UserId)
  | deleteBlock (blockerId blockedId : UserId)
  | listBlocks (blockerId : UserId)
  | countBlocks (blockerId blockedId : UserId)
  | countBlocksEitherWay (userA userB : UserId)
  | findPeerBlocks (actorId : UserId) (peerIds : List UserId)
  -- analytics
  | countConversations
  | countMessages
  | countMessagesSince (t : Int)
  | countConversationsSince (t : Int)
  | dayRows (t : Int)
  | topRows
  -- audit and workspace
  | listAudit (skip take : Nat)
  | insertAudit (actorId : UserId) (action : Text) (targetType targetId : Option Text)
      (info : AuditMeta)
  | findWorkspace
  | saveWorkspace (settings : WorkspaceSettings)
  -- `new Date()`, and the time zone of the process
  | newDate
  | getTimeZone
deriving DecidableEq

@[reducible] def Call.Answer : Call → Type
  | .findPrivateByPairKey _ => Option ConversationWithMembers
  | .createPrivateTx _ _ _ => ConversationWithMembers
  | .createGroupTx _ _ _ => ConversationWithMembers
  | .findConversations _ => List ConversationWithMembers
  | .findConversation _ => Option ConversationWithMembers
  | .saveConversation _ => Unit
  | .softDeleteConversation _ => Unit
  | .findMemberships _ => List ConversationMember
  | .saveMember _ => Unit
  | .saveMembers _ => Unit
  | .insertMember _ _ _ => Unit
  | .listMessages _ _ _ => List Message × Nat
  | .findMessage _ _ => Option Message
  | .findMessageById _ => Option Message
  | .findMessagesByIds _ => List Message
  | .insertMessage _ => Message
  | .saveMessage _ => Unit
  | .countPinned _ => Nat
  | .listPinned _ _ => List Message
  | .findDueMessages _ => List Message
  | .unreadRows _ _ => List (ConversationId × Nat)
  | .latestRows _ _ => List Message
  | .findHide _ _ => Option MessageHide
  | .insertHide _ _ => Unit
  | .findReaction _ _ _ => Option MessageReaction
  | .removeReaction _ => Unit
  | .insertReaction _ _ _ => Unit
  | .findReactions _ => List MessageReaction
  | .countPending _ _ => Nat
  | .insertScheduled _ => ScheduledMessage
  | .listPending _ _ => List ScheduledMessage
  | .findScheduled _ _ _ => Option ScheduledMessage
  | .saveScheduled _ => Unit
  | .findDueScheduled _ => List ScheduledMessage
  | .claimScheduled _ => Nat
  | .findBlock _ _ => Option UserBlock
  | .insertBlock _ _ => UserBlock
  | .deleteBlock _ _ => Nat
  | .listBlocks _ => List UserBlock
  | .countBlocks _ _ => Nat
  | .countBlocksEitherWay _ _ => Nat
  | .findPeerBlocks _ _ => List UserBlock
  | .countConversations => Nat
  | .countMessages => Nat
  | .countMessagesSince _ => Nat
  | .countConversationsSince _ => Nat
  | .dayRows _ => List (Int × Nat)
  | .topRows => List TopConversation
  | .listAudit _ _ => List AuditEvent × Nat
  | .insertAudit _ _ _ _ _ => AuditEvent
  | .findWorkspace => Option WorkspaceSettings
  | .saveWorkspace _ => Unit
  | .newDate => Time
  | .getTimeZone => Int

abbrev M (α : Type) := Prog Call Call.Answer Failure α

def Db.blocks (db : Db) (blockerId blockedId : UserId) : List UserBlock :=
  db.userBlocks.filter fun b => b.blockerId = blockerId.canon ∧ b.blockedId = blockedId.canon

/-- Answer or violated constraint, with the database afterwards. -/
def orViolation {α : Type} (e : QueryError) (db : Db) : Option (α × Db) → Except Failure α × Db
  | none => (.error (.query e), db)
  | some (a, db') => (.ok a, db')

def exec : (c : Call) → Db → Except Failure c.Answer × Db
  | .findPrivateByPairKey key, db =>
    (.ok ((db.conversations.find? fun row =>
      row.pairKey = some key ∧ row.type = .priv ∧ row.deletedAt = none).map db.withMembers), db)
  | .createPrivateTx actorId otherUserId key, db =>
    if db.pairKeyTaken key then
      (.error (.query (.uniqueViolation "UQ_conversations_pairKey_active")), db)
    else
      let created := db.insertConversation .priv none actorId (some key)
      orViolation (.uniqueViolation "UQ_conversation_members_active") db <|
        (created.insertMembers db.nextId [(actorId, .member), (otherUserId, .member)]).bind
          fun db' => (db'.findConversation db.nextId).map fun c => (db'.withMembers c, db')
  | .createGroupTx actorId memberIds name, db =>
    let created := db.insertConversation .group (some name) actorId none
    orViolation (.uniqueViolation "UQ_conversation_members_active") db <|
      (created.insertMembers db.nextId
        ((actorId, .owner) :: memberIds.map fun u => (u, .member))).bind
        fun db' => (db'.findConversation db.nextId).map fun c => (db'.withMembers c, db')
  | .findConversations ids, db =>
    (.ok ((db.conversations.filter fun row => row.id ∈ ids ∧ row.deletedAt = none).map
      db.withMembers), db)
  | .findConversation id, db => (.ok ((db.findConversation id).map db.withMembers), db)
  | .saveConversation c, db =>
    if (db.membersOf c.id).all fun row => row.id ∈ c.members.map ConversationMember.id then
      (.ok (), { db with
        conversations := db.conversations.map fun row =>
          if row.id = c.id ∧ row ≠ c.toConversation then
            { c.toConversation with updatedAt := db.now }
          else row })
    else (.error (.query (.notNullViolation "conversationId")), db)
  | .softDeleteConversation id, db =>
    (.ok (), { db with
      conversations := db.conversations.map fun row =>
        if row.id = id then { row with deletedAt := some db.now } else row })
  | .findMemberships userId, db =>
    (.ok (db.members.filter fun m => m.userId = userId.canon ∧ m.leftAt = none), db)
  | .saveMember m, db =>
    orViolation (.uniqueViolation "UQ_conversation_members_active") db
      ((db.saveMember m).map fun db' => ((), db'))
  | .saveMembers ms, db =>
    orViolation (.uniqueViolation "UQ_conversation_members_active") db
      ((db.saveMembers ms).map fun db' => ((), db'))
  | .insertMember c userId role, db =>
    orViolation (.uniqueViolation "UQ_conversation_members_active") db
      ((db.insertMember c userId role).map fun db' => ((), db'))
  | .listMessages f skip take, db =>
    (.ok (((db.listMessages f).drop skip).take take, (db.listMessages f).length), db)
  | .findMessage id c, db =>
    (.ok (db.messages.find? fun m => m.id = id ∧ m.conversationId = c), db)
  | .findMessageById id, db => (.ok (db.messages.find? fun m => m.id = id), db)
  | .findMessagesByIds ids, db => (.ok (db.messages.filter fun m => m.id ∈ ids), db)
  | .insertMessage d, db =>
    let row := { d with senderId := d.senderId.canon }.toRow db.nextId db.now
    (.ok { row with senderId := d.senderId },
      { db with messages := db.messages ++ [row], nextId := db.nextId + 1 })
  | .saveMessage m, db =>
    (.ok (), { db with messages := replaceRow Message.id m db.messages })
  | .countPinned c, db => (.ok (db.messages.filter (pinnedIn c)).length, db)
  | .listPinned c actorId, db =>
    (.ok ((orderDesc (fun m => m.pinnedAt.getD 0) (db.messages.filter fun m =>
      pinnedIn c m && !db.isHidden m.id actorId)).take 10), db)
  | .findDueMessages before, db =>
    (.ok ((orderAsc (fun m => m.expiresAt.getD 0) (db.messages.filter fun m =>
      (m.expiresAt.any fun t => t ≤ before) && m.deletedForEveryoneAt == none)).take 40), db)
  | .unreadRows actorId ids, db => (.ok (db.unreadRows actorId ids), db)
  | .latestRows actorId ids, db => (.ok (db.latestRows actorId ids), db)
  | .findHide messageId userId, db =>
    (.ok (db.messageHides.find? fun h => h.messageId = messageId ∧ h.userId = userId.canon), db)
  | .insertHide messageId userId, db =>
    if db.isHidden messageId userId then
      (.error (.query (.uniqueViolation "UQ_message_hides_message_user")), db)
    else
      (.ok (), { db with
        messageHides := db.messageHides ++ [⟨db.nextId, messageId, userId.canon, db.now⟩]
        nextId := db.nextId + 1 })
  | .findReaction messageId userId emoji, db =>
    (.ok (db.messageReactions.find? fun r =>
      r.messageId = messageId ∧ r.userId = userId.canon ∧ r.emoji = emoji), db)
  | .removeReaction r, db =>
    (.ok (), { db with messageReactions := db.messageReactions.filter fun row => row.id ≠ r.id })
  | .insertReaction messageId userId emoji, db =>
    if db.messageReactions.any fun r =>
        r.messageId = messageId ∧ r.userId = userId.canon ∧ r.emoji = emoji then
      (.error (.query (.uniqueViolation "UQ_message_reactions_message_user_emoji")), db)
    else
      (.ok (), { db with
        messageReactions :=
          db.messageReactions ++ [⟨db.nextId, messageId, userId.canon, emoji, db.now⟩]
        nextId := db.nextId + 1 })
  | .findReactions ids, db =>
    (.ok (db.messageReactions.filter fun r => r.messageId ∈ ids), db)
  | .countPending c senderId, db =>
    (.ok (db.scheduledMessages.filter fun row => row.conversationId = c ∧
      row.senderId = senderId.canon ∧ row.status = .pending).length, db)
  | .insertScheduled d, db =>
    let row := { d with senderId := d.senderId.canon }.toRow db.nextId db.now
    (.ok { row with senderId := d.senderId },
      { db with scheduledMessages := db.scheduledMessages ++ [row], nextId := db.nextId + 1 })
  | .listPending c senderId, db =>
    (.ok ((orderAsc ScheduledMessage.scheduledFor (db.scheduledMessages.filter fun row =>
      row.conversationId = c ∧ row.senderId = senderId.canon ∧ row.status = .pending)).take 50),
      db)
  | .findScheduled id c senderId, db =>
    (.ok (db.scheduledMessages.find? fun row =>
      row.id = id ∧ row.conversationId = c ∧ row.senderId = senderId.canon), db)
  | .saveScheduled row, db =>
    (.ok (), { db with
      scheduledMessages :=
        replaceRow ScheduledMessage.id { row with updatedAt := db.now } db.scheduledMessages })
  | .findDueScheduled before, db =>
    (.ok ((orderAsc ScheduledMessage.scheduledFor (db.scheduledMessages.filter fun row =>
      row.status = .pending ∧ row.scheduledFor ≤ before)).take 25), db)
  | .claimScheduled id, db =>
    (.ok (db.scheduledMessages.filter fun row => row.id = id ∧ row.status = .pending).length,
      { db with
        scheduledMessages := db.scheduledMessages.map fun row =>
          if row.id = id ∧ row.status = .pending then
            { row with status := .sending, updatedAt := db.now }
          else row })
  | .findBlock blockerId blockedId, db => (.ok (db.blocks blockerId blockedId).head?, db)
  | .insertBlock blockerId blockedId, db =>
    if db.blocks blockerId blockedId ≠ [] then
      (.error (.query (.uniqueViolation "UQ_user_blocks_pair")), db)
    else
      (.ok ⟨db.nextId, blockerId, blockedId, db.now⟩, { db with
        userBlocks := db.userBlocks ++ [⟨db.nextId, blockerId.canon, blockedId.canon, db.now⟩]
        nextId := db.nextId + 1 })
  | .deleteBlock blockerId blockedId, db =>
    (.ok (db.blocks blockerId blockedId).length, { db with
      userBlocks := db.userBlocks.filter fun b =>
        ¬ (b.blockerId = blockerId.canon ∧ b.blockedId = blockedId.canon) })
  | .listBlocks blockerId, db =>
    (.ok (orderDesc UserBlock.createdAt (db.userBlocks.filter fun b =>
      b.blockerId = blockerId.canon)), db)
  | .countBlocks blockerId blockedId, db => (.ok (db.blocks blockerId blockedId).length, db)
  | .countBlocksEitherWay userA userB, db =>
    (.ok (db.userBlocks.filter fun b =>
      (b.blockerId = userA.canon ∧ b.blockedId = userB.canon) ∨
        (b.blockerId = userB.canon ∧ b.blockedId = userA.canon)).length, db)
  | .findPeerBlocks actorId peerIds, db =>
    (.ok (db.userBlocks.filter fun b =>
      (b.blockerId = actorId.canon ∧ b.blockedId ∈ peerIds.map UserId.canon) ∨
        (b.blockerId ∈ peerIds.map UserId.canon ∧ b.blockedId = actorId.canon)), db)
  | .countConversations, db =>
    (.ok (db.conversations.filter fun c => c.deletedAt = none).length, db)
  | .countMessages, db => (.ok db.messages.length, db)
  | .countMessagesSince t, db => (.ok (db.countSince t), db)
  | .countConversationsSince t, db => (.ok (db.conversationsSince t), db)
  | .dayRows t, db => (.ok (db.dayRows t), db)
  | .topRows, db => (.ok db.topRows, db)
  | .listAudit skip take, db =>
    (.ok (((orderDesc AuditEvent.createdAt db.auditEvents).drop skip).take take,
      db.auditEvents.length), db)
  | .insertAudit actorId action targetType targetId info, db =>
    (.ok ⟨db.nextId, actorId, action, targetType, targetId, info, db.now⟩, { db with
      auditEvents := db.auditEvents ++
        [⟨db.nextId, actorId.canon, action, targetType, targetId, info, db.now⟩]
      nextId := db.nextId + 1 })
  | .findWorkspace, db => (.ok db.workspaceSettings, db)
  | .saveWorkspace settings, db => (.ok (), { db with workspaceSettings := some settings })
  | .newDate, db => (.ok (jsDate db.now), db)
  | .getTimeZone, db => (.ok db.timeZone, db)

end Relay.Chat
