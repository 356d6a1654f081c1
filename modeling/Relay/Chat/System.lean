import Relay.Lib.Pool
import Relay.Chat.Service

/-!
# The chat service as a system

An `Op` is a request the service receives from the gateway. `Op.run` serves one alone; in a pool the
repository calls of any number of requests interleave, and time passes between them. A database is
`Reachable` when a pool that starts without rows gets to it.
-/

namespace Relay.Chat

open Relay.Lib

inductive Op where
  | createPrivate (actorId otherUserId : UserId)
  | createGroup (actorId : UserId) (name : Text) (memberIds : List UserId)
  | listConversations (actorId : UserId) (page : Page)
  | getConversation (c : ConversationId) (actorId : UserId)
  | listMessages (c : ConversationId) (actorId : UserId) (page : Page)
  | searchMessages (c : ConversationId) (actorId : UserId) (query : Text) (page : Page)
  | searchGlobal (actorId : UserId) (query : Text) (page : Page)
  | listMedia (c : ConversationId) (actorId : UserId) (kind : Option MediaKindFilter) (page : Page)
  | getMessage (c : ConversationId) (m : MessageId) (actorId : UserId)
  | listPinnedMessages (c : ConversationId) (actorId : UserId)
  | sendMessage (payload : SendMessage)
  | forwardMessage (actorId : UserId) (source target : ConversationId) (m : MessageId)
  | editMessage (c : ConversationId) (m : MessageId) (actorId : UserId) (body : Text)
  | reactMessage (c : ConversationId) (m : MessageId) (actorId : UserId) (emoji : Text)
  | pinMessage (c : ConversationId) (m : MessageId) (actorId : UserId) (pinned : Bool)
  | deleteMessage (c : ConversationId) (m : MessageId) (actorId : UserId) (forEveryone : Bool)
  | expireDueMessages
  | scheduleMessage (payload : ScheduleMessage)
  | listScheduledMessages (c : ConversationId) (actorId : UserId)
  | cancelScheduledMessage (c : ConversationId) (scheduled : Nat) (actorId : UserId)
  | dispatchDueScheduled
  | pinConversation (c : ConversationId) (actorId : UserId) (pinned : Bool)
  | muteConversation (c : ConversationId) (actorId : UserId) (muted : Bool)
  | markSeen (c : ConversationId) (actorId : UserId) (m : Option MessageId)
  | setDisappearingMessages (c : ConversationId) (actorId : UserId) (durationSeconds : Nat)
  | addMembers (c : ConversationId) (actorId : UserId) (memberIds : List UserId)
  | removeMember (c : ConversationId) (actorId memberId : UserId)
  | setMemberRole (c : ConversationId) (actorId memberId : UserId)
      (role : Option ConversationMemberRole)
  | leave (c : ConversationId) (actorId : UserId)
  | updateGroup (c : ConversationId) (actorId : UserId) (name : Text)
  | deleteGroup (c : ConversationId) (actorId : UserId)
  | blockUser (actorId userId : UserId)
  | unblockUser (actorId userId : UserId)
  | listBlocks (actorId : UserId)
  | prepareVoiceCall (c : ConversationId) (actorId : UserId)
  | getAnalytics
  | listAuditEvents (page : Page)
  | logAudit (actorId : UserId) (action : Text) (targetType targetId info : Option Text)
  | getWorkspaceSettings
  | updateWorkspaceSettings (actorId : UserId) (appName tagline primaryColor : Option Text)
      (logoUrl : Option (Option Text))

inductive Response where
  | conversation (view : ConversationView)
  | conversations (page : PaginatedResult ConversationView)
  | messages (page : PaginatedResult MessageView)
  | hits (page : PaginatedResult GlobalSearchHitView)
  | message (view : MessageView)
  | pinned (views : List MessageView)
  | sent (result : SendMessageResult)
  | deleted (result : DeleteMessageResult)
  | expired (results : List DeleteMessageResult)
  | scheduled (view : ScheduledMessageView)
  | scheduledList (views : List ScheduledMessageView)
  | dispatched (results : List SendMessageResult)
  | seen (view : SeenResultView)
  | left (left : Bool)
  | groupDeleted (result : DeleteGroupResult)
  | block (view : BlockView)
  | unblocked (unblocked : Bool)
  | blocks (views : List BlockView)
  | call (result : PrepareVoiceCallResult)
  | analytics (view : ChatAnalyticsView)
  | auditEvents (page : PaginatedResult AuditEventView)
  | auditEvent (view : AuditEventView)
  | workspace (view : WorkspaceSettingsView)
deriving DecidableEq

def Op.program : Op → M Response
  | .createPrivate a b => .conversation <$> Chat.createPrivate a b
  | .createGroup a name ids => .conversation <$> Chat.createGroup a name ids
  | .listConversations a page => .conversations <$> Chat.listConversations a page
  | .getConversation c a => .conversation <$> Chat.getConversation c a
  | .listMessages c a page => .messages <$> Chat.listMessages c a page
  | .searchMessages c a query page => .messages <$> Chat.searchMessages c a query page
  | .searchGlobal a query page => .hits <$> Chat.searchGlobal a query page
  | .listMedia c a kind page => .messages <$> Chat.listMedia c a kind page
  | .getMessage c m a => .message <$> Chat.getMessage c m a
  | .listPinnedMessages c a => .pinned <$> Chat.listPinnedMessages c a
  | .sendMessage payload => .sent <$> Chat.sendMessage payload
  | .forwardMessage a source target m => .sent <$> Chat.forwardMessage a source target m
  | .editMessage c m a body => .sent <$> Chat.editMessage c m a body
  | .reactMessage c m a emoji => .sent <$> Chat.reactMessage c m a emoji
  | .pinMessage c m a pinned => .sent <$> Chat.pinMessage c m a pinned
  | .deleteMessage c m a forEveryone => .deleted <$> Chat.deleteMessage c m a forEveryone
  | .expireDueMessages => .expired <$> Chat.expireDueMessages
  | .scheduleMessage payload => .scheduled <$> Chat.scheduleMessage payload
  | .listScheduledMessages c a => .scheduledList <$> Chat.listScheduledMessages c a
  | .cancelScheduledMessage c id a => .scheduled <$> Chat.cancelScheduledMessage c id a
  | .dispatchDueScheduled => .dispatched <$> Chat.dispatchDueScheduled
  | .pinConversation c a pinned => .conversation <$> Chat.pinConversation c a pinned
  | .muteConversation c a muted => .conversation <$> Chat.muteConversation c a muted
  | .markSeen c a m => .seen <$> Chat.markSeen c a m
  | .setDisappearingMessages c a n => .conversation <$> Chat.setDisappearingMessages c a n
  | .addMembers c a ids => .conversation <$> Chat.addMembers c a ids
  | .removeMember c a u => .conversation <$> Chat.removeMember c a u
  | .setMemberRole c a u role => .conversation <$> Chat.setMemberRole c a u role
  | .leave c a => .left <$> Chat.leave c a
  | .updateGroup c a name => .conversation <$> Chat.updateGroup c a name
  | .deleteGroup c a => .groupDeleted <$> Chat.deleteGroup c a
  | .blockUser a u => .block <$> Chat.blockUser a u
  | .unblockUser a u => .unblocked <$> Chat.unblockUser a u
  | .listBlocks a => .blocks <$> Chat.listBlocks a
  | .prepareVoiceCall c a => .call <$> Chat.prepareVoiceCall c a
  | .getAnalytics => .analytics <$> Chat.getAnalytics
  | .listAuditEvents page => .auditEvents <$> Chat.listAuditEvents page
  | .logAudit a action type id info => .auditEvent <$> Chat.logAudit a action type id info
  | .getWorkspaceSettings => .workspace <$> Chat.getWorkspaceSettings
  | .updateWorkspaceSettings a n t p l => .workspace <$> Chat.updateWorkspaceSettings a n t p l

/-- The operation served alone: its response or error, and the database it leaves. -/
def Op.run (op : Op) (db : Db) : Except Failure Response × Db := Prog.run exec op.program db

/-- The `actorId` of a request; the background jobs and some reads have none. -/
def Op.actor : Op → Option UserId
  | .createPrivate a _ | .createGroup a _ _ | .listConversations a _ | .getConversation _ a
  | .listMessages _ a _ | .searchMessages _ a _ _ | .searchGlobal a _ _ | .listMedia _ a _ _
  | .getMessage _ _ a | .listPinnedMessages _ a | .forwardMessage a _ _ _ | .editMessage _ _ a _
  | .reactMessage _ _ a _ | .pinMessage _ _ a _ | .deleteMessage _ _ a _
  | .listScheduledMessages _ a | .cancelScheduledMessage _ _ a | .pinConversation _ a _
  | .muteConversation _ a _ | .markSeen _ a _ | .setDisappearingMessages _ a _ | .addMembers _ a _
  | .removeMember _ a _ | .setMemberRole _ a _ _ | .leave _ a | .updateGroup _ a _
  | .deleteGroup _ a | .blockUser a _ | .unblockUser a _ | .listBlocks a | .prepareVoiceCall _ a
  | .logAudit a _ _ _ _ | .updateWorkspaceSettings a _ _ _ _ => some a
  | .sendMessage payload => some payload.actorId
  | .scheduleMessage payload => some payload.actorId
  | .expireDueMessages | .dispatchDueScheduled | .getAnalytics | .listAuditEvents _
  | .getWorkspaceSettings => none

/-- Operations of the administration and of the background jobs. -/
def Op.isInternal : Op → Bool
  | .getAnalytics | .listAuditEvents _ | .logAudit _ _ _ _ _ | .dispatchDueScheduled
  | .expireDueMessages => true
  | _ => false

/-- Time passes, in microseconds. -/
def Db.wait (db : Db) (d : Nat) : Db := { db with now := db.now + d }

abbrev ChatPool := Pool Call Call.Answer Failure Response Db

abbrev ChatEvent := Pool.Event Op Nat

/-- The requests being served and the time that passes. -/
def poolStep : ChatEvent → ChatPool → ChatPool :=
  Pool.step exec Op.program fun d db => db.wait d

def Reachable (db : Db) : Prop :=
  ∃ (now : Time) (timeZone : Int) (es : List ChatEvent),
    (Runs.final poolStep es ⟨Db.empty now timeZone, []⟩).store = db

end Relay.Chat
