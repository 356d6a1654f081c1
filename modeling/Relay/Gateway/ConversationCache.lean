import Relay.Gateway.ChatController

/-!
# The member cache

The handlers of the gateway that fill or read the member cache and are not among those of `ChatController`,
and the gateway serving requests one after the other. What these handlers broadcast is left out: it does not
come back to the cache.
-/

namespace Relay.Gateway.ConversationCache

open Relay.Lib ChatController

/-- The members of a conversation as `chat:typing` reads them. The cache is not asked who is asking. -/
def memberIdsFor (actorId : UserId) (conversationId : ConversationId) : M (List UserId) := do
  match ← perform (.getMemberIds conversationId) with
  | some cached => return cached
  | none =>
    let conversation ← perform (.conversation (.getConversation conversationId actorId))
    perform (.setMemberIds conversationId (viewMemberIds conversation))
    return viewMemberIds conversation

/-- The endpoint for typing asks the chat service every time. -/
def typing (u : UserId) (v : ConversationId) : M Unit := do
  let conversation ← perform (.conversation (.getConversation v u))
  perform (.setMemberIds v (viewMemberIds conversation))

/-! ## Requests that name the recipients -/

/-- Asks the chat service; the handler goes on if it has an answer. -/
def request {α : Type} (p : Chat.M α) (next : α → State → State) (s : State) : State :=
  match sendChat p s with
  | (.error _, s) => s
  | (.ok a, s) => next a s

def setMemberIds (v : ConversationId) (memberIds : List UserId) (s : State) : State :=
  (exec (.setMemberIds v memberIds) s).2

def invalidate (v : ConversationId) (s : State) : State := { s with memberIds := s.memberIds.erase v }

/-- The endpoint, `chat:message`, and the history message of a call that has ended. -/
def sendMessage (payload : Chat.SendMessage) : State → State :=
  request (Chat.sendMessage payload) fun result =>
    setMemberIds payload.conversationId result.recipientIds

def forwardMessage (u : UserId) (source target : ConversationId) (m : MessageId) : State → State :=
  request (Chat.forwardMessage u source target m) fun result => setMemberIds target result.recipientIds

def deleteMessage (u : UserId) (v : ConversationId) (m : MessageId) (forEveryone : Bool) :
    State → State :=
  request (Chat.deleteMessage v m u forEveryone) fun result s =>
    if result.forEveryone then setMemberIds v result.recipientIds s else s

/-- The endpoint and `chat:seen`. -/
def markSeen (u : UserId) (v : ConversationId) (m : Option MessageId) : State → State :=
  request (Chat.markSeen v u m) fun result => setMemberIds v result.recipientIds

def deleteGroup (u : UserId) (v : ConversationId) : State → State :=
  request (Chat.deleteGroup v u) fun _ => invalidate v

/-- One tick of the dispatcher of scheduled messages. -/
def tick : State → State :=
  request Chat.dispatchDueScheduled fun delivered s =>
    delivered.foldl (fun s result => setMemberIds result.view.conversationId result.recipientIds s) s

/-! ## Runs -/

/-- The requests to the chat service after which the gateway leaves the cache alone, those of
`ChatController` apart. -/
def leavesCache : Chat.Op → Bool
  | .listMessages _ _ _ | .searchMessages _ _ _ _ | .searchGlobal _ _ _ | .listMedia _ _ _ _
  | .getMessage _ _ _ | .listPinnedMessages _ _ | .expireDueMessages | .scheduleMessage _
  | .listScheduledMessages _ _ | .cancelScheduledMessage _ _ _ | .blockUser _ _ | .unblockUser _ _
  | .listBlocks _ | .prepareVoiceCall _ _ | .getAnalytics | .listAuditEvents _ | .logAudit _ _ _ _ _
  | .getWorkspaceSettings | .updateWorkspaceSettings _ _ _ _ _ => true
  | _ => false

inductive Event where
  /-- A handler of `ChatController`. -/
  | handle (r : Request)
  | disconnect (id : SocketId)
  /-- `chat:typing`. -/
  | memberIdsFor (u : UserId) (v : ConversationId)
  | typing (u : UserId) (v : ConversationId)
  | sendMessage (payload : Chat.SendMessage)
  | forwardMessage (u : UserId) (source target : ConversationId) (m : MessageId)
  | deleteMessage (u : UserId) (v : ConversationId) (m : MessageId) (forEveryone : Bool)
  | markSeen (u : UserId) (v : ConversationId) (m : Option MessageId)
  | deleteGroup (u : UserId) (v : ConversationId)
  | tick
  | other (op : Chat.Op) (h : leavesCache op = true)
  | elapse (d : Time)

def step : Event → State → State
  | .handle r, s => s.handle r.program
  | .disconnect id, s => s.disconnect id
  | .memberIdsFor u v, s => (Prog.run exec (ConversationCache.memberIdsFor u v) s).2
  | .typing u v, s => (Prog.run exec (ConversationCache.typing u v) s).2
  | .sendMessage payload, s => ConversationCache.sendMessage payload s
  | .forwardMessage u source target m, s => ConversationCache.forwardMessage u source target m s
  | .deleteMessage u v m forEveryone, s => ConversationCache.deleteMessage u v m forEveryone s
  | .markSeen u v m, s => ConversationCache.markSeen u v m s
  | .deleteGroup u v, s => ConversationCache.deleteGroup u v s
  | .tick, s => ConversationCache.tick s
  | .other op _, s => { s with db := (op.run s.db).2 }
  | .elapse d, s => { s with db := s.db.wait d }

/-- A gateway and a chat service that have served nothing. -/
def start (now : Time) (timeZone : Int) : State := ⟨Chat.Db.empty now timeZone, [], ⟨∅, ∅, ∅⟩, ∅, [], []⟩

end Relay.Gateway.ConversationCache
