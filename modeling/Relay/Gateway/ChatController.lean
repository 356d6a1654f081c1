import Mathlib.Data.List.AList
import Relay.Chat.System

/-!
# Conversations, presence and who is told about them

The handlers of the gateway that show conversations, messages or the presence of users: the endpoints of
`ChatController`, and the connections and rooms of `ChatGateway`. The log `sent` holds what a handler has
sent to whom, responses and socket events alike; a socket event goes to the clients in its rooms. Looking up
a profile succeeds. Push notifications, the storage and the calls of the users are left out.
-/

namespace Relay.Gateway.ChatController

open Relay.Lib Relay.Chat

abbrev SocketId := Nat

def ONLINE_TTL_SECONDS : Nat := 45

def SOCKETS_TTL_SECONDS : Nat := 86400

def MEMBER_TTL_SECONDS : Nat := 60

def seconds (n : Nat) : Time := ms (n * 1000)

/-! ## Presence -/

structure PresenceView where
  userId : UserId
  status : PresenceStatus
  lastSeenAt : Option Time
deriving DecidableEq

/-- The keys of `PresenceService`; a key that expires is kept with the time it does. -/
structure Presence where
  online : AList fun _ : UserId => Time
  sockets : AList fun _ : UserId => List SocketId × Time
  lastSeen : AList fun _ : UserId => Time

namespace Presence

variable (p : Presence) (now : Time)

def isOnline (u : UserId) : Bool := (p.online.lookup u).any fun t => now < t

/-- The connected sockets of a user, as far as the key is there. -/
def socketsOf (u : UserId) : List SocketId :=
  match p.sockets.lookup u with
  | none => []
  | some (ids, t) => if now < t then ids else []

def view (u : UserId) : PresenceView where
  userId := u
  status := if p.isOnline now u then .online else .offline
  lastSeenAt := if p.isOnline now u then none else p.lastSeen.lookup u

/-- The new presence, and whether the user became online. -/
def connect (u : UserId) (id : SocketId) : Bool × Presence :=
  (!p.isOnline now u,
    { online := p.online.insert u (now + seconds ONLINE_TTL_SECONDS)
      sockets := p.sockets.insert u
        ((p.socketsOf now u).insert id, now + seconds SOCKETS_TTL_SECONDS)
      lastSeen := p.lastSeen.erase u })

/-- Restarts the expiry of the online key, if there is one. -/
def keepOnline (u : UserId) : Presence :=
  if p.isOnline now u then
    { p with online := p.online.insert u (now + seconds ONLINE_TTL_SECONDS) }
  else p

/-- A set keeps its expiry when a member is removed. -/
def removeSocket (u : UserId) (id : SocketId) : Presence :=
  match p.sockets.lookup u with
  | none => p
  | some (ids, t) => { p with sockets := p.sockets.insert u (ids.filter (· ≠ id), t) }

def disconnect (u : UserId) (id : SocketId) : PresenceView × Presence :=
  let p' := p.removeSocket u id
  if p'.socketsOf now u ≠ [] then (⟨u, .online, none⟩, p'.keepOnline now u)
  else
    (⟨u, .offline, some (jsDate now)⟩,
      { p' with online := p'.online.erase u, lastSeen := p'.lastSeen.insert u (jsDate now) })

def heartbeat (u : UserId) : Presence :=
  if p.socketsOf now u ≠ [] then p.keepOnline now u else p

end Presence

/-! ## The state and the calls -/

/-- A connected socket and the conversation rooms it has joined. -/
structure Client where
  id : SocketId
  userId : UserId
  conversationIds : List ConversationId
deriving DecidableEq

inductive Room where
  | user (u : UserId)
  | conversation (v : ConversationId)
deriving DecidableEq

def Client.isIn (client : Client) : Room → Bool
  | .user u => client.userId = u
  | .conversation v => v ∈ client.conversationIds

/-- The data of a response, or a socket event with its payload. -/
inductive Payload where
  | conversation (view : ConversationView)
  | conversations (page : PaginatedResult ConversationView)
  | message (view : MessageView)
  | presence (view : PresenceView)
  | left (left : Bool)
  | chatMessage (view : MessageView)
  | conversationUpdated (view : ConversationView)
  | chatPresence (view : PresenceView) (v : Option ConversationId)
  | removedFromGroup (v : ConversationId)
deriving DecidableEq

structure State where
  db : Db
  /-- The users whose profile has `showLastSeen` off. -/
  lastSeenHidden : List UserId
  presence : Presence
  /-- The member sets the gateway has cached, each in some order and with the time the key expires. -/
  memberIds : AList fun _ : ConversationId => List UserId × Time
  clients : List Client
  sent : List (UserId × Payload)

/-- The requests to the chat service that are answered with a conversation. -/
inductive ConversationRequest where
  | createPrivate (actorId otherUserId : UserId)
  | createGroup (actorId : UserId) (name : Text) (memberIds : List UserId)
  | getConversation (v : ConversationId) (actorId : UserId)
  | muteConversation (v : ConversationId) (actorId : UserId) (muted : Bool)
  | pinConversation (v : ConversationId) (actorId : UserId) (pinned : Bool)
  | setDisappearingMessages (v : ConversationId) (actorId : UserId) (durationSeconds : Nat)
  | addMembers (v : ConversationId) (actorId : UserId) (memberIds : List UserId)
  | setMemberRole (v : ConversationId) (actorId memberId : UserId)
      (role : Option ConversationMemberRole)
  | removeMember (v : ConversationId) (actorId memberId : UserId)
  | updateGroup (v : ConversationId) (actorId : UserId) (name : Text)
deriving DecidableEq

def ConversationRequest.program : ConversationRequest → Chat.M ConversationView
  | .createPrivate a b => Chat.createPrivate a b
  | .createGroup a name ids => Chat.createGroup a name ids
  | .getConversation v a => Chat.getConversation v a
  | .muteConversation v a muted => Chat.muteConversation v a muted
  | .pinConversation v a pinned => Chat.pinConversation v a pinned
  | .setDisappearingMessages v a n => Chat.setDisappearingMessages v a n
  | .addMembers v a ids => Chat.addMembers v a ids
  | .setMemberRole v a b role => Chat.setMemberRole v a b role
  | .removeMember v a b => Chat.removeMember v a b
  | .updateGroup v a name => Chat.updateGroup v a name

/-- The requests to the chat service that change a message and are answered with it. -/
inductive MessageRequest where
  | editMessage (v : ConversationId) (m : MessageId) (actorId : UserId) (body : Text)
  | reactMessage (v : ConversationId) (m : MessageId) (actorId : UserId) (emoji : Text)
  | pinMessage (v : ConversationId) (m : MessageId) (actorId : UserId) (pinned : Bool)
deriving DecidableEq

def MessageRequest.program : MessageRequest → Chat.M SendMessageResult
  | .editMessage v m a body => Chat.editMessage v m a body
  | .reactMessage v m a emoji => Chat.reactMessage v m a emoji
  | .pinMessage v m a pinned => Chat.pinMessage v m a pinned

/-- `findByUserId` answers `showLastSeen` of the profile. -/
inductive Call where
  | conversation (r : ConversationRequest)
  | message (r : MessageRequest)
  | listConversations (u : UserId) (page : Page)
  | leave (v : ConversationId) (u : UserId)
  | findByUserId (u : UserId)
  | connect (u : UserId) (id : SocketId)
  | disconnect (u : UserId) (id : SocketId)
  | heartbeat (u : UserId)
  | getMany (userIds : List UserId)
  | getMemberIds (v : ConversationId)
  | setMemberIds (v : ConversationId) (memberIds : List UserId)
  | client (id : SocketId)
  | addClient (client : Client)
  | joinRoom (id : SocketId) (v : ConversationId)
  | leaveRoom (id : SocketId) (v : ConversationId)
  | forceLeaveConversationRoom (v : ConversationId) (u : UserId)
  | emit (rooms : List Room) (event : Payload)
  | respond (u : UserId) (data : Payload)
deriving DecidableEq

@[reducible] def Call.Answer : Call → Type
  | .conversation _ => ConversationView
  | .message _ => SendMessageResult
  | .listConversations _ _ => PaginatedResult ConversationView
  | .leave _ _ => Bool
  | .findByUserId _ => Bool
  | .connect _ _ => Bool
  | .disconnect _ _ => PresenceView
  | .heartbeat _ => Unit
  | .getMany _ => List PresenceView
  | .getMemberIds _ => Option (List UserId)
  | .setMemberIds _ _ => Unit
  | .client _ => Option Client
  | .addClient _ => Unit
  | .joinRoom _ _ => Unit
  | .leaveRoom _ _ => Unit
  | .forceLeaveConversationRoom _ _ => Unit
  | .emit _ _ => Unit
  | .respond _ _ => Unit

/-- The gateway rejects a request, or the chat service does. -/
inductive Exception where
  | badRequest (message : String)
  | chat (failure : Failure)
deriving DecidableEq

abbrev M (α : Type) := Prog Call Call.Answer Exception α

/-- Serves a request to the chat service alone. -/
def sendChat {α : Type} (p : Chat.M α) (s : State) : Except Exception α × State :=
  ((Prog.run Chat.exec p s.db).1.mapError .chat, { s with db := (Prog.run Chat.exec p s.db).2 })

namespace State

variable (s : State)

/-- The presence of a user as the gateway reads it. -/
def presenceOf (u : UserId) : PresenceView := s.presence.view s.db.now u

/-- The members of a conversation in the cache; an empty set is no key. -/
def cachedIds (v : ConversationId) : Option (List UserId) :=
  match s.memberIds.lookup v with
  | none => none
  | some (ids, t) => if s.db.now < t ∧ ids ≠ [] then some ids else none

/-- The users of the clients in one of the rooms, one entry for each client. -/
def listeners (rooms : List Room) : List UserId :=
  (s.clients.filter fun client => rooms.any client.isIn).map Client.userId

def send (userIds : List UserId) (payload : Payload) : State :=
  { s with sent := s.sent ++ userIds.map fun u => (u, payload) }

/-- Changes the conversation rooms of some clients. -/
def moveClients (p : Client → Bool) (f : List ConversationId → List ConversationId) : State :=
  { s with
    clients := s.clients.map fun client =>
      if p client then { client with conversationIds := f client.conversationIds } else client }

end State

def exec : (c : Call) → State → Except Exception c.Answer × State
  | .conversation r, s => sendChat r.program s
  | .message r, s => sendChat r.program s
  | .listConversations u page, s => sendChat (Chat.listConversations u page) s
  | .leave v u, s => sendChat (Chat.leave v u) s
  | .findByUserId u, s => (.ok (u ∉ s.lastSeenHidden), s)
  | .connect u id, s =>
    let r := s.presence.connect s.db.now u id
    (.ok r.1, { s with presence := r.2 })
  | .disconnect u id, s =>
    let r := s.presence.disconnect s.db.now u id
    (.ok r.1, { s with presence := r.2 })
  | .heartbeat u, s => (.ok (), { s with presence := s.presence.heartbeat s.db.now u })
  | .getMany userIds, s => (.ok (userIds.map s.presenceOf), s)
  | .getMemberIds v, s => (.ok (s.cachedIds v), s)
  | .setMemberIds v ids, s =>
    (.ok (), { s with
      memberIds := s.memberIds.insert v (ids.eraseDups, s.db.now + seconds MEMBER_TTL_SECONDS) })
  | .client id, s => (.ok (s.clients.find? fun client => client.id = id), s)
  | .addClient client, s => (.ok (), { s with clients := client :: s.clients })
  | .joinRoom id v, s =>
    (.ok (), s.moveClients (fun client => client.id = id) fun vs => (vs ++ [v]).eraseDups)
  | .leaveRoom id v, s =>
    (.ok (), s.moveClients (fun client => client.id = id) (List.filter (· ≠ v)))
  | .forceLeaveConversationRoom v u, s =>
    (.ok (), s.moveClients (fun client => client.userId = u) (List.filter (· ≠ v)))
  | .emit rooms event, s => (.ok (), s.send (s.listeners rooms) event)
  | .respond u data, s => (.ok (), s.send [u] data)

/-! ## Helpers of the handlers -/

abbrev perform (c : Call) : M c.Answer := Prog.perform c

def respond (u : UserId) (data : Payload) : M Unit := perform (.respond u data)

/-- The rooms of the recipients; without any, the room of the conversation. -/
def roomsOf (v : ConversationId) (recipientIds : List UserId) : List Room :=
  if 0 < recipientIds.length then recipientIds.map Room.user else [.conversation v]

def emitToMembers (event : Payload) (v : ConversationId) (recipientIds : List UserId) : M Unit :=
  perform (.emit (roomsOf v recipientIds) event)

def broadcastMessage (message : MessageView) (recipientIds : List UserId) : M Unit :=
  emitToMembers (.chatMessage message) message.conversationId recipientIds

def broadcastConversationUpdated (conversation : ConversationView) (recipientIds : List UserId) :
    M Unit :=
  emitToMembers (.conversationUpdated conversation) conversation.id recipientIds

/-- The ids of all members, each once. -/
def allMemberIds (conversations : List ConversationView) : List UserId :=
  (conversations.flatMap fun c => c.members.map ConversationMemberView.userId).eraseDups

/-- A conversation with the presence of its members. -/
def attachPresence (presence : List PresenceView) (c : ConversationView) : ConversationView :=
  { c with
    members := c.members.map fun member =>
      let live := presence.find? fun p => p.userId = member.userId
      { member with
        status := (live.map PresenceView.status).getD .offline
        lastSeenAt := live.bind PresenceView.lastSeenAt } }

def attachToConversations (conversations : List ConversationView) : M (List ConversationView) := do
  let presence ← perform (.getMany (allMemberIds conversations))
  return conversations.map (attachPresence presence)

def attachToConversation (conversation : ConversationView) : M ConversationView := do
  let presence ← perform (.getMany (allMemberIds [conversation]))
  return attachPresence presence conversation

/-- The members with a last-seen time to show. -/
def lastSeenUserIds (conversations : List ConversationView) : List UserId :=
  (conversations.flatMap fun c =>
    (c.members.filter fun member => member.status = .offline ∧ member.lastSeenAt ≠ none).map
      ConversationMemberView.userId).eraseDups

/-- The users among these whose profile hides their last-seen time. -/
def hiddenAmong : List UserId → M (List UserId)
  | [] => return []
  | u :: us => do
    let showLastSeen ← perform (.findByUserId u)
    let hidden ← hiddenAmong us
    return if showLastSeen then hidden else u :: hidden

def stripLastSeen (hidden : List UserId) (c : ConversationView) : ConversationView :=
  { c with
    members := c.members.map fun member =>
      if member.userId ∈ hidden then { member with lastSeenAt := none } else member }

def applyLastSeenPrivacy (conversations : List ConversationView) : M (List ConversationView) := do
  let hidden ← hiddenAmong (lastSeenUserIds conversations)
  return conversations.map (stripLastSeen hidden)

def applyLastSeenPrivacyTo (conversation : ConversationView) : M ConversationView := do
  let hidden ← hiddenAmong (lastSeenUserIds [conversation])
  return stripLastSeen hidden conversation

def stripLastSeenIfHidden (p : PresenceView) : M PresenceView := do
  if p.status ≠ .offline ∨ p.lastSeenAt = none then return p
  else
    let showLastSeen ← perform (.findByUserId p.userId)
    return if showLastSeen then p else { p with lastSeenAt := none }

def viewMemberIds (c : ConversationView) : List UserId :=
  c.members.map ConversationMemberView.userId

def assertUserExists (u : UserId) : M Unit := do
  let _ ← perform (.findByUserId u)

def assertUsersExist : List UserId → M Unit
  | [] => return ()
  | u :: us => do
    assertUserExists u
    assertUsersExist us

/-! ## The endpoints -/

def createPrivate (u otherUserId : UserId) : M Unit := do
  if otherUserId = u then .fail (.badRequest "You cannot start a private chat with yourself")
  else
    assertUserExists otherUserId
    let data ← perform (.conversation (.createPrivate u otherUserId))
    let data ← attachToConversation data
    respond u (.conversation data)

def createGroup (u : UserId) (name : Text) (memberIds : List UserId) : M Unit := do
  assertUsersExist (memberIds.filter (· ≠ u))
  let data ← perform (.conversation (.createGroup u name memberIds))
  let data ← attachToConversation data
  perform (.setMemberIds data.id (viewMemberIds data))
  broadcastConversationUpdated data (viewMemberIds data)
  respond u (.conversation data)

def listConversations (u : UserId) (page : Page) : M Unit := do
  let data ← perform (.listConversations u page)
  let items ← attachToConversations data.items
  let items ← applyLastSeenPrivacy items
  respond u (.conversations { data with items })

def getPresence (u : UserId) (userId : UserId) : M Unit := do
  let views ← perform (.getMany [userId])
  let data ← stripLastSeenIfHidden (views.head?.getD ⟨userId, .offline, none⟩)
  respond u (.presence data)

/-- The endpoints that show a conversation to the user alone. -/
def showConversation (u : UserId) (r : ConversationRequest) : M Unit := do
  let data ← perform (.conversation r)
  let data ← attachToConversation data
  let data ← applyLastSeenPrivacyTo data
  respond u (.conversation data)

def getConversation (u : UserId) (v : ConversationId) : M Unit :=
  showConversation u (.getConversation v u)

def muteConversation (u : UserId) (v : ConversationId) (muted : Bool) : M Unit :=
  showConversation u (.muteConversation v u muted)

def pinConversation (u : UserId) (v : ConversationId) (pinned : Bool) : M Unit :=
  showConversation u (.pinConversation v u pinned)

def setDisappearing (u : UserId) (v : ConversationId) (durationSeconds : Nat) : M Unit := do
  let data ← perform (.conversation (.setDisappearingMessages v u durationSeconds))
  let data ← attachToConversation data
  let data ← applyLastSeenPrivacyTo data
  perform (.setMemberIds v (viewMemberIds data))
  broadcastConversationUpdated data (viewMemberIds data)
  respond u (.conversation data)

def addMembers (u : UserId) (v : ConversationId) (memberIds : List UserId) : M Unit := do
  assertUsersExist memberIds
  let data ← perform (.conversation (.addMembers v u memberIds))
  let data ← attachToConversation data
  perform (.setMemberIds v (viewMemberIds data))
  broadcastConversationUpdated data (viewMemberIds data)
  respond u (.conversation data)

def setMemberRole (u : UserId) (v : ConversationId) (memberId : UserId)
    (role : Option ConversationMemberRole) : M Unit := do
  let data ← perform (.conversation (.setMemberRole v u memberId role))
  let data ← attachToConversation data
  let data ← applyLastSeenPrivacyTo data
  broadcastConversationUpdated data (viewMemberIds data)
  respond u (.conversation data)

def removeMember (u : UserId) (v : ConversationId) (memberId : UserId) : M Unit := do
  let data ← perform (.conversation (.removeMember v u memberId))
  let data ← attachToConversation data
  perform (.setMemberIds v (viewMemberIds data))
  broadcastConversationUpdated data (viewMemberIds data)
  perform (.emit [.user memberId] (.removedFromGroup v))
  perform (.forceLeaveConversationRoom v memberId)
  respond u (.conversation data)

/-- The members before, from the cache or the chat service. -/
def previousIds (u : UserId) (v : ConversationId) : M (List UserId) := do
  match ← perform (.getMemberIds v) with
  | some ids => return ids
  | none =>
    let data ← perform (.conversation (.getConversation v u))
    return viewMemberIds data

/-- The remaining members are told; a failure is ignored. -/
def tellRemaining (v : ConversationId) : List UserId → M Unit
  | [] => return ()
  | first :: rest => do
    let _ ← (do
      let conversation ← perform (.conversation (.getConversation v first))
      let conversation ← attachToConversation conversation
      broadcastConversationUpdated conversation (first :: rest) : M Unit).attempt

def leave (u : UserId) (v : ConversationId) : M Unit := do
  let previousIds ← previousIds u v
  let left ← perform (.leave v u)
  let remainingIds := previousIds.filter (· ≠ u)
  perform (.setMemberIds v remainingIds)
  perform (.emit [.user u] (.removedFromGroup v))
  perform (.forceLeaveConversationRoom v u)
  tellRemaining v remainingIds
  respond u (.left left)

def updateGroup (u : UserId) (v : ConversationId) (name : Text) : M Unit := do
  let data ← perform (.conversation (.updateGroup v u name))
  let data ← attachToConversation data
  broadcastConversationUpdated data (viewMemberIds data)
  respond u (.conversation data)

/-- `editMessage`, `reactMessage` and `pinMessage`. -/
def changeMessage (u : UserId) (v : ConversationId) (r : MessageRequest) : M Unit := do
  let result ← perform (.message r)
  perform (.setMemberIds v result.recipientIds)
  broadcastMessage result.view result.recipientIds
  respond u (.message result.view)

def editMessage (u : UserId) (v : ConversationId) (m : MessageId) (body : Text) : M Unit :=
  changeMessage u v (.editMessage v m u body)

def reactMessage (u : UserId) (v : ConversationId) (m : MessageId) (emoji : Text) : M Unit :=
  changeMessage u v (.reactMessage v m u emoji)

def pinMessage (u : UserId) (v : ConversationId) (m : MessageId) (pinned : Bool) : M Unit :=
  changeMessage u v (.pinMessage v m u pinned)

/-! ## The sockets -/

def handleConnection (id : SocketId) (u : UserId) : M Unit := do
  perform (.addClient ⟨id, u, []⟩)
  let becameOnline ← perform (.connect u id)
  if becameOnline then
    perform (.emit [.user u] (.chatPresence ⟨u, .online, none⟩ none))

/-- One event for each peer. -/
def tellPeers (p : PresenceView) : List UserId → M Unit
  | [] => return ()
  | u :: us => do
    perform (.emit [.user u] (.chatPresence p none))
    tellPeers p us

/-- The loop over the conversations, with the peers collected so far. -/
def fanOutPresence (p : PresenceView) (peerIds : List UserId) : List ConversationId → M Unit
  | [] => tellPeers p peerIds.eraseDups
  | v :: vs => do
    perform (.emit [.conversation v] (.chatPresence p (some v)))
    let members ← perform (.getMemberIds v)
    fanOutPresence p (peerIds ++ (members.getD []).filter (· ≠ p.userId)) vs

/-- The socket has left its rooms when it is called. -/
def handleDisconnect (client : Client) : M Unit := do
  let result ← perform (.disconnect client.userId client.id)
  if result.status = .offline then
    fanOutPresence result [] client.conversationIds

def joinConversation (id : SocketId) (v : ConversationId) : M Unit := do
  match ← perform (.client id) with
  | none => return ()
  | some client =>
    let conversation ← perform (.conversation (.getConversation v client.userId))
    perform (.setMemberIds v (viewMemberIds conversation))
    perform (.joinRoom id v)
    emitToMembers (.chatPresence ⟨client.userId, .online, none⟩ (some v)) v
      (viewMemberIds conversation)

def heartbeat (id : SocketId) : M Unit := do
  match ← perform (.client id) with
  | none => return ()
  | some client => perform (.heartbeat client.userId)

/-! ## Runs -/

inductive Request where
  | createPrivate (u otherUserId : UserId)
  | createGroup (u : UserId) (name : Text) (memberIds : List UserId)
  | listConversations (u : UserId) (page : Page)
  | getPresence (u userId : UserId)
  | getConversation (u : UserId) (v : ConversationId)
  | muteConversation (u : UserId) (v : ConversationId) (muted : Bool)
  | pinConversation (u : UserId) (v : ConversationId) (pinned : Bool)
  | setDisappearing (u : UserId) (v : ConversationId) (durationSeconds : Nat)
  | addMembers (u : UserId) (v : ConversationId) (memberIds : List UserId)
  | setMemberRole (u : UserId) (v : ConversationId) (memberId : UserId)
      (role : Option ConversationMemberRole)
  | removeMember (u : UserId) (v : ConversationId) (memberId : UserId)
  | leave (u : UserId) (v : ConversationId)
  | updateGroup (u : UserId) (v : ConversationId) (name : Text)
  | editMessage (u : UserId) (v : ConversationId) (m : MessageId) (body : Text)
  | reactMessage (u : UserId) (v : ConversationId) (m : MessageId) (emoji : Text)
  | pinMessage (u : UserId) (v : ConversationId) (m : MessageId) (pinned : Bool)
  | connect (id : SocketId) (u : UserId)
  | joinConversation (id : SocketId) (v : ConversationId)
  | leaveConversationRoom (id : SocketId) (v : ConversationId)
  | heartbeat (id : SocketId)

def Request.program : Request → M Unit
  | .createPrivate u b => ChatController.createPrivate u b
  | .createGroup u name ids => ChatController.createGroup u name ids
  | .listConversations u page => ChatController.listConversations u page
  | .getPresence u userId => ChatController.getPresence u userId
  | .getConversation u v => ChatController.getConversation u v
  | .muteConversation u v muted => ChatController.muteConversation u v muted
  | .pinConversation u v pinned => ChatController.pinConversation u v pinned
  | .setDisappearing u v n => ChatController.setDisappearing u v n
  | .addMembers u v ids => ChatController.addMembers u v ids
  | .setMemberRole u v b role => ChatController.setMemberRole u v b role
  | .removeMember u v b => ChatController.removeMember u v b
  | .leave u v => ChatController.leave u v
  | .updateGroup u v name => ChatController.updateGroup u v name
  | .editMessage u v m body => ChatController.editMessage u v m body
  | .reactMessage u v m emoji => ChatController.reactMessage u v m emoji
  | .pinMessage u v m pinned => ChatController.pinMessage u v m pinned
  | .connect id u => handleConnection id u
  | .joinConversation id v => ChatController.joinConversation id v
  | .leaveConversationRoom id v => perform (.leaveRoom id v)
  | .heartbeat id => ChatController.heartbeat id

/-- Runs a handler alone; `sent` is then what it has sent. -/
def State.handle (p : M Unit) (s : State) : State := (Prog.run exec p { s with sent := [] }).2

/-- A socket goes away: it leaves its rooms, then the gateway is told. -/
def State.disconnect (id : SocketId) (s : State) : State :=
  match s.clients.find? fun client => client.id = id with
  | none => { s with sent := [] }
  | some client =>
    State.handle (handleDisconnect client)
      { s with clients := s.clients.filter fun client => client.id ≠ id }

inductive Event where
  | request (r : Request)
  | disconnect (id : SocketId)
  | updateProfile (u : UserId) (showLastSeen : Bool)
  /-- Another handler caches the members of a conversation. -/
  | setMemberIds (v : ConversationId) (memberIds : List UserId)
  /-- The chat service serves another request. -/
  | chat (op : Op)
  | elapse (d : Time)

def step : Event → State → State
  | .request r, s => s.handle r.program
  | .disconnect id, s => s.disconnect id
  | .updateProfile u showLastSeen, s =>
    { s with
      lastSeenHidden := if showLastSeen then s.lastSeenHidden.filter (· ≠ u) else u :: s.lastSeenHidden, sent := [] }
  | .setMemberIds v ids, s => s.handle (perform (.setMemberIds v ids))
  | .chat op, s => { s with db := (op.run s.db).2, sent := [] }
  | .elapse d, s => { s with db := s.db.wait d, sent := [] }

end Relay.Gateway.ChatController
