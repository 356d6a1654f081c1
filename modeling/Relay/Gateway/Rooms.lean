import Mathlib.Data.Finset.Basic
import Mathlib.Data.List.AList
import Relay.Lib.Requests
import Relay.Chat.System

/-!
# The rooms of the conversations

Every socket is in the room of its user, and in the rooms of the conversations it has joined. A program is a
handler of the gateway, `chat:join` or a request that makes somebody leave a group; its calls are the
repository calls of the chat service, the commands for the cached member ids, and those for the rooms. What
the handlers broadcast, the presence and call they look up for it, and `data.conversationIds` of a socket are
left out, and so is what a removal does to a running call.
-/

namespace Relay.Gateway.Rooms

open Relay.Lib Relay.Chat

abbrev SocketId := Nat

structure State where
  db : Db
  /-- The connected sockets and their users. -/
  sockets : AList fun _ : SocketId => UserId
  /-- The sockets that are in the room of a conversation. -/
  rooms : Finset (SocketId × ConversationId)
  /-- The cached member ids of a conversation, with the time they expire. -/
  memberIds : AList fun _ : ConversationId => List UserId × Time

def MEMBER_TTL_SECONDS : Nat := 60

inductive Call where
  | chat (c : Chat.Call)
  | getMemberIds (c : ConversationId)
  | setMemberIds (c : ConversationId) (ids : List UserId)
  /-- `client.join`. -/
  | joinRoom (socket : SocketId) (c : ConversationId)
  /-- `server.in(…).fetchSockets()`: the sockets in the room of a user. -/
  | fetchSockets (u : UserId)
  /-- `socket.leave`. -/
  | leaveRoom (socket : SocketId) (c : ConversationId)

@[reducible] def Call.Answer : Call → Type
  | .chat c => c.Answer
  | .getMemberIds _ => Option (List UserId)
  | .setMemberIds _ _ => Unit
  | .joinRoom _ _ => Unit
  | .fetchSockets _ => List SocketId
  | .leaveRoom _ _ => Unit

abbrev M (α : Type) := Prog Call Call.Answer Failure α

abbrev perform (c : Call) : M c.Answer := Prog.perform c

/-- The sockets of a user. -/
def State.socketsOf (s : State) (u : UserId) : List SocketId :=
  (s.sockets.entries.filter fun e => e.2 = u).map Sigma.fst

def exec : (c : Call) → State → Except Failure c.Answer × State
  | .chat c, s => ((Chat.exec c s.db).1, { s with db := (Chat.exec c s.db).2 })
  | .getMemberIds c, s =>
    (.ok (((s.memberIds.lookup c).filter fun e => s.db.now < e.2).map Prod.fst), s)
  | .setMemberIds c ids, s =>
    (.ok (), { s with
      memberIds :=
        if ids = [] then s.memberIds.erase c
        else s.memberIds.insert c (ids.eraseDups, s.db.now + ms (MEMBER_TTL_SECONDS * 1000)) })
  | .joinRoom socket c, s => (.ok (), { s with rooms := insert (socket, c) s.rooms })
  | .fetchSockets u, s => (.ok (s.socketsOf u), s)
  | .leaveRoom socket c, s => (.ok (), { s with rooms := s.rooms.erase (socket, c) })

/-- Time passes, in microseconds. -/
def State.wait (s : State) (d : Nat) : State := { s with db := s.db.wait d }

/-! ## The handlers -/

/-- `proxy.sendChat`. -/
def sendChat {α : Type} : Chat.M α → M α
  | .ret a => .ret a
  | .fail e => .fail e
  | .call c k => .call (.chat c) fun r => sendChat (k r)

/-- `ChatGateway.joinConversation`. -/
def joinConversation (socket : SocketId) (userId : UserId) (c : ConversationId) : M ConversationId := do
  let conversation ← sendChat (getConversation c userId)
  let memberIds := conversation.members.map ConversationMemberView.userId
  perform (.setMemberIds c memberIds)
  perform (.joinRoom socket c)
  return c

def leaveRooms (c : ConversationId) : List SocketId → M Unit
  | [] => return ()
  | socket :: sockets => do
    perform (.leaveRoom socket c)
    leaveRooms c sockets

def forceLeaveConversationRoom (c : ConversationId) (userId : UserId) : M Unit := do
  let sockets ← perform (.fetchSockets userId)
  leaveRooms c sockets

def evictUsersFromConversation (c : ConversationId) : List UserId → M Unit
  | [] => return ()
  | userId :: userIds => do
    forceLeaveConversationRoom c userId
    evictUsersFromConversation c userIds

/-- `ChatController.removeMember`, with the eviction it starts. -/
def removeMember (c : ConversationId) (actorId memberId : UserId) : M ConversationId := do
  let data ← sendChat (Chat.removeMember c actorId memberId)
  perform (.setMemberIds c (data.members.map ConversationMemberView.userId))
  evictUsersFromConversation c [memberId]
  return c

/-- `ChatController.leave`, with the eviction it starts; the conversation is not loaded again for those who
remain. -/
def leave (c : ConversationId) (userId : UserId) : M ConversationId := do
  let cached ← perform (.getMemberIds c)
  let previousIds ← match cached with
    | some ids => pure ids
    | none => do
      let conversation ← sendChat (getConversation c userId)
      pure (conversation.members.map ConversationMemberView.userId)
  let _ ← sendChat (Chat.leave c userId)
  perform (.setMemberIds c (previousIds.filter fun id => id ≠ userId))
  evictUsersFromConversation c [userId]
  return c

inductive Op where
  | joinConversation (socket : SocketId) (userId : UserId) (c : ConversationId)
  | removeMember (c : ConversationId) (actorId memberId : UserId)
  | leave (c : ConversationId) (userId : UserId)
deriving DecidableEq

def Op.program : Op → M ConversationId
  | .joinConversation socket u c => Rooms.joinConversation socket u c
  | .removeMember c a m => Rooms.removeMember c a m
  | .leave c u => Rooms.leave c u

/-- The conversation and the user a request makes leave it. -/
def Op.removes : Op → Option (ConversationId × UserId)
  | .joinConversation _ _ _ => none
  | .removeMember c _ m => some (c, m)
  | .leave c u => some (c, u)

end Relay.Gateway.Rooms
