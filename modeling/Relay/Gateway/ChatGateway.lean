import Relay.Chat.System
import Relay.Gateway.CallSession

/-!
# The call handlers of the gateway

A handler is a program over the Redis commands of the call service, the requests to the chat service,
and what the gateway keeps itself: the ring timers, the recent invites of each user and the socket
events. The ids of users come from authenticated sockets and requests.

A ring timer that has fired is gone from `ringTimers`; the handle that the source keeps until the next
`clearRingTimer` does nothing any more. A connection blip is waited for outside the model: presence is
read when the handler gets there.
-/

namespace Relay.Gateway.ChatGateway

open Relay.Lib CallSession

def RING_TIMEOUT_MS : Nat := 45000

def CALL_INVITE_WINDOW_MS : Nat := 60000

def CALL_INVITE_MAX_PER_WINDOW : Nat := 5

/-! ## Ended calls and their history -/

inductive CallEndReason where
  | hangup | rejected | timeout | offline
deriving DecidableEq

inductive CallOutcome where
  | completed | missed | declined | cancelled
deriving DecidableEq

/-- The body of the history message of a call, with its sender and its conversation. -/
structure CallHistory where
  actorId : UserId
  conversationId : ConversationId
  callId : CallId
  kind : CallKind
  media : CallMedia
  outcome : CallOutcome
  durationSeconds : Nat
  reason : CallEndReason
  byUserId : UserId
deriving DecidableEq

def hadConversation (x : VoiceCallSession) (reason : CallEndReason) : Bool :=
  x.connectedAt.isSome || 2 ≤ x.joinedIds.length ||
    (x.kind == .group && 1 ≤ x.joinedIds.length && reason != .timeout)

def callOutcome (x : VoiceCallSession) (reason : CallEndReason) : CallOutcome :=
  let outcome :=
    match reason with
    | .rejected => CallOutcome.declined
    | .timeout => if hadConversation x reason then .completed else .missed
    | .hangup => if hadConversation x reason then .completed else .cancelled
    | .offline => if hadConversation x reason then .completed else .cancelled
  -- A group call in which nobody but the host was ever connected is not completed.
  if x.kind = .group ∧ outcome = .completed ∧ x.joinedIds.length ≤ 1 ∧ x.connectedAt = none then
    if reason = .timeout then .missed else .cancelled
  else outcome

/-- `Math.round` of a number of milliseconds over 1000; a negative duration counts as 0. -/
def roundSeconds (d : Time) : Nat := (d / 1000 + 500) / 1000

def callHistory (x : VoiceCallSession) (byUserId : UserId) (reason : CallEndReason) (now : Time) :
    CallHistory where
  actorId := x.hostId
  conversationId := x.conversationId
  callId := x.callId
  kind := x.kind
  media := x.media
  outcome := callOutcome x reason
  durationSeconds :=
    match x.connectedAt with
    | none => 0
    | some t =>
      if callOutcome x reason = .completed then roundSeconds (jsDate now - jsDate t) else 0
  reason := reason
  byUserId := byUserId

/-! ## The state and the calls -/

/-- What a ring timer does when it fires. -/
inductive RingJob where
  | timeoutRingingCall
  | timeoutRingingInvitees (invitedIds : List UserId)
deriving DecidableEq

structure RingTimer where
  due : Time
  job : RingJob
deriving DecidableEq

structure State where
  redis : Redis
  db : Chat.Db
  /-- The timers that are pending. -/
  ringTimers : AList fun _ : CallId => RingTimer
  inviteRateByUser : AList fun _ : UserId => List Time
  /-- The users `PresenceService` reports online. -/
  online : List UserId
  /-- The history messages `emitCallEnded` has asked for, one for each time it was called. -/
  histories : List CallHistory

namespace State

/-- The pending ring timer of a call. -/
def ringTimer (s : State) (c : CallId) : Option RingTimer := s.ringTimers.lookup c

/-- The recent invites of a user. -/
def recentInvites (s : State) (u : UserId) : List Time := (s.inviteRateByUser.lookup u).getD []

end State

/-- The socket events of a call, sent to the rooms of users. -/
inductive CallEvent where
  | incoming (x : VoiceCallSession) (fromUserId : UserId)
  | participantJoined (x : VoiceCallSession) (byUserId : UserId)
  | accepted (x : VoiceCallSession) (byUserId : UserId)
  | declined (c : CallId) (v : ConversationId) (byUserId : UserId)
  | participantLeft (c : CallId) (v : ConversationId) (byUserId : UserId) (ids : List UserId)
  | removed (c : CallId) (v : ConversationId) (byUserId : UserId)
  | held (x : VoiceCallSession) (byUserId : UserId)
  | forceMute (x : VoiceCallSession) (byUserId : UserId)
  | screenShare (x : VoiceCallSession) (byUserId : UserId)
  | lobby (payload : CallLobbyPayload)
  | roster (payload : CallRosterPayload)
deriving DecidableEq

/-- `emitCallEvent` sends one event to each of the users; `emitCallEnded` sends `call:ended` to the
members and the history message to the chat service. -/
inductive Call where
  | redis (c : CallSession.Call)
  | getConversation (v : ConversationId) (u : UserId)
  | prepareVoiceCall (v : ConversationId) (u : UserId)
  | removeMember (v : ConversationId) (actor u : UserId)
  | leave (v : ConversationId) (u : UserId)
  | deleteGroup (v : ConversationId) (u : UserId)
  | takeCallInviteSlot (u : UserId)
  | getPresence (u : UserId)
  | clearRingTimer (c : CallId)
  | setRingTimer (c : CallId) (job : RingJob)
  | emitCallEvent (userIds : List UserId) (event : CallEvent)
  | emitCallEnded (x : VoiceCallSession) (byUserId : UserId) (reason : CallEndReason)
deriving DecidableEq

/-- `getPresence` answers whether the user is online. -/
@[reducible] def Call.Answer : Call → Type
  | .redis c => c.Answer
  | .getConversation _ _ => Chat.ConversationView
  | .prepareVoiceCall _ _ => Chat.PrepareVoiceCallResult
  | .removeMember _ _ _ => Chat.ConversationView
  | .leave _ _ => Bool
  | .deleteGroup _ _ => Chat.DeleteGroupResult
  | .takeCallInviteSlot _ => Option String
  | .getPresence _ => Bool
  | .clearRingTimer _ => Unit
  | .setRingTimer _ _ => Unit
  | .emitCallEvent _ _ => Unit
  | .emitCallEnded _ _ _ => Unit

/-- `WsException`, or the exception a request to the chat service ends with. -/
inductive Exception where
  | ws (message : String)
  | rpc (failure : Chat.Failure)
deriving DecidableEq

abbrev M (α : Type) := Prog Call Call.Answer Exception α

/-- Serves a request to the chat service alone. -/
def sendChat {α : Type} (p : Chat.M α) (s : State) : Except Exception α × State :=
  ((Prog.run Chat.exec p s.db).1.mapError .rpc, { s with db := (Prog.run Chat.exec p s.db).2 })

/-- The invites of a user within the window. -/
def State.windowInvites (s : State) (u : UserId) : List Time :=
  (s.recentInvites u).filter fun t => jsDate s.redis.now - t < ms CALL_INVITE_WINDOW_MS

def exec (order : Redis → List CallId) : (c : Call) → State → Except Exception c.Answer × State
  | .redis c, s =>
    match CallSession.exec order c s.redis with
    | (.ok a, redis) => (.ok a, { s with redis := redis })
    | (.error e, _) => nomatch e
  | .getConversation v u, s => sendChat (Chat.getConversation v u) s
  | .prepareVoiceCall v u, s => sendChat (Chat.prepareVoiceCall v u) s
  | .removeMember v actor u, s => sendChat (Chat.removeMember v actor u) s
  | .leave v u, s => sendChat (Chat.leave v u) s
  | .deleteGroup v u, s => sendChat (Chat.deleteGroup v u) s
  | .takeCallInviteSlot u, s =>
    if CALL_INVITE_MAX_PER_WINDOW ≤ (s.windowInvites u).length then
      (.ok (some "Too many call invites. Please wait a moment."), s)
    else
      (.ok none, { s with
        inviteRateByUser :=
          s.inviteRateByUser.insert u (s.windowInvites u ++ [jsDate s.redis.now]) })
  | .getPresence u, s => (.ok (s.online.contains u), s)
  | .clearRingTimer c, s => (.ok (), { s with ringTimers := s.ringTimers.erase c })
  | .setRingTimer c job, s =>
    (.ok (), { s with
      ringTimers := s.ringTimers.insert c ⟨s.redis.now + ms RING_TIMEOUT_MS, job⟩ })
  | .emitCallEvent _ _, s => (.ok (), s)
  | .emitCallEnded x byUserId reason, s =>
    (.ok (), { s with histories := s.histories ++ [callHistory x byUserId reason s.redis.now] })

/-! ## Helpers of the handlers -/

/-- A method of the call service. -/
def calls {α : Type} : CallSession.M α → M α
  | .ret a => .ret a
  | .fail e => nomatch e
  | .call c k => .call (.redis c) fun
    | .ok a => calls (k (.ok a))
    | .error e => .fail e

def emitCallEvent (userIds : List UserId) (event : CallEvent) : M Unit :=
  Prog.perform (Call.emitCallEvent userIds event)

def emitCallEnded (x : VoiceCallSession) (byUserId : UserId) (reason : CallEndReason) : M Unit :=
  Prog.perform (Call.emitCallEnded x byUserId reason)

def clearRingTimer (c : CallId) : M Unit := Prog.perform (Call.clearRingTimer c)

def setRingTimer (c : CallId) (job : RingJob) : M Unit := Prog.perform (Call.setRingTimer c job)

def takeCallInviteSlot (u : UserId) : M (Option String) :=
  Prog.perform (Call.takeCallInviteSlot u)

def prepareVoiceCall (v : ConversationId) (u : UserId) : M Chat.PrepareVoiceCallResult :=
  Prog.perform (Call.prepareVoiceCall v u)

def throwWs {α : Type} (message : String) : M α := .fail (.ws message)

/-- Every failure is reported as the same exception. -/
def assertLiveConversationMember (u : UserId) (v : ConversationId) : M Unit := do
  match ← (Prog.perform (Call.getConversation v u) : M _).attempt with
  | .ok _ => return ()
  | .error _ => throwWs "You are no longer a member of this conversation"

/-- The lobby exists for group calls only. -/
def emitCallLobby (x : VoiceCallSession) : M Unit :=
  if x.kind = .group then emitCallEvent x.memberIds (.lobby (toLobby x true)) else return ()

def emitCallRoster (x : VoiceCallSession) : M Unit :=
  emitCallEvent x.memberIds (.roster (toRoster x))

def callKind : Chat.ConversationType → CallKind
  | .priv => .priv
  | .group => .group

/-! ## The handlers -/

inductive Ack where
  | error (message : String)
  | created (x : VoiceCallSession) (peerIds : List UserId)
  | accepted (x : VoiceCallSession)
  | left (ended : Bool) (lobby : Option CallLobbyPayload)
  | controlled (x : VoiceCallSession)
  | invited (x : VoiceCallSession) (invitedIds : List UserId)
  | conversation (view : Chat.ConversationView)
  | leftGroup (left : Bool)
  | deletedGroup (result : Chat.DeleteGroupResult)
  | done
deriving DecidableEq

def inviteCall (userId : UserId) (v : ConversationId) (media : Option CallMedia) : M Ack := do
  match ← takeCallInviteSlot userId with
  | some message => return .error message
  | none =>
    let prepared ← prepareVoiceCall v userId
    match ← calls (createCall ⟨prepared.conversationId, callKind prepared.kind, userId,
        prepared.memberIds, media⟩) with
    | .error message => return .error message
    | .ok created =>
      emitCallEvent prepared.peerIds (.incoming created userId)
      emitCallLobby created
      emitCallRoster created
      clearRingTimer created.callId
      setRingTimer created.callId .timeoutRingingCall
      return .created created prepared.peerIds

def acceptCall (userId : UserId) (c : CallId) : M Ack := do
  match ← calls (get c) with
  | none => throwWs "Call is no longer available"
  | some existing =>
    if existing.status = .ended then
      throwWs "Call is no longer available"
    else
      assertLiveConversationMember userId existing.conversationId
      match ← calls (accept c userId) with
      | .error message => throwWs message
      | .ok accepted =>
        if accepted.kind = .priv ∨ 1 < accepted.joinedIds.length then
          clearRingTimer c
        emitCallEvent accepted.memberIds (.participantJoined accepted userId)
        emitCallEvent accepted.joinedIds (.accepted accepted userId)
        emitCallLobby accepted
        emitCallRoster accepted
        return .accepted accepted

def rejectCall (userId : UserId) (c : CallId) : M Ack := do
  match ← calls (decline c userId) with
  | .error message => throwWs message
  | .ok result =>
    if result.ended then
      clearRingTimer c
      emitCallEnded result.session userId .rejected
      return .left true none
    else
      emitCallEvent result.session.memberIds
        (.declined c result.session.conversationId userId)
      emitCallLobby result.session
      emitCallRoster result.session
      return .left false (some (toLobby result.session true))

def hangupCall (userId : UserId) (c : CallId) : M Ack := do
  match ← calls (get c) with
  | none => return .done
  | some x =>
    if !isMember x userId then
      throwWs "You are not part of this call"
    else
      match ← calls (leave c userId) with
      | .error message => throwWs message
      | .ok result =>
        if result.ended then
          clearRingTimer c
          emitCallEnded result.session userId .hangup
          return .left true none
        else
          emitCallEvent result.session.memberIds
            (.participantLeft c result.session.conversationId userId result.remainingIds)
          emitCallLobby result.session
          emitCallRoster result.session
          return .left false (some (toLobby result.session true))

/-- The three controls check the call and the membership, then change the session. -/
def controlCall (userId : UserId) (c : CallId)
    (f : VoiceCallSession → Except String VoiceCallSession)
    (event : VoiceCallSession → CallEvent) : M Ack := do
  match ← calls (get c) with
  | none => return .error "Call is no longer available"
  | some existing =>
    if existing.status = .ended then
      return .error "Call is no longer available"
    else
      assertLiveConversationMember userId existing.conversationId
      match ← calls (control c f) with
      | .error message => return .error message
      | .ok x =>
        emitCallEvent x.memberIds (event x)
        emitCallLobby x
        emitCallRoster x
        return .controlled x

def holdCall (userId : UserId) (c : CallId) (onHold : Bool) : M Ack :=
  controlCall userId c (fun x => held x userId onHold) fun x => .held x userId

def muteAllCall (userId : UserId) (c : CallId) (muted : Bool) : M Ack :=
  controlCall userId c (fun x => forceMute x userId muted) fun x => .forceMute x userId

def screenShareCall (userId : UserId) (c : CallId) (active : Bool) : M Ack :=
  controlCall userId c (fun x => screenShare x userId active) fun x => .screenShare x userId

def inviteMoreCall (userId : UserId) (c : CallId) (userIds : List UserId) : M Ack := do
  match ← takeCallInviteSlot userId with
  | some message => return .error message
  | none =>
    if userIds.length = 0 then
      return .error "Select at least one member"
    else
      match ← calls (get c) with
      | none => return .error "Call is no longer available"
      | some existing =>
        if existing.status = .ended then
          return .error "Call is no longer available"
        else
          assertLiveConversationMember userId existing.conversationId
          let prepared ← prepareVoiceCall existing.conversationId userId
          match ← calls (inviteMore c userId userIds prepared.memberIds) with
          | .error message => return .error message
          | .ok result =>
            emitCallEvent result.invitedIds (.incoming result.session userId)
            clearRingTimer c
            setRingTimer c (.timeoutRingingInvitees result.invitedIds)
            emitCallLobby result.session
            emitCallRoster result.session
            return .invited result.session result.invitedIds

def evictUsersFromConversation (v : ConversationId) : List UserId → M Unit
  | [] => return ()
  | userId :: userIds => do
    match ← calls (revokeUserFromConversation v userId) with
    | none => pure ()
    | some revoked =>
      emitCallEvent [userId] (.removed revoked.callId v userId)
      if revoked.ended then
        clearRingTimer revoked.callId
        emitCallEnded revoked.session userId .hangup
      else
        emitCallEvent revoked.session.memberIds
          (.participantLeft revoked.callId v userId revoked.remainingIds)
        emitCallLobby revoked.session
        emitCallRoster revoked.session
    evictUsersFromConversation v userIds

def finishCall (c : CallId) (byUserId : UserId) (reason : CallEndReason) : M Unit := do
  let ended ← calls («end» c)
  clearRingTimer c
  match ended with
  | none => return ()
  | some x => emitCallEnded x byUserId reason

def timeoutRingingCall (c : CallId) : M Unit := do
  match ← calls (get c) with
  | none => return ()
  | some x =>
    if x.kind = .group ∧ 2 ≤ x.joinedIds.length then
      clearRingTimer c
    else if x.joinedIds.length ≤ 1 ∧ 0 < (ringingIds x).length then
      finishCall c x.hostId .timeout
    else return ()

def timeoutRingingInvitees (c : CallId) (invitedIds : List UserId) : M Unit := do
  clearRingTimer c
  match ← calls (markUnansweredAsLeft c invitedIds) with
  | none => return ()
  | some x =>
    emitCallLobby x
    emitCallRoster x

def endCallForDisconnectedUser (userId : UserId) : M Unit := do
  match ← calls (getActiveCallIdForUser userId) with
  | none => return ()
  | some c =>
    match ← calls (get c) with
    | none => calls (clearUserBusy userId (some c))
    | some x =>
      if !isJoined x userId then
        calls (clearUserBusy userId (some c))
      else
        let online ← Prog.perform (Call.getPresence userId)
        if online then return ()
        else
          match ← calls (get c) with
          | none => return ()
          | some latest =>
            if !isJoined latest userId then return ()
            else
              match ← calls (leave c userId) with
              | .error _ => return ()
              | .ok result =>
                if result.ended then
                  clearRingTimer c
                  emitCallEnded result.session userId .offline
                else
                  emitCallEvent result.session.memberIds
                    (.participantLeft c result.session.conversationId userId result.remainingIds)
                  emitCallLobby result.session
                  emitCallRoster result.session

/-! ## The requests that end a membership -/

/-- `ChatController.removeMember`. -/
def removeMember (v : ConversationId) (actor userId : UserId) : M Ack := do
  let data ← Prog.perform (Call.removeMember v actor userId)
  evictUsersFromConversation v [userId]
  return .conversation data

/-- `ChatController.leave`. -/
def leaveConversation (v : ConversationId) (userId : UserId) : M Ack := do
  let left ← Prog.perform (Call.leave v userId)
  evictUsersFromConversation v [userId]
  return .leftGroup left

/-- `ChatController.deleteGroup`. -/
def deleteGroup (v : ConversationId) (userId : UserId) : M Ack := do
  let result ← Prog.perform (Call.deleteGroup v userId)
  return .deletedGroup result

inductive Request where
  | inviteCall (userId : UserId) (v : ConversationId) (media : Option CallMedia)
  | acceptCall (userId : UserId) (c : CallId)
  | rejectCall (userId : UserId) (c : CallId)
  | hangupCall (userId : UserId) (c : CallId)
  | holdCall (userId : UserId) (c : CallId) (onHold : Bool)
  | muteAllCall (userId : UserId) (c : CallId) (muted : Bool)
  | screenShareCall (userId : UserId) (c : CallId) (active : Bool)
  | inviteMoreCall (userId : UserId) (c : CallId) (userIds : List UserId)
  | evictUsersFromConversation (v : ConversationId) (userIds : List UserId)
  | endCallForDisconnectedUser (userId : UserId)
  | removeMember (v : ConversationId) (actor userId : UserId)
  | leave (v : ConversationId) (userId : UserId)
  | deleteGroup (v : ConversationId) (userId : UserId)
deriving DecidableEq

def Request.program : Request → M Ack
  | .inviteCall u v media => ChatGateway.inviteCall u v media
  | .acceptCall u c => ChatGateway.acceptCall u c
  | .rejectCall u c => ChatGateway.rejectCall u c
  | .hangupCall u c => ChatGateway.hangupCall u c
  | .holdCall u c onHold => ChatGateway.holdCall u c onHold
  | .muteAllCall u c muted => ChatGateway.muteAllCall u c muted
  | .screenShareCall u c active => ChatGateway.screenShareCall u c active
  | .inviteMoreCall u c userIds => ChatGateway.inviteMoreCall u c userIds
  | .evictUsersFromConversation v userIds =>
    (fun _ => .done) <$> ChatGateway.evictUsersFromConversation v userIds
  | .endCallForDisconnectedUser u =>
    (fun _ => .done) <$> ChatGateway.endCallForDisconnectedUser u
  | .removeMember v actor u => ChatGateway.removeMember v actor u
  | .leave v u => leaveConversation v u
  | .deleteGroup v u => ChatGateway.deleteGroup v u

/-- The callback of a ring timer. -/
def RingJob.program (c : CallId) : RingJob → M Ack
  | .timeoutRingingCall => (fun _ => .done) <$> ChatGateway.timeoutRingingCall c
  | .timeoutRingingInvitees ids => (fun _ => .done) <$> ChatGateway.timeoutRingingInvitees c ids

/-! ## One handler at a time -/

section System

variable (order : Redis → List CallId)

/-- The request served alone. -/
def Request.run (r : Request) (s : State) : Except Exception Ack × State :=
  Prog.run (exec order) r.program s

/-- The ring timer of a call fires if it is due. -/
def State.fire (c : CallId) (s : State) : State :=
  match s.ringTimer c with
  | none => s
  | some t =>
    if t.due ≤ s.redis.now then
      (Prog.run (exec order) (t.job.program c) { s with ringTimers := s.ringTimers.erase c }).2
    else s

/-- Time passes. -/
def State.elapse (d : Time) (s : State) : State :=
  { s with redis := { s.redis with now := s.redis.now + d }, db := s.db.wait d }

/-- A user comes online or goes offline. -/
def State.setOnline (u : UserId) (online : Bool) (s : State) : State :=
  { s with online := if online then u :: s.online else s.online.filter (· ≠ u) }

/-- The chat service serves another request. -/
def State.chat (op : Chat.Op) (s : State) : State := { s with db := (op.run s.db).2 }

inductive Event where
  | request (r : Request)
  | fire (c : CallId)
  | elapse (d : Time)
  | setOnline (u : UserId) (online : Bool)
  | chat (op : Chat.Op)

def step : Event → State → State
  | .request r, s => (r.run order s).2
  | .fire c, s => s.fire order c
  | .elapse d, s => s.elapse d
  | .setOnline u online, s => s.setOnline u online
  | .chat op, s => s.chat op

end System

end Relay.Gateway.ChatGateway
