import Mathlib.Data.List.Basic
import Relay.Gateway.CallStore

/-!
# The call session service of the gateway

Every operation reads a session whole, edits the copy and writes it back with the busy keys of its
members. Results of the form `T | { error }` are `Except String T`.
-/

namespace Relay.Gateway.CallSession

open Relay.Lib

/-! ## Commands -/

def getSession (c : CallId) : M (Option VoiceCallSession) := Prog.perform (Call.getSession c)

def getActiveCallIdForUser (u : UserId) : M (Option CallId) := Prog.perform (Call.getUser u)

def getConvo (v : ConversationId) : M (Option CallId) := Prog.perform (Call.getConvo v)

def scan : M (List CallId) := Prog.perform Call.scan

def pipeline (cmds : List Cmd) : M Unit := Prog.perform (Call.pipeline cmds)

def command (cmd : Cmd) : M Unit := pipeline [cmd]

def randomUUID : M CallId := Prog.perform Call.randomUUID

def newDate : M Time := Prog.perform Call.newDate

/-! ## Pure parts -/

def isMember (x : VoiceCallSession) (u : UserId) : Bool := x.memberIds.contains u

def isJoined (x : VoiceCallSession) (u : UserId) : Bool := x.joinedIds.contains u

/-- Users still ringing: invited, not joined, not declined or left. -/
def ringingIds (x : VoiceCallSession) : List UserId :=
  x.memberIds.filter fun u =>
    !x.joinedIds.contains u && !x.declinedIds.contains u && !x.leftIds.contains u

/-- Group member not in the call while others are connected. -/
def canRejoin (x : VoiceCallSession) (u : UserId) : Bool :=
  x.kind == .group && x.status != .ended && isMember x u && !isJoined x u && 0 < x.joinedIds.length

structure CallLobbyPayload where
  callId : CallId
  conversationId : ConversationId
  kind : CallKind
  media : CallMedia
  hostId : UserId
  memberIds : List UserId
  joinedIds : List UserId
  declinedIds : List UserId
  leftIds : List UserId
  ringingIds : List UserId
  onHold : Bool
  heldBy : Option UserId
  forceMuted : Bool
  screenSharerId : Option UserId
  active : Bool
deriving DecidableEq

def toLobby (x : VoiceCallSession) (active : Bool) : CallLobbyPayload where
  callId := x.callId
  conversationId := x.conversationId
  kind := x.kind
  media := x.media
  hostId := x.hostId
  memberIds := x.memberIds
  joinedIds := x.joinedIds
  declinedIds := x.declinedIds
  leftIds := x.leftIds
  ringingIds := ringingIds x
  onHold := x.onHold
  heldBy := x.heldBy
  forceMuted := x.forceMuted
  screenSharerId := x.screenSharerId
  active := active

structure CallRosterPayload where
  callId : CallId
  conversationId : ConversationId
  hostId : UserId
  joinedIds : List UserId
  ringingIds : List UserId
  declinedIds : List UserId
  leftIds : List UserId
  memberIds : List UserId
  onHold : Bool
  heldBy : Option UserId
  forceMuted : Bool
  screenSharerId : Option UserId
deriving DecidableEq

def toRoster (x : VoiceCallSession) : CallRosterPayload where
  callId := x.callId
  conversationId := x.conversationId
  hostId := x.hostId
  joinedIds := x.joinedIds
  ringingIds := ringingIds x
  declinedIds := x.declinedIds
  leftIds := x.leftIds
  memberIds := x.memberIds
  onHold := x.onHold
  heldBy := x.heldBy
  forceMuted := x.forceMuted
  screenSharerId := x.screenSharerId

/-! ## Reading and writing a session -/

/-- Reads a session and repairs the conversation index when it names another call. -/
def get (c : CallId) : M (Option VoiceCallSession) := do
  match ← getSession c with
  | none => return none
  | some x =>
    if x.status ≠ .ended then
      let indexed ← getConvo x.conversationId
      if indexed ≠ some c then
        command (.setConvo x.conversationId c)
    return some x

/-- The members whose busy key names this call once it is stored. -/
def busyIds (x : VoiceCallSession) : List UserId := x.joinedIds ++ ringingIds x ++ [x.hostId]

/-- The pipeline of `persist`: the session, its conversation index, and for every member the busy
key, set or deleted. -/
def persistCmds (x : VoiceCallSession) : List Cmd :=
  .setSession x :: .setConvo x.conversationId x.callId ::
    x.memberIds.map fun u => if u ∈ busyIds x then .setUser u x.callId else .delUser u

def persist (x : VoiceCallSession) : M Unit := pipeline (persistCmds x)

/-- The pipeline of `end`. -/
def endCmds (c : CallId) (x : VoiceCallSession) : List Cmd :=
  .delSession c :: .delConvo x.conversationId :: x.memberIds.map .delUser

def «end» (c : CallId) : M (Option VoiceCallSession) := do
  match ← get c with
  | none => return none
  | some x =>
    pipeline (endCmds c x)
    return some { x with status := .ended }

/-- Drops the busy key of a user; with a call id, only if it names that call. -/
def clearUserBusy (u : UserId) (callId : Option CallId) : M Unit := do
  match ← getActiveCallIdForUser u with
  | none => return ()
  | some current =>
    match callId with
    | some c => if current = c then command (.delUser u) else return ()
    | none => command (.delUser u)

/-- The loop of `findSessionByConversation` over the scanned keys. -/
def findIn (v : ConversationId) : List CallId → M (Option VoiceCallSession)
  | [] => return none
  | c :: cs => do
    match ← getSession c with
    | none => findIn v cs
    | some x =>
      if x.conversationId = v ∧ x.status ≠ .ended ∧ x.joinedIds ≠ [] then
        command (.setConvo v x.callId)
        return some x
      else findIn v cs

/-- Recovery when the conversation index was lost. -/
def findSessionByConversation (v : ConversationId) : M (Option VoiceCallSession) := do
  findIn v (← scan)

def getByConversation (v : ConversationId) : M (Option VoiceCallSession) := do
  match ← getConvo v with
  | none => findSessionByConversation v
  | some c =>
    match ← get c with
    | some x =>
      if x.conversationId = v ∧ x.status ≠ .ended then return some x
      else
        command (.delConvo v)
        findSessionByConversation v
    | none =>
      command (.delConvo v)
      findSessionByConversation v

/-! ## Starting a call -/

structure CreateCall where
  conversationId : ConversationId
  kind : CallKind
  hostId : UserId
  memberIds : List UserId
  media : Option CallMedia
deriving DecidableEq

/-- The invited members without repetition, the host among them. -/
def CreateCall.members (input : CreateCall) : List UserId :=
  let ids := input.memberIds.eraseDups
  if input.hostId ∈ ids then ids else ids ++ [input.hostId]

def CreateCall.newSession (input : CreateCall) (callId : CallId) (now : Time) :
    VoiceCallSession where
  callId := callId
  conversationId := input.conversationId
  kind := input.kind
  media := if input.media = some .video then .video else .audio
  hostId := input.hostId
  memberIds := input.members
  joinedIds := [input.hostId]
  declinedIds := []
  leftIds := []
  onHold := false
  heldBy := none
  forceMuted := false
  screenSharerId := none
  status := .ringing
  createdAt := now
  connectedAt := none

/-- The host must be free; a busy key that names a dead call, or one the host only rings in, is
dropped. Returns whether the host is busy. -/
def hostBusy (hostId : UserId) : M Bool := do
  match ← getActiveCallIdForUser hostId with
  | none => return false
  | some busyHost =>
    match ← get busyHost with
    | none =>
      clearUserBusy hostId (some busyHost)
      return false
    | some existing =>
      if existing.status = .ended then
        clearUserBusy hostId (some busyHost)
        return false
      else if existing.joinedIds.contains hostId || existing.hostId = hostId then
        return true
      else
        clearUserBusy hostId (some busyHost)
        return false

/-- One live call per conversation: the host's own call, or one with at most one user connected, is
ended. Returns whether another call is in progress. -/
def convoBusy (input : CreateCall) : M Bool := do
  match ← getByConversation input.conversationId with
  | none => return false
  | some existing =>
    if existing.hostId = input.hostId ∨ existing.joinedIds.length ≤ 1 then
      let _ ← «end» existing.callId
      return false
    else return true

/-- In a private call the other party must be free as well. -/
def otherBusy (input : CreateCall) : M Bool := do
  if input.kind = .priv then
    match input.members.find? (· ≠ input.hostId) with
    | none => return false
    | some other => return (← getActiveCallIdForUser other).isSome
  else return false

def createCall (input : CreateCall) : M (Except String VoiceCallSession) := do
  if ← hostBusy input.hostId then
    return .error "You are already in a call"
  if ← convoBusy input then
    return .error "A call is already in progress in this group"
  if input.members.length < 2 then
    return .error "Not enough participants for a call"
  if ← otherBusy input then
    return .error "User is busy on another call"
  let session := input.newSession (← randomUUID) (← newDate)
  persist session
  command (.setConvo session.conversationId session.callId)
  return .ok session

/-! ## Joining and leaving -/

/-- The session after `u` joined it. -/
def joined (x : VoiceCallSession) (u : UserId) (now : Time) : VoiceCallSession :=
  let joinedIds := (x.joinedIds ++ [u]).eraseDups
  { x with
    joinedIds := joinedIds
    declinedIds := x.declinedIds.filter (· ≠ u)
    leftIds := x.leftIds.filter (· ≠ u)
    status := .active
    connectedAt := if x.connectedAt = none ∧ 2 ≤ joinedIds.length then some now else x.connectedAt }

def accept (c : CallId) (u : UserId) : M (Except String VoiceCallSession) := do
  match ← get c with
  | none => return .error "Call is no longer available"
  | some x =>
    if x.status = .ended then
      return .error "Call is no longer available"
    if !isMember x u then
      return .error "You are not invited to this call"
    if x.joinedIds.contains u then
      return .ok x
    if x.kind = .priv ∧ u = x.hostId then
      return .error "Host is already in the call"
    let busy ← getActiveCallIdForUser u
    if busy ≠ none ∧ busy ≠ some c then
      return .error "You are already in another call"
    let x' := joined x u (← newDate)
    persist x'
    command (.setConvo x'.conversationId x'.callId)
    return .ok x'

structure Declined where
  session : VoiceCallSession
  ended : Bool
  pendingCount : Option Nat
deriving DecidableEq

/-- The session after `u` declined it. -/
def declined (x : VoiceCallSession) (u : UserId) : VoiceCallSession :=
  { x with declinedIds := (x.declinedIds ++ [u]).eraseDups }

def decline (c : CallId) (u : UserId) : M (Except String Declined) := do
  match ← get c with
  | none => return .error "Call is no longer available"
  | some x =>
    if x.status = .ended then
      return .error "Call is no longer available"
    if !isMember x u || x.joinedIds.contains u then
      return .error "Cannot decline this call"
    let x' := declined x u
    if x.kind = .priv then
      let _ ← «end» c
      return .ok ⟨{ x' with status := .ended }, true, none⟩
    let pending := x'.memberIds.filter fun id =>
      !x'.joinedIds.contains id && !x'.declinedIds.contains id
    persist x'
    return .ok ⟨x', false, some pending.length⟩

structure Left where
  session : VoiceCallSession
  ended : Bool
  remainingIds : List UserId
deriving DecidableEq

/-- The session after `u` left it. -/
def left (x : VoiceCallSession) (u : UserId) : VoiceCallSession :=
  { x with
    joinedIds := x.joinedIds.filter (· ≠ u)
    leftIds := (x.leftIds ++ [u]).eraseDups }

def leave (c : CallId) (u : UserId) : M (Except String Left) := do
  match ← get c with
  | none => return .error "Call not found"
  | some x =>
    if !isMember x u then
      return .error "You are not part of this call"
    let x' := left x u
    command (.delUser u)
    if x'.joinedIds.length = 0 then
      let _ ← «end» c
      return .ok ⟨{ x' with status := .ended }, true, []⟩
    -- Private: either party leaving ends the call.
    if x'.kind = .priv then
      let _ ← «end» c
      return .ok ⟨{ x' with status := .ended }, true, []⟩
    persist x'
    command (.setConvo x'.conversationId x'.callId)
    return .ok ⟨x', false, x'.joinedIds⟩

structure Revoked where
  callId : CallId
  session : VoiceCallSession
  ended : Bool
  remainingIds : List UserId
deriving DecidableEq

/-- The session after `u` was taken out of it, the host not yet replaced. -/
def revoked (x : VoiceCallSession) (u : UserId) : VoiceCallSession :=
  { x with
    memberIds := x.memberIds.filter (· ≠ u)
    joinedIds := x.joinedIds.filter (· ≠ u)
    declinedIds := x.declinedIds.filter (· ≠ u)
    leftIds := (x.leftIds ++ [u]).eraseDups
    screenSharerId := if x.screenSharerId = some u then none else x.screenSharerId
    onHold := if x.heldBy = some u then false else x.onHold
    heldBy := if x.heldBy = some u then none else x.heldBy }

/-- A revoked host is replaced by the first connected user, or the first member. -/
def replaceHost (x : VoiceCallSession) (u : UserId) : VoiceCallSession :=
  if x.hostId = u then
    { x with hostId := (x.joinedIds.head?.or x.memberIds.head?).getD x.hostId }
  else x

/-- Takes a user who was removed from a conversation out of its live call. -/
def revokeUserFromConversation (v : ConversationId) (u : UserId) : M (Option Revoked) := do
  match ← getByConversation v with
  | none => return none
  | some x =>
    if x.status = .ended then
      return none
    if !isMember x u && !isJoined x u then
      return none
    let x' := revoked x u
    command (.delUser u)
    if x'.joinedIds.length = 0 ∨ x'.memberIds.length = 0 ∨ x'.kind = .priv then
      let _ ← «end» x'.callId
      return some ⟨x'.callId, { x' with status := .ended }, true, []⟩
    let x'' := replaceHost x' u
    persist x''
    command (.setConvo x''.conversationId x''.callId)
    return some ⟨x''.callId, x'', false, x''.joinedIds⟩

/-! ## Inviting -/

def MAX_GROUP_CALL : Nat := 8

/-- The session with `u` a member who rings again. -/
def invited (x : VoiceCallSession) (u : UserId) : VoiceCallSession :=
  { x with
    memberIds := if u ∈ x.memberIds then x.memberIds else x.memberIds ++ [u]
    declinedIds := x.declinedIds.filter (· ≠ u)
    leftIds := x.leftIds.filter (· ≠ u) }

/-- The loop of `inviteMore`; busy users, and new members of a full call, are skipped. -/
def inviteLoop (c : CallId) (x : VoiceCallSession) (invitedIds : List UserId) :
    List UserId → M (VoiceCallSession × List UserId)
  | [] => return (x, invitedIds)
  | u :: us => do
    if x.joinedIds.contains u then
      inviteLoop c x invitedIds us
    else
      let busy ← getActiveCallIdForUser u
      if busy ≠ none ∧ busy ≠ some c then
        inviteLoop c x invitedIds us
      else if u ∉ x.memberIds ∧ MAX_GROUP_CALL ≤ x.memberIds.length then
        inviteLoop c x invitedIds us
      else inviteLoop c (invited x u) (invitedIds ++ [u]) us

structure Invited where
  session : VoiceCallSession
  invitedIds : List UserId
deriving DecidableEq

def inviteMore (c : CallId) (actor : UserId) (userIds allowedMemberIds : List UserId) :
    M (Except String Invited) := do
  match ← get c with
  | none => return .error "Call is no longer available"
  | some x =>
    if x.status = .ended then
      return .error "Call is no longer available"
    if x.kind ≠ .group then
      return .error "Can only add people to group calls"
    if !isJoined x actor then
      return .error "Join the call before inviting others"
    let requested := userIds.eraseDups.filter fun u => u ∈ allowedMemberIds ∧ u ≠ actor
    if requested.length = 0 then
      return .error "No valid members to invite"
    let (x', invitedIds) ← inviteLoop c x [] requested
    if invitedIds.length = 0 then
      return .error "Those members cannot be invited right now"
    persist x'
    return .ok ⟨x', invitedIds⟩

/-- The loop of `markUnansweredAsLeft`: the session, and whether it changed. -/
def markLoop (c : CallId) (x : VoiceCallSession) (changed : Bool) :
    List UserId → M (VoiceCallSession × Bool)
  | [] => return (x, changed)
  | u :: us => do
    if x.joinedIds.contains u || x.declinedIds.contains u then
      markLoop c x changed us
    else
      clearUserBusy u (some c)
      if x.leftIds.contains u then
        markLoop c x changed us
      else markLoop c { x with leftIds := x.leftIds ++ [u] } true us

/-- Soft timeout of unanswered invites; the call goes on. -/
def markUnansweredAsLeft (c : CallId) (userIds : List UserId) :
    M (Option VoiceCallSession) := do
  match ← get c with
  | none => return none
  | some x =>
    if x.status = .ended then
      return none
    let (x', changed) ← markLoop c x false userIds
    if !changed then
      return some x'
    persist x'
    return some x'

/-! ## Call controls -/

/-- The session after the hold was set or released, if the actor may do that. -/
def held (x : VoiceCallSession) (actor : UserId) (onHold : Bool) :
    Except String VoiceCallSession :=
  if !isJoined x actor then
    .error "You are not in this call"
  else if onHold then
    .ok { x with onHold := true, heldBy := some actor }
  else if x.heldBy ≠ none ∧ x.heldBy ≠ some actor ∧ x.hostId ≠ actor then
    .error "Only the person who put the call on hold can resume"
  else .ok { x with onHold := false, heldBy := none }

def forceMute (x : VoiceCallSession) (actor : UserId) (muted : Bool) :
    Except String VoiceCallSession :=
  if x.hostId ≠ actor then
    .error "Only the call host can mute everyone"
  else if !isJoined x actor then
    .error "You are not in this call"
  else .ok { x with forceMuted := muted }

def screenShare (x : VoiceCallSession) (actor : UserId) (active : Bool) :
    Except String VoiceCallSession :=
  if !isJoined x actor then
    .error "You are not in this call"
  else if active then
    .ok { x with screenSharerId := some actor }
  else if x.screenSharerId = some actor ∨ x.hostId = actor then
    .ok { x with screenSharerId := none }
  else .error "You are not sharing the screen"

/-- The three controls read the session, change it if the actor may, and store it. -/
def control (c : CallId) (f : VoiceCallSession → Except String VoiceCallSession) :
    M (Except String VoiceCallSession) := do
  match ← get c with
  | none => return .error "Call is no longer available"
  | some x =>
    if x.status = .ended then
      return .error "Call is no longer available"
    match f x with
    | .error e => return .error e
    | .ok x' =>
      persist x'
      return .ok x'

def setHold (c : CallId) (actor : UserId) (onHold : Bool) : M (Except String VoiceCallSession) :=
  control c fun x => held x actor onHold

def setForceMute (c : CallId) (actor : UserId) (muted : Bool) :
    M (Except String VoiceCallSession) :=
  control c fun x => forceMute x actor muted

def setScreenShare (c : CallId) (actor : UserId) (active : Bool) :
    M (Except String VoiceCallSession) :=
  control c fun x => screenShare x actor active

end Relay.Gateway.CallSession
