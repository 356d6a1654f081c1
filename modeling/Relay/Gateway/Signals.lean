import Relay.Lib.Percent
import Relay.Gateway.ChatGateway

/-!
# The WebRTC signals of a call

Offers, answers and ICE candidates are relayed from one connected user to another. The relays run beside the
call handlers; what they send is kept in `sent`, in order. An `sdp` or a `candidate` is an arbitrary JSON
object and is kept as the text that `JSON.stringify` makes of it; no text stands for a missing one, or for
one that is not an object.
-/

namespace Relay.Gateway.Signals

open Relay.Lib CallSession ChatGateway

def MAX_SIGNAL_JSON_BYTES : Nat := 64000

structure CallSignalBody where
  callId : Option CallId
  toUserId : Option UserId
  sdp : Option Text
  candidate : Option Text
deriving DecidableEq

inductive SignalContent where
  | offer (sdp : Text)
  | answer (sdp : Text)
  | ice (candidate : Option Text)
deriving DecidableEq

structure Signal where
  callId : CallId
  fromUserId : UserId
  toUserId : UserId
  content : SignalContent
deriving DecidableEq

structure State where
  gateway : ChatGateway.State
  /-- The signals sent, each with the user it was sent to. -/
  sent : List (UserId × Signal)

inductive Call where
  | gateway (c : ChatGateway.Call)
  | emitSignal (u : UserId) (signal : Signal)

@[reducible] def Call.Answer : Call → Type
  | .gateway c => c.Answer
  | .emitSignal _ _ => Unit

abbrev M (α : Type) := Prog Call Call.Answer Exception α

def exec (order : Redis → List CallId) : (c : Call) → State → Except Exception c.Answer × State
  | .gateway c, s => ((ChatGateway.exec order c s.gateway).1, { s with gateway := (ChatGateway.exec order c s.gateway).2 })
  | .emitSignal u signal, s => (.ok (), { s with sent := s.sent ++ [(u, signal)] })

/-- A part of the call handlers. -/
def handlers {α : Type} : ChatGateway.M α → M α
  | .ret a => .ret a
  | .fail e => .fail e
  | .call c k => .call (.gateway c) fun r => handlers (k r)

def throwWs {α : Type} (message : String) : M α := .fail (.ws message)

def emitSignal (u : UserId) (signal : Signal) : M Unit := Prog.perform (Call.emitSignal u signal)

/-! ## The relays -/

def requireCallId (body : CallSignalBody) : M CallId :=
  match body.callId with
  | none => throwWs "callId is required"
  | some c => return c

def requireToUserId (body : CallSignalBody) : M UserId :=
  match body.toUserId with
  | none => throwWs "toUserId is required"
  | some u => return u

/-- `JSON.stringify(payload ?? null)`. -/
def signalJson (payload : Option Text) : Text := payload.getD "null".toList

def assertSignalSize (payload : Option Text) : M Unit :=
  if MAX_SIGNAL_JSON_BYTES < (Percent.bytes (signalJson payload)).length then
    throwWs "Signal payload is too large"
  else return ()

def requireJoinedParticipant (c : CallId) (u : UserId) : M VoiceCallSession := do
  match ← handlers (calls (get c)) with
  | none => throwWs "Call is not active"
  | some x =>
    if x.status = .ended then
      throwWs "Call is not active"
    else if !isJoined x u then
      throwWs "You are not in this call"
    else
      handlers (assertLiveConversationMember u x.conversationId)
      return x

inductive SignalKind where
  | offer | answer
deriving DecidableEq

def SignalKind.toString : SignalKind → String
  | .offer => "offer"
  | .answer => "answer"

def SignalKind.content : SignalKind → Text → SignalContent
  | .offer, sdp => .offer sdp
  | .answer, sdp => .answer sdp

def relayWebRtcSignal (userId : UserId) (body : CallSignalBody) (kind : SignalKind) : M Unit := do
  let c ← requireCallId body
  let toUserId ← requireToUserId body
  match body.sdp with
  | none => throwWs (kind.toString ++ " SDP is required")
  | some sdp =>
    assertSignalSize (some sdp)
    let session ← requireJoinedParticipant c userId
    if !isJoined session toUserId then
      throwWs "Peer is not in this call"
    else if toUserId = userId then
      throwWs "Invalid signaling target"
    else emitSignal toUserId ⟨c, userId, toUserId, kind.content sdp⟩

def relayOffer (userId : UserId) (body : CallSignalBody) : M Unit := relayWebRtcSignal userId body .offer

def relayAnswer (userId : UserId) (body : CallSignalBody) : M Unit := relayWebRtcSignal userId body .answer

/-- Unlike the other relays this one does not check that the target is another user. -/
def relayIce (userId : UserId) (body : CallSignalBody) : M Unit := do
  let c ← requireCallId body
  let toUserId ← requireToUserId body
  assertSignalSize body.candidate
  let session ← requireJoinedParticipant c userId
  if !isJoined session toUserId then
    throwWs "Peer is not in this call"
  else emitSignal toUserId ⟨c, userId, toUserId, .ice body.candidate⟩

end Relay.Gateway.Signals
