import Mathlib.Data.List.AList
import Mathlib.Data.List.DropRight
import Relay.Lib.Requests
import Relay.Chat.Types

/-!
# The push service

The push subscriptions of a user are one JSON list in Redis. `subscribe`, `unsubscribe` and `sendToUser` read
the list, compute another one and write it back; the sender delivers to every subscription in between. The push
services answer for an endpoint as they do at the time.
-/

namespace Relay.Gateway.PushService

open Relay.Lib Prog
open Relay.Chat (PresenceStatus)

structure PushSubscription where
  endpoint : Text
  p256dh : Text
  auth : Text
deriving DecidableEq

/-- What a key holds: the text of a list of subscriptions, or a text that is no JSON list. -/
inductive Stored where
  | subscriptions (items : List PushSubscription)
  | other
deriving DecidableEq

/-- The error of a delivery, with its `statusCode` if it has one. -/
structure PushError where
  statusCode : Option Nat
deriving DecidableEq

/-- `status === 404 || status === 410`. -/
def PushError.gone (error : PushError) : Bool :=
  let status := error.statusCode.getD 0
  status = 404 || status = 410

structure Payload where
  title : Text
  body : Text
  conversationId : ConversationId
  type : Option Text
  callId : Option CallId
  media : Option Text
  kind : Option Text
deriving DecidableEq

/-- The keys `chat:push:sub:<user>`, who is online, and what the push services answer. -/
structure World where
  redis : AList fun _ : UserId => Stored
  presence : UserId → PresenceStatus
  answer : Text → Except PushError Unit

inductive Call where
  | get (userId : UserId)
  | set (userId : UserId) (next : List PushSubscription)
  | del (userId : UserId)
  | sendNotification (sub : PushSubscription) (data : Payload)
  | getPresence (userId : UserId)
deriving DecidableEq

@[reducible] def Call.Answer : Call → Type
  | .get _ => Option Stored
  | .getPresence _ => PresenceStatus
  | _ => Unit

abbrev M (α : Type) := Prog Call Call.Answer PushError α

abbrev perform (c : Call) : M c.Answer := Prog.perform c

def exec : (c : Call) → World → Except PushError c.Answer × World
  | .get userId, w => (.ok (w.redis.lookup userId), w)
  | .set userId next, w => (.ok (), { w with redis := w.redis.insert userId (.subscriptions next) })
  | .del userId, w => (.ok (), { w with redis := w.redis.erase userId })
  | .sendNotification sub _, w => (w.answer sub.endpoint, w)
  | .getPresence userId, w => (.ok (w.presence userId), w)

/-- The world around the requests changes: who is online, and what the push services answer. -/
def World.turn (d : (UserId → PresenceStatus) × (Text → Except PushError Unit)) (w : World) : World :=
  { w with presence := d.1, answer := d.2 }

/-! ## The list of a user -/

/-- The list that a text stands for: none for a text that cannot be parsed. -/
def parsed : Option Stored → List PushSubscription
  | some (.subscriptions items) => items
  | _ => []

def readAll (userId : UserId) : M (List PushSubscription) := do
  let raw ← perform (.get userId)
  return parsed raw

/-- The list with the subscription at its end, in the place of one for the same endpoint; the last five. -/
def withSubscription (subscription : PushSubscription) (existing : List PushSubscription) :
    List PushSubscription :=
  (existing.filter (fun item => item.endpoint ≠ subscription.endpoint) ++ [subscription]).rtake 5

def subscribe (userId : UserId) (subscription : PushSubscription) : M Unit := do
  let existing ← readAll userId
  perform (.set userId (withSubscription subscription existing))

def withoutEndpoint (endpoint : Text) (existing : List PushSubscription) : List PushSubscription :=
  existing.filter fun item => item.endpoint ≠ endpoint

/-- An empty endpoint is no endpoint. -/
def unsubscribe (userId : UserId) (endpoint : Option Text) : M Unit :=
  match endpoint.filter (· ≠ []) with
  | none => perform (.del userId)
  | some endpoint => do
    let existing ← readAll userId
    let next := withoutEndpoint endpoint existing
    if next.length = 0 then perform (.del userId) else perform (.set userId next)

/-! ## Sending -/

/-- The loop over the subscriptions: those whose endpoint is not reported as gone. -/
def deliver (data : Payload) : List PushSubscription → List PushSubscription → M (List PushSubscription)
  | [], keep => return keep
  | sub :: subs, keep => do
    match ← (perform (.sendNotification sub data)).attempt with
    | .ok _ => deliver data subs (keep ++ [sub])
    | .error error => if error.gone then deliver data subs keep else deliver data subs (keep ++ [sub])

def sendToUser (userId : UserId) (payload : Payload) : M Unit := do
  let subs ← readAll userId
  if subs.length = 0 then return ()
  else
    let keep ← deliver payload subs []
    if keep.length = 0 then perform (.del userId)
    else if keep.length ≠ subs.length then perform (.set userId keep)
    else return ()

/-- What `notifyOfflineRecipients` does for one recipient. -/
def notifyOffline (userId : UserId) (payload : Payload) : M Unit := do
  let status ← perform (.getPresence userId)
  if status ≠ .offline then return () else sendToUser userId payload

/-! ## Requests -/

inductive Request where
  | subscribe (userId : UserId) (subscription : PushSubscription)
  | unsubscribe (userId : UserId) (endpoint : Option Text)
  | notifyOffline (userId : UserId) (payload : Payload)
  | sendToUser (userId : UserId) (payload : Payload)
deriving DecidableEq

namespace Request

def userId : Request → UserId
  | .subscribe userId _ => userId
  | .unsubscribe userId _ => userId
  | .notifyOffline userId _ => userId
  | .sendToUser userId _ => userId

def program : Request → M Unit
  | .subscribe userId subscription => PushService.subscribe userId subscription
  | .unsubscribe userId endpoint => PushService.unsubscribe userId endpoint
  | .notifyOffline userId payload => PushService.notifyOffline userId payload
  | .sendToUser userId payload => PushService.sendToUser userId payload

end Request

/-- The requests that run at the same time for a message; `enabled` says whether there are VAPID keys. -/
def notifyOfflineRecipients (enabled : Bool) (recipientIds : List UserId) (senderId : UserId)
    (title body : Text) (conversationId : ConversationId) : List Request :=
  if !enabled then []
  else (recipientIds.filter fun id => id ≠ senderId).map fun userId =>
    .notifyOffline userId ⟨title, body, conversationId, none, none, none, none⟩

/-- And for a call, online or not. -/
def notifyCallInvite (enabled : Bool) (recipientIds : List UserId) (senderId : UserId) (title body : Text)
    (conversationId : ConversationId) (callId : CallId) (media kind : Text) : List Request :=
  if !enabled then []
  else (recipientIds.filter fun id => id ≠ senderId).map fun userId =>
    .sendToUser userId ⟨title, body, conversationId, some "call".toList, some callId, some media, some kind⟩

end Relay.Gateway.PushService
