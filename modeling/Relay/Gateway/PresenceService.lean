import Relay.Lib.Requests
import Relay.Gateway.ChatController

/-!
# The commands of the presence service

`connect` and `disconnect` as the Redis commands they are made of, so that those of several sockets of a
user can interleave. A key is there until the time it expires; the set of sockets has no such time between
its first `SADD` and the `EXPIRE` after it, and is no key when it is empty.
-/

namespace Relay.Gateway.PresenceService

open Relay.Lib Relay.Chat
open ChatController (SocketId PresenceView ONLINE_TTL_SECONDS SOCKETS_TTL_SECONDS seconds)

/-- The keys of the service and the clock. -/
structure Keys where
  online : AList fun _ : UserId => Time
  sockets : AList fun _ : UserId => List SocketId × Option Time
  lastSeen : AList fun _ : UserId => Time
  now : Time

namespace Keys

variable (k : Keys)

def isOnline (u : UserId) : Bool := (k.online.lookup u).any fun t => k.now < t

/-- The sockets key of a user, if it is there. -/
def socketsEntry (u : UserId) : Option (List SocketId × Option Time) :=
  (k.sockets.lookup u).filter fun e => e.1 ≠ [] ∧ ∀ t ∈ e.2, k.now < t

def setSockets (u : UserId) (e : List SocketId × Option Time) : Keys :=
  { k with sockets := k.sockets.insert u e }

/-- Time passes, in microseconds. -/
def wait (d : Nat) : Keys := { k with now := k.now + d }

end Keys

/-- A Redis command with its key, or a reading of the clock. -/
inductive Call where
  | existsOnline (u : UserId)
  | setOnline (u : UserId)
  | expireOnline (u : UserId)
  | delOnline (u : UserId)
  | sadd (u : UserId) (id : SocketId)
  | srem (u : UserId) (id : SocketId)
  | scard (u : UserId)
  | expireSockets (u : UserId)
  | getLastSeen (u : UserId)
  | setLastSeen (u : UserId) (t : Time)
  | delLastSeen (u : UserId)
  | newDate
deriving DecidableEq

@[reducible] def Call.Answer : Call → Type
  | .existsOnline _ => Bool
  | .scard _ => Nat
  | .getLastSeen _ => Option Time
  | .newDate => Time
  | _ => Unit

abbrev M (α : Type) := Prog Call Call.Answer Empty α

def exec : (c : Call) → Keys → Except Empty c.Answer × Keys
  | .existsOnline u, k => (.ok (k.isOnline u), k)
  | .setOnline u, k =>
    (.ok (), { k with online := k.online.insert u (k.now + seconds ONLINE_TTL_SECONDS) })
  | .expireOnline u, k =>
    (.ok (), if k.isOnline u then
      { k with online := k.online.insert u (k.now + seconds ONLINE_TTL_SECONDS) } else k)
  | .delOnline u, k => (.ok (), { k with online := k.online.erase u })
  | .sadd u id, k =>
    (.ok (), match k.socketsEntry u with
      | some (ids, t) => k.setSockets u (ids.insert id, t)
      | none => k.setSockets u ([id], none))
  | .srem u id, k =>
    (.ok (), match k.socketsEntry u with
      | some (ids, t) =>
        if ids.filter (· ≠ id) = [] then { k with sockets := k.sockets.erase u }
        else k.setSockets u (ids.filter (· ≠ id), t)
      | none => k)
  | .scard u, k => (.ok (((k.socketsEntry u).map fun e => e.1.length).getD 0), k)
  | .expireSockets u, k =>
    (.ok (), match k.socketsEntry u with
      | some (ids, _) => k.setSockets u (ids, some (k.now + seconds SOCKETS_TTL_SECONDS))
      | none => k)
  | .getLastSeen u, k => (.ok (k.lastSeen.lookup u), k)
  | .setLastSeen u t, k => (.ok (), { k with lastSeen := k.lastSeen.insert u t })
  | .delLastSeen u, k => (.ok (), { k with lastSeen := k.lastSeen.erase u })
  | .newDate, k => (.ok (jsDate k.now), k)

abbrev perform (c : Call) : M c.Answer := Prog.perform c

/-- Whether the user became online. -/
def connect (u : UserId) (id : SocketId) : M Bool := do
  let wasOnline ← perform (.existsOnline u)
  perform (.sadd u id)
  perform (.expireSockets u)
  perform (.setOnline u)
  perform (.delLastSeen u)
  return !wasOnline

def disconnect (u : UserId) (id : SocketId) : M PresenceView := do
  perform (.srem u id)
  let remaining ← perform (.scard u)
  if 0 < remaining then
    perform (.expireOnline u)
    return ⟨u, .online, none⟩
  else
    perform (.delOnline u)
    let lastSeenAt ← perform .newDate
    perform (.setLastSeen u lastSeenAt)
    return ⟨u, .offline, some lastSeenAt⟩

/-- Restarts the expiry of the online key while a socket is connected. -/
def heartbeat (u : UserId) : M Unit := do
  let sockets ← perform (.scard u)
  if 0 < sockets then
    perform (.expireOnline u)
  else return ()

/-- `getMany` for one user; its commands go out in one pipeline, and others may come between them. -/
def getPresence (u : UserId) : M PresenceView := do
  let isOnline ← perform (.existsOnline u)
  let lastSeenAt ← perform (.getLastSeen u)
  return ⟨u, if isOnline then .online else .offline, if isOnline then none else lastSeenAt⟩

/-! ## Commands that interleave -/

inductive Op where
  | connect (u : UserId) (id : SocketId)
  | disconnect (u : UserId) (id : SocketId)
deriving DecidableEq

inductive Response where
  | becameOnline (becameOnline : Bool)
  | presence (view : PresenceView)
deriving DecidableEq

def Op.program : Op → M Response
  | .connect u id => .becameOnline <$> PresenceService.connect u id
  | .disconnect u id => .presence <$> PresenceService.disconnect u id

/-- The commands a request makes, by their turn. -/
def Op.makes : Op → Nat → Call → Prop
  | .connect u _, 0, c => c = .existsOnline u
  | .connect u id, 1, c => c = .sadd u id
  | .connect u _, 2, c => c = .expireSockets u
  | .connect u _, 3, c => c = .setOnline u
  | .connect u _, 4, c => c = .delLastSeen u
  | .disconnect u id, 0, c => c = .srem u id
  | .disconnect u _, 1, c => c = .scard u
  | .disconnect u _, 2, c => c = .expireOnline u ∨ c = .delOnline u
  | .disconnect _ _, 3, c => c = .newDate
  | .disconnect u _, 4, c => ∃ t, c = .setLastSeen u t
  | _, _, _ => False

/-- The number of commands made is the stage. -/
def commands (o : Op) : Protocol Call Call.Answer Empty Nat where
  allowed := o.makes
  next n _ _ := n + 1
  answers _ _ := True

abbrev Sockets := Staged Call Call.Answer Empty Response Keys (Op × Nat)

abbrev Event := Pool.Event Empty Nat

/-- A socket makes its next command, or time passes. -/
def step : Event → Sockets → Sockets := serve exec (fun d k => k.wait d) commands fun _ _ => false

def sockets (os : List Op) (k : Keys) : Sockets := requests Op.program (fun _ => 0) os k

end Relay.Gateway.PresenceService
