import Relay.Lib.Faults
import Relay.Accounts.System
import Relay.Gateway.Auth

/-!
# Registration at the gateway

`register` asks the auth service for an account and the user service for a profile, and deactivates the
account when there is no profile. The repository calls of both services and the RPCs can fail; an RPC that
fails has not reached the service.
-/

namespace Relay.Gateway.AuthController

open Relay.Lib Relay.Auth Relay.Accounts

/-! ## The user service -/

/-- The columns of `user_profiles` that a registration sets or looks at. -/
structure UserProfile where
  userId : Text
  email : Text
  firstName : Text
  lastName : Text
  deletedAt : Option Time
deriving DecidableEq

structure CreateProfilePayload where
  userId : Text
  email : Text
  firstName : Text
  lastName : Text

structure State where
  accounts : Accounts.Db
  profiles : List UserProfile
  /-- The session cache. -/
  keys : Gateway.Auth.Keys

def State.findProfile (s : State) (userId : Text) : Option UserProfile :=
  s.profiles.find? fun row => row.userId = userId ∧ row.deletedAt = none

/-! ## Calls -/

inductive Pattern where
  | register | createProfile | deactivate
deriving DecidableEq

inductive Call where
  /-- The request reaches the service. -/
  | rpc (pattern : Pattern)
  | auth (c : Accounts.Call)
  | findProfile (userId : Text)
  | insertProfile (row : UserProfile)
  | setSession (user : AuthUserView)

@[reducible] def Call.Answer : Call → Type
  | .rpc _ => Unit
  | .auth c => c.Answer
  | .findProfile _ => Option UserProfile
  | .insertProfile _ => UserProfile
  | .setSession _ => Unit

abbrev M (α : Type) := Prog Call Call.Answer Failure α

/-- RPCs and repository calls. -/
def Call.canFail : Call → Bool
  | .rpc _ | .findProfile _ | .insertProfile _ => true
  | .auth c => repositoryCall c
  | .setSession _ => false

variable (cache : Gateway.Auth.Config)

def exec : (c : Call) → State → Except Failure c.Answer × State
  | .rpc _, s => (.ok (), s)
  | .auth c, s => ((Accounts.exec c s.accounts).1, { s with accounts := (Accounts.exec c s.accounts).2 })
  | .findProfile userId, s => (.ok (s.findProfile userId), s)
  | .insertProfile row, s =>
    if (s.findProfile row.userId).isSome then
      (.error (.query (.uniqueViolation "UQ_user_profiles_userId_active")), s)
    else (.ok row, { s with profiles := s.profiles ++ [row] })
  | .setSession user, s =>
    (.ok (), { s with
      keys := Gateway.Auth.AuthSessionCache.set cache user s.accounts.now s.keys })

abbrev perform (c : Call) : M c.Answer := Prog.perform c

/-- A program of the auth service, with its repository calls as calls of the system. -/
def auth {α : Type} : Accounts.M α → M α
  | .ret a => .ret a
  | .fail e => .fail e
  | .call c k => .call (.auth c) fun r => auth (k r)

def sendAuth {α : Type} (pattern : Pattern) (p : Accounts.M α) : M α := do
  perform (.rpc pattern)
  auth p

variable (pl : Platform) (cfg : Config)

/-- The part of `createProfile` in its `try`: where the insert fails, a row another request inserted. -/
def saveProfile (row : UserProfile) : M UserProfile := do
  match ← (perform (.insertProfile row)).attempt with
  | .ok saved => return saved
  | .error (.query e) =>
    match ← perform (.findProfile row.userId) with
    | some existing => return existing
    | none => .fail (.query e)
  | .error e => .fail e

def createProfile (p : CreateProfilePayload) : M UserProfile := do
  match ← perform (.findProfile p.userId) with
  | some existing => return existing
  | none =>
    saveProfile
      { userId := p.userId
        email := Js.trim (pl.toLowerCase p.email)
        firstName := Js.trim p.firstName
        lastName := Js.trim p.lastName
        deletedAt := none }

def sendCreateProfile (p : CreateProfilePayload) : M UserProfile := do
  perform (.rpc .createProfile)
  createProfile pl p

structure RegisterDto where
  email : Text
  password : Text
  firstName : Text
  lastName : Text
  inviteToken : Option Text

/-- `AuthController.register`; a failed compensation is ignored. -/
def register (dto : RegisterDto) : M AuthResult := do
  let result ← sendAuth .register
    (Accounts.register pl cfg ⟨dto.email, dto.password, dto.inviteToken⟩)
  match ← (sendCreateProfile pl ⟨result.user.id, result.user.email, dto.firstName, dto.lastName⟩).attempt
      with
  | .ok _ =>
    perform (.setSession result.user)
    return result
  | .error e =>
    let _ ← (sendAuth .deactivate (Accounts.deactivate result.user.id)).attempt
    .fail e

/-- The registration of one user, with the failures of its calls. -/
def registerUnder (dto : RegisterDto) (fault : Nat → Option Failure) (s : State) :
    Except Failure AuthResult × Faulty State :=
  Prog.run (faulty (exec cache) Call.canFail fault) (register pl cfg dto) (s, 0)

end Relay.Gateway.AuthController
