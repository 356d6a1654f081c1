import Relay.Lib.Prog
import Relay.Common.Ids
import Relay.Common.Rpc

/-!
# The auth service

The user accounts and their refresh tokens, and the requests that end a session. Accounts are soft
deleted: `findOne` sees no row whose `deletedAt` is set.
-/

namespace Relay.Auth

open Relay.Lib

inductive UserRole where
  | admin | user
deriving DecidableEq, Repr

structure AuthUser where
  id : Text
  email : Text
  role : UserRole
  isActive : Bool
  isEmailVerified : Bool
  createdAt : Time
  updatedAt : Time
  deletedAt : Option Time
deriving DecidableEq

structure RefreshToken where
  userId : Text
  tokenHash : Text
  expiresAt : Time
  revoked : Bool
deriving DecidableEq

structure Db where
  users : List AuthUser
  refreshTokens : List RefreshToken
deriving DecidableEq

/-- The repository calls of the modelled requests. -/
inductive Call where
  | findUser (id : Text)
  | saveUser (user : AuthUser)
  | softRemoveUser (user : AuthUser)
  /-- Revokes the tokens of a user that have a given hash, or all that are not revoked. -/
  | revokeTokens (userId : Text) (tokenHash : Option Text)
deriving DecidableEq

@[reducible] def Call.Answer : Call → Type
  | .findUser _ => Option AuthUser
  | .saveUser _ => Unit
  | .softRemoveUser _ => Unit
  | .revokeTokens _ _ => Unit

abbrev M (α : Type) := Prog Call Call.Answer RpcError α

/-- Replaces the row with the id of `user`. -/
def Db.replaceUser (db : Db) (user : AuthUser) : Db :=
  { db with users := db.users.map fun row => if row.id = user.id then user else row }

/-- `now` is the clock of the database. -/
def exec (now : Time) : (c : Call) → Db → Except RpcError c.Answer × Db
  | .findUser id, db => (.ok (db.users.find? fun row => row.id = id ∧ row.deletedAt = none), db)
  | .saveUser user, db => (.ok (), db.replaceUser { user with updatedAt := now })
  | .softRemoveUser user, db =>
    (.ok (), db.replaceUser { user with updatedAt := now, deletedAt := some now })
  | .revokeTokens userId tokenHash, db =>
    (.ok (), { db with
      refreshTokens := db.refreshTokens.map fun row =>
        if row.userId = userId ∧ tokenHash.all (· = row.tokenHash) then
          { row with revoked := true }
        else row })

structure AuthUserView where
  id : Text
  email : Text
  role : UserRole
  isActive : Bool
  isEmailVerified : Bool
  createdAt : Time
  updatedAt : Time
deriving DecidableEq

def toView (user : AuthUser) : AuthUserView where
  id := user.id
  email := user.email
  role := user.role
  isActive := user.isActive
  isEmailVerified := user.isEmailVerified
  createdAt := user.createdAt
  updatedAt := user.updatedAt

def findUser (id : Text) : M (Option AuthUser) := Prog.perform (Call.findUser id)

def saveUser (user : AuthUser) : M Unit := Prog.perform (Call.saveUser user)

def softRemoveUser (user : AuthUser) : M Unit := Prog.perform (Call.softRemoveUser user)

def revokeTokens (userId : Text) (tokenHash : Option Text) : M Unit :=
  Prog.perform (Call.revokeTokens userId tokenHash)

def logout (userId : Text) (tokenHash : Option Text) : M Unit := revokeTokens userId tokenHash

def validate (userId : Text) : M AuthUserView := do
  match ← findUser userId with
  | none => .fail (RpcErrors.unauthorized "User session is no longer valid")
  | some user =>
    if !user.isActive then
      .fail (RpcErrors.forbidden "This account has been deactivated")
    else return toView user

def me (userId : Text) : M AuthUserView := do
  match ← findUser userId with
  | none => .fail (RpcErrors.notFound "User")
  | some user => return toView user

def deactivate (userId : Text) : M Unit := do
  match ← findUser userId with
  | none => .fail (RpcErrors.notFound "User")
  | some user =>
    let user := { user with isActive := false }
    saveUser user
    revokeTokens user.id none
    softRemoveUser user

end Relay.Auth
