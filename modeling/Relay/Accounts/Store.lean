import Mathlib.Data.List.Sort
import Relay.Lib.Js
import Relay.Lib.Rows
import Relay.Auth.Service

/-!
# The database of the accounts

The three tables of the auth service with every column its requests use, and the repository calls.
`exec` is what a call does when it is made; `waits` says when a call has to wait for a row that an open
transaction has locked.

A transaction keeps what it has written to itself until it commits (`pending`), and the rows it has
locked until it ends (`locks`). The locked read of `refresh` also locks the row of the user; that lock is
left out, so a save of the user goes through where it would have to wait. An `UPDATE` of several rows
finds its rows first (`matchingTokens`) and writes them when none is locked (`revokeTokens`): a row
inserted in between is not found. An insert whose hash an open transaction is about to insert is refused
at once.
-/

namespace Relay.Accounts

open Relay.Lib Relay.Lib.Rows Relay.Auth

/-! ## Rows -/

/-- A row of `users`; the password is loaded only where a query asks for it. -/
structure UserRow extends AuthUser where
  password : Text
deriving DecidableEq

structure RefreshTokenRow extends RefreshToken where
  id : Nat
  userAgent : Option Text
  ip : Option Text
  createdAt : Time
deriving DecidableEq

inductive AuthTokenType where
  | emailVerify | passwordReset | invite
deriving DecidableEq, Repr

structure AuthToken where
  id : Nat
  type : AuthTokenType
  tokenHash : Text
  email : Option Text
  userId : Option Text
  createdByUserId : Option Text
  maxUses : Nat
  usedCount : Nat
  expiresAt : Time
  revokedAt : Option Time
  createdAt : Time
deriving DecidableEq

/-- What a transaction has written and not yet committed. -/
inductive TokenWrite where
  | save (row : RefreshTokenRow)
  | insert (row : RefreshTokenRow)
deriving DecidableEq

/-- What delivers mail: nothing (it is logged), or an SMTP server, with what becomes of the next mails. -/
inductive Mailer where
  | log
  | smtp (outcomes : List Bool)
deriving DecidableEq

structure Db where
  users : List UserRow
  refreshTokens : List RefreshTokenRow
  authTokens : List AuthToken
  mailer : Mailer
  /-- A row of `refresh_tokens` and the transaction that holds its lock. -/
  locks : List (Nat × Nat)
  pending : List (Nat × TokenWrite)
  /-- The next value of the generators of ids, salts and tokens. -/
  nextId : Nat
  now : Time
deriving DecidableEq

def Db.empty (mailer : Mailer) (now : Time) : Db := ⟨[], [], [], mailer, [], [], 0, now⟩

inductive QueryError where
  | uniqueViolation (constraint : String)
deriving DecidableEq

inductive Failure where
  | rpc (e : RpcError)
  | query (e : QueryError)
  | entityNotFound
  | transport
deriving DecidableEq

/-! ## What is inserted -/

structure UserDraft where
  email : Text
  password : Text
  role : UserRole
  isActive : Bool
  isEmailVerified : Bool
deriving DecidableEq

structure RefreshTokenDraft where
  userId : Text
  tokenHash : Text
  expiresAt : Time
  userAgent : Option Text
  ip : Option Text
deriving DecidableEq

structure AuthTokenDraft where
  type : AuthTokenType
  tokenHash : Text
  email : Option Text
  userId : Option Text
  createdByUserId : Option Text
  maxUses : Nat
  expiresAt : Time
deriving DecidableEq

structure Mail where
  recipient : Text
  text : Text
deriving DecidableEq

structure SendResult where
  delivered : Bool
  previewUrl : Option Text
deriving DecidableEq

/-- The text of a generated id. -/
def idText (id : Nat) : Text := (toString id).toList

def UserDraft.toRow (d : UserDraft) (id : Nat) (now : Time) : UserRow where
  id := idText id
  email := d.email
  role := d.role
  isActive := d.isActive
  isEmailVerified := d.isEmailVerified
  createdAt := now
  updatedAt := now
  deletedAt := none
  password := d.password

def RefreshTokenDraft.toRow (d : RefreshTokenDraft) (id : Nat) (now : Time) : RefreshTokenRow where
  userId := d.userId
  tokenHash := d.tokenHash
  expiresAt := d.expiresAt
  revoked := false
  id := id
  userAgent := d.userAgent
  ip := d.ip
  createdAt := now

def AuthTokenDraft.toRow (d : AuthTokenDraft) (id : Nat) (now : Time) : AuthToken where
  id := id
  type := d.type
  tokenHash := d.tokenHash
  email := d.email
  userId := d.userId
  createdByUserId := d.createdByUserId
  maxUses := d.maxUses
  usedCount := 0
  expiresAt := d.expiresAt
  revokedAt := none
  createdAt := now

/-! ## Users -/

/-- Soft-deleted rows are not seen. -/
def Db.findUser (db : Db) (p : UserRow → Bool) : Option UserRow :=
  db.users.find? fun row => p row && row.deletedAt.isNone

/-- `UQ_users_email_active`, for a row about to be written. -/
def Db.emailTaken (db : Db) (user : AuthUser) : Bool :=
  user.deletedAt.isNone &&
    db.users.any fun row => row.id != user.id && row.email = user.email && row.deletedAt.isNone

/-- The row after a save of the loaded entity, its password where that was loaded. A save that changes
nothing writes nothing. -/
def UserRow.saved (row : UserRow) (user : AuthUser) (password : Option Text) (now : Time) : UserRow :=
  let new : UserRow := ⟨{ user with updatedAt := row.updatedAt }, password.getD row.password⟩
  if new = row then row else { new with updatedAt := now }

def Db.saveUser (db : Db) (user : AuthUser) (password : Option Text) : Db :=
  { db with
    users := db.users.map fun row =>
      if row.id = user.id then row.saved user password db.now else row }

/-! ## Refresh tokens -/

/-- A stored row or one about to be stored has the hash. -/
def Db.hashTaken (db : Db) (tokenHash : Text) : Bool :=
  (db.refreshTokens.any fun row => row.tokenHash = tokenHash) ||
    db.pending.any fun w => match w.2 with
      | .insert row => row.tokenHash = tokenHash
      | .save _ => false

/-- The rows an `UPDATE` finds: the tokens of the user that are not revoked, or the one with a hash. -/
def tokenMatches (userId : Text) (tokenHash : Option Text) (row : RefreshTokenRow) : Bool :=
  row.userId = userId &&
    match tokenHash with
    | some hash => row.tokenHash = hash
    | none => !row.revoked

/-- The row a locked read finds, with its user. -/
def Db.tokenWithUser (db : Db) (tokenHash : Text) : Option (RefreshTokenRow × UserRow) := do
  let row ← db.refreshTokens.find? fun row => row.tokenHash = tokenHash
  let user ← db.findUser fun user => user.id = row.userId
  return (row, user)

/-- Another transaction holds the lock of the row. -/
def Db.lockedByOther (db : Db) (tx : Nat) (id : Nat) : Bool :=
  db.locks.any fun l => l.1 = id && l.2 != tx

def TokenWrite.apply (rows : List RefreshTokenRow) : TokenWrite → List RefreshTokenRow
  | .save row => replaceRow RefreshTokenRow.id row rows
  | .insert row => rows ++ [row]

/-- The transaction is over: its locks and what it has written to itself are gone. -/
def Db.endTx (db : Db) (tx : Nat) : Db :=
  { db with
    locks := db.locks.filter fun l => l.2 != tx
    pending := db.pending.filter fun w => w.1 != tx }

/-- The writes of the transaction, in their order, become visible. -/
def Db.commitTx (db : Db) (tx : Nat) : Db :=
  let rows := ((db.pending.filter fun w => w.1 = tx).map Prod.snd).foldl TokenWrite.apply
    db.refreshTokens
  { db.endTx tx with refreshTokens := rows }

/-! ## Mail -/

/-- The match of `https?:\/\/\S+`. -/
def extractUrl : Text → Option Text
  | [] => none
  | c :: cs =>
    let scheme := ["http://".toList, "https://".toList].find? fun s => s.isPrefixOf (c :: cs)
    let rest := scheme.map fun s => ((c :: cs).drop s.length).takeWhile fun c => !Js.isSpace c
    match scheme, rest with
    | some s, some (r :: rs) => some (s ++ r :: rs)
    | _, _ => extractUrl cs

/-! ## Calls -/

inductive Call where
  -- users
  | findUserByEmail (email : Text)
  | findUserByEmailWithPassword (email : Text)
  | findUser (id : Text)
  | findUserWithPassword (id : Text)
  | insertUser (d : UserDraft)
  | saveUser (user : AuthUser) (password : Option Text)
  | softRemoveUser (user : AuthUser)
  -- refresh tokens
  | insertRefreshToken (d : RefreshTokenDraft)
  | matchingTokens (userId : Text) (tokenHash : Option Text)
  | revokeTokens (ids : List Nat)
  -- the transaction of `refresh`
  | beginTx
  | lockToken (tx : Nat) (tokenHash : Text)
  | saveTokenIn (tx : Nat) (row : RefreshTokenRow)
  | insertRefreshTokenIn (tx : Nat) (d : RefreshTokenDraft)
  | commitTx (tx : Nat)
  | rollbackTx (tx : Nat)
  -- tokens sent by mail
  | findAuthToken (tokenHash : Text) (type : AuthTokenType)
  | findAuthTokenByHash (tokenHash : Text)
  | findAuthTokenById (id : Nat)
  | listInvites
  | saveAuthToken (row : AuthToken)
  | revokeAuthTokens (type : AuthTokenType) (userId : Option Text)
  | insertAuthToken (d : AuthTokenDraft)
  | sendMail (mail : Mail)
  -- `new Date()`, and the generators of ids, salts and tokens
  | newDate
  | newId
deriving DecidableEq

@[reducible] def Call.Answer : Call → Type
  | .findUserByEmail _ => Option AuthUser
  | .findUserByEmailWithPassword _ => Option UserRow
  | .findUser _ => Option AuthUser
  | .findUserWithPassword _ => Option UserRow
  | .insertUser _ => AuthUser
  | .saveUser _ _ => Unit
  | .softRemoveUser _ => Unit
  | .insertRefreshToken _ => Unit
  | .matchingTokens _ _ => List Nat
  | .revokeTokens _ => Unit
  | .beginTx => Nat
  | .lockToken _ _ => Option (RefreshTokenRow × AuthUser)
  | .saveTokenIn _ _ => Unit
  | .insertRefreshTokenIn _ _ => Unit
  | .commitTx _ => Unit
  | .rollbackTx _ => Unit
  | .findAuthToken _ _ => Option AuthToken
  | .findAuthTokenByHash _ => Option AuthToken
  | .findAuthTokenById _ => Option AuthToken
  | .listInvites => List AuthToken
  | .saveAuthToken _ => Unit
  | .revokeAuthTokens _ _ => Unit
  | .insertAuthToken _ => Unit
  | .sendMail _ => SendResult
  | .newDate => Time
  | .newId => Nat

abbrev M (α : Type) := Prog Call Call.Answer Failure α

/-- The call cannot go on before a transaction has ended. -/
def waits (db : Db) : Call → Bool
  | .revokeTokens ids => db.locks.any fun l => l.1 ∈ ids
  | .lockToken tx tokenHash => (db.tokenWithUser tokenHash).any fun r => db.lockedByOther tx r.1.id
  | _ => false

def exec : (c : Call) → Db → Except Failure c.Answer × Db
  | .findUserByEmail email, db =>
    (.ok ((db.findUser fun row => row.email = email).map UserRow.toAuthUser), db)
  | .findUserByEmailWithPassword email, db => (.ok (db.findUser fun row => row.email = email), db)
  | .findUser id, db => (.ok ((db.findUser fun row => row.id = id).map UserRow.toAuthUser), db)
  | .findUserWithPassword id, db => (.ok (db.findUser fun row => row.id = id), db)
  | .insertUser d, db =>
    let row := d.toRow db.nextId db.now
    if db.emailTaken row.toAuthUser then
      (.error (.query (.uniqueViolation "UQ_users_email_active")), db)
    else (.ok row.toAuthUser, { db with users := db.users ++ [row], nextId := db.nextId + 1 })
  | .saveUser user password, db =>
    if db.emailTaken user then (.error (.query (.uniqueViolation "UQ_users_email_active")), db)
    else (.ok (), db.saveUser user password)
  | .softRemoveUser user, db =>
    (.ok (), { db with
      users := db.users.map fun row =>
        if row.id = user.id then { row with updatedAt := db.now, deletedAt := some db.now } else row })
  | .insertRefreshToken d, db =>
    if db.hashTaken d.tokenHash then
      (.error (.query (.uniqueViolation "IDX_refresh_tokens_tokenHash")), db)
    else
      (.ok (), { db with
        refreshTokens := db.refreshTokens ++ [d.toRow db.nextId db.now]
        nextId := db.nextId + 1 })
  | .matchingTokens userId tokenHash, db =>
    (.ok ((db.refreshTokens.filter (tokenMatches userId tokenHash)).map RefreshTokenRow.id), db)
  | .revokeTokens ids, db =>
    (.ok (), { db with
      refreshTokens := db.refreshTokens.map fun row =>
        if row.id ∈ ids then { row with revoked := true } else row })
  | .beginTx, db => (.ok db.nextId, { db with nextId := db.nextId + 1 })
  | .lockToken tx tokenHash, db =>
    match db.tokenWithUser tokenHash with
    | none => (.ok none, db)
    | some (row, user) =>
      (.ok (some (row, user.toAuthUser)), { db with locks := db.locks ++ [(row.id, tx)] })
  | .saveTokenIn tx row, db => (.ok (), { db with pending := db.pending ++ [(tx, .save row)] })
  | .insertRefreshTokenIn tx d, db =>
    if db.hashTaken d.tokenHash then
      (.error (.query (.uniqueViolation "IDX_refresh_tokens_tokenHash")), db)
    else
      (.ok (), { db with
        pending := db.pending ++ [(tx, .insert (d.toRow db.nextId db.now))]
        nextId := db.nextId + 1 })
  | .commitTx tx, db => (.ok (), db.commitTx tx)
  | .rollbackTx tx, db => (.ok (), db.endTx tx)
  | .findAuthToken tokenHash type, db =>
    (.ok (db.authTokens.find? fun row => row.tokenHash = tokenHash ∧ row.type = type), db)
  | .findAuthTokenByHash tokenHash, db =>
    (.ok (db.authTokens.find? fun row => row.tokenHash = tokenHash), db)
  | .findAuthTokenById id, db => (.ok (db.authTokens.find? fun row => row.id = id), db)
  | .listInvites, db =>
    (.ok (((db.authTokens.filter fun row : AuthToken => row.type = .invite).insertionSort
      fun a b : AuthToken => b.createdAt ≤ a.createdAt).take 100), db)
  | .saveAuthToken row, db =>
    (.ok (), { db with authTokens := replaceRow AuthToken.id row db.authTokens })
  | .revokeAuthTokens type userId, db =>
    (.ok (), { db with
      authTokens := db.authTokens.map fun row =>
        if row.type = type ∧ (∃ u, userId = some u ∧ row.userId = some u) ∧ row.revokedAt = none then
          { row with revokedAt := some db.now }
        else row })
  | .insertAuthToken d, db =>
    if db.authTokens.any fun row => row.tokenHash = d.tokenHash then
      (.error (.query (.uniqueViolation "IDX_auth_tokens_hash")), db)
    else
      (.ok (), { db with
        authTokens := db.authTokens ++ [d.toRow db.nextId db.now]
        nextId := db.nextId + 1 })
  | .sendMail mail, db =>
    match db.mailer with
    | .log => (.ok ⟨false, extractUrl mail.text⟩, db)
    | .smtp [] => (.ok ⟨true, none⟩, db)
    | .smtp (sent :: outcomes) =>
      (if sent then .ok ⟨true, none⟩ else .error .transport, { db with mailer := .smtp outcomes })
  | .newDate, db => (.ok (jsDate db.now), db)
  | .newId, db => (.ok db.nextId, { db with nextId := db.nextId + 1 })

/-- Time passes, in microseconds. -/
def Db.wait (db : Db) (d : Nat) : Db := { db with now := db.now + d }

end Relay.Accounts
