import Relay.Common.Duration
import Relay.Accounts.Store

/-!
# The account service

The requests of the auth service, each the sequence of its repository calls. A reading of the clock and a
new random value are calls as well. Mail that the source sends on without waiting for it (the verification
mail of a registration) is a request of its own.
-/

namespace Relay.Accounts

open Relay.Lib Relay.Auth

inductive TokenType where
  | access | refresh
deriving DecidableEq, Repr

/-- What the libraries give: bcrypt with the salt it draws, SHA-256, the JWT library with the refresh
secret and the identifier of a token, `randomBytes`, and `String.toLowerCase`. -/
structure Platform where
  hashPassword (plain : Text) (salt : Nat) : Text
  verifyPassword (plain hashed : Text) : Bool
  sha256 : Text → Text
  signAccess (user : AuthUser) (expiresIn : Text) (now : Time) : Text
  signRefresh (user : AuthUser) (expiresIn : Text) (jwtid : Nat) (now : Time) : Text
  /-- The type claim of a refresh token whose signature and lifetime are valid. -/
  verifyRefresh (token : Text) (now : Time) : Option TokenType
  randomBytes : Nat → Text
  toLowerCase : Text → Text

structure Config where
  /-- `JWT_ACCESS_EXPIRES_IN`. -/
  accessExpiresIn : Text
  /-- `JWT_REFRESH_EXPIRES_IN`. -/
  refreshExpiresIn : Text
  emailVerifyTtlHours : Nat
  passwordResetTtlHours : Nat
  publicAppUrl : Text

structure TokenPair where
  accessToken : Text
  refreshToken : Text
  expiresIn : Text
deriving DecidableEq

structure AuthResult where
  user : AuthUserView
  tokens : TokenPair
deriving DecidableEq

structure RegisterPayload where
  email : Text
  password : Text
  inviteToken : Option Text

structure LoginPayload where
  email : Text
  password : Text
  ip : Option Text
  userAgent : Option Text

structure RefreshPayload where
  refreshToken : Text
  ip : Option Text
  userAgent : Option Text

structure CreateInvitePayload where
  createdByUserId : Text
  email : Option Text
  expiresInDays : Option Nat
  maxUses : Option Nat

structure InviteView where
  id : Nat
  email : Option Text
  inviteUrl : Text
  maxUses : Nat
  usedCount : Nat
  expiresAt : Time
  revokedAt : Option Time
  createdAt : Time
  createdByUserId : Option Text
  token : Option Text
deriving DecidableEq

structure PublicInviteView where
  email : Option Text
  expiresAt : Time
  valid : Bool
deriving DecidableEq

/-! ## Building blocks -/

abbrev perform (c : Call) : M c.Answer := Prog.perform c

def reject {α : Type} (e : RpcError) : M α := .fail (.rpc e)

def rejectIf (condition : Prop) [Decidable condition] (e : RpcError) : M Unit :=
  if condition then reject e else return ()

def require {α : Type} (a : Option α) (e : RpcError) : M α :=
  match a with
  | none => reject e
  | some a => return a

/-- A text that is there and not empty. -/
def truthy (s : Option Text) : Option Text := s.filter fun s => s != []

/-- `refreshTokens.update(…, { revoked: true })`. -/
def updateRevoked (userId : Text) (tokenHash : Option Text) : M Unit := do
  let ids ← perform (.matchingTokens userId tokenHash)
  perform (.revokeTokens ids)

/-- `manager.transaction`. -/
def transaction {α : Type} (body : Nat → M α) : M α := do
  let tx ← perform .beginTx
  let result ← (body tx).attempt
  match result with
  | .ok a =>
    perform (.commitTx tx)
    return a
  | .error e =>
    perform (.rollbackTx tx)
    .fail e

variable (pl : Platform) (cfg : Config)

/-- `JWT` pair for a user; `save` stores the hash of the refresh token. -/
def issueTokens (user : AuthUser) (ip userAgent : Option Text) (save : RefreshTokenDraft → M Unit) :
    M TokenPair := do
  let issuedAt ← perform .newDate
  let accessToken := pl.signAccess user cfg.accessExpiresIn issuedAt
  let jwtid ← perform .newId
  let issuedAt ← perform .newDate
  let refreshToken := pl.signRefresh user cfg.refreshExpiresIn jwtid issuedAt
  let now ← perform .newDate
  save
    { userId := user.id
      tokenHash := pl.sha256 refreshToken
      expiresAt := now + ms (parseDurationMs cfg.refreshExpiresIn)
      userAgent, ip }
  return { accessToken, refreshToken, expiresIn := cfg.accessExpiresIn }

/-! ## Tokens sent by mail -/

def ttlMs (hours : Nat) : Nat := max 1 hours * 3600000

/-- The columns a caller of `issueToken` sets. -/
structure IssueInput where
  type : AuthTokenType
  email : Option Text
  userId : Option Text
  createdByUserId : Option Text
  maxUses : Nat
  ttlMs : Nat

def issueToken (input : IssueInput) : M Text := do
  if input.type = .emailVerify ∨ input.type = .passwordReset then
    perform (.revokeAuthTokens input.type input.userId)
  let raw := pl.randomBytes (← perform .newId)
  let now ← perform .newDate
  perform (.insertAuthToken
    { type := input.type
      tokenHash := pl.sha256 raw
      email := input.email
      userId := input.userId
      createdByUserId := input.createdByUserId
      maxUses := input.maxUses
      expiresAt := now + ms input.ttlMs })
  return raw

def findValidToken (raw : Text) (type : AuthTokenType) : M (Option AuthToken) := do
  if Js.length raw < 16 then return none
  match ← perform (.findAuthToken (pl.sha256 raw) type) with
  | none => return none
  | some found =>
    if found.revokedAt.isSome then return none
    let now ← perform .newDate
    if found.expiresAt < now then return none
    if found.maxUses ≤ found.usedCount then return none
    return some found

/-- One more use of a loaded row. -/
def countUse (record : AuthToken) : M AuthToken := do
  let record := { record with usedCount := record.usedCount + 1 }
  let record ←
    if record.maxUses ≤ record.usedCount then do
      let now ← perform .newDate
      pure { record with revokedAt := some now }
    else pure record
  perform (.saveAuthToken record)
  return record

def consumeToken (raw : Text) (type : AuthTokenType) : M AuthToken := do
  let found ← findValidToken pl raw type
  let record ← require found (RpcErrors.badRequest "Token is invalid or expired")
  countUse record

def assertInviteForRegister (token email : Text) : M AuthToken := do
  let found ← findValidToken pl token .invite
  let record ← require found (RpcErrors.badRequest "Invite link is invalid or expired")
  rejectIf (∃ e, truthy record.email = some e ∧ e ≠ email)
    (RpcErrors.badRequest "This invite is for a different email address")
  return record

def consumeInvite (tokenId : Nat) : M Unit := do
  match ← perform (.findAuthTokenById tokenId) with
  | none => return ()
  | some record =>
    let _ ← countUse record

def requestEmailVerification (userId : Text) : M (Bool × Option Text) := do
  let found ← perform (.findUser userId)
  let user ← require found (RpcErrors.notFound "User")
  if user.isEmailVerified then return (false, none)
  let raw ← issueToken pl
    { type := .emailVerify
      email := some user.email
      userId := some user.id
      createdByUserId := none
      maxUses := 1
      ttlMs := ttlMs cfg.emailVerifyTtlHours }
  let verifyUrl := cfg.publicAppUrl ++ "/verify-email?token=".toList ++ raw
  let result ← perform (.sendMail
    { recipient := user.email
      text := "Verify your email by opening this link:\n".toList ++ verifyUrl ++
        "\n\nThis link expires in 48 hours.".toList })
  return (true, result.previewUrl.or (if result.delivered then none else some verifyUrl))

def verifyEmail (token : Text) : M Bool := do
  let record ← consumeToken pl token .emailVerify
  let userId ← require (truthy record.userId) (RpcErrors.badRequest "Verification token is invalid")
  let found ← perform (.findUser userId)
  let user ← require found (RpcErrors.notFound "User")
  perform (.saveUser { user with isEmailVerified := true } none)
  return true

def forgotPassword (emailRaw : Text) : M (Bool × Option Text) := do
  let email := Js.trim (pl.toLowerCase emailRaw)
  match ← perform (.findUserByEmail email) with
  | none => return (true, none)
  | some user =>
    if !user.isActive then return (true, none)
    let raw ← issueToken pl
      { type := .passwordReset
        email := some user.email
        userId := some user.id
        createdByUserId := none
        maxUses := 1
        ttlMs := ttlMs cfg.passwordResetTtlHours }
    let resetUrl := cfg.publicAppUrl ++ "/reset-password?token=".toList ++ raw
    let result ← perform (.sendMail
      { recipient := user.email
        text := "Reset your password by opening this link:\n".toList ++ resetUrl ++
          "\n\nIf you did not request this, ignore this email.".toList })
    return (true, result.previewUrl.or (if result.delivered then none else some resetUrl))

/-- `AuthTokenService.resetPassword`: the id of the user whose password was set. -/
def resetPasswordHash (token passwordHash : Text) : M Text := do
  let record ← consumeToken pl token .passwordReset
  let userId ← require (truthy record.userId) (RpcErrors.badRequest "Reset token is invalid")
  let found ← perform (.findUserWithPassword userId)
  let user ← require found (RpcErrors.notFound "User")
  perform (.saveUser user.toAuthUser (some passwordHash))
  return user.id

def toInviteView (row : AuthToken) (rawToken : Option Text) : InviteView where
  id := row.id
  email := row.email
  inviteUrl := match truthy rawToken with
    | some raw => cfg.publicAppUrl ++ "/invite/".toList ++ raw
    | none => cfg.publicAppUrl ++ "/invite".toList
  maxUses := row.maxUses
  usedCount := row.usedCount
  expiresAt := row.expiresAt
  revokedAt := row.revokedAt
  createdAt := jsDate row.createdAt
  createdByUserId := row.createdByUserId
  token := truthy rawToken

/-- `Math.min(Math.max(value ?? fallback, 1), upper)`. -/
def clamp (value : Option Nat) (fallback upper : Nat) : Nat := min (max (value.getD fallback) 1) upper

def createInvite (p : CreateInvitePayload) : M InviteView := do
  let email := truthy (p.email.map fun e => Js.trim (pl.toLowerCase e))
  match email with
  | none => pure ()
  | some e =>
    let existing ← perform (.findUserByEmail e)
    rejectIf existing.isSome (RpcErrors.conflict "An account with this email already exists")
  let days := clamp p.expiresInDays 7 90
  let maxUses := if email.isSome then 1 else clamp p.maxUses 25 500
  let raw ← issueToken pl
    { type := .invite
      email
      userId := none
      createdByUserId := some p.createdByUserId
      maxUses
      ttlMs := days * 86400000 }
  match ← perform (.findAuthTokenByHash (pl.sha256 raw)) with
  | none => .fail .entityNotFound
  | some saved => return toInviteView cfg saved (some raw)

def listInvites : M (List InviteView) := do
  let rows ← perform .listInvites
  return rows.map fun row => toInviteView cfg row none

def getInvite (token : Text) : M PublicInviteView := do
  match ← findValidToken pl token .invite with
  | none => return ⟨none, 0, false⟩
  | some record => return ⟨record.email, record.expiresAt, true⟩

def revokeInvite (inviteId : Nat) : M Bool := do
  let found ← perform (.findAuthTokenById inviteId)
  let record ← require (found.filter fun row => row.type = .invite) (RpcErrors.notFound "Invite")
  let now ← perform .newDate
  perform (.saveAuthToken { record with revokedAt := some now })
  return true

/-! ## Accounts -/

/-- The part of `register` that a violated index turns into a conflict. -/
def createAccount (d : UserDraft) (inviteId : Option Nat) : M AuthResult := do
  let saved ← perform (.insertUser d)
  match inviteId with
  | none => pure ()
  | some id => consumeInvite id
  let tokens ← issueTokens pl cfg saved none none fun d => perform (.insertRefreshToken d)
  return { user := toView saved, tokens }

def register (p : RegisterPayload) : M AuthResult := do
  let email := Js.trim (pl.toLowerCase p.email)
  let existing ← perform (.findUserByEmail email)
  rejectIf existing.isSome (RpcErrors.conflict "An account with this email already exists")
  let invite ← match truthy p.inviteToken with
    | none => pure none
    | some token => some <$> assertInviteForRegister pl token email
  let salt ← perform .newId
  let result ← (createAccount pl cfg
    { email
      password := pl.hashPassword p.password salt
      role := .user
      isActive := true
      isEmailVerified := invite.any fun i => truthy i.email = some email }
    (invite.map AuthToken.id)).attempt
  match result with
  | .ok r => return r
  | .error (.query (.uniqueViolation _)) =>
    reject (RpcErrors.conflict "An account with this email already exists")
  | .error e => .fail e

def login (p : LoginPayload) : M AuthResult := do
  let email := Js.trim (pl.toLowerCase p.email)
  let found ← perform (.findUserByEmailWithPassword email)
  let user ← require found (RpcErrors.unauthorized "Invalid email or password")
  rejectIf (!pl.verifyPassword p.password user.password)
    (RpcErrors.unauthorized "Invalid email or password")
  rejectIf (!user.isActive) (RpcErrors.forbidden "This account has been deactivated")
  let tokens ← issueTokens pl cfg user.toAuthUser p.ip p.userAgent fun d =>
    perform (.insertRefreshToken d)
  return { user := toView user.toAuthUser, tokens }

def invalidRefreshToken : RpcError := RpcErrors.unauthorized "Refresh token is invalid or expired"

/-- The transaction of `refresh`. -/
def rotate (p : RefreshPayload) (tx : Nat) : M AuthResult := do
  let found ← perform (.lockToken tx (pl.sha256 p.refreshToken))
  let (stored, user) ← require found invalidRefreshToken
  rejectIf stored.revoked invalidRefreshToken
  let now ← perform .newDate
  rejectIf (stored.expiresAt < now) invalidRefreshToken
  rejectIf (!user.isActive) (RpcErrors.forbidden "This account has been deactivated")
  perform (.saveTokenIn tx { stored with revoked := true })
  let tokens ← issueTokens pl cfg user p.ip p.userAgent fun d => perform (.insertRefreshTokenIn tx d)
  return { user := toView user, tokens }

def refresh (p : RefreshPayload) : M AuthResult := do
  let now ← perform .newDate
  rejectIf (pl.verifyRefresh p.refreshToken now ≠ some .refresh) invalidRefreshToken
  transaction (rotate pl cfg p)

def logout (userId : Text) (refreshToken : Option Text) : M Bool := do
  updateRevoked userId ((truthy refreshToken).map pl.sha256)
  return true

def validate (userId : Text) : M AuthUserView := do
  let found ← perform (.findUser userId)
  let user ← require found (RpcErrors.unauthorized "User session is no longer valid")
  rejectIf (!user.isActive) (RpcErrors.forbidden "This account has been deactivated")
  return toView user

def me (userId : Text) : M AuthUserView := do
  let found ← perform (.findUser userId)
  let user ← require found (RpcErrors.notFound "User")
  return toView user

def changePassword (userId currentPassword newPassword : Text) : M Bool := do
  let found ← perform (.findUserWithPassword userId)
  let user ← require found (RpcErrors.notFound "User")
  rejectIf (!pl.verifyPassword currentPassword user.password)
    (RpcErrors.unauthorized "Current password is incorrect")
  let salt ← perform .newId
  perform (.saveUser user.toAuthUser (some (pl.hashPassword newPassword salt)))
  updateRevoked user.id none
  return true

def resetPassword (token password : Text) : M Bool := do
  let salt ← perform .newId
  let userId ← resetPasswordHash pl token (pl.hashPassword password salt)
  updateRevoked userId none
  return true

def deactivate (userId : Text) : M Bool := do
  let found ← perform (.findUser userId)
  let user ← require found (RpcErrors.notFound "User")
  let user := { user with isActive := false }
  perform (.saveUser user none)
  updateRevoked user.id none
  perform (.softRemoveUser user)
  return true

/-- What an instance does when it starts, with the configured address and password. -/
def ensureAdmin (adminEmail adminPassword : Option Text) : M Unit :=
  match truthy (adminEmail.map fun e => Js.trim (pl.toLowerCase e)) with
  | none => return
  | some email => do
    match ← perform (.findUserByEmail email) with
    | some existing =>
      if existing.role ≠ .admin then
        perform (.saveUser { existing with role := .admin } none)
    | none =>
      match truthy adminPassword with
      | none => return
      | some password => do
        let salt ← perform .newId
        let _ ← perform (.insertUser
          { email
            password := pl.hashPassword password salt
            role := .admin
            isActive := true
            isEmailVerified := true })

end Relay.Accounts
