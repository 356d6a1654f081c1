import Mathlib.Data.List.AList
import Relay.Lib.Js
import Relay.Auth.Service

/-!
# Access tokens at the gateway

The gateway decides by itself whether a request or a socket handshake is authenticated: from the
token, from the blacklist of revoked tokens and from the session cache, the last two in Redis with a
lifetime. A key written at time `t` with a lifetime of `d` seconds is there until `t + d`.

`verify` stands for the JWT library (the payload of a token whose signature and expiry are valid at
a time), `hash` for SHA-256.
-/

namespace Relay.Gateway.Auth

open Relay.Lib Relay.Auth

inductive TokenType where
  | access | refresh
deriving DecidableEq, Repr

structure JwtPayload where
  sub : Text
  email : Text
  role : UserRole
  type : TokenType
deriving DecidableEq

structure AuthenticatedUser where
  id : Text
  email : Text
  role : UserRole
  isActive : Bool
  isEmailVerified : Bool
deriving DecidableEq

structure AppException where
  statusCode : Nat
  message : String
  error : String
deriving DecidableEq

def unauthorized (message : String) : AppException := ⟨401, message, "Unauthorized"⟩

/-- `UnauthorizedAppException` without a message. -/
def unauthorizedDefault : AppException :=
  unauthorized "Authentication is required or the provided credentials are invalid"

def forbidden (message : String) : AppException := ⟨403, message, "Forbidden"⟩

structure Config where
  /-- `AUTH_VALIDATE_CACHE_SECONDS`. -/
  validateCacheSeconds : Nat
  /-- `JWT_ACCESS_EXPIRES_IN` in seconds. -/
  accessExpiresSeconds : Nat
  access_pos : 0 < accessExpiresSeconds

def seconds (n : Nat) : Time := n * 1000000

/-- A value with the time its key expires. -/
structure Entry (α : Type) where
  value : α
  expiresAt : Time

/-- The keys `auth:validate:*` and `gateway:token:blacklist:*`. -/
structure Keys where
  validate : AList fun _ : Text => Entry AuthUserView
  blacklist : AList fun _ : Text => Entry Unit

def Keys.empty : Keys := ⟨∅, ∅⟩

/-! ## The session cache -/

namespace AuthSessionCache

def get (userId : Text) (now : Time) (keys : Keys) : Option AuthUserView :=
  match keys.validate.lookup userId with
  | none => none
  | some entry => if now < entry.expiresAt then some entry.value else none

def set (cfg : Config) (user : AuthUserView) (now : Time) (keys : Keys) : Keys :=
  { keys with
    validate := keys.validate.insert user.id ⟨user, now + seconds cfg.validateCacheSeconds⟩ }

def invalidate (userId : Text) (keys : Keys) : Keys :=
  { keys with validate := keys.validate.erase userId }

end AuthSessionCache

/-! ## The blacklist -/

namespace TokenBlacklistService

def revokeAccessToken (cfg : Config) (hash : Text → Text) (token : Text) (now : Time)
    (keys : Keys) : Keys :=
  { keys with
    blacklist := keys.blacklist.insert (hash token)
      ⟨(), now + seconds cfg.accessExpiresSeconds⟩ }

def isRevoked (hash : Text → Text) (token : Text) (now : Time) (keys : Keys) : Bool :=
  match keys.blacklist.lookup (hash token) with
  | none => false
  | some entry => now < entry.expiresAt

end TokenBlacklistService

/-! ## Tokens in headers -/

def bearerPrefix : Text := "Bearer ".toList

/-- `ExtractJwt.fromAuthHeaderAsBearerToken` of passport-jwt. -/
def fromAuthHeaderAsBearerToken (header : Text) : Option Text :=
  match Js.firstTwoWords header with
  | none => none
  | some (scheme, value) => if Js.toLower scheme = "bearer".toList then some value else none

/-- The token the guard looks up in the blacklist. -/
def extractBearer (header : Option Text) : Option Text :=
  match header with
  | none => none
  | some h => if bearerPrefix.isPrefixOf h then some (h.drop 7) else none

/-- The token the logout handler revokes. -/
def logoutToken (header : Option Text) : Option Text :=
  header.map (Js.replaceFirst bearerPrefix [])

/-! ## Requests -/

def userFromAccessToken (payload : JwtPayload) (cached : Option AuthUserView) :
    Except AppException AuthenticatedUser :=
  match cached with
  | some user =>
    if !user.isActive then .error (forbidden "This account has been deactivated")
    else .ok ⟨user.id, user.email, user.role, user.isActive, user.isEmailVerified⟩
  | none => .ok ⟨payload.sub, payload.email, payload.role, true, false⟩

/-- `JwtStrategy.validate`, for a payload the library has verified. -/
def validatePayload (payload : JwtPayload) (now : Time) (keys : Keys) :
    Except AppException AuthenticatedUser :=
  if payload.type ≠ .access ∨ payload.sub = [] then
    .error (unauthorized "Access token is required")
  else userFromAccessToken payload (AuthSessionCache.get payload.sub now keys)

structure HttpContext where
  isHttp : Bool
  isPublic : Bool
  authorization : Option Text
deriving DecidableEq

variable (verify : Text → Time → Option JwtPayload) (hash : Text → Text)

/-- `super.canActivate` with `handleRequest`: passport takes the token from the header, verifies it
and validates the payload. -/
def passportCanActivate (authorization : Option Text) (now : Time) (keys : Keys) :
    Except AppException AuthenticatedUser :=
  match authorization.bind fromAuthHeaderAsBearerToken with
  | none => .error unauthorizedDefault
  | some token =>
    match verify token now with
    | none => .error unauthorizedDefault
    | some payload => validatePayload payload now keys

/-- `JwtAuthGuard.canActivate`: whether the request goes on, with the user passport attached. -/
def canActivate (context : HttpContext) (now : Time) (keys : Keys) :
    Except AppException (Option AuthenticatedUser) :=
  if !context.isHttp then .ok none
  else if context.isPublic then .ok none
  else
    match extractBearer context.authorization with
    | some token =>
      if token ≠ [] ∧ TokenBlacklistService.isRevoked hash token now keys then
        .error (unauthorized "Access token has been revoked")
      else (passportCanActivate verify context.authorization now keys).map some
    | none => (passportCanActivate verify context.authorization now keys).map some

/-- The parts of a socket handshake a token is taken from. -/
structure Handshake where
  token : Option Text
  authorization : Option Text
deriving DecidableEq

/-- `replace(/^Bearer\s+/i, '')`. -/
def stripBearer (s : Text) : Text :=
  let rest := (s.drop 6).dropWhile Js.isSpace
  if Js.toLower (s.take 6) = "bearer".toList ∧ rest.length < (s.drop 6).length then rest else s

def extractToken (client : Handshake) : Option Text :=
  match client.token with
  | some t => if 0 < t.length then some (stripBearer t) else extractBearer client.authorization
  | none => extractBearer client.authorization

/-- `WsAuthService.authenticate`. -/
def authenticate (client : Handshake) (now : Time) (keys : Keys) :
    Except AppException AuthenticatedUser :=
  match extractToken client with
  | none => .error (unauthorized "Access token is required")
  | some token =>
    if token = [] then .error (unauthorized "Access token is required")
    else if TokenBlacklistService.isRevoked hash token now keys then
      .error (unauthorized "Access token has been revoked")
    else
      match verify token now with
      | none => .error (unauthorized "Access token is invalid or expired")
      | some payload =>
        if payload.type ≠ .access ∨ payload.sub = [] then
          .error (unauthorized "Access token is required")
        else userFromAccessToken payload (AuthSessionCache.get payload.sub now keys)

/-- The Redis part of the logout handler; `changePassword` ends with the same lines. -/
def logout (cfg : Config) (userId : Text) (header : Option Text) (now : Time) (keys : Keys) :
    Keys :=
  match logoutToken header with
  | some token =>
    if token = [] then AuthSessionCache.invalidate userId keys
    else AuthSessionCache.invalidate userId
      (TokenBlacklistService.revokeAccessToken cfg hash token now keys)
  | none => AuthSessionCache.invalidate userId keys

end Relay.Gateway.Auth
