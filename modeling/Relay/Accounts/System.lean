import Relay.Lib.Requests
import Relay.Accounts.Service

/-!
# The account service as a system

An `Op` is a request the service receives. Any number of requests are served together: one after the other
they make their calls, a call that has to wait for a transaction is tried again, and time passes.
-/

namespace Relay.Accounts

open Relay.Lib Relay.Auth

inductive Op where
  | register (p : RegisterPayload)
  | login (p : LoginPayload)
  | refresh (p : RefreshPayload)
  | logout (userId : Text) (refreshToken : Option Text)
  | validate (userId : Text)
  | me (userId : Text)
  | changePassword (userId currentPassword newPassword : Text)
  | forgotPassword (email : Text)
  | resetPassword (token password : Text)
  | requestEmailVerification (userId : Text)
  | verifyEmail (token : Text)
  | createInvite (p : CreateInvitePayload)
  | listInvites
  | getInvite (token : Text)
  | revokeInvite (inviteId : Nat)
  | deactivate (userId : Text)

inductive Response where
  | auth (result : AuthResult)
  | view (user : AuthUserView)
  /-- `revoked`, `changed`, `reset`, `verified` or `deactivated`. -/
  | done (done : Bool)
  /-- `sent` or `accepted`, with the link shown where no mail was delivered. -/
  | mailed (sent : Bool) (debugUrl : Option Text)
  | invite (view : InviteView)
  | invites (views : List InviteView)
  | publicInvite (view : PublicInviteView)
deriving DecidableEq

variable (pl : Platform) (cfg : Config)

def Op.program : Op → M Response
  | .register p => .auth <$> Accounts.register pl cfg p
  | .login p => .auth <$> Accounts.login pl cfg p
  | .refresh p => .auth <$> Accounts.refresh pl cfg p
  | .logout u t => .done <$> Accounts.logout pl u t
  | .validate u => .view <$> Accounts.validate u
  | .me u => .view <$> Accounts.me u
  | .changePassword u current new => .done <$> Accounts.changePassword pl u current new
  | .forgotPassword email => (fun r => .mailed r.1 r.2) <$> Accounts.forgotPassword pl cfg email
  | .resetPassword t password => .done <$> Accounts.resetPassword pl t password
  | .requestEmailVerification u =>
    (fun r => .mailed r.1 r.2) <$> Accounts.requestEmailVerification pl cfg u
  | .verifyEmail t => .done <$> Accounts.verifyEmail pl t
  | .createInvite p => .invite <$> Accounts.createInvite pl cfg p
  | .listInvites => .invites <$> Accounts.listInvites cfg
  | .getInvite t => .publicInvite <$> Accounts.getInvite pl t
  | .revokeInvite id => .done <$> Accounts.revokeInvite id
  | .deactivate u => .done <$> Accounts.deactivate u

/-- The request served alone: its response or error, and the database it leaves. -/
def Op.run (op : Op) (db : Db) : Except Failure Response × Db := Prog.run exec (op.program pl cfg) db

/-! ## Pools -/

section Pools

variable {O G : Type}

/-- A pool of requests, each with how far it has come. -/
abbrev Service (O G : Type) := Staged Call Call.Answer Failure Response Db (O × G)

/-- A request makes its next call, or time passes. -/
abbrev Event := Pool.Event Empty Nat

/-- The protocols of the requests. -/
abbrev Protocols (O G : Type) := O → Protocol Call Call.Answer Failure G

def serviceStep (P : Protocols O G) : Event → Service O G → Service O G :=
  serve exec (fun d db => db.wait d) P waits

/-- Some requests have come in; `ask` spells them out. -/
def incoming (ask : O → Op) (init : O → G) (os : List O) (db : Db) : Service O G :=
  requests (fun o => (ask o).program pl cfg) init os db

end Pools

/-- A result that is there and no error. -/
theorem exists_ok {r : Option (Except Failure Response)}
    (h : (r.bind Except.toOption).isSome = true) : ∃ a, r = some (.ok a) := by
  obtain ⟨a, ha⟩ := Option.isSome_iff_exists.mp h
  obtain ⟨r, hr, har⟩ := Option.bind_eq_some_iff.mp ha
  cases r with
  | error e => cases har
  | ok b => exact ⟨b, hr⟩

/-- The clock, the generators and the mail are no repository calls. -/
def repositoryCall : Call → Bool
  | .newDate | .newId | .sendMail _ => false
  | _ => true

/-! ## A platform to compute with -/

/-- Hashes and tokens that can be read. -/
def Platform.toy : Platform where
  hashPassword plain salt := plain ++ '#' :: idText salt
  verifyPassword plain hashed := plain = hashed.takeWhile (· != '#')
  sha256 text := '$' :: text
  signAccess user _ _ := 'a' :: user.id
  signRefresh _ _ jwtid _ := 'r' :: idText jwtid
  verifyRefresh token _ := if token.head? = some 'r' then some .refresh else none
  randomBytes n := "0123456789abcdef".toList ++ idText n
  toLowerCase := Js.toLower

def Config.toy : Config where
  accessExpiresIn := "1d".toList
  refreshExpiresIn := "7d".toList
  emailVerifyTtlHours := 48
  passwordResetTtlHours := 2
  publicAppUrl := "http://localhost:5173".toList

/-- Somebody whose password is `pw`, logged in once: the refresh token is `r0`. -/
def oneSession : Db where
  users := [⟨⟨"u".toList, "a@b.c".toList, .user, true, true, 0, 0, none⟩, "pw#9".toList⟩]
  refreshTokens := [⟨⟨"u".toList, "$r0".toList, 1000000, false⟩, 0, none, none, 0⟩]
  authTokens := []
  mailer := .log
  locks := []
  pending := []
  nextId := 1
  now := 0

end Relay.Accounts
