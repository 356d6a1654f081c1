import Relay.Accounts.Verify.Tokens

/-!
# The building blocks of the requests

How the shared parts of the requests keep to a protocol, and that no request but a refresh opens a
transaction.
-/

namespace Relay.Accounts

open Relay.Lib Relay.Auth

/-! ## Keeping to a protocol -/

section Follows

variable {α β G : Type} {P : Protocol Call Call.Answer Failure G} {g : G}
  {Q : Except Failure β → G → Prop}

theorem follows_rejectIf {condition : Prop} [Decidable condition] {e : RpcError} {f : Unit → M β}
    (hf : ¬ condition → Prog.Follows P Q (f ()) g) (he : ∀ e, Q (.error e) g) :
    Prog.Follows P Q (rejectIf condition e >>= f) g := by
  unfold rejectIf
  split
  · exact he _
  · next hcondition => exact hf hcondition

theorem follows_require {a : Option α} {e : RpcError} {f : α → M β}
    (hf : ∀ x, a = some x → Prog.Follows P Q (f x) g) (he : ∀ e, Q (.error e) g) :
    Prog.Follows P Q (require a e >>= f) g := by
  unfold require
  split
  · exact he _
  · exact hf _ rfl

/-- The tokens issued, as far as the one call that stores them. -/
theorem follows_issueTokens {pl : Platform} {cfg : Config} {user : AuthUser} {ip userAgent : Option Text}
    {save : RefreshTokenDraft → M Unit} {Q : Except Failure TokenPair → G → Prop}
    (hdate : P.allowed g .newDate ∧ ∀ r, P.answers .newDate r → P.next g .newDate r = g)
    (hid : P.allowed g .newId ∧ ∀ r, P.answers .newId r → P.next g .newId r = g)
    (hsave : ∀ d (tokens : TokenPair), d.userId = user.id →
      d.tokenHash = pl.sha256 tokens.refreshToken →
      Prog.Follows P Q (do save d; return tokens) g)
    (he : ∀ e, Q (.error e) g) :
    Prog.Follows P Q (issueTokens pl cfg user ip userAgent save) g := by
  refine Prog.follows_skip hdate.1 hdate.2 (fun _ _ => ?_) he
  refine Prog.follows_skip hid.1 hid.2 (fun jwtid _ => ?_) he
  refine Prog.follows_skip hdate.1 hdate.2 (fun issuedAt _ => ?_) he
  exact Prog.follows_skip hdate.1 hdate.2 (fun now _ => hsave _ _ rfl rfl) he

end Follows

/-! ## Tokens sent by mail -/

section Sat

variable {pl : Platform} {G : Call → Prop} {A : (c : Call) → Except Failure c.Answer → Prop}

theorem sat_require {α : Type} (a : Option α) (e : RpcError) : Prog.Sat A G (require a e) := by
  unfold require
  split <;> trivial

theorem sat_issueToken {input : IssueInput} (hrevoke : ∀ t u, G (.revokeAuthTokens t u)) (hid : G .newId)
    (hdate : G .newDate) (hinsert : ∀ d, G (.insertAuthToken d)) :
    Prog.Sat A G (issueToken pl input) := by
  have hissue : Prog.Sat A G (do
      let raw := pl.randomBytes (← perform .newId)
      let now ← perform .newDate
      perform (.insertAuthToken
        { type := input.type
          tokenHash := pl.sha256 raw
          email := input.email
          userId := input.userId
          createdByUserId := input.createdByUserId
          maxUses := input.maxUses
          expiresAt := now + ms input.ttlMs })
      return raw : M Text) :=
    Prog.sat_bind (Prog.sat_perform hid) fun _ => Prog.sat_bind (Prog.sat_perform hdate) fun _ =>
      Prog.sat_bind (Prog.sat_perform (hinsert _)) fun _ => trivial
  unfold issueToken
  split
  · exact Prog.sat_bind (Prog.sat_perform (hrevoke _ _)) fun _ => hissue
  · exact hissue

theorem sat_requestEmailVerification {cfg : Config} {userId : Text} (hfind : ∀ id, G (.findUser id))
    (hrevoke : ∀ t u, G (.revokeAuthTokens t u)) (hid : G .newId) (hdate : G .newDate)
    (hinsert : ∀ d, G (.insertAuthToken d)) (hmail : ∀ m, G (.sendMail m)) :
    Prog.Sat A G (requestEmailVerification pl cfg userId) := by
  refine Prog.sat_bind (Prog.sat_perform (hfind _)) fun found =>
    Prog.sat_bind (sat_require _ _) fun user => ?_
  split
  · trivial
  · exact Prog.sat_bind (sat_issueToken hrevoke hid hdate hinsert) fun _ =>
      Prog.sat_bind (Prog.sat_perform (hmail _)) fun _ => trivial

theorem sat_findValidToken {raw : Text} {type : AuthTokenType}
    (hfind : G (.findAuthToken (pl.sha256 raw) type)) (hdate : G .newDate) :
    Prog.Sat A G (findValidToken pl raw type) := by
  unfold findValidToken
  split
  · trivial
  · refine Prog.sat_bind (Prog.sat_perform hfind) fun found => ?_
    split
    · trivial
    · split
      · trivial
      · refine Prog.sat_bind (Prog.sat_perform hdate) fun now => ?_
        split
        · trivial
        · split <;> trivial

theorem sat_countUse {record : AuthToken} (hdate : G .newDate) (hsave : ∀ row, G (.saveAuthToken row)) :
    Prog.Sat A G (countUse record) := by
  unfold countUse
  simp only [pure_bind]
  split
  · exact Prog.sat_bind (Prog.sat_perform hdate) fun _ =>
      Prog.sat_bind (Prog.sat_perform (hsave _)) fun _ => trivial
  · exact Prog.sat_bind (Prog.sat_perform (hsave _)) fun _ => trivial

theorem sat_consumeToken {raw : Text} {type : AuthTokenType}
    (hfind : G (.findAuthToken (pl.sha256 raw) type)) (hdate : G .newDate)
    (hsave : ∀ row, G (.saveAuthToken row)) : Prog.Sat A G (consumeToken pl raw type) :=
  Prog.sat_bind (sat_findValidToken hfind hdate) fun _ =>
    Prog.sat_bind (sat_require _ _) fun _ => sat_countUse hdate hsave

end Sat

/-! ## Programs outside transactions -/

section OutsideTx

variable (pl : Platform) (cfg : Config)

/-- No call of the program belongs to a transaction. -/
abbrev OutsideTx {α : Type} (p : M α) : Prop := Prog.Sat (fun _ _ => True) (fun c => c.inTx = false) p

variable {α β : Type}

theorem outside_bind {p : M α} {f : α → M β} (hp : OutsideTx p) (hf : ∀ a, OutsideTx (f a)) :
    OutsideTx (p >>= f) := Prog.sat_bind hp hf

theorem outside_map {p : M α} {f : α → β} (hp : OutsideTx p) : OutsideTx (f <$> p) :=
  outside_bind hp fun _ => trivial

theorem outside_perform {c : Call} (h : c.inTx = false) : OutsideTx (perform c) :=
  Prog.sat_perform h

theorem outside_rejectIf (condition : Prop) [Decidable condition] (e : RpcError) :
    OutsideTx (rejectIf condition e) := by
  unfold rejectIf
  split <;> trivial

theorem outside_require (a : Option α) (e : RpcError) : OutsideTx (require a e) := sat_require a e

theorem outside_updateRevoked (userId : Text) (tokenHash : Option Text) :
    OutsideTx (updateRevoked userId tokenHash) :=
  outside_bind (outside_perform rfl) fun _ => outside_perform rfl

theorem outside_issueTokens (user : AuthUser) (ip userAgent : Option Text) :
    OutsideTx (issueTokens pl cfg user ip userAgent fun d => perform (.insertRefreshToken d)) :=
  outside_bind (outside_perform rfl) fun _ => outside_bind (outside_perform rfl) fun _ =>
    outside_bind (outside_perform rfl) fun _ => outside_bind (outside_perform rfl) fun _ =>
      outside_bind (outside_perform rfl) fun _ => trivial

theorem outside_issueToken (input : IssueInput) : OutsideTx (issueToken pl input) :=
  sat_issueToken (fun _ _ => rfl) rfl rfl fun _ => rfl

theorem outside_consumeToken (raw : Text) (type : AuthTokenType) :
    OutsideTx (consumeToken pl raw type) := sat_consumeToken rfl rfl fun _ => rfl

theorem outside_assertInviteForRegister (token email : Text) :
    OutsideTx (assertInviteForRegister pl token email) :=
  outside_bind (sat_findValidToken rfl rfl) fun _ => outside_bind (outside_require _ _) fun _ =>
    outside_bind (outside_rejectIf _ _) fun _ => trivial

theorem outside_consumeInvite (tokenId : Nat) : OutsideTx (consumeInvite tokenId) := by
  refine outside_bind (outside_perform rfl) fun found => ?_
  cases found with
  | none => trivial
  | some record => exact outside_bind (sat_countUse rfl fun _ => rfl) fun _ => trivial

theorem outside_requestEmailVerification (userId : Text) :
    OutsideTx (requestEmailVerification pl cfg userId) :=
  sat_requestEmailVerification (fun _ => rfl) (fun _ _ => rfl) rfl rfl (fun _ => rfl) fun _ => rfl

theorem outside_forgotPassword (email : Text) : OutsideTx (forgotPassword pl cfg email) := by
  refine outside_bind (outside_perform rfl) fun found => ?_
  cases found with
  | none => trivial
  | some user =>
    dsimp only
    split
    · trivial
    · exact outside_bind (outside_issueToken pl _) fun _ => outside_bind (outside_perform rfl) fun _ =>
        trivial

theorem outside_issueInvite (input : IssueInput) : OutsideTx (do
    let raw ← issueToken pl input
    match ← perform (.findAuthTokenByHash (pl.sha256 raw)) with
    | none => .fail .entityNotFound
    | some saved => return toInviteView cfg saved (some raw) : M InviteView) := by
  refine outside_bind (outside_issueToken pl input) fun raw => outside_bind (outside_perform rfl) fun found => ?_
  cases found <;> trivial

theorem outside_createInvite (p : CreateInvitePayload) : OutsideTx (createInvite pl cfg p) := by
  unfold createInvite
  dsimp only
  split
  · exact outside_issueInvite pl cfg _
  · exact outside_bind (outside_perform rfl) fun _ => outside_bind (outside_rejectIf _ _) fun _ =>
      outside_issueInvite pl cfg _

theorem outside_createAccount (d : UserDraft) (inviteId : Option Nat) :
    OutsideTx (createAccount pl cfg d inviteId) := by
  refine outside_bind (outside_perform rfl) fun saved => ?_
  cases inviteId with
  | none => exact outside_bind (outside_issueTokens pl cfg saved none none) fun _ => trivial
  | some id =>
    exact outside_bind (outside_consumeInvite id) fun _ =>
      outside_bind (outside_issueTokens pl cfg saved none none) fun _ => trivial

theorem outside_attemptAccount (d : UserDraft) (inviteId : Option Nat) : OutsideTx (do
    match ← (createAccount pl cfg d inviteId).attempt with
    | .ok r => return r
    | .error (.query (.uniqueViolation _)) =>
      reject (RpcErrors.conflict "An account with this email already exists")
    | .error e => .fail e : M AuthResult) := by
  refine outside_bind (Prog.sat_attempt (outside_createAccount pl cfg d inviteId)) fun result => ?_
  split <;> trivial

theorem outside_register (p : RegisterPayload) : OutsideTx (register pl cfg p) := by
  refine outside_bind (outside_perform rfl) fun existing => outside_bind (outside_rejectIf _ _) fun _ => ?_
  dsimp only
  split
  · exact outside_bind (p := pure none) trivial fun _ => outside_bind (outside_perform rfl) fun _ =>
      outside_attemptAccount pl cfg _ _
  · exact outside_bind (outside_map (outside_assertInviteForRegister pl _ _)) fun _ =>
      outside_bind (outside_perform rfl) fun _ => outside_attemptAccount pl cfg _ _

theorem outside_login (p : LoginPayload) : OutsideTx (login pl cfg p) :=
  outside_bind (outside_perform rfl) fun _ => outside_bind (outside_require _ _) fun user =>
    outside_bind (outside_rejectIf _ _) fun _ => outside_bind (outside_rejectIf _ _) fun _ =>
      outside_bind (outside_issueTokens pl cfg user.toAuthUser p.ip p.userAgent) fun _ => trivial

theorem outside_resetPassword (token password : Text) : OutsideTx (resetPassword pl token password) :=
  outside_bind (outside_perform rfl) fun _ =>
    outside_bind
      (outside_bind (outside_consumeToken pl token _) fun _ => outside_bind (outside_require _ _) fun _ =>
        outside_bind (outside_perform rfl) fun _ => outside_bind (outside_require _ _) fun _ =>
          outside_bind (outside_perform rfl) fun _ => trivial)
      fun _ => outside_bind (outside_updateRevoked _ _) fun _ => trivial

/-- Only a refresh opens a transaction. -/
theorem Op.outside {op : Op} (h : ∀ p, op ≠ .refresh p) : OutsideTx (op.program pl cfg) := by
  cases op with
  | refresh p => exact absurd rfl (h p)
  | register p => exact outside_map (outside_register pl cfg p)
  | login p => exact outside_map (outside_login pl cfg p)
  | logout u t =>
    exact outside_map (outside_bind (outside_updateRevoked _ _) fun _ => trivial)
  | validate u =>
    exact outside_map (outside_bind (outside_perform rfl) fun _ =>
      outside_bind (outside_require _ _) fun _ => outside_bind (outside_rejectIf _ _) fun _ => trivial)
  | me u =>
    exact outside_map (outside_bind (outside_perform rfl) fun _ =>
      outside_bind (outside_require _ _) fun _ => trivial)
  | changePassword u current new =>
    exact outside_map (outside_bind (outside_perform rfl) fun _ =>
      outside_bind (outside_require _ _) fun _ => outside_bind (outside_rejectIf _ _) fun _ =>
        outside_bind (outside_perform rfl) fun _ => outside_bind (outside_perform rfl) fun _ =>
          outside_bind (outside_updateRevoked _ _) fun _ => trivial)
  | forgotPassword email => exact outside_map (outside_forgotPassword pl cfg email)
  | resetPassword t password => exact outside_map (outside_resetPassword pl t password)
  | requestEmailVerification u => exact outside_map (outside_requestEmailVerification pl cfg u)
  | verifyEmail t =>
    exact outside_map (outside_bind (outside_consumeToken pl t _) fun _ =>
      outside_bind (outside_require _ _) fun _ => outside_bind (outside_perform rfl) fun _ =>
        outside_bind (outside_require _ _) fun _ => outside_bind (outside_perform rfl) fun _ => trivial)
  | createInvite p => exact outside_map (outside_createInvite pl cfg p)
  | listInvites => exact outside_map (outside_bind (outside_perform rfl) fun _ => trivial)
  | getInvite t =>
    refine outside_map (outside_bind (sat_findValidToken rfl rfl) fun found => ?_)
    cases found <;> trivial
  | revokeInvite id =>
    exact outside_map (outside_bind (outside_perform rfl) fun _ =>
      outside_bind (outside_require _ _) fun _ => outside_bind (outside_perform rfl) fun _ =>
        outside_bind (outside_perform rfl) fun _ => trivial)
  | deactivate u =>
    exact outside_map (outside_bind (outside_perform rfl) fun _ =>
      outside_bind (outside_require _ _) fun _ => outside_bind (outside_perform rfl) fun _ =>
        outside_bind (outside_updateRevoked _ _) fun _ => outside_bind (outside_perform rfl) fun _ =>
          trivial)

end OutsideTx

/-! ## Tokens that are refused -/

/-- No refresh with the token succeeds. -/
def Dead (pl : Platform) (cfg : Config) (db : Db) (token : Text) : Prop :=
  ∀ ip userAgent,
    (Op.run pl cfg (.refresh ⟨token, ip, userAgent⟩) db).1 = .error (.rpc invalidRefreshToken)

/-- The body of the transaction refuses a revoked row. -/
theorem rotate_revoked {pl : Platform} {cfg : Config} {db : Db} {p : RefreshPayload} (hkeys : TokenKeys db)
    (h : Revoked db (pl.sha256 p.refreshToken)) (tx : Nat) :
    (Prog.run exec (rotate pl cfg p tx) db).1 = .error (.rpc invalidRefreshToken) := by
  unfold rotate
  cases hfound : db.tokenWithUser (pl.sha256 p.refreshToken) with
  | none =>
    have hlock : Prog.run exec (perform (.lockToken tx (pl.sha256 p.refreshToken))) db =
        (.ok none, db) := by
      rw [Prog.run_perform]
      simp only [exec, hfound]
    rw [Prog.run_bind_ok exec hlock]
    rfl
  | some found =>
    obtain ⟨row, user⟩ := found
    have hrevoked := h.found hkeys hfound
    have hlock : Prog.run exec (perform (.lockToken tx (pl.sha256 p.refreshToken))) db =
        (.ok (some (row, user.toAuthUser)), { db with locks := db.locks ++ [(row.id, tx)] }) := by
      rw [Prog.run_perform]
      simp only [exec, hfound]
    rw [Prog.run_bind_ok exec hlock]
    simp only [require, rejectIf, pure_bind, hrevoked, if_true]
    rfl

theorem Revoked.dead {pl : Platform} {cfg : Config} {db : Db} {token : Text} (hkeys : TokenKeys db)
    (h : Revoked db (pl.sha256 token)) : Dead pl cfg db token := by
  intro ip userAgent
  have hrefresh : (Prog.run exec (refresh pl cfg ⟨token, ip, userAgent⟩) db).1 =
      .error (.rpc invalidRefreshToken) := by
    unfold refresh
    rw [Prog.run_bind_ok exec (Prog.run_perform exec .newDate db)]
    unfold rejectIf
    split
    · rfl
    · have hbegin : Prog.run exec (perform .beginTx) db =
          (.ok db.nextId, (exec .beginTx db).2) := Prog.run_perform exec .beginTx db
      have hsame := exec_leavesTokens (c := .beginTx) rfl db
      have hrotate : (Prog.run exec (rotate pl cfg ⟨token, ip, userAgent⟩ db.nextId)
          (exec .beginTx db).2).1 = .error (.rpc invalidRefreshToken) :=
        rotate_revoked (hsame.keys hkeys) (hsame.revoked h) db.nextId
      change (Prog.run exec (transaction (rotate pl cfg ⟨token, ip, userAgent⟩)) db).1 = _
      unfold transaction
      rw [Prog.run_bind_ok exec hbegin]
      rw [Prog.run_bind_ok exec (Prog.run_attempt exec _ _), hrotate]
      rfl
  unfold Op.run
  change (Prog.run exec (refresh pl cfg ⟨token, ip, userAgent⟩ >>= fun a => pure (Response.auth a)) db).1 = _
  rcases hrun : Prog.run exec (refresh pl cfg ⟨token, ip, userAgent⟩) db with ⟨r, db'⟩
  rw [hrun] at hrefresh
  obtain rfl := hrefresh
  rw [Prog.run_bind_error exec hrun]

end Relay.Accounts
