import Relay.Accounts.System

/-!
# Who has an account

`forgotPassword` answers that a request was accepted, whether the address has an account or not. Where no
mail was delivered the answer also shows the link that resets the password, meant for development; the
environment the service runs in is not looked at. `Discreet` compares the answers for an address that has an
account in one database and none in another, and `discreet_iff` says when they tell nothing.
-/

namespace Relay.Accounts

open Relay.Lib Relay.Auth

variable (pl : Platform) (cfg : Config)

def forgotResponse (email : Text) (db : Db) : Except Failure (Bool × Option Text) :=
  (Prog.run exec (forgotPassword pl cfg email) db).1

/-- The account an address has, as `forgotPassword` looks it up. -/
def accountOf (email : Text) (db : Db) : Option UserRow :=
  db.findUser fun row => row.email = Js.trim (pl.toLowerCase email)

def Config.resetUrl (raw : Text) : Text := cfg.publicAppUrl ++ "/reset-password?token=".toList ++ raw

/-- The caller can read the text in the response. -/
def Shows (r : Except Failure (Bool × Option Text)) (t : Text) : Prop :=
  ∃ accepted shown, r = .ok (accepted, some shown) ∧ t <:+: shown

/-- The responses are the same, and no reset token or link is in them. The token is the one the request
issues where the address is `known`. -/
structure Discreet (email : Text) (known unknown : Db) : Prop where
  same : forgotResponse pl cfg email known = forgotResponse pl cfg email unknown
  token : ¬ Shows (forgotResponse pl cfg email known) (pl.randomBytes known.nextId)
  link : ¬ Shows (forgotResponse pl cfg email known) (cfg.resetUrl (pl.randomBytes known.nextId))

/-- An SMTP server is configured and takes the next mail. -/
def Mailer.delivers : Mailer → Bool
  | .log => false
  | .smtp outcomes => outcomes.head? ≠ some false

/-- The hash of a token is stored already. -/
def Db.tokenTaken (db : Db) (tokenHash : Text) : Bool :=
  db.authTokens.any fun row => row.tokenHash = tokenHash

/-! ## The two runs -/

section Runs

variable {pl cfg} {email : Text} {db : Db} {user : UserRow}

theorem forgotResponse_unknown (h : accountOf pl email db = none) :
    forgotResponse pl cfg email db = .ok (true, none) := by
  unfold forgotResponse forgotPassword
  unfold accountOf at h
  rw [Prog.run_bind_ok exec (Prog.run_perform exec _ db)]
  simp only [h, Option.map_none]
  rfl

/-- The rows of the earlier reset tokens change, and their hashes stay. -/
theorem tokenTaken_revoke (db : Db) (type : AuthTokenType) (userId : Option Text) (tokenHash : Text) :
    (exec (.revokeAuthTokens type userId) db).2.tokenTaken tokenHash = db.tokenTaken tokenHash := by
  simp only [Db.tokenTaken, exec, List.any_map]
  congr 1
  funext row
  simp only [Function.comp_apply]
  split <;> rfl

variable (pl) in
/-- A reset token is issued unless its hash is stored, and the mailer stays as it was. -/
theorem run_issueToken_reset {input : IssueInput} (h : input.type = .passwordReset) (db : Db) :
    (db.tokenTaken (pl.sha256 (pl.randomBytes db.nextId)) = true ∧
      (Prog.run exec (issueToken pl input) db).1 =
        .error (.query (.uniqueViolation "IDX_auth_tokens_hash"))) ∨
    (db.tokenTaken (pl.sha256 (pl.randomBytes db.nextId)) = false ∧
      ∃ db', Prog.run exec (issueToken pl input) db = (.ok (pl.randomBytes db.nextId), db') ∧
        db'.mailer = db.mailer) := by
  have htaken := tokenTaken_revoke db input.type input.userId (pl.sha256 (pl.randomBytes db.nextId))
  let revoked : Db :=
    { (exec (.revokeAuthTokens input.type input.userId) db).2 with nextId := db.nextId + 1 }
  let draft : AuthTokenDraft :=
    { type := input.type
      tokenHash := pl.sha256 (pl.randomBytes db.nextId)
      email := input.email
      userId := input.userId
      createdByUserId := input.createdByUserId
      maxUses := input.maxUses
      expiresAt := jsDate db.now + ms input.ttlMs }
  have hrun : Prog.run exec (issueToken pl input) db = Prog.run exec (do
      perform (.insertAuthToken draft)
      return pl.randomBytes db.nextId) revoked := by
    unfold issueToken
    rw [if_pos (.inr h)]
    rfl
  have hinsert : exec (.insertAuthToken draft) revoked =
      if revoked.tokenTaken draft.tokenHash then
        (.error (.query (.uniqueViolation "IDX_auth_tokens_hash")), revoked)
      else (.ok (), { revoked with
        authTokens := revoked.authTokens ++ [draft.toRow revoked.nextId revoked.now]
        nextId := revoked.nextId + 1 }) := rfl
  rw [show revoked.tokenTaken draft.tokenHash = _ from htaken] at hinsert
  rw [hrun]
  cases hfree : db.tokenTaken (pl.sha256 (pl.randomBytes db.nextId)) with
  | true =>
    rw [hfree, if_pos rfl] at hinsert
    refine .inl ⟨rfl, ?_⟩
    rw [Prog.run_bind_error exec ((Prog.run_perform exec _ _).trans hinsert)]
  | false =>
    rw [hfree, if_neg Bool.false_ne_true] at hinsert
    refine .inr ⟨rfl, ?_⟩
    rw [Prog.run_bind_ok exec ((Prog.run_perform exec _ _).trans hinsert)]
    exact ⟨_, rfl, rfl⟩

/-- Nothing is shown where the mail is delivered, and where it is not the request fails or shows a link. -/
theorem run_sendReset (db : Db) (mail : Mail) (url : Text) :
    (db.mailer.delivers = true ∧ (Prog.run exec (do
        let result ← perform (.sendMail mail)
        return (true, result.previewUrl.or (if result.delivered then none else some url)) :
          M (Bool × Option Text)) db).1 = .ok (true, none)) ∨
    (db.mailer.delivers = false ∧ (Prog.run exec (do
        let result ← perform (.sendMail mail)
        return (true, result.previewUrl.or (if result.delivered then none else some url)) :
          M (Bool × Option Text)) db).1 ≠ .ok (true, none)) := by
  rw [Prog.run_bind, Prog.run_perform]
  cases hmailer : db.mailer with
  | log =>
    refine .inr ⟨rfl, ?_⟩
    simp only [exec, hmailer]
    intro hnone
    cases hurl : extractUrl mail.text <;> simp [hurl] at hnone
  | smtp outcomes =>
    cases outcomes with
    | nil => exact .inl ⟨rfl, by simp [exec, hmailer]⟩
    | cons sent outcomes =>
      cases sent with
      | true => exact .inl ⟨rfl, by simp [exec, hmailer]⟩
      | false => exact .inr ⟨rfl, by simp [exec, hmailer]⟩

variable (cfg) in
theorem forgotResponse_known (h : accountOf pl email db = some user) (hactive : user.isActive = true) :
    forgotResponse pl cfg email db = .ok (true, none) ↔
      db.mailer.delivers = true ∧ db.tokenTaken (pl.sha256 (pl.randomBytes db.nextId)) = false := by
  unfold forgotResponse forgotPassword
  unfold accountOf at h
  rw [Prog.run_bind_ok exec (Prog.run_perform exec _ db)]
  simp only [h, Option.map_some, hactive, Bool.not_true, Bool.false_eq_true, if_false]
  let input : IssueInput :=
    { type := .passwordReset
      email := some user.email
      userId := some user.id
      createdByUserId := none
      maxUses := 1
      ttlMs := ttlMs cfg.passwordResetTtlHours }
  obtain ⟨htaken, hrun⟩ | ⟨hfree, db', hrun, hmailer⟩ :=
    run_issueToken_reset pl (show input.type = .passwordReset from rfl) db
  · rw [htaken, Prog.run_bind_error exec (Prod.ext hrun rfl)]
    simp
  · rw [Prog.run_bind_ok exec hrun, hfree, ← hmailer]
    obtain ⟨hsent, hok⟩ | ⟨hlost, hshown⟩ := run_sendReset db' _ _
    · exact iff_of_true hok ⟨hsent, rfl⟩
    · exact iff_of_false hshown fun h => absurd h.1 (by simp [hlost])

end Runs

theorem not_shows_accepted (t : Text) : ¬ Shows (.ok (true, none)) t := by
  rintro ⟨accepted, shown, ⟨⟩, _⟩

/-- The answers tell nothing exactly when the mail is delivered and the new token is a new row. -/
theorem discreet_iff {email : Text} {known unknown : Db} {user : UserRow}
    (hknown : accountOf pl email known = some user) (hactive : user.isActive = true)
    (hunknown : accountOf pl email unknown = none) :
    Discreet pl cfg email known unknown ↔ known.mailer.delivers = true ∧
      known.tokenTaken (pl.sha256 (pl.randomBytes known.nextId)) = false := by
  rw [← forgotResponse_known cfg hknown hactive]
  constructor
  · intro h
    rw [h.same, forgotResponse_unknown hunknown]
  · intro h
    refine ⟨?_, ?_, ?_⟩
    · rw [h, forgotResponse_unknown hunknown]
    · rw [h]
      exact not_shows_accepted _
    · rw [h]
      exact not_shows_accepted _

/-- With an SMTP server that takes the mail. -/
def mailing : Db := { oneSession with mailer := .smtp [true] }

theorem discreet_iff_mailing : Discreet .toy .toy "A@b.c".toList mailing (.empty .log 0) :=
  (discreet_iff .toy .toy rfl rfl rfl).mpr (by decide)

/-- Without an SMTP server the response for an account is the link with its token. -/
theorem discreet_fails :
    ¬ ∀ (pl : Platform) (cfg : Config) (email : Text) (known unknown : Db) (user : UserRow),
      accountOf pl email known = some user → user.isActive = true →
      accountOf pl email unknown = none → Discreet pl cfg email known unknown := by
  intro h
  have hdiscreet := h .toy .toy "A@b.c".toList oneSession (.empty .log 0) _ rfl rfl rfl
  exact hdiscreet.link ⟨true, _, rfl, List.infix_rfl⟩

end Relay.Accounts
