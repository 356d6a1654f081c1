import Relay.Accounts.Verify.Programs

/-!
# Uses of the tokens sent by mail

A registration with an invite, a reset of a password and a verification of an address each read the row of
their token, check it, and save it later with one more use. `CountsOnce` is the condition on a step under
which the counts are right: the count that is saved is the stored one plus one, a use is left, and the
request does not fail any more. Under it no row is used more often than it may be, and its count is the
number of requests that have succeeded (`uses_counted`).
-/

namespace Relay.Accounts

open Relay.Lib Relay.Lib.Rows Relay.Auth

inductive UseOp where
  | register (p : RegisterPayload)
  | resetPassword (token password : Text)
  | verifyEmail (token : Text)
  /-- What a registration sends on. -/
  | requestEmailVerification (userId : Text)

def UseOp.op : UseOp → Op
  | register p => .register p
  | resetPassword t password => .resetPassword t password
  | verifyEmail t => .verifyEmail t
  | requestEmailVerification u => .requestEmailVerification u

/-- The hash and the type of the token a request uses. -/
def UseOp.token (pl : Platform) : UseOp → Option (Text × AuthTokenType)
  | register p => (truthy p.inviteToken).map fun t => (pl.sha256 t, .invite)
  | resetPassword t _ => some (pl.sha256 t, .passwordReset)
  | verifyEmail t => some (pl.sha256 t, .emailVerify)
  | requestEmailVerification _ => none

/-- How far a request has come with its token. -/
inductive UseStage where
  | start
  /-- The row as it was last read. -/
  | found (record : AuthToken)
  /-- The row was saved with one more use. -/
  | counted (record : AuthToken)
  /-- The use is counted, or cannot be any more, and the request fails. -/
  | failed
deriving DecidableEq

/-- The call reads and writes no count. -/
def Call.leavesUses : Call → Bool
  | .findAuthToken _ _ | .findAuthTokenById _ | .saveAuthToken _ => false
  | _ => true

/-- The calls that come after the use is counted. -/
def Call.afterUse : Call → Bool
  | .findUser _ | .findUserWithPassword _ | .saveUser _ _ | .matchingTokens _ _ | .revokeTokens _
  | .insertRefreshToken _ | .newDate | .newId => true
  | _ => false

/-- The answer makes the request fail. -/
def Ends : (c : Call) → Except Failure c.Answer → Bool
  | .findUser _, .ok none => true
  | .findUserWithPassword _, .ok none => true
  | _, .error _ => true
  | _, .ok _ => false

namespace UseStage

def Allowed (token : Option (Text × AuthTokenType)) : UseStage → Call → Prop
  | start, c => c.leavesUses = true ∨
      ∃ hash type, c = .findAuthToken hash type ∧ token = some (hash, type)
  | found record, c => c.leavesUses = true ∨ c = .findAuthTokenById record.id ∨
      ∃ revokedAt, c = .saveAuthToken { record with usedCount := record.usedCount + 1, revokedAt }
  | counted _, c => c.afterUse = true
  | failed, c => c.leavesUses = true

/-- A verification or a reset fails when the row names no user. -/
def afterSave (record : AuthToken) : UseStage :=
  if record.type = .invite ∨ (truthy record.userId).isSome then counted record else failed

def next : UseStage → (c : Call) → Except Failure c.Answer → UseStage
  | start, .findAuthToken _ _, .ok (some record) => found record
  | found _, .findAuthTokenById _, .ok (some record) => found record
  | found _, .findAuthTokenById _, .ok none => failed
  | found _, .saveAuthToken record, .ok () => afterSave record
  | counted record, c, r => if Ends c r then failed else counted record
  | g, _, _ => g

end UseStage

def useProtocol (pl : Platform) : Protocols UseOp UseStage := fun op =>
  { allowed := UseStage.Allowed (op.token pl)
    next := UseStage.next
    answers := fun c r => ∃ db, (exec c db).1 = r }

/-- The use is counted, or the request fails. -/
def UseStage.Past (g : UseStage) : Prop := g = failed ∨ ∃ record, g = counted record

/-- A request with a token that succeeds has counted its use; one that fails has not. -/
def UseResult {γ : Type} (pl : Platform) (op : UseOp) (r : Except Failure γ) (g : UseStage) : Prop :=
  (∀ a, r = .ok a → (op.token pl).isSome → g.Past) ∧ ∀ e, r = .error e → ∀ record, g ≠ .counted record

/-! ## The programs -/

section Programs

variable {pl : Platform} {cfg : Config} {α β : Type} {op : UseOp} {g : UseStage}

theorem next_of_leavesUses {c : Call} (hc : c.leavesUses = true) (hg : ∀ record, g ≠ .counted record)
    (r : Except Failure c.Answer) : g.next c r = g := by
  cases g with
  | counted record => exact absurd rfl (hg record)
  | _ => cases c <;> first | rfl | cases hc

/-- Before the use is counted, other calls do not matter. -/
theorem follows_leavesUses {p : M α} (hp : Prog.Sat (fun _ _ => True) (fun c => c.leavesUses = true) p)
    (hg : ∀ record, g ≠ .counted record) :
    Prog.Follows (useProtocol pl op) (fun _ g' => g' = g) p g := by
  refine Prog.follows_of_sat (L := fun c => c.leavesUses = true) (fun c hc => ⟨?_, fun r => ?_⟩)
    (hp.mono (fun _ _ _ => trivial) fun _ h => h)
  · cases g with
    | counted record => exact absurd rfl (hg record)
    | start => exact .inl hc
    | found record => exact .inl hc
    | failed => exact hc
  · exact next_of_leavesUses hc hg r

/-- The stage is not one of those after the save. -/
abbrev UseStage.Uncounted (g : UseStage) : Prop := ∀ record, g ≠ .counted record

theorem findValidToken_follows {raw : Text} {type : AuthTokenType}
    (htoken : op.token pl = some (pl.sha256 raw, type)) :
    Prog.Follows (useProtocol pl op)
      (fun r g => g.Uncounted ∧ ∀ record, r = .ok (some record) → g = .found record ∧ record.type = type)
      (findValidToken pl raw type) .start := by
  unfold findValidToken
  split
  · exact ⟨nofun, nofun⟩
  refine Prog.follows_bind (Q := fun r g => g.Uncounted ∧ ∀ record, r = .ok (some record) →
    g = .found record ∧ record.type = type) (Prog.follows_perform (.inr ⟨_, _, rfl, htoken⟩) ?_) ?_
    fun _ _ hg => ⟨hg.1, nofun⟩
  · rintro (e | ⟨⟨⟩ | record⟩) ⟨db, hdb⟩
    · exact ⟨nofun, nofun⟩
    · exact ⟨nofun, nofun⟩
    · have hfound : (db.authTokens.find? fun row =>
          row.tokenHash = pl.sha256 raw ∧ row.type = type) = some record := Except.ok.inj hdb
      have hprop := List.find?_some hfound
      simp only [decide_eq_true_eq] at hprop
      exact ⟨nofun, fun _ heq => by cases heq; exact ⟨rfl, hprop.2⟩⟩
  rintro (⟨⟩ | record) g ⟨huncounted, hfound⟩
  · exact ⟨huncounted, nofun⟩
  obtain ⟨rfl, htype⟩ := hfound record rfl
  dsimp only
  split
  · exact ⟨nofun, nofun⟩
  refine Prog.follows_skip (.inl rfl) (fun r _ => next_of_leavesUses (g := .found record) rfl nofun r)
    (fun now _ => ?_) fun _ => ⟨nofun, nofun⟩
  split
  · exact ⟨nofun, nofun⟩
  split
  · exact ⟨nofun, nofun⟩
  · exact ⟨nofun, fun record' heq => by cases heq; exact ⟨rfl, htype⟩⟩

theorem countUse_follows (record : AuthToken) :
    Prog.Follows (useProtocol pl op)
      (fun r g => (∀ record', r = .ok record' → g = .afterSave record' ∧ record'.type = record.type ∧
        record'.userId = record.userId) ∧ ∀ e, r = .error e → g.Uncounted)
      (countUse record) (.found record) := by
  have hsave : ∀ revokedAt, Prog.Follows (useProtocol pl op)
      (fun r g => (∀ record', r = .ok record' → g = .afterSave record' ∧ record'.type = record.type ∧
        record'.userId = record.userId) ∧ ∀ e, r = .error e → g.Uncounted)
      (do
        perform (.saveAuthToken { record with usedCount := record.usedCount + 1, revokedAt })
        return { record with usedCount := record.usedCount + 1, revokedAt })
      (.found record) := by
    intro revokedAt
    refine ⟨.inr (.inr ⟨revokedAt, rfl⟩), fun r _ => ?_⟩
    rcases r with e | ⟨⟨⟩⟩
    · exact ⟨nofun, fun _ _ => nofun⟩
    · exact ⟨fun record' heq => by cases heq; exact ⟨rfl, rfl, rfl⟩, nofun⟩
  unfold countUse
  simp only [pure_bind]
  split
  · exact Prog.follows_skip (.inl rfl)
      (fun r _ => next_of_leavesUses (g := .found record) rfl nofun r)
      (fun now _ => hsave (some now)) fun _ => ⟨nofun, fun _ _ => nofun⟩
  · exact hsave record.revokedAt

theorem consumeToken_follows {raw : Text} {type : AuthTokenType}
    (htoken : op.token pl = some (pl.sha256 raw, type)) :
    Prog.Follows (useProtocol pl op)
      (fun r g => (∀ record, r = .ok record → g = .afterSave record ∧ record.type = type) ∧
        ∀ e, r = .error e → g.Uncounted)
      (consumeToken pl raw type) .start := by
  refine Prog.follows_bind (findValidToken_follows htoken) ?_ fun e g hg => ⟨nofun, fun _ _ => hg.1⟩
  rintro found g ⟨huncounted, hfound⟩
  refine follows_require (fun record hrecord => ?_) fun _ => ⟨nofun, fun _ _ => huncounted⟩
  subst hrecord
  obtain ⟨rfl, htype⟩ := hfound record rfl
  exact (countUse_follows record).mono fun r g hg => ⟨fun record' hr =>
    ⟨(hg.1 record' hr).1, (hg.1 record' hr).2.1.trans htype⟩, hg.2⟩

theorem afterSave_past (record : AuthToken) : (UseStage.afterSave record).Past := by
  unfold UseStage.afterSave
  split
  · exact .inr ⟨record, rfl⟩
  · exact .inl rfl

/-- A verification or a reset goes on with the user the row names. -/
theorem follows_requireUser {record : AuthToken} (htype : record.type ≠ .invite) {e : RpcError}
    {Q : Except Failure β → UseStage → Prop} {f : Text → M β}
    (hf : ∀ userId, Prog.Follows (useProtocol pl op) Q (f userId) (.afterSave record))
    (he : ∀ e, Q (.error e) .failed) :
    Prog.Follows (useProtocol pl op) Q (require (truthy record.userId) e >>= f)
      (.afterSave record) := by
  unfold require
  cases huser : truthy record.userId with
  | some userId => exact hf userId
  | none =>
    have hfailed : UseStage.afterSave record = .failed := if_neg (by simp [htype, huser])
    rw [hfailed]
    exact he _

/-- A call after the use is counted: where its answer makes the request fail, the stage says so. -/
theorem follows_past {c : Call} {Q : Except Failure β → UseStage → Prop} {f : c.Answer → M β}
    (hg : g.Past) (hc : c.afterUse = true)
    (hf : ∀ a g', g'.Past → (Ends c (.ok a) = true → g' = .failed) →
      Prog.Follows (useProtocol pl op) Q (f a) g')
    (he : ∀ e, Q (.error e) .failed) : Prog.Follows (useProtocol pl op) Q (perform c >>= f) g := by
  have hleaves : c.leavesUses = true := by cases c <;> first | rfl | cases hc
  obtain rfl | ⟨record, rfl⟩ := hg
  · refine ⟨hleaves, fun r _ => ?_⟩
    rw [show (useProtocol pl op).next .failed c r = .failed from
      next_of_leavesUses (g := .failed) hleaves nofun r]
    cases r with
    | error e => exact he e
    | ok a => exact hf a _ (.inl rfl) fun _ => rfl
  · refine ⟨hc, fun r _ => ?_⟩
    have hnext : (useProtocol pl op).next (.counted record) c r =
        if Ends c r = true then .failed else .counted record := by
      cases c <;> rfl
    rw [hnext]
    cases r with
    | error e =>
      rw [if_pos (by cases c <;> rfl)]
      exact he e
    | ok a =>
      split
      · exact hf a _ (.inl rfl) fun _ => rfl
      · next hends => exact hf a _ (.inr ⟨record, rfl⟩) fun h => absurd h hends

/-- The read of the user, who has to be there. -/
theorem follows_pastUser {γ : Type} {c : Call} {toAnswer : c.Answer → Option γ} {e : RpcError}
    {Q : Except Failure β → UseStage → Prop} {f : γ → M β} (hg : g.Past) (hc : c.afterUse = true)
    (hends : ∀ a, toAnswer a = none → Ends c (.ok a) = true)
    (hf : ∀ a g', g'.Past → Prog.Follows (useProtocol pl op) Q (f a) g')
    (he : ∀ e, Q (.error e) .failed) :
    Prog.Follows (useProtocol pl op) Q
      (perform c >>= fun a => require (toAnswer a) e >>= f) g := by
  refine follows_past hg hc (fun a g' hg' hfailed => ?_) he
  unfold require
  cases ha : toAnswer a with
  | some b => exact hf b g' hg'
  | none =>
    rw [hfailed (hends a ha)]
    exact he _

/-- A request that is past its count ends well or as failed. -/
def PastResult {γ : Type} (r : Except Failure γ) (g : UseStage) : Prop :=
  (∀ a, r = .ok a → g.Past) ∧ ∀ e, r = .error e → g.Uncounted

theorem PastResult.failed {γ : Type} (e : Failure) :
    PastResult (.error e : Except Failure γ) .failed := ⟨nofun, fun _ _ => nofun⟩

theorem PastResult.map {γ : Type} {p : M γ} {f : γ → Response}
    (h : Prog.Follows (useProtocol pl op) PastResult p g) :
    Prog.Follows (useProtocol pl op) (UseResult pl op) (f <$> p) g :=
  Prog.follows_bind h (fun a _ hg => ⟨fun _ _ _ => hg.1 a rfl, nofun⟩) fun e _ hg =>
    ⟨nofun, fun _ _ => hg.2 e rfl⟩

theorem verifyEmail_follows (token : Text) :
    Prog.Follows (useProtocol pl (.verifyEmail token)) (UseResult pl (.verifyEmail token))
      ((Op.verifyEmail token).program pl cfg) .start := by
  refine PastResult.map (Prog.follows_bind (consumeToken_follows rfl) ?_ fun e g hg =>
    ⟨nofun, fun _ _ => hg.2 e rfl⟩)
  rintro record g ⟨hg, _⟩
  obtain ⟨rfl, htype⟩ := hg record rfl
  refine follows_requireUser (by rw [htype]; nofun) (fun userId => ?_) PastResult.failed
  refine @follows_pastUser _ _ _ _ _ (.findUser userId) id _ _ _ (afterSave_past record) rfl ?_
    (fun user g hg => ?_) PastResult.failed
  · rintro _ rfl
    rfl
  · exact follows_past hg rfl (fun _ g' hg' _ => ⟨fun _ _ => hg', nofun⟩) PastResult.failed

theorem resetPassword_counts (token password : Text) :
    Prog.Follows (useProtocol pl (.resetPassword token password))
      (UseResult pl (.resetPassword token password))
      ((Op.resetPassword token password).program pl cfg) .start := by
  refine PastResult.map (Prog.follows_skip (.inl rfl)
    (fun r _ => next_of_leavesUses (g := .start) rfl nofun r) (fun salt _ => ?_)
    fun _ => ⟨nofun, fun _ _ => nofun⟩)
  refine Prog.follows_bind (Q := PastResult) ?_ ?_ fun e g hg => ⟨nofun, fun _ _ => hg.2 e rfl⟩
  · refine Prog.follows_bind (consumeToken_follows rfl) ?_ fun e g hg =>
      ⟨nofun, fun _ _ => hg.2 e rfl⟩
    rintro record g ⟨hg, _⟩
    obtain ⟨rfl, htype⟩ := hg record rfl
    refine follows_requireUser (by rw [htype]; nofun) (fun userId => ?_) PastResult.failed
    refine @follows_pastUser _ _ _ _ _ (.findUserWithPassword userId) id _ _ _ (afterSave_past record)
      rfl ?_ (fun user g hg => ?_) PastResult.failed
    · rintro _ rfl
      rfl
    · exact follows_past hg rfl (fun _ g' hg' _ => ⟨fun _ _ => hg', nofun⟩) PastResult.failed
  · rintro userId g ⟨hg, _⟩
    refine Prog.follows_bind (Q := PastResult) ?_ (fun _ g hg => ⟨fun _ _ => hg.1 _ rfl, nofun⟩)
      fun e g hg => ⟨nofun, fun _ _ => hg.2 e rfl⟩
    refine follows_past (hg userId rfl) rfl (fun ids g hg _ => ?_) PastResult.failed
    have hrevoke : Prog.Follows (useProtocol pl (.resetPassword token password)) PastResult
        (perform (.revokeTokens ids) >>= fun _ => pure ()) _ :=
      follows_past hg rfl (fun _ g' hg' _ => ⟨fun _ _ => hg', nofun⟩) PastResult.failed
    rwa [bind_pure_unit] at hrevoke

theorem issueTokens_past (hg : g.Past) (user : AuthUser) (ip userAgent : Option Text) :
    Prog.Follows (useProtocol pl op) PastResult
      (issueTokens pl cfg user ip userAgent fun d => perform (.insertRefreshToken d)) g := by
  refine follows_past hg rfl (fun issuedAt g hg _ => ?_) PastResult.failed
  refine follows_past hg rfl (fun jwtid g hg _ => ?_) PastResult.failed
  refine follows_past hg rfl (fun issuedAt g hg _ => ?_) PastResult.failed
  refine follows_past hg rfl (fun now g hg _ => ?_) PastResult.failed
  exact follows_past hg rfl (fun _ g' hg' _ => ⟨fun _ _ => hg', nofun⟩) PastResult.failed

/-- The account of a registration without an invite. -/
theorem createAccount_uninvited (d : UserDraft) :
    Prog.Follows (useProtocol pl op) (fun _ g => g = .start) (createAccount pl cfg d none) .start := by
  refine follows_leavesUses (Prog.sat_bind (Prog.sat_perform rfl) fun saved => ?_) nofun
  exact Prog.sat_bind (Prog.sat_bind (Prog.sat_perform rfl) fun _ =>
    Prog.sat_bind (Prog.sat_perform rfl) fun _ => Prog.sat_bind (Prog.sat_perform rfl) fun _ =>
      Prog.sat_bind (Prog.sat_perform rfl) fun _ => Prog.sat_bind (Prog.sat_perform rfl) fun _ =>
        trivial) fun _ => trivial

theorem consumeInvite_follows (record : AuthToken) :
    Prog.Follows (useProtocol pl op) PastResult (consumeInvite record.id) (.found record) := by
  refine Prog.follows_bind (Q := fun r g => match r with
      | .ok none => g = .failed
      | .ok (some record') => g = .found record'
      | .error _ => g = .found record) (Prog.follows_perform (.inr (.inl rfl)) fun r _ => ?_) ?_ ?_
  · obtain e | ⟨⟨⟩ | record'⟩ := r <;> rfl
  · rintro (⟨⟩ | record') g hg
    · cases hg
      exact ⟨fun _ _ => .inl rfl, nofun⟩
    · cases hg
      refine Prog.follows_bind (countUse_follows record') ?_ fun e g hg =>
        ⟨nofun, fun _ _ => hg.2 e rfl⟩
      rintro saved g ⟨hg, _⟩
      obtain ⟨rfl, _⟩ := hg saved rfl
      exact ⟨fun _ _ => afterSave_past saved, nofun⟩
  · rintro e g hg
    cases hg
    exact ⟨nofun, fun _ _ => nofun⟩

/-- The account of a registration with an invite. -/
theorem createAccount_invited (d : UserDraft) (record : AuthToken) :
    Prog.Follows (useProtocol pl op) PastResult (createAccount pl cfg d (some record.id))
      (.found record) := by
  refine Prog.follows_skip (.inl rfl) (fun r _ => next_of_leavesUses (g := .found record) rfl nofun r)
    (fun saved _ => ?_) fun _ => ⟨nofun, fun _ _ => nofun⟩
  refine Prog.follows_bind (consumeInvite_follows record) ?_ fun e g hg =>
    ⟨nofun, fun _ _ => hg.2 e rfl⟩
  rintro ⟨⟩ g ⟨hg, _⟩
  exact Prog.follows_bind (issueTokens_past (hg () rfl) saved none none)
    (fun _ g hg => ⟨fun _ _ => hg.1 _ rfl, nofun⟩) fun e g hg => ⟨nofun, fun _ _ => hg.2 e rfl⟩

/-- What becomes of the account decides what becomes of the registration. -/
theorem createAccount_answered {p : M AuthResult}
    (hp : Prog.Follows (useProtocol pl op) (UseResult pl op) p g) :
    Prog.Follows (useProtocol pl op) (UseResult pl op) (do
      match ← p.attempt with
      | .ok r => return r
      | .error (.query (.uniqueViolation _)) =>
        reject (RpcErrors.conflict "An account with this email already exists")
      | .error e => .fail e : M AuthResult) g := by
  refine Prog.follows_bind (Q := fun r g => ∃ r', r = .ok r' ∧ UseResult pl op r' g)
    (Prog.Follows.attempt (hp.mono fun r g hg => ⟨r, rfl, hg⟩)) ?_ ?_
  · rintro r g ⟨_, ⟨⟩, hr⟩
    split
    · exact hr
    · exact ⟨nofun, fun _ _ => hr.2 _ rfl⟩
    · exact hr
  · rintro e g ⟨_, ⟨⟩, _⟩

theorem register_follows (p : RegisterPayload) :
    Prog.Follows (useProtocol pl (.register p)) (UseResult pl (.register p))
      ((Op.register p).program pl cfg) .start := by
  have hstart : ∀ {γ : Type} (e : Failure),
      UseResult pl (.register p) (.error e : Except Failure γ) .start := fun e =>
    ⟨nofun, fun _ _ => nofun⟩
  refine Prog.follows_bind (Q := UseResult pl (.register p)) ?_
    (fun _ g hg => ⟨fun _ _ => hg.1 _ rfl, nofun⟩) fun e g hg => ⟨nofun, fun _ _ => hg.2 e rfl⟩
  refine Prog.follows_skip (.inl rfl) (fun r _ => next_of_leavesUses (g := .start) rfl nofun r)
    (fun existing _ => ?_) hstart
  refine follows_rejectIf (fun _ => ?_) hstart
  dsimp only
  split
  · next hinvite =>
    have htoken : (UseOp.register p).token pl = none := by simp [UseOp.token, hinvite]
    refine Prog.follows_skip (.inl rfl) (fun r _ => next_of_leavesUses (g := .start) rfl nofun r)
      (fun salt _ => ?_) hstart
    refine createAccount_answered ((createAccount_uninvited _).mono ?_)
    rintro r _ rfl
    refine ⟨fun a _ hsome => ?_, fun _ _ => nofun⟩
    rw [htoken] at hsome
    cases hsome
  · next token hinvite =>
    have htoken : (UseOp.register p).token pl = some (pl.sha256 token, .invite) := by
      simp [UseOp.token, hinvite]
    have hassert : Prog.Follows (useProtocol pl (.register p))
        (fun r g => g.Uncounted ∧ ∀ record, r = .ok record → g = .found record)
        (assertInviteForRegister pl token (Js.trim (pl.toLowerCase p.email))) .start := by
      refine Prog.follows_bind (findValidToken_follows htoken) ?_ fun e g hg => ⟨hg.1, nofun⟩
      rintro found g ⟨huncounted, hfound⟩
      refine follows_require (fun record hrecord => ?_) fun _ => ⟨huncounted, nofun⟩
      subst hrecord
      obtain ⟨rfl, _⟩ := hfound record rfl
      refine follows_rejectIf (fun _ => ⟨huncounted, ?_⟩) fun _ => ⟨huncounted, nofun⟩
      rintro _ ⟨⟩
      rfl
    refine Prog.follows_bind (Q := fun r g => g.Uncounted ∧ ∀ invite, r = .ok invite →
      ∃ record, invite = some record ∧ g = .found record) (Prog.follows_bind hassert ?_ ?_) ?_ ?_
    · rintro record g ⟨huncounted, hg⟩
      exact ⟨huncounted, fun _ heq => by cases heq; exact ⟨record, rfl, hg record rfl⟩⟩
    · rintro e g ⟨huncounted, _⟩
      exact ⟨huncounted, nofun⟩
    · rintro invite g ⟨_, hg⟩
      obtain ⟨record, rfl, rfl⟩ := hg invite rfl
      refine Prog.follows_skip (.inl rfl)
        (fun r _ => next_of_leavesUses (g := .found record) rfl nofun r) (fun salt _ => ?_)
        fun _ => ⟨nofun, fun _ _ => nofun⟩
      refine createAccount_answered ((createAccount_invited _ record).mono ?_)
      rintro r g ⟨hok, herror⟩
      exact ⟨fun a ha _ => hok a ha, herror⟩
    · rintro e g ⟨huncounted, _⟩
      exact ⟨nofun, fun _ _ => huncounted⟩

theorem requestEmailVerification_follows (userId : Text) :
    Prog.Follows (useProtocol pl (.requestEmailVerification userId))
      (UseResult pl (.requestEmailVerification userId))
      ((Op.requestEmailVerification userId).program pl cfg) .start := by
  have hsat : Prog.Sat (fun _ _ => True) (fun c => c.leavesUses = true)
      ((Op.requestEmailVerification userId).program pl cfg) :=
    Prog.sat_bind (sat_requestEmailVerification (fun _ => rfl) (fun _ _ => rfl) rfl rfl (fun _ => rfl)
      fun _ => rfl) fun _ => trivial
  refine (follows_leavesUses (g := .start) hsat nofun).mono ?_
  rintro r _ rfl
  exact ⟨nofun, fun _ _ => nofun⟩

theorem UseOp.follows (op : UseOp) :
    Prog.Follows (useProtocol pl op) (UseResult pl op) (op.op.program pl cfg) .start := by
  cases op with
  | register p => exact register_follows p
  | resetPassword t password => exact resetPassword_counts t password
  | verifyEmail t => exact verifyEmail_follows t
  | requestEmailVerification u => exact requestEmailVerification_follows u

end Programs

/-! ## The stored rows -/

/-- The row as far as uses are concerned. -/
structure SameUse (row row' : AuthToken) : Prop where
  id : row'.id = row.id
  tokenHash : row'.tokenHash = row.tokenHash
  type : row'.type = row.type
  maxUses : row'.maxUses = row.maxUses
  usedCount : row'.usedCount = row.usedCount

/-- No count has changed; new rows are unused. -/
structure KeepsUses (db db' : Db) : Prop where
  forth : ∀ row ∈ db.authTokens, ∃ row' ∈ db'.authTokens, SameUse row row'
  back : ∀ row' ∈ db'.authTokens, (∃ row ∈ db.authTokens, SameUse row row') ∨
    db.nextId ≤ row'.id ∧ row'.usedCount = 0
  keyed : Keyed AuthToken.id db.authTokens db.nextId → Keyed AuthToken.id db'.authTokens db'.nextId
  hashes : (db.authTokens.map AuthToken.tokenHash).Nodup →
    (db'.authTokens.map AuthToken.tokenHash).Nodup
  nextId : db.nextId ≤ db'.nextId

section Keeps

variable {db db' : Db}

theorem KeepsUses.of_eq (h : db'.authTokens = db.authTokens) (hnext : db.nextId ≤ db'.nextId) :
    KeepsUses db db' where
  forth row hrow := ⟨row, h ▸ hrow, rfl, rfl, rfl, rfl, rfl⟩
  back row hrow := .inl ⟨row, h ▸ hrow, rfl, rfl, rfl, rfl, rfl⟩
  keyed hk := h ▸ hk.mono hnext
  hashes hh := h ▸ hh
  nextId := hnext

theorem KeepsUses.map {f : AuthToken → AuthToken} (hf : ∀ row, SameUse row (f row))
    (h : db'.authTokens = db.authTokens.map f) (hnext : db.nextId ≤ db'.nextId) : KeepsUses db db' where
  forth row hrow := ⟨f row, h ▸ List.mem_map_of_mem hrow, hf row⟩
  back row' hrow' := by
    rw [h] at hrow'
    obtain ⟨row, hrow, rfl⟩ := List.mem_map.mp hrow'
    exact .inl ⟨row, hrow, hf row⟩
  keyed hk := h ▸ (hk.map fun row => (hf row).id).mono hnext
  hashes hh := by
    rw [h, List.map_map, show AuthToken.tokenHash ∘ f = AuthToken.tokenHash from
      funext fun row => (hf row).tokenHash]
    exact hh
  nextId := hnext

theorem KeepsUses.insert {row : AuthToken} (hid : row.id = db.nextId) (hcount : row.usedCount = 0)
    (hhash : ∀ r ∈ db.authTokens, r.tokenHash ≠ row.tokenHash)
    (h : db'.authTokens = db.authTokens ++ [row]) (hnext : db'.nextId = db.nextId + 1) :
    KeepsUses db db' where
  forth r hr := ⟨r, h ▸ List.mem_append_left _ hr, rfl, rfl, rfl, rfl, rfl⟩
  back r hr := by
    rw [h] at hr
    obtain hr | hr := List.mem_append.mp hr
    · exact .inl ⟨r, hr, rfl, rfl, rfl, rfl, rfl⟩
    · cases List.mem_singleton.mp hr
      exact .inr ⟨hid.ge, hcount⟩
  keyed hk := by
    rw [h, hnext]
    exact hk.concat hid
  hashes hh := by
    rw [h, List.map_append, List.nodup_append]
    refine ⟨hh, List.nodup_singleton _, ?_⟩
    rintro x hx y hy rfl
    obtain ⟨r, hr, hrx⟩ := List.mem_map.mp hx
    exact hhash r hr (hrx.trans (List.mem_singleton.mp hy))
  nextId := hnext ▸ Nat.le_succ _

theorem exec_leavesUses {c : Call} (hc : c.leavesUses = true) (db : Db) :
    KeepsUses db (exec c db).2 := by
  cases c with
  | findAuthToken hash type => cases hc
  | findAuthTokenById id => cases hc
  | saveAuthToken row => cases hc
  | revokeAuthTokens type userId =>
    refine KeepsUses.map (f := fun row =>
      if row.type = type ∧ (∃ u, userId = some u ∧ row.userId = some u) ∧ row.revokedAt = none then
        { row with revokedAt := some db.now }
      else row) (fun row => ?_) rfl le_rfl
    split <;> exact ⟨rfl, rfl, rfl, rfl, rfl⟩
  | insertAuthToken d =>
    simp only [exec]
    split
    · exact .of_eq rfl le_rfl
    · next hfree =>
      have hid : (d.toRow db.nextId db.now).id = db.nextId := rfl
      refine KeepsUses.insert hid rfl (fun r hr heq => ?_) rfl rfl
      exact hfree (List.any_eq_true.mpr ⟨r, hr, decide_eq_true heq⟩)
  | insertUser d =>
    simp only [exec]
    split
    · exact .of_eq rfl le_rfl
    · exact .of_eq rfl (Nat.le_succ _)
  | saveUser user password =>
    simp only [exec]
    split <;> exact .of_eq rfl le_rfl
  | insertRefreshToken d =>
    obtain heq | ⟨_, heq⟩ := exec_insertRefreshToken db d
    · rw [heq]
      exact .of_eq rfl le_rfl
    · rw [heq]
      exact .of_eq rfl (Nat.le_succ _)
  | insertRefreshTokenIn tx d =>
    obtain heq | ⟨_, heq⟩ := exec_insertRefreshTokenIn db tx d
    · rw [heq]
      exact .of_eq rfl le_rfl
    · rw [heq]
      exact .of_eq rfl (Nat.le_succ _)
  | lockToken tx hash =>
    simp only [exec]
    split <;> exact .of_eq rfl le_rfl
  | sendMail mail =>
    simp only [exec]
    split <;> exact .of_eq rfl le_rfl
  | beginTx => exact .of_eq rfl (Nat.le_succ _)
  | newId => exact .of_eq rfl (Nat.le_succ _)
  | _ => exact .of_eq rfl le_rfl

end Keeps

/-! ## Counts -/

/-- The stage has counted a use of the row with the id. -/
def UseStage.counts (id : Nat) : UseStage → Bool
  | counted record => record.id = id
  | _ => false

def countedUses (gs : List (UseOp × UseStage)) (id : Nat) : Nat := gs.countP fun g => g.2.counts id

/-- The stored row is the one the request has read. -/
structure RowOf (db : Db) (token : Option (Text × AuthTokenType)) (record : AuthToken) : Prop where
  token : token = some (record.tokenHash, record.type)
  stored : ∃ row ∈ db.authTokens, row.id = record.id ∧ row.tokenHash = record.tokenHash ∧
    row.type = record.type ∧ row.maxUses = record.maxUses

def UseStage.Sound (db : Db) (token : Option (Text × AuthTokenType)) : UseStage → Prop
  | start => True
  | found record | counted record => RowOf db token record
  | failed => False

/-- `before` is the count of a row when the run began. -/
structure Uses (pl : Platform) (before : Nat → Nat) (db : Db) (gs : List (UseOp × UseStage)) :
    Prop where
  keyed : Keyed AuthToken.id db.authTokens db.nextId
  hashes : (db.authTokens.map AuthToken.tokenHash).Nodup
  fresh : ∀ id, db.nextId ≤ id → before id = 0
  sound : ∀ o g, (o, g) ∈ gs → g.Sound db (o.token pl)
  counts : ∀ row ∈ db.authTokens, row.usedCount = before row.id + countedUses gs row.id ∧
    row.usedCount ≤ row.maxUses

section Step

variable {pl : Platform} {before : Nat → Nat} {db db' : Db} {gs : List (UseOp × UseStage)} {i : Nat}
  {op : UseOp} {g : UseStage} {record : AuthToken} {token : Option (Text × AuthTokenType)}

theorem RowOf.keeps (h : RowOf db token record) (hkeeps : KeepsUses db db') :
    RowOf db' token record := by
  obtain ⟨row, hrow, hid, hhash, htype, hmax⟩ := h.stored
  obtain ⟨row', hrow', hsame⟩ := hkeeps.forth row hrow
  exact ⟨h.token, row', hrow', hsame.id.trans hid, hsame.tokenHash.trans hhash,
    hsame.type.trans htype, hsame.maxUses.trans hmax⟩

/-- Nobody has counted a use of a row that is not there yet. -/
theorem Uses.countedUses_fresh (h : Uses pl before db gs) {id : Nat} (hid : db.nextId ≤ id) :
    countedUses gs id = 0 := by
  refine List.countP_eq_zero.mpr ?_
  rintro ⟨o, g⟩ hg hcounts
  cases g with
  | counted record =>
    obtain ⟨_, row, hrow, hrid, _⟩ := h.sound o _ hg
    have hlt := h.keyed.lt row hrow
    have hrecord : record.id = id := by simpa [UseStage.counts] using hcounts
    omega
  | _ => cases hcounts

theorem Uses.keeps (h : Uses pl before db gs) (hkeeps : KeepsUses db db') :
    Uses pl before db' gs where
  keyed := hkeeps.keyed h.keyed
  hashes := hkeeps.hashes h.hashes
  fresh id hid := h.fresh id (Nat.le_trans hkeeps.nextId hid)
  sound o g hg := by
    have hsound := h.sound o g hg
    cases g with
    | start => trivial
    | failed => exact hsound
    | found record => exact RowOf.keeps hsound hkeeps
    | counted record => exact RowOf.keeps hsound hkeeps
  counts row' hrow' := by
    obtain ⟨row, hrow, hsame⟩ | ⟨hid, hcount⟩ := hkeeps.back row' hrow'
    · rw [hsame.usedCount, hsame.id, hsame.maxUses]
      exact h.counts row hrow
    · rw [hcount, h.fresh _ hid, h.countedUses_fresh hid]
      exact ⟨rfl, Nat.zero_le _⟩

/-- A stage that has counted nothing, before and after. -/
theorem Uses.moves {g' : UseStage} (h : Uses pl before db gs) (hg : gs[i]? = some (op, g))
    (huncounted : ∀ record, g ≠ .counted record) (hsound : g'.Sound db (op.token pl))
    (huncounted' : ∀ record, g' ≠ .counted record) : Uses pl before db (gs.set i (op, g')) := by
  have hcounts : ∀ {g : UseStage} (_ : ∀ record, g ≠ .counted record) (id : Nat),
      g.counts id = false := by
    intro g hg id
    cases g with
    | counted record => exact absurd rfl (hg record)
    | _ => rfl
  obtain ⟨hlt, hget⟩ := List.getElem?_eq_some_iff.mp hg
  refine ⟨h.keyed, h.hashes, h.fresh, fun o g₁ hmem => ?_, fun row hrow => ?_⟩
  · obtain hmem | heq := List.mem_or_eq_of_mem_set hmem
    · exact h.sound o g₁ hmem
    · cases heq
      exact hsound
  · have hsame : countedUses (gs.set i (op, g')) row.id = countedUses gs row.id := by
      unfold countedUses
      rw [List.countP_set hlt, hget, hcounts huncounted, hcounts huncounted']
      rfl
    rw [hsame]
    exact h.counts row hrow

/-- What is asked of a step: a use is counted once, while there is one left, and the request does not
fail any more. -/
def CountsOnce (db : Db) (gs : List (UseOp × UseStage)) (i : Nat) : Call → Prop
  | .saveAuthToken record =>
    (∃ row ∈ db.authTokens, row.id = record.id ∧ record.usedCount = row.usedCount + 1 ∧
      row.usedCount < row.maxUses) ∧ (record.type = .invite ∨ (truthy record.userId).isSome)
  | c => match gs[i]?.map Prod.snd, c with
    | some (.counted _), .findUser id => (db.findUser fun row => row.id = id).isSome
    | some (.counted _), .findUserWithPassword id => (db.findUser fun row => row.id = id).isSome
    | some (.counted _), .saveUser user _ => db.emailTaken user = false
    | some (.counted _), .insertRefreshToken d => db.hashTaken d.tokenHash = false
    | _, _ => True

instance (db : Db) (gs : List (UseOp × UseStage)) (i : Nat) (c : Call) :
    Decidable (CountsOnce db gs i c) := by
  apply @Call.casesOn (fun c => Decidable (CountsOnce db gs i c)) c <;> intros <;> dsimp only [CountsOnce] <;>
    rcases gs[i]?.map Prod.snd with _ | _ | _ <;> infer_instance

/-- A use is counted. -/
theorem Uses.saves (h : Uses pl before db gs) (hg : gs[i]? = some (op, .found record))
    {revokedAt : Option Time}
    (honce : CountsOnce db gs i
      (.saveAuthToken { record with usedCount := record.usedCount + 1, revokedAt })) :
    Uses pl before
      (exec (.saveAuthToken { record with usedCount := record.usedCount + 1, revokedAt }) db).2
      (gs.set i (op, .afterSave { record with usedCount := record.usedCount + 1, revokedAt })) := by
  obtain ⟨⟨row, hrow, hid, hcount, hleft⟩, huser⟩ := honce
  obtain ⟨htoken, row₀, hrow₀, hid₀, hhash, htype, hmax⟩ := h.sound op _ (List.mem_of_getElem? hg)
  obtain rfl := h.keyed.eq_of_id_eq hrow hrow₀ (hid.trans hid₀.symm)
  obtain ⟨hlt, hget⟩ := List.getElem?_eq_some_iff.mp hg
  have hstage : UseStage.afterSave { record with usedCount := record.usedCount + 1, revokedAt } =
      .counted { record with usedCount := record.usedCount + 1, revokedAt } := if_pos huser
  rw [hstage]
  have huses : ∀ id, countedUses (gs.set i
      (op, .counted { record with usedCount := record.usedCount + 1, revokedAt })) id =
      countedUses gs id + if record.id = id then 1 else 0 := by
    intro id
    unfold countedUses
    rw [List.countP_set hlt, hget]
    simp [UseStage.counts]
  refine ⟨h.keyed.replaceRow, ?_, h.fresh, fun o g hmem => ?_, fun r hr => ?_⟩
  · change (List.map AuthToken.tokenHash (replaceRow AuthToken.id _ db.authTokens)).Nodup
    rw [map_replaceRow fun r hr hrid => ?_]
    · exact h.hashes
    · rw [h.keyed.eq_of_id_eq hr hrow (hrid.trans hid.symm)]
      exact hhash
  · have hkept : ∀ token r, RowOf db token r → RowOf (exec (.saveAuthToken
        { record with usedCount := record.usedCount + 1, revokedAt }) db).2 token r := by
      rintro token r ⟨htoken', row', hrow', hid', hrest⟩
      refine ⟨htoken', ?_⟩
      by_cases hsame : row'.id = record.id
      · obtain rfl := h.keyed.eq_of_id_eq hrow' hrow (hsame.trans hid.symm)
        refine ⟨_, mem_replaceRow_iff.mpr (.inl ⟨rfl, row', hrow', hid⟩), hid.symm.trans hid', ?_⟩
        exact ⟨hhash.symm.trans hrest.1, htype.symm.trans hrest.2.1, hmax.symm.trans hrest.2.2⟩
      · exact ⟨row', mem_replaceRow_iff.mpr (.inr ⟨hrow', hsame⟩), hid', hrest⟩
    obtain hmem | heq := List.mem_or_eq_of_mem_set hmem
    · have hsound := h.sound o g hmem
      cases g with
      | start => trivial
      | failed => exact hsound
      | found r => exact hkept _ _ hsound
      | counted r => exact hkept _ _ hsound
    · cases heq
      exact ⟨htoken, _, mem_replaceRow_iff.mpr (.inl ⟨rfl, row, hrow, hid⟩), rfl, rfl, rfl, rfl⟩
  · rw [huses]
    obtain ⟨hbefore, _⟩ := h.counts row hrow
    obtain ⟨rfl, _⟩ | ⟨hr, hne⟩ := mem_replaceRow_iff.mp hr
    · dsimp only at hcount ⊢
      rw [hid₀] at hbefore
      rw [if_pos rfl]
      omega
    · rw [if_neg (Ne.symm hne)]
      exact h.counts r hr

/-- Under the condition no answer after the save makes the request fail. -/
theorem not_ends {c : Call} (hc : c.afterUse = true) (hg : gs[i]? = some (op, .counted record))
    (honce : CountsOnce db gs i c) : Ends c (exec c db).1 = false := by
  cases c with
  | findUser id =>
    simp only [CountsOnce, hg, Option.map_some] at honce
    obtain ⟨user, huser⟩ := Option.isSome_iff_exists.mp honce
    simp only [exec, huser]
    rfl
  | findUserWithPassword id =>
    simp only [CountsOnce, hg, Option.map_some] at honce
    obtain ⟨user, huser⟩ := Option.isSome_iff_exists.mp honce
    simp only [exec, huser]
    rfl
  | saveUser user password =>
    simp only [CountsOnce, hg, Option.map_some] at honce
    simp only [exec, honce]
    rfl
  | insertRefreshToken d =>
    simp only [CountsOnce, hg, Option.map_some] at honce
    simp only [exec, honce]
    rfl
  | matchingTokens u t => rfl
  | revokeTokens ids => rfl
  | newDate => rfl
  | newId => rfl
  | _ => cases hc

theorem Uses.call (h : Uses pl before db gs) (hg : gs[i]? = some (op, g)) {c : Call}
    (hallowed : g.Allowed (op.token pl) c) (honce : CountsOnce db gs i c) :
    Uses pl before (exec c db).2 (gs.set i (op, g.next c (exec c db).1)) := by
  have haside : c.leavesUses = true → (∀ record, g ≠ .counted record) →
      Uses pl before (exec c db).2 (gs.set i (op, g.next c (exec c db).1)) := by
    intro hc huncounted
    rw [next_of_leavesUses hc huncounted, set_self hg]
    exact h.keeps (exec_leavesUses hc db)
  have hsound := h.sound op g (List.mem_of_getElem? hg)
  cases g with
  | start =>
    obtain hc | ⟨hash, type, rfl, htoken⟩ := hallowed
    · exact haside hc (by simp)
    · change Uses pl before db (gs.set i (op, UseStage.next .start (.findAuthToken hash type) (.ok _)))
      cases hfound : db.authTokens.find? fun row => row.tokenHash = hash ∧ row.type = type with
      | none => exact (set_self hg).symm ▸ h
      | some row =>
        have hprop := List.find?_some hfound
        simp only [decide_eq_true_eq] at hprop
        refine h.moves hg (by simp) ⟨?_, row, List.mem_of_find?_eq_some hfound, rfl, rfl, rfl, rfl⟩ (by simp [UseStage.next])
        rw [htoken, hprop.1, hprop.2]
  | found record =>
    obtain hc | rfl | ⟨revokedAt, rfl⟩ := hallowed
    · exact haside hc (by simp)
    · obtain ⟨htoken, row, hrow, hid, hhash, htype, hmax⟩ := hsound
      have hfound : (db.authTokens.find? fun r => r.id = record.id) = some row :=
        h.keyed.find?_eq_some.mpr ⟨hrow, hid⟩
      have hexec : exec (.findAuthTokenById record.id) db = (.ok (some row), db) := by
        simp only [exec, hfound]
      rw [hexec]
      refine h.moves hg (by simp) ⟨?_, row, hrow, rfl, rfl, rfl, rfl⟩ (by simp [UseStage.next])
      rw [htoken, hhash, htype]
    · exact h.saves hg honce
  | counted record =>
    have hleaves : c.leavesUses = true := by cases c <;> first | rfl | cases hallowed
    have hnext : UseStage.next (.counted record) c (exec c db).1 = .counted record := by
      have hends := not_ends hallowed hg honce
      have heq : UseStage.next (.counted record) c (exec c db).1 =
          if Ends c (exec c db).1 = true then .failed else .counted record := by
        cases c <;> rfl
      rw [heq, hends, if_neg Bool.false_ne_true]
    rw [hnext, set_self hg]
    exact h.keeps (exec_leavesUses hleaves db)
  | failed => exact hsound.elim

end Step

/-! ## Runs -/

section Runs

variable {pl : Platform} {cfg : Config} {db : Db} {os : List UseOp} {es : List Event}

abbrev useStep (pl : Platform) : Event → Service UseOp UseStage → Service UseOp UseStage :=
  serviceStep (useProtocol pl)

/-- The count of the row with the id. -/
def Db.usedCount (db : Db) (id : Nat) : Nat :=
  ((db.authTokens.find? fun row => row.id = id).map AuthToken.usedCount).getD 0

/-- The request uses the row. -/
def UseOp.uses (pl : Platform) (row : AuthToken) (op : UseOp) : Bool :=
  op.token pl = some (row.tokenHash, row.type)

/-- No row is used more often than it may be, and its count is the number of uses once all requests are
answered; `before` is the database the requests came in to. -/
def UsesRight (pl : Platform) (before : Db) (os : List UseOp) (w : Service UseOp UseStage) : Prop :=
  ∀ row ∈ w.pool.store.authTokens,
    before.usedCount row.id + successes (UseOp.uses pl row) os w.pool.threads ≤ row.maxUses ∧
    ((∀ t ∈ w.pool.threads, t.outcome.isSome) →
      row.usedCount = before.usedCount row.id + successes (UseOp.uses pl row) os w.pool.threads)

theorem uses_start (hkeyed : Keyed AuthToken.id db.authTokens db.nextId)
    (hhashes : (db.authTokens.map AuthToken.tokenHash).Nodup)
    (hmax : ∀ row ∈ db.authTokens, row.usedCount ≤ row.maxUses) :
    Serving (useProtocol pl) (UseResult pl) (Uses pl db.usedCount) os
      (incoming pl cfg UseOp.op (fun _ => .start) os db) := by
  refine Serving.start UseOp.follows ⟨hkeyed, hhashes, fun id hid => ?_, fun o g hmem => ?_,
    fun row hrow => ?_⟩
  · have hnone : (db.authTokens.find? fun row => row.id = id) = none := by
      refine List.find?_eq_none.mpr fun row hrow heq => ?_
      have hlt := hkeyed.lt row hrow
      simp only [decide_eq_true_eq] at heq
      omega
    simp only [Db.usedCount, hnone, Option.map_none, Option.getD_none]
  · obtain ⟨o', _, heq⟩ := List.mem_map.mp hmem
    cases heq
    trivial
  · have hfound : (db.authTokens.find? fun r => r.id = row.id) = some row :=
      hkeyed.find?_eq_some.mpr ⟨hrow, rfl⟩
    have hnobody : countedUses (os.map fun o => (o, UseStage.start)) row.id = 0 := by
      refine List.countP_eq_zero.mpr fun g hg hcounts => ?_
      obtain ⟨o, _, rfl⟩ := List.mem_map.mp hg
      cases hcounts
    refine ⟨?_, hmax row hrow⟩
    rw [hnobody]
    simp only [Db.usedCount, hfound, Option.map_some, Option.getD_some, Nat.add_zero]

/-- What the stages count is what has succeeded. -/
theorem Uses.right {before : Db} {w : Service UseOp UseStage}
    (hw : Serving (useProtocol pl) (UseResult pl) (Uses pl before.usedCount) os w) :
    UsesRight pl before os w := by
  intro row hrow
  obtain ⟨hcount, hle⟩ := hw.inv.counts row hrow
  have hsuccesses : successes (UseOp.uses pl row) os w.pool.threads ≤ countedUses w.stages row.id := by
    rw [← hw.served]
    refine successes_le hw.follow fun o g a hmem huses hresult => ?_
    have htoken : o.token pl = some (row.tokenHash, row.type) := by simpa [UseOp.uses] using huses
    have hsound := hw.inv.sound o g hmem
    obtain rfl | ⟨record, rfl⟩ := hresult.1 a rfl (by simp [htoken])
    · exact hsound.elim
    · obtain ⟨htoken', row', hrow', hid, hhash, _⟩ := hsound
      have hrecord := (Prod.mk.inj (Option.some.inj (htoken.symm.trans htoken'))).1
      have hsame : row' = row :=
        List.inj_on_of_nodup_map hw.inv.hashes hrow' hrow (hhash.trans hrecord.symm)
      subst hsame
      simpa [UseStage.counts] using hid.symm
  refine ⟨by omega, fun hended => ?_⟩
  have hcounted : countedUses w.stages row.id ≤ successes (UseOp.uses pl row) os w.pool.threads := by
    rw [← hw.served]
    refine le_successes hw.follow hended fun o g r hmem hcounts hresult => ?_
    cases g with
    | counted record =>
      obtain ⟨htoken, row', hrow', hid, hhash, htype, _⟩ := hw.inv.sound o _ hmem
      have hrecord : record.id = row.id := by simpa [UseStage.counts] using hcounts
      obtain rfl := hw.inv.keyed.eq_of_id_eq hrow' hrow (hid.trans hrecord)
      refine ⟨?_, ?_⟩
      · simp [UseOp.uses, htoken, hhash, htype]
      · cases r with
        | ok a => exact ⟨a, rfl⟩
        | error e => exact absurd rfl (hresult.2 e rfl record)
    | _ => cases hcounts
  omega

/-- Where every step counts its use once, while there is one left, and no request fails after that, the
counts are right throughout. -/
theorem uses_counted (hkeyed : Keyed AuthToken.id db.authTokens db.nextId)
    (hhashes : (db.authTokens.map AuthToken.tokenHash).Nodup)
    (hmax : ∀ row ∈ db.authTokens, row.usedCount ≤ row.maxUses)
    (hL : Runs.Along (useStep pl) (Staged.Meets waits CountsOnce) es
      (incoming pl cfg UseOp.op (fun _ => .start) os db)) :
    Runs.Always (useStep pl) (UsesRight pl db os) es
      (incoming pl cfg UseOp.op (fun _ => .start) os db) := by
  have hrun : Runs.Always (useStep pl)
      (Serving (useProtocol pl) (UseResult pl) (Uses pl db.usedCount) os) es
      (incoming pl cfg UseOp.op (fun _ => .start) os db) := by
    have hanswers : ∀ o s c, (useProtocol pl o).answers c (exec c s).1 := fun _ s _ => ⟨s, rfl⟩
    refine Serving.always hanswers ?_ ?_ (uses_start hkeyed hhashes hmax) hL
    · intro s gs i op g c hJ hg hallowed _ honce
      exact hJ.call hg hallowed honce
    · intro d s gs hJ
      exact hJ.keeps (.of_eq rfl le_rfl)
  exact hrun.mono fun w hw => Uses.right hw

/-- An invite for one. -/
def oneInvite : Db :=
  { Db.empty .log 0 with
    authTokens := [⟨0, .invite, "$0123456789abcdef".toList, none, none, none, 1, 0, 1000000, none, 0⟩]
    nextId := 1 }

/-- Two people with the same invite. -/
def twoInvited : List UseOp :=
  [.register ⟨"a@b.c".toList, "pw".toList, some "0123456789abcdef".toList⟩,
    .register ⟨"d@e.f".toList, "pw".toList, some "0123456789abcdef".toList⟩]

/-- One after the other. -/
def inTurn : List Event := List.replicate 13 (.advance 0) ++ List.replicate 3 (.advance 1)

/-- Call by call. -/
def sideBySide : List Event := (List.replicate 13 [.advance 0, .advance 1]).flatten

theorem uses_counted_inTurn :
    Runs.Always (useStep .toy) (UsesRight .toy oneInvite twoInvited) inTurn
      (incoming .toy .toy UseOp.op (fun _ => .start) twoInvited oneInvite) :=
  uses_counted ⟨by decide, by decide⟩ (by decide) (by decide) (by decide +kernel)

/-- Both read the invite before the first has counted its use: both register, and the count is one. -/
theorem uses_counted_fails :
    ¬ ∀ (pl : Platform) (cfg : Config) (db : Db) (os : List UseOp) (es : List Event),
      Keyed AuthToken.id db.authTokens db.nextId → (db.authTokens.map AuthToken.tokenHash).Nodup →
      (∀ row ∈ db.authTokens, row.usedCount ≤ row.maxUses) →
      UsesRight pl db os (Runs.final (useStep pl) es
        (incoming pl cfg UseOp.op (fun _ => .start) os db)) := by
  intro h
  have hright := h .toy .toy oneInvite twoInvited sideBySide ⟨by decide, by decide⟩ (by decide)
    (by decide)
  have hover : ∃ row ∈ (Runs.final (useStep .toy) sideBySide (incoming .toy .toy UseOp.op
      (fun _ => .start) twoInvited oneInvite)).pool.store.authTokens,
      row.maxUses < successes (UseOp.uses .toy row) twoInvited (Runs.final (useStep .toy) sideBySide
        (incoming .toy .toy UseOp.op (fun _ => .start) twoInvited oneInvite)).pool.threads := by
    decide +kernel
  obtain ⟨row, hrow, hlt⟩ := hover
  have hle := (hright row hrow).1
  omega

end Runs

end Relay.Accounts
