import Relay.Accounts.Verify.Programs

/-!
# Logins across a change of the password

A login reads the row of the user, verifies the password against it and stores a refresh token later; a
change of the password saves the row, looks for the tokens of the user that are not revoked, and revokes
what it has found. A token stored after the change has looked is not found. `InTime` is the condition that
rules this out; under it every token that was obtained with the replaced password is revoked when the
change has returned (`old_password_dies`).
-/

namespace Relay.Accounts

open Relay.Lib Relay.Lib.Rows Relay.Auth

inductive PasswordOp where
  | login (p : LoginPayload)
  | changePassword (userId currentPassword newPassword : Text)
  | resetPassword (token password : Text)

def PasswordOp.op : PasswordOp → Op
  | login p => .login p
  | changePassword u current new => .changePassword u current new
  | resetPassword t password => .resetPassword t password

/-- How far a request has come, with the row of the user as it has read it. -/
inductive PasswordStage where
  | start
  /-- A login has read the row it verifies the password against. -/
  | verified (user : UserRow)
  /-- A login has stored the token with the hash. -/
  | issued (user : UserRow) (tokenHash : Text)
  /-- A change has read the row whose password it replaces. -/
  | loaded (user : UserRow)
  | saved (user : UserRow)
  /-- A change has found the tokens to revoke. -/
  | marked (user : UserRow) (ids : List Nat)
  | changed (user : UserRow)
deriving DecidableEq

namespace PasswordStage

/-- What a login calls. -/
def LoginCall (pl : Platform) (p : LoginPayload) : PasswordStage → Call → Prop
  | start, c => ∃ email, c = .findUserByEmailWithPassword email
  | verified user, c => c = .newDate ∨ c = .newId ∨
      ∃ d, c = .insertRefreshToken d ∧ d.userId = user.id ∧
        pl.verifyPassword p.password user.password = true
  | _, _ => False

/-- What a change calls before it has read the row of the user. -/
def Prelude : Call → Prop
  | .newDate | .newId | .findAuthToken _ _ | .saveAuthToken _ => True
  | _ => False

/-- What a change of the password calls. -/
def ChangeCall : PasswordStage → Call → Prop
  | start, c => Prelude c ∨ ∃ id, c = .findUserWithPassword id
  | loaded user, c => c = .newId ∨ ∃ hash, c = .saveUser user.toAuthUser (some hash)
  | saved user, c => c = .matchingTokens user.id none
  | marked _ ids, c => c = .revokeTokens ids
  | _, _ => False

def next : PasswordStage → (c : Call) → Except Failure c.Answer → PasswordStage
  | start, .findUserByEmailWithPassword _, .ok (some user) => verified user
  | verified user, .insertRefreshToken d, .ok () => issued user d.tokenHash
  | start, .findUserWithPassword _, .ok (some user) => loaded user
  | loaded user, .saveUser _ _, .ok () => saved user
  | saved user, .matchingTokens _ _, .ok ids => marked user ids
  | marked user _, .revokeTokens _, .ok () => changed user
  | g, _, _ => g

/-- The change replaces the password that was verified, and has looked for tokens to revoke. -/
def HasReplaced (user : UserRow) : PasswordStage → Prop
  | marked user' _ | changed user' => user'.id = user.id ∧ user'.password = user.password
  | _ => False

instance (user : UserRow) (g : PasswordStage) : Decidable (g.HasReplaced user) := by
  unfold HasReplaced
  split <;> infer_instance

end PasswordStage

def loginProtocol (pl : Platform) (p : LoginPayload) :
    Protocol Call Call.Answer Failure PasswordStage where
  allowed := PasswordStage.LoginCall pl p
  next := PasswordStage.next
  answers := fun _ _ => True

def changeProtocol : Protocol Call Call.Answer Failure PasswordStage where
  allowed := PasswordStage.ChangeCall
  next := PasswordStage.next
  answers := fun _ _ => True

def passwordProtocol (pl : Platform) : Protocols PasswordOp PasswordStage
  | .login p => loginProtocol pl p
  | _ => changeProtocol

/-- A login that has succeeded has stored the token it returns, for a row that it has verified. -/
def LoggedIn (pl : Platform) (p : LoginPayload) (r : Except Failure Response) (g : PasswordStage) :
    Prop :=
  ∀ a, r = .ok a → ∃ user result, a = .auth result ∧
    g = .issued user (pl.sha256 result.tokens.refreshToken) ∧
    pl.verifyPassword p.password user.password = true

def Changed {α : Type} (r : Except Failure α) (g : PasswordStage) : Prop :=
  ∀ a, r = .ok a → ∃ user, g = .changed user

/-- Where a request that has succeeded has come to. -/
def PasswordResult (pl : Platform) : PasswordOp → Except Failure Response → PasswordStage → Prop
  | .login p => LoggedIn pl p
  | _ => Changed

/-! ## The programs -/

section Programs

variable {pl : Platform} {cfg : Config}

theorem login_follows (p : LoginPayload) :
    Prog.Follows (loginProtocol pl p) (LoggedIn pl p) ((Op.login p).program pl cfg) .start := by
  refine Prog.follows_bind (Q := fun r g => ∀ result : AuthResult, r = .ok result → ∃ user,
      g = .issued user (pl.sha256 result.tokens.refreshToken) ∧
        pl.verifyPassword p.password user.password = true) ?_ ?_ fun _ _ _ => nofun
  · refine ⟨⟨_, rfl⟩, fun r _ => ?_⟩
    obtain e | found := r
    · nofun
    refine follows_require (fun user hfound => ?_) fun _ => nofun
    subst hfound
    change Prog.Follows (loginProtocol pl p) _ _ (PasswordStage.verified user)
    refine follows_rejectIf (fun hverify => ?_) fun _ => nofun
    have hverify : pl.verifyPassword p.password user.password = true := by simpa using hverify
    refine follows_rejectIf (fun _ => ?_) fun _ => nofun
    refine Prog.follows_bind (Q := fun r g => ∀ tokens : TokenPair, r = .ok tokens →
      g = .issued user (pl.sha256 tokens.refreshToken)) ?_ ?_ fun _ _ _ => nofun
    · refine follows_issueTokens ⟨.inl rfl, fun _ _ => rfl⟩ ⟨.inr (.inl rfl), fun _ _ => rfl⟩
        (fun d tokens huser hhash => ?_) fun _ => nofun
      refine ⟨.inr (.inr ⟨d, rfl, huser, hverify⟩), fun r _ => ?_⟩
      rcases r with e | ⟨⟨⟩⟩
      · nofun
      · rintro _ ⟨⟩
        exact congrArg (PasswordStage.issued user) hhash
    · rintro tokens g hg result ⟨⟩
      exact ⟨user, hg tokens rfl, hverify⟩
  · rintro result g hg a ⟨⟩
    obtain ⟨user, hstage, hverify⟩ := hg result rfl
    exact ⟨user, result, rfl, hstage, hverify⟩

/-- From the save of the row on. -/
theorem updateRevoked_follows {user : UserRow} {α : Type} {a : α} :
    Prog.Follows changeProtocol Changed (do updateRevoked user.id none; return a) (.saved user) := by
  refine Prog.follows_bind (Q := fun r g => ∀ u, r = .ok u → g = .changed user) ?_ ?_ fun _ _ _ => nofun
  · refine ⟨rfl, fun r _ => ?_⟩
    obtain e | ids := r
    · nofun
    refine ⟨rfl, fun r _ => ?_⟩
    rcases r with e | ⟨⟨⟩⟩
    · nofun
    · rintro _ ⟨⟩
      rfl
  · rintro u g hg _ ⟨⟩
    exact ⟨user, hg u rfl⟩

theorem Changed.map {α β : Type} {f : α → β} {p : M α} {g : PasswordStage}
    (h : Prog.Follows changeProtocol Changed p g) :
    Prog.Follows changeProtocol Changed (f <$> p) g :=
  Prog.follows_bind h (fun a _ hg _ _ => hg a rfl) fun _ _ _ => nofun

theorem changePassword_follows (userId current new : Text) :
    Prog.Follows changeProtocol Changed ((Op.changePassword userId current new).program pl cfg)
      .start := by
  refine Changed.map ?_
  refine ⟨.inr ⟨_, rfl⟩, fun r _ => ?_⟩
  obtain e | found := r
  · nofun
  refine follows_require (fun user hfound => ?_) fun _ => nofun
  subst hfound
  change Prog.Follows changeProtocol _ _ (PasswordStage.loaded user)
  refine follows_rejectIf (fun _ => ?_) fun _ => nofun
  refine Prog.follows_skip (.inl rfl) (fun _ _ => rfl) (fun salt _ => ?_) fun _ => nofun
  refine ⟨.inr ⟨_, rfl⟩, fun r _ => ?_⟩
  rcases r with e | ⟨⟨⟩⟩
  · nofun
  · exact updateRevoked_follows

theorem next_of_prelude {c : Call} (h : PasswordStage.Prelude c) (r : Except Failure c.Answer) :
    PasswordStage.next .start c r = .start := by
  cases c <;> first | rfl | cases h

theorem resetPassword_follows (token password : Text) :
    Prog.Follows changeProtocol Changed ((Op.resetPassword token password).program pl cfg)
      .start := by
  refine Changed.map ?_
  refine Prog.follows_skip (.inl trivial) (fun _ _ => rfl) (fun salt _ => ?_) fun _ => nofun
  have hconsume : Prog.Follows changeProtocol (fun _ g => g = .start)
      (consumeToken pl token .passwordReset) .start :=
    Prog.follows_of_sat (P := changeProtocol) (g := .start) (L := PasswordStage.Prelude)
      (fun c hc => ⟨Or.inl hc, next_of_prelude hc⟩)
      (sat_consumeToken trivial trivial fun _ => trivial)
  have hreset : Prog.Follows changeProtocol
      (fun r g => ∀ id, r = .ok id → ∃ user : UserRow, user.id = id ∧ g = .saved user)
      (resetPasswordHash pl token (pl.hashPassword password salt)) .start := by
    refine Prog.follows_bind hconsume ?_ fun _ _ _ => nofun
    rintro record g rfl
    refine follows_require (fun userId _ => ?_) fun _ => nofun
    refine ⟨.inr ⟨_, rfl⟩, fun r _ => ?_⟩
    obtain e | found := r
    · nofun
    refine follows_require (fun user hfound => ?_) fun _ => nofun
    subst hfound
    refine ⟨.inr ⟨_, rfl⟩, fun r _ => ?_⟩
    rcases r with e | ⟨⟨⟩⟩
    · nofun
    · rintro _ ⟨⟩
      exact ⟨user, rfl, rfl⟩
  refine Prog.follows_bind hreset ?_ fun _ _ _ => nofun
  intro id g hg
  obtain ⟨user, rfl, rfl⟩ := hg id rfl
  exact updateRevoked_follows

theorem PasswordOp.follows (op : PasswordOp) :
    Prog.Follows (passwordProtocol pl op) (PasswordResult pl op) (op.op.program pl cfg) .start := by
  cases op with
  | login p => exact login_follows p
  | changePassword u current new => exact changePassword_follows u current new
  | resetPassword t password => exact resetPassword_follows t password

end Programs

/-! ## The stored tokens -/

/-- The change replaces the password the login has verified. -/
def SamePassword (user user' : UserRow) : Prop := user'.id = user.id ∧ user'.password = user.password

/-- The changes that replace the password have found the token, or it is revoked already. -/
structure Fate (gs : List (PasswordOp × PasswordStage)) (user : UserRow) (row : RefreshTokenRow) :
    Prop where
  marked : ∀ o user' ids, (o, .marked user' ids) ∈ gs → SamePassword user user' →
    row.revoked = true ∨ row.id ∈ ids
  changed : ∀ o user', (o, .changed user') ∈ gs → SamePassword user user' → row.revoked = true

structure Passwords (db : Db) (gs : List (PasswordOp × PasswordStage)) : Prop where
  keys : TokenKeys db
  issued : ∀ o user tokenHash, (o, .issued user tokenHash) ∈ gs → ∃ row ∈ db.refreshTokens,
    row.tokenHash = tokenHash ∧ row.userId = user.id ∧ Fate gs user row

/-- Stages that say nothing about the stored tokens. -/
def PasswordStage.Plain : PasswordStage → Prop
  | issued _ _ | marked _ _ | changed _ => False
  | _ => True

section Step

variable {db db' : Db} {gs : List (PasswordOp × PasswordStage)} {i : Nat} {op : PasswordOp}
  {g : PasswordStage} {user : UserRow}

theorem Fate.set {row : RefreshTokenRow} (h : Fate gs user row) (hg : g.Plain) :
    Fate (gs.set i (op, g)) user row where
  marked o user' ids hmem hsame := by
    obtain hmem | heq := List.mem_or_eq_of_mem_set hmem
    · exact h.marked o user' ids hmem hsame
    · cases heq
      exact hg.elim
  changed o user' hmem hsame := by
    obtain hmem | heq := List.mem_or_eq_of_mem_set hmem
    · exact h.changed o user' hmem hsame
    · cases heq
      exact hg.elim

/-- A request goes on without touching the tokens. -/
theorem Passwords.plain (h : Passwords db gs) (htokens : SameTokens db db') (hg : g.Plain) :
    Passwords db' (gs.set i (op, g)) where
  keys := htokens.keys h.keys
  issued o user tokenHash hmem := by
    obtain hmem | heq := List.mem_or_eq_of_mem_set hmem
    · obtain ⟨row, hrow, hhash, huser, hfate⟩ := h.issued o user tokenHash hmem
      exact ⟨row, htokens.tokens ▸ hrow, hhash, huser, hfate.set hg⟩
    · cases heq
      exact hg.elim

/-- A login stores its token, no change having replaced its password. -/
theorem Passwords.issues (h : Passwords db gs) {d : RefreshTokenDraft} (hd : d.userId = user.id)
    (hg : gs[i]? = some (op, .verified user)) (htime : ∀ g ∈ gs, ¬ g.2.HasReplaced user) :
    Passwords (exec (.insertRefreshToken d) db).2
      (gs.set i (op, PasswordStage.next (.verified user) (.insertRefreshToken d)
        (exec (.insertRefreshToken d) db).1)) := by
  have hkeys := h.keys.insertRefreshToken d
  obtain heq | ⟨_, heq⟩ := exec_insertRefreshToken db d
  · rw [heq]
    exact (set_self hg).symm ▸ h
  rw [heq] at hkeys ⊢
  have hfate : ∀ user₁ row, Fate gs user₁ row →
      Fate (gs.set i (op, .issued user d.tokenHash)) user₁ row := by
    intro user₁ row hfate
    refine ⟨fun o user' ids hmem => ?_, fun o user' hmem => ?_⟩
    · exact hfate.marked o user' ids ((List.mem_or_eq_of_mem_set hmem).resolve_right nofun)
    · exact hfate.changed o user' ((List.mem_or_eq_of_mem_set hmem).resolve_right nofun)
  refine ⟨hkeys, fun o user₁ tokenHash hmem => ?_⟩
  obtain hmem | heq := List.mem_or_eq_of_mem_set hmem
  · obtain ⟨row, hrow, hhash, huser, hrest⟩ := h.issued o user₁ tokenHash hmem
    exact ⟨row, List.mem_append_left _ hrow, hhash, huser, hfate _ _ hrest⟩
  · cases heq
    refine ⟨d.toRow db.nextId db.now, List.mem_append_right _ (List.mem_singleton_self _), rfl, hd,
      hfate _ _ ⟨fun o user' ids hmem hsame => ?_, fun o user' hmem hsame => ?_⟩⟩
    · exact absurd hsame (htime _ hmem)
    · exact absurd hsame (htime _ hmem)

/-- A change looks for the tokens to revoke. -/
theorem Passwords.marks (h : Passwords db gs) :
    Passwords db (gs.set i (op, .marked user
      ((db.refreshTokens.filter (tokenMatches user.id none)).map RefreshTokenRow.id))) where
  keys := h.keys
  issued o user₁ tokenHash hmem := by
    obtain hmem | heq := List.mem_or_eq_of_mem_set hmem
    · obtain ⟨row, hrow, hhash, huser, hfate⟩ := h.issued o user₁ tokenHash hmem
      refine ⟨row, hrow, hhash, huser, fun o user' ids hmem hsame => ?_, fun o user' hmem => ?_⟩
      · obtain hmem | heq := List.mem_or_eq_of_mem_set hmem
        · exact hfate.marked o user' ids hmem hsame
        · cases heq
          cases hrevoked : row.revoked with
          | true => exact .inl rfl
          | false =>
            refine .inr (List.mem_map_of_mem (List.mem_filter.mpr ⟨hrow, ?_⟩))
            simp [tokenMatches, huser, hsame.1, hrevoked]
      · exact hfate.changed o user' ((List.mem_or_eq_of_mem_set hmem).resolve_right nofun)
    · cases heq

/-- A change revokes the tokens it has found. -/
theorem Passwords.revokes (h : Passwords db gs) {ids : List Nat}
    (hg : gs[i]? = some (op, .marked user ids)) :
    Passwords (exec (.revokeTokens ids) db).2 (gs.set i (op, .changed user)) where
  keys := h.keys.revokeTokens ids
  issued o user₁ tokenHash hmem := by
    obtain hmem | heq := List.mem_or_eq_of_mem_set hmem
    · obtain ⟨row, hrow, hhash, huser, hfate⟩ := h.issued o user₁ tokenHash hmem
      refine ⟨_, List.mem_map_of_mem hrow, ?_⟩
      have hrevoked : row.revoked = true ∨ row.id ∈ ids →
          (if row.id ∈ ids then { row with revoked := true } else row).revoked = true := by
        intro hor
        split
        · rfl
        · next hid => exact hor.resolve_right hid
      have hmarked : SamePassword user₁ user → row.revoked = true ∨ row.id ∈ ids :=
        hfate.marked op user ids (List.mem_of_getElem? hg)
      refine ⟨?_, ?_, fun o user' ids' hmem hsame => ?_, fun o user' hmem hsame => ?_⟩
      · split <;> exact hhash
      · split <;> exact huser
      · obtain hfate | hid := hfate.marked o user' ids'
          ((List.mem_or_eq_of_mem_set hmem).resolve_right nofun) hsame
        · exact .inl (hrevoked (.inl hfate))
        · refine .inr ?_
          split <;> exact hid
      · obtain hmem | heq := List.mem_or_eq_of_mem_set hmem
        · exact hrevoked (.inl (hfate.changed o user' hmem hsame))
        · cases heq
          exact hrevoked (hmarked hsame)
    · cases heq

/-- The condition on a step: a login stores its token before any change that replaces the password it has
verified looks for the tokens to revoke. -/
def InTime (gs : List (PasswordOp × PasswordStage)) (i : Nat) : Call → Prop
  | .insertRefreshToken _ => match gs[i]? with
    | some (_, .verified user) => ∀ g ∈ gs, ¬ g.2.HasReplaced user
    | _ => True
  | _ => True

instance (gs : List (PasswordOp × PasswordStage)) (i : Nat) (c : Call) : Decidable (InTime gs i c) := by
  apply @Call.casesOn (fun c => Decidable (InTime gs i c)) c <;> intros <;> dsimp only [InTime] <;>
    rcases gs[i]? with _ | ⟨_, _ | _⟩ <;> infer_instance

theorem Passwords.call {pl : Platform} (h : Passwords db gs) (hg : gs[i]? = some (op, g)) {c : Call}
    (hallowed : (passwordProtocol pl op).allowed g c) (htime : InTime gs i c) :
    Passwords (exec c db).2 (gs.set i (op, (passwordProtocol pl op).next g c (exec c db).1)) := by
  have hnext : (passwordProtocol pl op).next = PasswordStage.next := by cases op <;> rfl
  rw [hnext]
  have hcalls : (∃ p, PasswordStage.LoginCall pl p g c) ∨ PasswordStage.ChangeCall g c := by
    cases op with
    | login p => exact .inl ⟨p, hallowed⟩
    | _ => exact .inr hallowed
  have haside : c.leavesTokens = true → (g.next c (exec c db).1).Plain →
      Passwords (exec c db).2 (gs.set i (op, g.next c (exec c db).1)) :=
    fun hc hplain => h.plain (exec_leavesTokens hc db) hplain
  obtain ⟨p, hcall⟩ | hcall := hcalls
  · cases g with
    | start =>
      obtain ⟨email, rfl⟩ := hcall
      refine haside rfl ?_
      change PasswordStage.Plain (PasswordStage.next .start _ (.ok _))
      cases db.findUser fun row => row.email = email <;> trivial
    | verified user =>
      obtain rfl | rfl | ⟨d, rfl, huser, _⟩ := hcall
      · exact haside rfl trivial
      · exact haside rfl trivial
      · refine h.issues huser hg ?_
        simp only [InTime, hg] at htime
        exact htime
    | _ => exact hcall.elim
  · cases g with
    | start =>
      obtain hprelude | ⟨id, rfl⟩ := hcall
      · refine haside ?_ ?_
        · cases c <;> first | rfl | cases hprelude
        · rw [next_of_prelude hprelude]
          trivial
      · refine haside rfl ?_
        change PasswordStage.Plain (PasswordStage.next .start _ (.ok _))
        cases db.findUser fun row => row.id = id <;> trivial
    | loaded user =>
      obtain rfl | ⟨hash, rfl⟩ := hcall
      · exact haside rfl trivial
      · refine haside rfl ?_
        rcases (exec (.saveUser user.toAuthUser (some hash)) db).1 with e | ⟨⟨⟩⟩ <;> trivial
    | saved user =>
      obtain rfl := hcall
      exact h.marks
    | marked user ids =>
      obtain rfl := hcall
      exact h.revokes hg
    | _ => exact hcall.elim

end Step

/-! ## Runs -/

section Runs

variable {pl : Platform} {cfg : Config} {db : Db} {os : List PasswordOp} {es : List Event}

abbrev passwordStep (pl : Platform) : Event → Service PasswordOp PasswordStage →
    Service PasswordOp PasswordStage := serviceStep (passwordProtocol pl)

/-- No token that was obtained with a replaced password is any good: whenever a login and a change have
returned, and the change has replaced the password the login has verified. -/
def OldPasswordsDead (pl : Platform) (cfg : Config) (os : List PasswordOp)
    (w : Service PasswordOp PasswordStage) : Prop :=
  ∀ i j p op a b, os[i]? = some (.login p) → os[j]? = some op → (∀ p, op ≠ .login p) →
    w.pool.result i = some (.ok a) → w.pool.result j = some (.ok b) →
    ∃ result user user', a = .auth result ∧
      w.stages[i]? = some (.login p, .issued user (pl.sha256 result.tokens.refreshToken)) ∧
      pl.verifyPassword p.password user.password = true ∧
      w.stages[j]? = some (op, .changed user') ∧
      (SamePassword user user' → Dead pl cfg w.pool.store result.tokens.refreshToken)

theorem passwords_start (h : AtRest db) :
    Serving (passwordProtocol pl) (PasswordResult pl) Passwords os
      (incoming pl cfg PasswordOp.op (fun _ => .start) os db) := by
  refine Serving.start PasswordOp.follows ⟨h.keys, fun o user tokenHash hmem => ?_⟩
  obtain ⟨o', _, heq⟩ := List.mem_map.mp hmem
  cases heq

/-- Where every login stores its token in time, a token obtained with a password that a change has
replaced is refused once both have returned. -/
theorem old_password_dies (h : AtRest db) (hL : Runs.Along (passwordStep pl)
      (Staged.Meets waits fun _ gs i c => InTime gs i c) es
      (incoming pl cfg PasswordOp.op (fun _ => .start) os db)) :
    Runs.Always (passwordStep pl) (OldPasswordsDead pl cfg os) es
      (incoming pl cfg PasswordOp.op (fun _ => .start) os db) := by
  have hrun : Runs.Always (passwordStep pl)
      (Serving (passwordProtocol pl) (PasswordResult pl) Passwords os) es
      (incoming pl cfg PasswordOp.op (fun _ => .start) os db) := by
    refine Serving.always (fun o _ _ => ?_) ?_ ?_ (passwords_start h) hL
    · cases o <;> trivial
    · intro s gs i op g c hJ hg hallowed _ htime
      exact hJ.call hg hallowed htime
    · intro d s gs hJ
      exact ⟨⟨hJ.keys.ids, hJ.keys.hashes⟩, hJ.issued⟩
  refine hrun.mono ?_
  intro w hw i j p op a b hi hj hop ha hb
  obtain ⟨g, hg, hlogged⟩ := hw.result hi ha
  obtain ⟨user, result, rfl, rfl, hverify⟩ := hlogged a rfl
  have hchanged : ∃ user', w.stages[j]? = some (op, .changed user') := by
    obtain ⟨g', hg', hresult⟩ := hw.result hj hb
    cases op with
    | login p => exact absurd rfl (hop p)
    | _ =>
      obtain ⟨user', rfl⟩ := hresult b rfl
      exact ⟨user', hg'⟩
  obtain ⟨user', hg'⟩ := hchanged
  refine ⟨result, user, user', rfl, hg, hverify, hg', fun hsame => ?_⟩
  obtain ⟨row, hrow, hhash, _, hfate⟩ := hw.inv.issued _ _ _ (List.mem_of_getElem? hg)
  exact Revoked.dead hw.inv.keys
    ⟨row, hrow, hhash, hfate.changed op user' (List.mem_of_getElem? hg') hsame⟩

/-- The login stores its token, the change then finds and revokes it. -/
def loginFirst : List Event :=
  [.advance 0, .advance 1, .advance 0, .advance 0, .advance 0, .advance 0, .advance 0, .advance 1,
    .advance 1, .advance 1, .advance 1]

/-- The change comes and goes while the login, its password verified, is still at work. -/
def loginLast : List Event :=
  [.advance 0, .advance 1, .advance 1, .advance 1, .advance 1, .advance 1, .advance 0, .advance 0,
    .advance 0, .advance 0, .advance 0]

/-- The old password is `pw`, the new one `new`. -/
def loginAndChange : List PasswordOp :=
  [.login ⟨"a@b.c".toList, "pw".toList, none, none⟩,
    .changePassword "u".toList "pw".toList "new".toList]

theorem old_password_dies_loginFirst :
    Runs.Always (passwordStep .toy) (OldPasswordsDead .toy .toy loginAndChange) loginFirst
      (incoming .toy .toy PasswordOp.op (fun _ => .start) loginAndChange oneSession) :=
  old_password_dies oneSession_atRest (by
    simp only [loginFirst, Runs.Along]
    decide)

/-- The login verifies the old password and stores its token when the change is over: the token lives. -/
theorem old_password_dies_fails :
    ¬ ∀ (pl : Platform) (cfg : Config) (db : Db) (os : List PasswordOp) (es : List Event), AtRest db →
      OldPasswordsDead pl cfg os (Runs.final (passwordStep pl) es
        (incoming pl cfg PasswordOp.op (fun _ => .start) os db)) := by
  intro h
  obtain ⟨a, ha⟩ := exists_ok (r := (Runs.final (passwordStep .toy) loginLast (incoming .toy .toy
    PasswordOp.op (fun _ => .start) loginAndChange oneSession)).pool.result 0) (by decide)
  obtain ⟨b, hb⟩ := exists_ok (r := (Runs.final (passwordStep .toy) loginLast (incoming .toy .toy
    PasswordOp.op (fun _ => .start) loginAndChange oneSession)).pool.result 1) (by decide)
  obtain ⟨result, user, user', _, hissued, _, hchanged, hdead⟩ :=
    h .toy .toy oneSession loginAndChange loginLast oneSession_atRest 0 1 _ _ a b rfl rfl nofun ha hb
  have hissued' : (Runs.final (passwordStep .toy) loginLast (incoming .toy .toy PasswordOp.op
      (fun _ => .start) loginAndChange oneSession)).stages[0]?.map Prod.snd =
      oneSession.users.head?.map fun u => .issued u "$r2".toList := by decide
  have hchanged' : (Runs.final (passwordStep .toy) loginLast (incoming .toy .toy PasswordOp.op
      (fun _ => .start) loginAndChange oneSession)).stages[1]?.map Prod.snd =
      oneSession.users.head?.map .changed := by decide
  rw [hissued] at hissued'
  rw [hchanged] at hchanged'
  have htoken : result.tokens.refreshToken = "r2".toList := by
    have hstage := Option.some.inj hissued'
    simp only [PasswordStage.issued.injEq, Platform.toy] at hstage
    exact (List.cons.inj hstage.2).2
  have huser : user = user' := by
    have hstage := Option.some.inj hissued'
    have hstage' := Option.some.inj hchanged'
    simp only [PasswordStage.issued.injEq, PasswordStage.changed.injEq] at hstage hstage'
    exact hstage.1.trans hstage'.symm
  have hdead := hdead (huser ▸ ⟨rfl, rfl⟩) none none
  rw [htoken] at hdead
  revert hdead
  decide

end Runs

end Relay.Accounts
