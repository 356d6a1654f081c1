import Relay.Accounts.Verify.Registration
import Relay.Gateway.AuthController

/-!
# A registration whose calls fail

The compensation of the gateway covers a profile that cannot be created and nothing else: an account whose
tokens cannot be issued stays, and an invite that was used stays used. `settled_iff` says which failures
leave a registration either undone or complete.
-/

namespace Relay.Gateway.AuthController

open Relay.Lib Relay.Auth Relay.Accounts

variable {pl : Platform} {cfg : Config} {cache : Gateway.Auth.Config} {dto : RegisterDto}
  {fault : Nat → Option Failure} {s : State}

/-! ## What a registration is to leave behind -/

def RegisterDto.payload (dto : RegisterDto) : RegisterPayload := ⟨dto.email, dto.password, dto.inviteToken⟩

/-- The address the account is stored under. -/
def RegisterDto.address (pl : Platform) (dto : RegisterDto) : Text := Js.trim (pl.toLowerCase dto.email)

/-- `usedCount` and `revokedAt` of the tokens with the hash of the invite. -/
def RegisterDto.uses (pl : Platform) (dto : RegisterDto) (db : Accounts.Db) : List (Nat × Option Time) :=
  (db.authTokens.filter fun row => ∃ token ∈ truthy dto.inviteToken, row.tokenHash = pl.sha256 token).map
    fun row => (row.usedCount, row.revokedAt)

/-- No account with the address that was not there before. -/
def Undone (pl : Platform) (dto : RegisterDto) (before after : State) : Prop :=
  (∀ row ∈ after.accounts.users, row.email = dto.address pl → row.isActive → row.deletedAt = none →
    ∃ old ∈ before.accounts.users, old.id = row.id) ∧
  dto.uses pl after.accounts = dto.uses pl before.accounts

/-- The account and its profile, and one use of the invite if there is one. -/
def Complete (pl : Platform) (dto : RegisterDto) (result : AuthResult) (before after : State) : Prop :=
  (∃ row ∈ after.accounts.users, row.id = result.user.id ∧ row.email = dto.address pl ∧ row.isActive ∧
    row.deletedAt = none ∧ ∀ old ∈ before.accounts.users, old.id ≠ row.id) ∧
  (∃ profile ∈ after.profiles, profile.userId = result.user.id ∧ profile.deletedAt = none) ∧
  match truthy dto.inviteToken with
  | none => after.accounts.authTokens = before.accounts.authTokens
  | some token => ∃ record ∈ before.accounts.authTokens, record.tokenHash = pl.sha256 token ∧
      record.type = .invite ∧ after.accounts.authTokens =
        Rows.replaceRow AuthToken.id (usedOnce before.accounts.now record) before.accounts.authTokens

def Settled (pl : Platform) (dto : RegisterDto) (before : State) (r : Except Failure AuthResult)
    (after : State) : Prop :=
  match r with
  | .error _ => Undone pl dto before after
  | .ok result => Complete pl dto result before after

/-! ## Which failures do no harm -/

/-- The calls after the insert of the account whose failure is not made good: those that use the invite and
store the refresh token, and with an invite those that create the profile, too. -/
def criticalCalls (invite : Option AuthToken) : Nat :=
  if invite.isSome then creationCalls invite + 3 else creationCalls invite

/-- The registration is refused, or a call up to the insert of the account fails, or none of the calls
that follow it and are not made good. -/
def Harmless (pl : Platform) (dto : RegisterDto) (fault : Nat → Option Failure) (s : State) : Prop :=
  ¬ dto.payload.isFree pl s.accounts ∨ dto.payload.invite pl s.accounts = none ∨
    (∃ i, i ≤ 1 + dto.payload.checkCalls ∧ fault i ≠ none) ∨
    ∃ invite, dto.payload.invite pl s.accounts = some invite ∧ ∀ i, 1 + dto.payload.checkCalls < i →
      i < 1 + dto.payload.checkCalls + criticalCalls invite → fault i = none

/-! ## The calls of the services -/

/-- A program of the auth service runs as it does in the service. -/
theorem run_auth {α : Type} (p : Accounts.M α) (s : State) (n : Nat) :
    Prog.run (faulty (exec cache) Call.canFail fault) (auth p) (s, n) =
      ((Prog.run (authExec fault) p (s.accounts, n)).1,
        ({ s with accounts := (Prog.run (authExec fault) p (s.accounts, n)).2.1 },
          (Prog.run (authExec fault) p (s.accounts, n)).2.2)) := by
  induction p generalizing s n with
  | ret a => rfl
  | fail e => rfl
  | call c k ih =>
    have hstep : faulty (exec cache) Call.canFail fault (.auth c) (s, n) =
        ((authExec fault c (s.accounts, n)).1, ({ s with accounts := (authExec fault c (s.accounts, n)).2.1 },
          (authExec fault c (s.accounts, n)).2.2)) := by
      unfold authExec faulty
      simp only [Call.canFail]
      by_cases hc : repositoryCall c = true
      · cases hn : fault n <;> simp only [hc, if_true, exec]
      · simp only [hc, if_false, Bool.false_eq_true, exec]
    change Prog.run _ (auth (k (faulty (exec cache) Call.canFail fault (.auth c) (s, n)).1))
      (faulty (exec cache) Call.canFail fault (.auth c) (s, n)).2 = _
    rw [hstep, ih]
    rfl

variable (cache fault) in
theorem sendAuth_cases {α : Type} (pattern : Pattern) (p : Accounts.M α) (s : State) (n : Nat) :
    (∃ e, fault n = some e ∧
      Prog.run (faulty (exec cache) Call.canFail fault) (sendAuth pattern p) (s, n) = (.error e, (s, n + 1))) ∨
    (fault n = none ∧ Prog.run (faulty (exec cache) Call.canFail fault) (sendAuth pattern p) (s, n) =
      ((Prog.run (authExec fault) p (s.accounts, n + 1)).1,
        ({ s with accounts := (Prog.run (authExec fault) p (s.accounts, n + 1)).2.1 },
          (Prog.run (authExec fault) p (s.accounts, n + 1)).2.2))) := by
  cases hn : fault n with
  | some e => exact .inl ⟨e, rfl, Prog.run_bind_error _ (Prog.run_faulty_fails rfl hn s)⟩
  | none =>
    refine .inr ⟨rfl, ?_⟩
    unfold sendAuth
    rw [Prog.run_bind_ok _ (Prog.run_faulty_works rfl hn s)]
    exact run_auth p s (n + 1)

/-- The profile a registration creates. -/
def CreateProfilePayload.row (pl : Platform) (p : CreateProfilePayload) : UserProfile where
  userId := p.userId
  email := Js.trim (pl.toLowerCase p.email)
  firstName := Js.trim p.firstName
  lastName := Js.trim p.lastName
  deletedAt := none

variable (cache fault) in
theorem saveProfile_cases {row : UserProfile} (hnew : s.findProfile row.userId = none) (n : Nat) :
    (∃ e m, fault n ≠ none ∧
      Prog.run (faulty (exec cache) Call.canFail fault) (saveProfile row) (s, n) = (.error e, (s, m))) ∨
    (fault n = none ∧ Prog.run (faulty (exec cache) Call.canFail fault) (saveProfile row) (s, n) =
      (.ok row, ({ s with profiles := s.profiles ++ [row] }, n + 1))) := by
  have hattempt := Prog.run_attempt (faulty (exec cache) Call.canFail fault)
    (perform (.insertProfile row)) (s, n)
  unfold saveProfile
  cases hn : fault n with
  | none =>
    refine .inr ⟨rfl, ?_⟩
    have hinsert : Prog.run (faulty (exec cache) Call.canFail fault) (perform (.insertProfile row))
        (s, n) = _ := Prog.run_faulty_works rfl hn s
    rw [hinsert] at hattempt
    rw [Prog.run_bind_ok _ hattempt]
    simp only [exec, hnew, Option.isSome_none, Bool.false_eq_true, if_false]
    rfl
  | some e =>
    have hinsert : Prog.run (faulty (exec cache) Call.canFail fault) (perform (.insertProfile row))
        (s, n) = _ := Prog.run_faulty_fails rfl hn s
    rw [hinsert] at hattempt
    rw [Prog.run_bind_ok _ hattempt]
    cases e with
    | query q =>
      cases hn' : fault (n + 1) with
      | some e =>
        exact .inl ⟨e, n + 2, nofun, Prog.run_bind_error _ (Prog.run_faulty_fails rfl hn' s)⟩
      | none =>
        refine .inl ⟨.query q, n + 2, nofun, ?_⟩
        refine (Prog.run_bind_ok _ (Prog.run_faulty_works rfl hn' s)).trans ?_
        rw [hnew]
        rfl
    | _ => exact .inl ⟨_, n + 1, nofun, rfl⟩

variable (pl cache fault) in
theorem sendCreateProfile_cases {p : CreateProfilePayload} (hnew : s.findProfile p.userId = none) (n : Nat) :
    (∃ e m, (∃ i, n ≤ i ∧ i < n + 3 ∧ fault i ≠ none) ∧
      Prog.run (faulty (exec cache) Call.canFail fault) (sendCreateProfile pl p) (s, n) =
        (.error e, (s, m))) ∨
    ((∀ i, n ≤ i → i < n + 3 → fault i = none) ∧
      Prog.run (faulty (exec cache) Call.canFail fault) (sendCreateProfile pl p) (s, n) =
        (.ok (p.row pl), ({ s with profiles := s.profiles ++ [p.row pl] }, n + 3))) := by
  unfold sendCreateProfile createProfile
  cases hn : fault n with
  | some e =>
    exact .inl ⟨e, n + 1, ⟨n, le_rfl, by omega, by simp [hn]⟩,
      Prog.run_bind_error _ (Prog.run_faulty_fails rfl hn s)⟩
  | none =>
    rw [Prog.run_bind_ok _ (Prog.run_faulty_works rfl hn s)]
    cases hn' : fault (n + 1) with
    | some e =>
      exact .inl ⟨e, n + 2, ⟨n + 1, by omega, by omega, by simp [hn']⟩,
        Prog.run_bind_error _ (Prog.run_faulty_fails rfl hn' s)⟩
    | none =>
      have hlookup : Prog.run (faulty (exec cache) Call.canFail fault) (perform (.findProfile p.userId))
          (s, n + 1) = (.ok none, (s, n + 2)) :=
        (Prog.run_faulty_works rfl hn' s).trans (by simp only [exec, hnew])
      have hsave : Prog.run (faulty (exec cache) Call.canFail fault) (createProfile pl p) (s, n + 1) =
          Prog.run (faulty (exec cache) Call.canFail fault) (saveProfile (p.row pl)) (s, n + 2) :=
        Prog.run_bind_ok _ hlookup
      obtain ⟨e, m, hn'', hrun⟩ | ⟨hn'', hrun⟩ :=
        saveProfile_cases cache fault (show s.findProfile (p.row pl).userId = none from hnew) (n + 2)
      · exact .inl ⟨e, m, ⟨n + 2, by omega, by omega, hn''⟩, hsave.trans hrun⟩
      · refine .inr ⟨fun i hi hlt => ?_, hsave.trans hrun⟩
        have : i = n ∨ i = n + 1 ∨ i = n + 2 := by omega
        rcases this with rfl | rfl | rfl <;> assumption

/-! ## The parts of a registration -/

variable (pl cfg cache dto fault) in
/-- The request to the auth service. -/
def createdUnder (s : State) : Except Failure AuthResult × Faulty State :=
  Prog.run (faulty (exec cache) Call.canFail fault)
    (sendAuth .register (Accounts.register pl cfg dto.payload)) (s, 0)

/-- What the user service is asked for. -/
def RegisterDto.profile (dto : RegisterDto) (result : AuthResult) : CreateProfilePayload :=
  ⟨result.user.id, result.user.email, dto.firstName, dto.lastName⟩

variable (pl cache dto fault) in
def profiledUnder (result : AuthResult) (t : Faulty State) : Except Failure UserProfile × Faulty State :=
  Prog.run (faulty (exec cache) Call.canFail fault) (sendCreateProfile pl (dto.profile result)) t

variable (cache fault) in
def compensatedUnder (result : AuthResult) (t : Faulty State) : Except Failure Bool × Faulty State :=
  Prog.run (faulty (exec cache) Call.canFail fault)
    (sendAuth .deactivate (Accounts.deactivate result.user.id)) t

theorem registerUnder_stopped {e : Failure} {t : Faulty State}
    (h : createdUnder pl cfg cache dto fault s = (.error e, t)) :
    registerUnder cache pl cfg dto fault s = (.error e, t) := Prog.run_bind_error _ h

theorem registerUnder_profiled {result : AuthResult} {profile : UserProfile} {t t' : Faulty State}
    (h : createdUnder pl cfg cache dto fault s = (.ok result, t))
    (hprofile : profiledUnder pl cache dto fault result t = (.ok profile, t')) :
    registerUnder cache pl cfg dto fault s = (.ok result, ({ t'.1 with
      keys := Gateway.Auth.AuthSessionCache.set cache result.user t'.1.accounts.now t'.1.keys }, t'.2)) := by
  have hattempt := Prog.run_attempt (faulty (exec cache) Call.canFail fault)
    (sendCreateProfile pl (dto.profile result)) t
  rw [show Prog.run _ _ _ = _ from hprofile] at hattempt
  refine (Prog.run_bind_ok _ h).trans ?_
  refine (Prog.run_bind_ok _ hattempt).trans ?_
  exact Prog.run_bind_ok _ (Prog.run_faulty_safe rfl t'.1 t'.2)

theorem registerUnder_compensated {result : AuthResult} {e : Failure} {t t' : Faulty State}
    (h : createdUnder pl cfg cache dto fault s = (.ok result, t))
    (hprofile : profiledUnder pl cache dto fault result t = (.error e, t')) :
    registerUnder cache pl cfg dto fault s = (.error e, (compensatedUnder cache fault result t').2) := by
  have hattempt := Prog.run_attempt (faulty (exec cache) Call.canFail fault)
    (sendCreateProfile pl (dto.profile result)) t
  rw [show Prog.run _ _ _ = _ from hprofile] at hattempt
  refine (Prog.run_bind_ok _ h).trans ?_
  refine (Prog.run_bind_ok _ hattempt).trans ?_
  exact Prog.run_bind_ok _ (Prog.run_attempt _ _ t')

/-! ## What each part leaves behind -/

/-- The ids and the refresh token that the registration draws are new, and token ids are a key. -/
structure Fresh (pl : Platform) (cfg : Config) (s : State) : Prop where
  tokenIds : (s.accounts.authTokens.map AuthToken.id).Nodup
  user : ∀ row ∈ s.accounts.users, row.id ≠ idText (s.accounts.nextId + 1)
  profile : ∀ row ∈ s.profiles, row.userId ≠ idText (s.accounts.nextId + 1)
  refreshToken : ∀ user, s.accounts.hashTaken (pl.sha256 (newRefreshToken pl cfg user
    { s.accounts with nextId := s.accounts.nextId + 2 })) = false

/-- The compensation succeeds where it is issued. -/
def Compensates (pl : Platform) (cfg : Config) (cache : Gateway.Auth.Config) (dto : RegisterDto)
    (fault : Nat → Option Failure) (s : State) : Prop :=
  ∀ result t e t', createdUnder pl cfg cache dto fault s = (.ok result, t) →
    profiledUnder pl cache dto fault result t = (.error e, t') →
    ∃ done, (compensatedUnder cache fault result t').1 = .ok done

@[simp] theorem usedOnce_id (now : Time) (row : AuthToken) : (usedOnce now row).id = row.id := by
  unfold usedOnce
  dsimp only
  split <;> rfl

@[simp] theorem usedOnce_tokenHash (now : Time) (row : AuthToken) :
    (usedOnce now row).tokenHash = row.tokenHash := by
  unfold usedOnce
  dsimp only
  split <;> rfl

@[simp] theorem usedOnce_usedCount (now : Time) (row : AuthToken) :
    (usedOnce now row).usedCount = row.usedCount + 1 := by
  unfold usedOnce
  dsimp only
  split <;> rfl

/-- A use shows in the counts of the token. -/
theorem uses_countUse {db : Accounts.Db} {record : AuthToken} {token : Text}
    (hids : (db.authTokens.map AuthToken.id).Nodup) (hrecord : record ∈ db.authTokens)
    (htoken : truthy dto.inviteToken = some token) (hhash : record.tokenHash = pl.sha256 token) :
    dto.uses pl (db.countUse record) ≠ dto.uses pl db := by
  intro heq
  unfold RegisterDto.uses Db.countUse Rows.replaceRow at heq
  have hsame : ∀ row ∈ db.authTokens,
      (if row.id = (usedOnce db.now record).id then usedOnce db.now record else row).tokenHash =
        row.tokenHash := by
    intro row hrow
    split
    · next hid =>
      rw [usedOnce_id] at hid
      rw [Rows.eq_of_id_eq hids hrow hrecord hid, usedOnce_tokenHash]
    · rfl
  rw [List.filter_map, List.map_map] at heq
  rw [List.filter_congr (q := fun row => ∃ token ∈ truthy dto.inviteToken, row.tokenHash = pl.sha256 token)
    fun row hrow => by simp only [Function.comp_apply, hsame row hrow]] at heq
  have hat := List.map_inj_left.mp heq record (List.mem_filter.mpr ⟨hrecord, by simp [htoken, hhash]⟩)
  simp at hat

variable (cache dto fault) in
/-- The account service refuses or fails before it has written anything, fails after it has inserted the
account, or creates the account. -/
theorem createdUnder_cases (h : Fresh pl cfg s) :
    (∃ e t, (¬ dto.payload.isFree pl s.accounts ∨ dto.payload.invite pl s.accounts = none ∨
        ∃ i, i ≤ 1 + dto.payload.checkCalls ∧ fault i ≠ none) ∧
      createdUnder pl cfg cache dto fault s = (.error e, t) ∧ t.1.accounts.users = s.accounts.users ∧
      t.1.accounts.authTokens = s.accounts.authTokens) ∨
    (∃ invite, dto.payload.isFree pl s.accounts ∧ dto.payload.invite pl s.accounts = some invite ∧
      (∀ i, i ≤ 1 + dto.payload.checkCalls → fault i = none) ∧
      ((∃ e t, (∃ i, 1 + dto.payload.checkCalls < i ∧
            i < 1 + dto.payload.checkCalls + creationCalls invite ∧ fault i ≠ none) ∧
          createdUnder pl cfg cache dto fault s = (.error e, t) ∧
          t.1.accounts.users = s.accounts.users ++ [dto.payload.account pl invite s.accounts]) ∨
        (∃ tokens t, (∀ i, 1 + dto.payload.checkCalls < i →
            i < 1 + dto.payload.checkCalls + creationCalls invite → fault i = none) ∧
          createdUnder pl cfg cache dto fault s =
            (.ok ⟨toView (dto.payload.account pl invite s.accounts).toAuthUser, tokens⟩,
              (t, 1 + dto.payload.checkCalls + creationCalls invite)) ∧
          t.accounts.users = s.accounts.users ++ [dto.payload.account pl invite s.accounts] ∧
          t.accounts.authTokens = (s.accounts.countUseOf invite).authTokens ∧
          t.profiles = s.profiles))) := by
  unfold createdUnder
  obtain ⟨e, hn, hrun⟩ | ⟨hn, hrun⟩ := sendAuth_cases cache fault .register
    (Accounts.register pl cfg dto.payload) s 0
  · exact .inl ⟨e, _, .inr (.inr ⟨0, by omega, by simp [hn]⟩), hrun, rfl, rfl⟩
  rw [hrun]
  obtain ⟨e, db', m, hstop, hauth, husers, htokens⟩ | ⟨invite, hfree, hinvite, hearly, hlate⟩ :=
    register_cases fault 1 h.tokenIds fun _ _ => h.refreshToken _
  · rw [show (0 : Nat) + 1 = 1 from rfl, hauth]
    refine .inl ⟨e, _, hstop.imp_right (Or.imp_right ?_), rfl, husers, htokens⟩
    rintro ⟨i, _, hle, hfault⟩
    exact ⟨i, hle, hfault⟩
  have hearly : ∀ i, i ≤ 1 + dto.payload.checkCalls → fault i = none := fun i hi => by
    rcases Nat.eq_zero_or_pos i with rfl | hpos
    · exact hn
    · exact hearly i hpos hi
  refine .inr ⟨invite, hfree, hinvite, hearly, ?_⟩
  rw [show (0 : Nat) + 1 = 1 from rfl]
  obtain ⟨e, db', m, hfault, hauth, husers⟩ | ⟨tokens, db', hnone, hauth, husers, htokens⟩ := hlate
  · exact .inl ⟨e, _, hfault, by rw [hauth], husers⟩
  · exact .inr ⟨tokens, { s with accounts := db' }, hnone, by rw [hauth], husers, htokens, rfl⟩

/-- The account is there as soon as it is inserted. -/
theorem not_undone {invite : Option AuthToken} {t : State} (h : Fresh pl cfg s)
    (husers : t.accounts.users = s.accounts.users ++ [dto.payload.account pl invite s.accounts]) :
    ¬ Undone pl dto s t := by
  rintro ⟨hactive, -⟩
  obtain ⟨old, hold, hid⟩ := hactive (dto.payload.account pl invite s.accounts)
    (by rw [husers]; exact List.mem_append_right _ (List.mem_singleton_self _)) rfl rfl rfl
  exact h.user old hold hid

theorem invite_cases {invite : Option AuthToken} (h : dto.payload.invite pl s.accounts = some invite) :
    (invite = none ∧ truthy dto.inviteToken = none) ∨
    ∃ token record, invite = some record ∧ truthy dto.inviteToken = some token ∧
      record ∈ s.accounts.authTokens ∧ record.tokenHash = pl.sha256 token ∧ record.type = .invite := by
  unfold RegisterPayload.invite RegisterDto.payload at h
  dsimp only at h
  cases htoken : truthy dto.inviteToken with
  | none =>
    rw [htoken] at h
    exact .inl ⟨(Option.some.inj h).symm, rfl⟩
  | some token =>
    rw [htoken] at h
    obtain ⟨record, hrecord, rfl⟩ := Option.map_eq_some_iff.mp h
    obtain ⟨hvalid, _⟩ := Option.filter_eq_some_iff.mp hrecord
    obtain ⟨hfound, _⟩ := Option.filter_eq_some_iff.mp hvalid
    have hmatch := List.find?_some hfound
    simp only [decide_eq_true_eq] at hmatch
    exact .inr ⟨token, record, rfl, rfl, inviteFor_mem hrecord, hmatch.1, hmatch.2⟩

/-- With account and profile the registration is complete. -/
theorem complete_of_created {invite : Option AuthToken} {tokens : TokenPair} {t : State}
    {profile : UserProfile} (h : Fresh pl cfg s) (hinvite : dto.payload.invite pl s.accounts = some invite)
    (husers : t.accounts.users = s.accounts.users ++ [dto.payload.account pl invite s.accounts])
    (htokens : t.accounts.authTokens = (s.accounts.countUseOf invite).authTokens)
    (hprofile : profile ∈ t.profiles) (hlive : profile.deletedAt = none)
    (hid : profile.userId = (dto.payload.account pl invite s.accounts).id) :
    Complete pl dto ⟨toView (dto.payload.account pl invite s.accounts).toAuthUser, tokens⟩ s t := by
  refine ⟨⟨dto.payload.account pl invite s.accounts, ?_, rfl, rfl, rfl, rfl, fun old hold => ?_⟩,
    ⟨profile, hprofile, hid, hlive⟩, ?_⟩
  · rw [husers]
    exact List.mem_append_right _ (List.mem_singleton_self _)
  · exact h.user old hold
  · obtain ⟨rfl, htoken⟩ | ⟨token, record, rfl, htoken, hrecord, hhash, htype⟩ := invite_cases hinvite
    · rw [htoken]
      exact htokens
    · rw [htoken]
      exact ⟨record, hrecord, hhash, htype, htokens⟩

/-- After the compensation the registration is undone, as long as it used no invite. -/
theorem undone_compensated {invite : Option AuthToken} {t t' : State} (h : Fresh pl cfg s)
    (hinvite : dto.payload.invite pl s.accounts = some invite)
    (husers : t.accounts.users = s.accounts.users ++ [dto.payload.account pl invite s.accounts])
    (htokens : t.accounts.authTokens = (s.accounts.countUseOf invite).authTokens)
    (hgone : ∀ row ∈ t'.accounts.users, row.deletedAt = none →
      row ∈ t.accounts.users ∧ row.id ≠ (dto.payload.account pl invite s.accounts).id)
    (hkept : t'.accounts.authTokens = t.accounts.authTokens) :
    Undone pl dto s t' ↔ invite = none := by
  have hold : ∀ row ∈ t'.accounts.users, row.deletedAt = none → row ∈ s.accounts.users := by
    intro row hrow hlive
    obtain ⟨hmem, hne⟩ := hgone row hrow hlive
    rw [husers] at hmem
    rcases List.mem_append.mp hmem with hmem | hmem
    · exact hmem
    · exact absurd (congrArg (·.id) (List.mem_singleton.mp hmem)) hne
  have huses : dto.uses pl t'.accounts = dto.uses pl (s.accounts.countUseOf invite) := by
    unfold RegisterDto.uses
    rw [hkept, htokens]
  obtain ⟨rfl, -⟩ | ⟨token, record, rfl, htoken, hrecord, hhash, -⟩ := invite_cases hinvite
  · exact ⟨fun _ => rfl, fun _ => ⟨fun row hrow _ _ hlive => ⟨row, hold row hrow hlive, rfl⟩, huses⟩⟩
  · refine ⟨fun hundone => ?_, nofun⟩
    exact absurd (huses.symm.trans hundone.2) (uses_countUse h.tokenIds hrecord htoken hhash)

/-! ## The registration -/

variable (pl cfg cache dto fault) in
/-- Which failures leave a registration undone or complete. -/
theorem settled_iff (s : State) (h : Fresh pl cfg s) (hcompensates : Compensates pl cfg cache dto fault s) :
    Settled pl dto s (registerUnder cache pl cfg dto fault s).1 (registerUnder cache pl cfg dto fault s).2.1 ↔
      Harmless pl dto fault s := by
  obtain ⟨e, t, hstop, hcreated, husers, htokens⟩ | ⟨invite, hfree, hinvite, hearly, hlate⟩ :=
    createdUnder_cases cache dto fault h
  · rw [registerUnder_stopped hcreated]
    refine iff_of_true ⟨fun row hrow _ _ _ => ⟨row, husers ▸ hrow, rfl⟩, ?_⟩ ?_
    · unfold RegisterDto.uses
      rw [htokens]
    · exact hstop.imp_right (Or.imp_right .inl)
  have hharmless : Harmless pl dto fault s ↔ ∀ i, 1 + dto.payload.checkCalls < i →
      i < 1 + dto.payload.checkCalls + criticalCalls invite → fault i = none := by
    refine ⟨?_, fun hnone => .inr (.inr (.inr ⟨invite, hinvite, hnone⟩))⟩
    rintro (hnot | hnot | ⟨i, hi, hfault⟩ | ⟨invite', hinvite', hnone⟩)
    · exact absurd hfree hnot
    · rw [hinvite] at hnot
      cases hnot
    · exact absurd (hearly i hi) hfault
    · rw [hinvite] at hinvite'
      cases hinvite'
      exact hnone
  have hcritical : creationCalls invite ≤ criticalCalls invite := by
    unfold criticalCalls
    split <;> omega
  rw [hharmless]
  obtain ⟨e, t, ⟨i, hi, hlt, hfault⟩, hcreated, husers⟩ |
      ⟨tokens, t, hnone, hcreated, husers, htokens, hprofiles⟩ := hlate
  · rw [registerUnder_stopped hcreated]
    refine iff_of_false (not_undone h husers) fun hnone => hfault ?_
    exact hnone i hi (by omega)
  let result : AuthResult := ⟨toView (dto.payload.account pl invite s.accounts).toAuthUser, tokens⟩
  have hnew : t.findProfile result.user.id = none := by
    unfold State.findProfile
    rw [hprofiles]
    refine List.find?_eq_none.mpr fun row hrow hmatch => ?_
    exact h.profile row hrow (of_decide_eq_true hmatch).1
  obtain ⟨e, m, ⟨i, hi, hlt, hfault⟩, hprofile⟩ | ⟨hnone', hprofile⟩ :=
    sendCreateProfile_cases pl cache fault (p := dto.profile result) hnew
      (1 + dto.payload.checkCalls + creationCalls invite)
  · have hprofile : profiledUnder pl cache dto fault result
      (t, 1 + dto.payload.checkCalls + creationCalls invite) = (.error e, (t, m)) := hprofile
    obtain ⟨done, hdone⟩ := hcompensates result _ e _ hcreated hprofile
    rw [registerUnder_compensated hcreated hprofile]
    obtain ⟨e', -, hrun⟩ | ⟨-, hrun⟩ := sendAuth_cases cache fault .deactivate
      (Accounts.deactivate result.user.id) t m
    · rw [show (compensatedUnder cache fault result (t, m)).1 = _ from congrArg Prod.fst hrun] at hdone
      cases hdone
    have hok := (congrArg Prod.fst hrun).symm.trans hdone
    obtain ⟨hgone, hkept⟩ := deactivate_ok (Prod.ext hok rfl)
    have hstate : (compensatedUnder cache fault result (t, m)).2.1 = _ := congrArg (fun x => x.2.1) hrun
    have hundone : Undone pl dto s (compensatedUnder cache fault result (t, m)).2.1 ↔ invite = none := by
      rw [hstate]
      exact undone_compensated h hinvite husers htokens hgone hkept
    refine hundone.trans ?_
    cases invite with
    | none => exact iff_of_true rfl fun i hi hlt => hnone i hi hlt
    | some record =>
      refine iff_of_false nofun fun hnone => hfault (hnone i ?_ ?_)
      · have := creationCalls_pos (some record)
        omega
      · have : criticalCalls (some record) = creationCalls (some record) + 3 := rfl
        omega
  · have hprofile : profiledUnder pl cache dto fault result
      (t, 1 + dto.payload.checkCalls + creationCalls invite) = (.ok ((dto.profile result).row pl), _) :=
      hprofile
    rw [registerUnder_profiled hcreated hprofile]
    have hmem : (dto.profile result).row pl ∈ t.profiles ++ [(dto.profile result).row pl] :=
      List.mem_append_right _ (List.mem_singleton_self _)
    refine iff_of_true (complete_of_created h hinvite husers htokens hmem rfl rfl) fun i hi hlt => ?_
    rcases Nat.lt_or_ge i (1 + dto.payload.checkCalls + creationCalls invite) with hbefore | hafter
    · exact hnone i hi hbefore
    · refine hnone' i hafter ?_
      unfold criticalCalls at hlt
      split at hlt <;> omega

/-- A newcomer without an invite. -/
def newcomer : RegisterDto := ⟨"a@b.c".toList, "pw".toList, "A".toList, "B".toList, none⟩

def noAccounts : State := ⟨.empty .log 0, [], .empty⟩

theorem noAccounts_fresh : Fresh .toy .toy noAccounts := ⟨List.nodup_nil, nofun, nofun, fun _ => rfl⟩

/-- One call fails. -/
def failsAt (n : Nat) : Nat → Option Failure := fun i => if i = n then some .transport else none

/-- The refresh token cannot be stored: the account stays. -/
theorem settled_fails :
    Fresh .toy .toy noAccounts ∧ Compensates .toy .toy ⟨300, 900, by decide⟩ newcomer (failsAt 3) noAccounts ∧
    ¬ Settled .toy newcomer noAccounts
      (registerUnder ⟨300, 900, by decide⟩ .toy .toy newcomer (failsAt 3) noAccounts).1
      (registerUnder ⟨300, 900, by decide⟩ .toy .toy newcomer (failsAt 3) noAccounts).2.1 := by
  refine ⟨noAccounts_fresh, fun result t e t' h => ?_, fun h => ?_⟩
  · cases h
  · have husers : (registerUnder ⟨300, 900, by decide⟩ .toy .toy newcomer (failsAt 3)
        noAccounts).2.1.accounts.users = noAccounts.accounts.users ++
          [newcomer.payload.account .toy none noAccounts.accounts] := rfl
    exact not_undone noAccounts_fresh husers h

/-- The user service is down: the compensation is issued and the registration undone. -/
theorem settled_iff_down :
    Settled .toy newcomer noAccounts
      (registerUnder ⟨300, 900, by decide⟩ .toy .toy newcomer (failsAt 4) noAccounts).1
      (registerUnder ⟨300, 900, by decide⟩ .toy .toy newcomer (failsAt 4) noAccounts).2.1 ↔
      Harmless .toy newcomer (failsAt 4) noAccounts :=
  settled_iff .toy .toy ⟨300, 900, by decide⟩ newcomer (failsAt 4) noAccounts noAccounts_fresh
    (by
      intro result t e t' hcreated hprofile
      cases hcreated
      cases hprofile
      exact ⟨true, rfl⟩)

end Relay.Gateway.AuthController
