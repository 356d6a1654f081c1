import Relay.Lib.Faults
import Relay.Accounts.System

/-!
# A registration whose repository calls fail

`register` writes the account, the use of the invite and the refresh token one after the other, outside a
transaction. `register_cases` says what is left behind when one of its calls fails: nothing as long as the
account is not inserted, and the account from then on.
-/

namespace Relay.Accounts

open Relay.Lib Relay.Auth

/-- The calls of the auth service, some of which fail. -/
abbrev authExec (fault : Nat → Option Failure) := faulty exec repositoryCall fault

/-- What `consumeInvite` makes of the row of an invite. -/
def usedOnce (now : Time) (row : AuthToken) : AuthToken :=
  let row := { row with usedCount := row.usedCount + 1 }
  if row.maxUses ≤ row.usedCount then { row with revokedAt := some (jsDate now) } else row

def Db.countUse (db : Db) (record : AuthToken) : Db :=
  { db with authTokens := Rows.replaceRow AuthToken.id (usedOnce db.now record) db.authTokens }

section Faults

variable {fault : Nat → Option Failure} {db : Db} {n : Nat}

/-! ## The use of the invite -/

variable (fault) in
theorem run_countUse (record : AuthToken) (db : Db) (n : Nat) :
    Prog.run (authExec fault) (countUse record) (db, n) =
      match fault n with
      | some e => (.error e, (db, n + 1))
      | none => (.ok (usedOnce db.now record), (db.countUse record, n + 1)) := by
  have hsave : ∀ row, Prog.run (authExec fault) (do
      perform (.saveAuthToken row)
      return row : M AuthToken) (db, n) =
      match fault n with
      | some e => (.error e, (db, n + 1))
      | none => (.ok row, ({ db with
          authTokens := Rows.replaceRow AuthToken.id row db.authTokens }, n + 1)) := by
    intro row
    cases hn : fault n with
    | some e => rw [Prog.run_bind_error _ (Prog.run_faulty_fails rfl hn db)]
    | none =>
      rw [Prog.run_bind_ok _ (Prog.run_faulty_works rfl hn db)]
      rfl
  unfold countUse
  simp only [usedOnce, Db.countUse]
  split
  · rw [Prog.run_bind_ok _ (Prog.run_faulty_safe rfl db n)]
    exact hsave _
  · exact hsave _

variable (fault n) in
theorem consumeInvite_cases {record : AuthToken}
    (hfound : (db.authTokens.find? fun row => row.id = record.id) = some record) :
    (∃ e m, (fault n ≠ none ∨ fault (n + 1) ≠ none) ∧
      Prog.run (authExec fault) (consumeInvite record.id) (db, n) = (.error e, (db, m))) ∨
    (fault n = none ∧ fault (n + 1) = none ∧
      Prog.run (authExec fault) (consumeInvite record.id) (db, n) =
        (.ok (), (db.countUse record, n + 2))) := by
  have hcall : ∀ e, fault n = some e →
      Prog.run (authExec fault) (consumeInvite record.id) (db, n) = (.error e, (db, n + 1)) := by
    intro e hn
    unfold consumeInvite
    rw [Prog.run_bind_error _ (Prog.run_faulty_fails rfl hn db)]
  cases hn : fault n with
  | some e => exact .inl ⟨e, n + 1, .inl nofun, hcall e hn⟩
  | none =>
    have hcount := run_countUse fault record db (n + 1)
    have hload : Prog.run (authExec fault) (consumeInvite record.id) (db, n) =
        Prog.run (authExec fault) (do
          let _ ← countUse record
          return () : M Unit) (db, n + 1) := by
      unfold consumeInvite
      rw [Prog.run_bind_ok _ (Prog.run_faulty_works rfl hn db)]
      simp only [exec, hfound]
    rw [hload]
    cases hn' : fault (n + 1) with
    | some e =>
      rw [hn'] at hcount
      exact .inl ⟨e, n + 2, .inr nofun, Prog.run_bind_error _ hcount⟩
    | none =>
      rw [hn'] at hcount
      exact .inr ⟨rfl, rfl, Prog.run_bind_ok _ hcount⟩

/-! ## The tokens -/

variable {pl : Platform} {cfg : Config}

/-- The refresh token a new session of the user gets. -/
def newRefreshToken (pl : Platform) (cfg : Config) (user : AuthUser) (db : Db) : Text :=
  pl.signRefresh user cfg.refreshExpiresIn db.nextId (jsDate db.now)

variable (fault n) in
theorem issueTokens_cases {user : AuthUser}
    (hfree : db.hashTaken (pl.sha256 (newRefreshToken pl cfg user db)) = false) :
    (∃ e db' m, fault n ≠ none ∧ Prog.run (authExec fault) (issueTokens pl cfg user none none fun d =>
        perform (.insertRefreshToken d)) (db, n) = (.error e, (db', m)) ∧ db'.users = db.users) ∨
    (∃ tokens db', fault n = none ∧ Prog.run (authExec fault) (issueTokens pl cfg user none none fun d =>
        perform (.insertRefreshToken d)) (db, n) = (.ok tokens, (db', n + 1)) ∧ db'.users = db.users ∧
        db'.authTokens = db.authTokens) := by
  let d : RefreshTokenDraft :=
    { userId := user.id
      tokenHash := pl.sha256 (newRefreshToken pl cfg user db)
      expiresAt := jsDate db.now + ms (parseDurationMs cfg.refreshExpiresIn)
      userAgent := none
      ip := none }
  let tokens : TokenPair :=
    { accessToken := pl.signAccess user cfg.accessExpiresIn (jsDate db.now)
      refreshToken := newRefreshToken pl cfg user db
      expiresIn := cfg.accessExpiresIn }
  have hrun : Prog.run (authExec fault) (issueTokens pl cfg user none none fun d =>
      perform (.insertRefreshToken d)) (db, n) =
      Prog.run (authExec fault) (do
        perform (.insertRefreshToken d)
        return tokens : M TokenPair) ({ db with nextId := db.nextId + 1 }, n) := by
    unfold issueTokens
    rw [Prog.run_bind_ok _ (Prog.run_faulty_safe rfl db n)]
    rw [Prog.run_bind_ok _ (Prog.run_faulty_safe rfl _ n)]
    rw [Prog.run_bind_ok _ (Prog.run_faulty_safe rfl _ n)]
    rw [Prog.run_bind_ok _ (Prog.run_faulty_safe rfl _ n)]
    rfl
  have hinsert : exec (.insertRefreshToken d) { db with nextId := db.nextId + 1 } =
      (.ok (), { db with
        refreshTokens := db.refreshTokens ++ [d.toRow (db.nextId + 1) db.now]
        nextId := db.nextId + 2 }) := by
    have hfree' : ({ db with nextId := db.nextId + 1 } : Db).hashTaken d.tokenHash = false := hfree
    simp only [exec, hfree', Bool.false_eq_true, if_false]
  rw [hrun]
  cases hn : fault n with
  | some e => exact .inl ⟨e, _, _, nofun, Prog.run_bind_error _ (Prog.run_faulty_fails rfl hn _), rfl⟩
  | none =>
    have hworks : Prog.run (authExec fault) (perform (.insertRefreshToken d))
        ({ db with nextId := db.nextId + 1 }, n) = _ := Prog.run_faulty_works rfl hn _
    rw [hinsert] at hworks
    exact .inr ⟨tokens, _, rfl, Prog.run_bind_ok _ hworks, rfl, rfl⟩

/-! ## The account -/

/-- How many repository calls `createAccount` makes. -/
def creationCalls (invite : Option AuthToken) : Nat := if invite.isSome then 4 else 2

theorem creationCalls_pos (invite : Option AuthToken) : 0 < creationCalls invite := by
  cases invite <;> simp [creationCalls]

/-- The use of an invite, if there is one. -/
def Db.countUseOf (db : Db) : Option AuthToken → Db
  | none => db
  | some record => db.countUse record

variable (fault n) in
/-- What `createAccount` does once the account is inserted. -/
theorem complete_cases {user : AuthUser} {invite : Option AuthToken}
    (hinvite : ∀ record, invite = some record →
      (db.authTokens.find? fun row => row.id = record.id) = some record)
    (hfree : db.hashTaken (pl.sha256 (newRefreshToken pl cfg user db)) = false) :
    let rest : M AuthResult := do
      match invite.map AuthToken.id with
      | none => pure ()
      | some id => consumeInvite id
      let tokens ← issueTokens pl cfg user none none fun d => perform (.insertRefreshToken d)
      return { user := toView user, tokens }
    (∃ e db' m, (∃ i, n ≤ i ∧ i + 1 < n + creationCalls invite ∧ fault i ≠ none) ∧
      Prog.run (authExec fault) rest (db, n) = (.error e, (db', m)) ∧ db'.users = db.users) ∨
    (∃ tokens db', (∀ i, n ≤ i → i + 1 < n + creationCalls invite → fault i = none) ∧
      Prog.run (authExec fault) rest (db, n) =
        (.ok ⟨toView user, tokens⟩, (db', n + creationCalls invite - 1)) ∧
      db'.users = db.users ∧ db'.authTokens = (db.countUseOf invite).authTokens) := by
  intro rest
  cases invite with
  | none =>
    obtain ⟨e, db', m, hn, hrun, husers⟩ | ⟨tokens, db', hn, hrun, husers, htokens⟩ :=
      issueTokens_cases fault n hfree
    · exact .inl ⟨e, db', m, ⟨n, le_rfl, by simp [creationCalls], hn⟩, Prog.run_bind_error _ hrun, husers⟩
    · refine .inr ⟨tokens, db', fun i hi hlt => ?_, Prog.run_bind_ok _ hrun, husers, htokens⟩
      have : i = n := by simp [creationCalls] at hlt; omega
      rw [this, hn]
  | some record =>
    have hcalls : creationCalls (some record) = 4 := rfl
    obtain ⟨e, m, hn, hrun⟩ | ⟨hn, hn', hrun⟩ := consumeInvite_cases fault n (hinvite record rfl)
    · refine .inl ⟨e, db, m, ?_, Prog.run_bind_error _ hrun, rfl⟩
      rcases hn with hn | hn
      · exact ⟨n, le_rfl, by omega, hn⟩
      · exact ⟨n + 1, by omega, by omega, hn⟩
    have hfree' : (db.countUse record).hashTaken
        (pl.sha256 (newRefreshToken pl cfg user (db.countUse record))) = false := hfree
    have hrest : Prog.run (authExec fault) rest (db, n) = Prog.run (authExec fault) (do
        let tokens ← issueTokens pl cfg user none none fun d => perform (.insertRefreshToken d)
        return { user := toView user, tokens } : M AuthResult) (db.countUse record, n + 2) :=
      Prog.run_bind_ok _ hrun
    rw [hrest]
    obtain ⟨e, db', m, hn'', hrun, husers⟩ | ⟨tokens, db', hn'', hrun, husers, htokens⟩ :=
      issueTokens_cases fault (n + 2) hfree'
    · exact .inl ⟨e, db', m, ⟨n + 2, by omega, by omega, hn''⟩, Prog.run_bind_error _ hrun, husers⟩
    · refine .inr ⟨tokens, db', fun i hi hlt => ?_, Prog.run_bind_ok _ hrun, husers, htokens⟩
      have : i = n ∨ i = n + 1 ∨ i = n + 2 := by omega
      rcases this with rfl | rfl | rfl <;> assumption

/-- The account `register` inserts. -/
def RegisterPayload.account (pl : Platform) (p : RegisterPayload) (invite : Option AuthToken) (db : Db) :
    UserRow :=
  UserDraft.toRow
    { email := Js.trim (pl.toLowerCase p.email)
      password := pl.hashPassword p.password db.nextId
      role := .user
      isActive := true
      isEmailVerified := invite.any fun i => truthy i.email = some (Js.trim (pl.toLowerCase p.email)) }
    (db.nextId + 1) db.now

/-- The row `findValidToken` finds. -/
def Db.validToken (db : Db) (pl : Platform) (raw : Text) (type : AuthTokenType) : Option AuthToken :=
  (db.authTokens.find? fun row => row.tokenHash = pl.sha256 raw ∧ row.type = type).filter fun row =>
    16 ≤ Js.length raw ∧ row.revokedAt = none ∧ jsDate db.now ≤ row.expiresAt ∧
      row.usedCount < row.maxUses

/-- The row of an invite that is valid for the address. -/
def Db.inviteFor (db : Db) (pl : Platform) (token email : Text) : Option AuthToken :=
  (db.validToken pl token .invite).filter fun row => ∀ e ∈ truthy row.email, e = email

variable (pl fault n) in
theorem findValidToken_cases (db : Db) (raw : Text) (type : AuthTokenType) :
    (∃ e, fault n = some e ∧
      Prog.run (authExec fault) (findValidToken pl raw type) (db, n) = (.error e, (db, n + 1))) ∨
    (∃ m, (∀ row, db.validToken pl raw type = some row → fault n = none ∧ m = n + 1) ∧
      Prog.run (authExec fault) (findValidToken pl raw type) (db, n) =
        (.ok (db.validToken pl raw type), (db, m))) := by
  unfold findValidToken Db.validToken
  by_cases hlength : Js.length raw < 16
  · rw [if_pos hlength]
    refine .inr ⟨n, fun row hrow => ?_, ?_⟩
    · have hfilter := (Option.filter_eq_some_iff.mp hrow).2
      simp only [decide_eq_true_eq] at hfilter
      omega
    · cases db.authTokens.find? fun row => row.tokenHash = pl.sha256 raw ∧ row.type = type with
      | none => rfl
      | some row => rw [Option.filter_some_neg (by simp; omega)]; rfl
  rw [if_neg hlength]
  cases hn : fault n with
  | some e => exact .inl ⟨e, rfl, Prog.run_bind_error _ (Prog.run_faulty_fails rfl hn db)⟩
  | none =>
    refine .inr ⟨n + 1, fun _ _ => ⟨rfl, rfl⟩, ?_⟩
    rw [Prog.run_bind_ok _ (Prog.run_faulty_works rfl hn db)]
    cases db.authTokens.find? fun row => row.tokenHash = pl.sha256 raw ∧ row.type = type with
    | none => rfl
    | some row =>
      by_cases hrevoked : row.revokedAt = none
      · simp only [hrevoked, Option.isSome_none, Bool.false_eq_true, if_false]
        have hdate : Prog.run (authExec fault) (perform .newDate) (db, n + 1) =
          (.ok (jsDate db.now), (db, n + 1)) := Prog.run_faulty_safe rfl db (n + 1)
        refine (Prog.run_bind_ok _ hdate).trans ?_
        by_cases hexpired : row.expiresAt < jsDate db.now
        · rw [if_pos hexpired, Option.filter_some,
            if_neg fun h => Nat.not_le.mpr hexpired (of_decide_eq_true h).2.2.1]
          rfl
        · rw [if_neg hexpired]
          by_cases hused : row.maxUses ≤ row.usedCount
          · rw [if_pos hused, Option.filter_some,
              if_neg fun h => Nat.not_le.mpr (of_decide_eq_true h).2.2.2 hused]
            rfl
          · rw [if_neg hused, Option.filter_some, if_pos (decide_eq_true ⟨Nat.not_lt.mp hlength, hrevoked,
              Nat.not_lt.mp hexpired, Nat.not_le.mp hused⟩)]
            rfl
      · have hsome : row.revokedAt.isSome = true := Option.isSome_iff_ne_none.mpr hrevoked
        simp only [hsome, if_true]
        rw [Option.filter_some, if_neg fun h => hrevoked (of_decide_eq_true h).2.1]
        rfl

variable (pl fault n) in
theorem assertInvite_cases (db : Db) (token email : Text) :
    (∃ e m, (db.inviteFor pl token email = none ∨ fault n ≠ none) ∧
      Prog.run (authExec fault) (assertInviteForRegister pl token email) (db, n) = (.error e, (db, m))) ∨
    (∃ record, db.inviteFor pl token email = some record ∧ fault n = none ∧
      Prog.run (authExec fault) (assertInviteForRegister pl token email) (db, n) =
        (.ok record, (db, n + 1))) := by
  unfold assertInviteForRegister Db.inviteFor
  obtain ⟨e, hn, hrun⟩ | ⟨m, hm, hrun⟩ := findValidToken_cases fault n pl db token .invite
  · exact .inl ⟨e, n + 1, .inr (by simp [hn]), Prog.run_bind_error _ hrun⟩
  rw [Prog.run_bind_ok _ hrun]
  cases hfound : db.validToken pl token .invite with
  | none => exact .inl ⟨_, m, .inl rfl, rfl⟩
  | some record =>
    obtain ⟨hn, rfl⟩ := hm record hfound
    by_cases hemail : ∃ e, truthy record.email = some e ∧ e ≠ email
    · refine .inl ⟨.rpc (RpcErrors.badRequest "This invite is for a different email address"), n + 1,
        .inl (Option.filter_some_neg (decide_eq_false ?_)), ?_⟩
      · obtain ⟨e, he, hne⟩ := hemail
        exact fun hall => hne (hall e he)
      · simp only [require, rejectIf, pure_bind, if_pos hemail]
        rfl
    · refine .inr ⟨record, Option.filter_some_pos (decide_eq_true ?_), hn, ?_⟩
      · intro e he
        by_contra hne
        exact hemail ⟨e, he, hne⟩
      · simp only [require, rejectIf, pure_bind, if_neg hemail]
        rfl

/-! ## The request -/

/-- The invite a registration uses: none is asked for, or a valid one is. -/
def RegisterPayload.invite (pl : Platform) (p : RegisterPayload) (db : Db) : Option (Option AuthToken) :=
  match truthy p.inviteToken with
  | none => some none
  | some token => (db.inviteFor pl token (Js.trim (pl.toLowerCase p.email))).map some

/-- The number of repository calls `register` makes before it inserts the account. -/
def RegisterPayload.checkCalls (p : RegisterPayload) : Nat :=
  match truthy p.inviteToken with
  | none => 1
  | some _ => 2

/-- The address is free. -/
def RegisterPayload.isFree (pl : Platform) (p : RegisterPayload) (db : Db) : Prop :=
  db.findUser (fun row => row.email = Js.trim (pl.toLowerCase p.email)) = none

theorem inviteFor_mem {token email : Text} {record : AuthToken}
    (h : db.inviteFor pl token email = some record) : record ∈ db.authTokens := by
  obtain ⟨hvalid, _⟩ := Option.filter_eq_some_iff.mp h
  obtain ⟨hfound, _⟩ := Option.filter_eq_some_iff.mp hvalid
  exact List.mem_of_find?_eq_some hfound

theorem find_id {rows : List AuthToken} (hnodup : (rows.map AuthToken.id).Nodup) {record : AuthToken}
    (h : record ∈ rows) : (rows.find? fun row => row.id = record.id) = some record := by
  induction rows with
  | nil => cases h
  | cons row rows ih =>
    obtain ⟨hnot, hnodup⟩ := List.nodup_cons.mp hnodup
    rcases List.mem_cons.mp h with rfl | h
    · rw [List.find?_cons_of_pos (by simp)]
    · have hne : row.id ≠ record.id := fun heq => hnot (heq ▸ List.mem_map_of_mem h)
      rw [List.find?_cons_of_neg (by simpa using hne)]
      exact ih hnodup h

/-- What `register` does once its checks have passed. -/
def registerChecked (pl : Platform) (cfg : Config) (p : RegisterPayload) (invite : Option AuthToken) :
    M AuthResult := do
  let salt ← perform .newId
  let result ← (createAccount pl cfg
    { email := Js.trim (pl.toLowerCase p.email)
      password := pl.hashPassword p.password salt
      role := .user
      isActive := true
      isEmailVerified := invite.any fun i => truthy i.email = some (Js.trim (pl.toLowerCase p.email)) }
    (invite.map AuthToken.id)).attempt
  match result with
  | .ok r => return r
  | .error (.query (.uniqueViolation _)) =>
    reject (RpcErrors.conflict "An account with this email already exists")
  | .error e => .fail e

theorem emailTaken_of_isFree {p : RegisterPayload} (invite : Option AuthToken) {db db' : Db}
    (h : p.isFree pl db) (hdb : db'.users = db.users) :
    db'.emailTaken (p.account pl invite db).toAuthUser = false := by
  refine Bool.eq_false_iff.mpr fun htaken => ?_
  obtain ⟨_, hany⟩ := (Bool.and_eq_true_iff).mp htaken
  obtain ⟨row, hrow, heq⟩ := List.any_eq_true.mp hany
  simp only [Bool.and_eq_true, bne_iff_ne, decide_eq_true_eq] at heq
  refine List.find?_eq_none.mp h row (hdb ▸ hrow) ?_
  simp only [Bool.and_eq_true, decide_eq_true_eq]
  exact ⟨heq.1.2, heq.2⟩

variable (fault n) in
theorem registerChecked_cases {p : RegisterPayload} (invite : Option AuthToken) (hfree : p.isFree pl db)
    (hinvite : ∀ record, invite = some record →
      (db.authTokens.find? fun row => row.id = record.id) = some record)
    (hfresh : db.hashTaken (pl.sha256 (newRefreshToken pl cfg
      (p.account pl invite db).toAuthUser { db with nextId := db.nextId + 2 })) = false) :
    (∃ e db' m, fault n ≠ none ∧
      Prog.run (authExec fault) (registerChecked pl cfg p invite) (db, n) = (.error e, (db', m)) ∧
      db'.users = db.users ∧ db'.authTokens = db.authTokens) ∨
    (∃ e db' m, fault n = none ∧ (∃ i, n < i ∧ i < n + creationCalls invite ∧ fault i ≠ none) ∧
      Prog.run (authExec fault) (registerChecked pl cfg p invite) (db, n) = (.error e, (db', m)) ∧
      db'.users = db.users ++ [p.account pl invite db]) ∨
    (∃ tokens db', (∀ i, n ≤ i → i < n + creationCalls invite → fault i = none) ∧
      Prog.run (authExec fault) (registerChecked pl cfg p invite) (db, n) =
        (.ok ⟨toView (p.account pl invite db).toAuthUser, tokens⟩, (db', n + creationCalls invite)) ∧
      db'.users = db.users ++ [p.account pl invite db] ∧
      db'.authTokens = (db.countUseOf invite).authTokens) := by
  let d : UserDraft :=
    { email := Js.trim (pl.toLowerCase p.email)
      password := pl.hashPassword p.password db.nextId
      role := .user
      isActive := true
      isEmailVerified := invite.any fun i => truthy i.email = some (Js.trim (pl.toLowerCase p.email)) }
  let db₁ : Db := { db with nextId := db.nextId + 1 }
  let db₂ : Db := { db with users := db.users ++ [p.account pl invite db], nextId := db.nextId + 2 }
  -- a failure of the creation is a failure of the request
  have hfails : ∀ e s, Prog.run (authExec fault) (createAccount pl cfg d (invite.map AuthToken.id))
      (db₁, n) = (.error e, s) → ∃ e', Prog.run (authExec fault) (registerChecked pl cfg p invite) (db, n) =
        (.error e', s) := by
    intro e s hrun
    have hresult := Prog.run_attempt (authExec fault)
      (createAccount pl cfg d (invite.map AuthToken.id)) (db₁, n)
    rw [hrun] at hresult
    have hrest : ∃ e', Prog.run (authExec fault) (match (.error e : Except Failure AuthResult) with
        | .ok r => return r
        | .error (.query (.uniqueViolation _)) =>
          reject (RpcErrors.conflict "An account with this email already exists")
        | .error e => .fail e) s = (.error e', s) := by
      cases e with
      | query q => exact ⟨_, rfl⟩
      | _ => exact ⟨_, rfl⟩
    obtain ⟨e', hrest⟩ := hrest
    refine ⟨e', ?_⟩
    unfold registerChecked
    rw [Prog.run_bind_ok _ (Prog.run_faulty_safe rfl db n)]
    exact (Prog.run_bind_ok _ hresult).trans hrest
  have hworks : ∀ r s, Prog.run (authExec fault) (createAccount pl cfg d (invite.map AuthToken.id))
      (db₁, n) = (.ok r, s) → Prog.run (authExec fault) (registerChecked pl cfg p invite) (db, n) =
        (.ok r, s) := by
    intro r s hrun
    have hresult := Prog.run_attempt (authExec fault)
      (createAccount pl cfg d (invite.map AuthToken.id)) (db₁, n)
    rw [hrun] at hresult
    unfold registerChecked
    rw [Prog.run_bind_ok _ (Prog.run_faulty_safe rfl db n)]
    exact Prog.run_bind_ok _ hresult
  cases hn : fault n with
  | some e =>
    obtain ⟨e', hrun⟩ := hfails e _ (Prog.run_bind_error _ (Prog.run_faulty_fails rfl hn db₁))
    exact .inl ⟨e', db₁, n + 1, nofun, hrun, rfl, rfl⟩
  | none =>
    have hinsert : Prog.run (authExec fault) (perform (.insertUser d)) (db₁, n) =
        (.ok (p.account pl invite db).toAuthUser, (db₂, n + 1)) := by
      rw [Prog.run_faulty_works rfl hn]
      have hnot : db₁.emailTaken (d.toRow db₁.nextId db₁.now).toAuthUser = false :=
        emailTaken_of_isFree invite hfree rfl
      simp only [exec, hnot, Bool.false_eq_true, if_false]
      rfl
    have hinvite : ∀ record, invite = some record →
        (db₂.authTokens.find? fun row => row.id = record.id) = some record := hinvite
    have hcount : (db₂.countUseOf invite).authTokens = (db.countUseOf invite).authTokens := by
      cases invite <;> rfl
    obtain ⟨e, db', m, hlate, hrun, husers⟩ | ⟨tokens, db', hlate, hrun, husers, htokens⟩ :=
      complete_cases fault (n + 1) hinvite hfresh
    · obtain ⟨e', hrun⟩ := hfails e _ ((Prog.run_bind_ok _ hinsert).trans hrun)
      obtain ⟨i, hi, hlt, hfault⟩ := hlate
      exact .inr (.inl ⟨e', db', m, rfl, ⟨i, by omega, by omega, hfault⟩, hrun, husers⟩)
    · refine .inr (.inr ⟨tokens, db', fun i hi hlt => ?_, ?_, husers, htokens.trans hcount⟩)
      · rcases Nat.eq_or_lt_of_le hi with rfl | hlt'
        · exact hn
        · exact hlate i hlt' (by omega)
      · rw [hworks _ _ ((Prog.run_bind_ok _ hinsert).trans hrun)]
        rw [show n + 1 + creationCalls invite - 1 = n + creationCalls invite by omega]

theorem run_findEmail (hn : fault n = none) (email : Text) :
    Prog.run (authExec fault) (perform (.findUserByEmail email)) (db, n) =
      (.ok ((db.findUser fun row => row.email = email).map UserRow.toAuthUser), (db, n + 1)) :=
  Prog.run_faulty_works rfl hn db

/-- With an email that is free, the invite is checked next. -/
theorem run_register_free {p : RegisterPayload} (hn : fault n = none) (hfree : p.isFree pl db) :
    Prog.run (authExec fault) (register pl cfg p) (db, n) =
      Prog.run (authExec fault) (do
        let invite ← match truthy p.inviteToken with
          | none => pure none
          | some token => some <$> assertInviteForRegister pl token (Js.trim (pl.toLowerCase p.email))
        registerChecked pl cfg p invite) (db, n + 1) := by
  unfold register
  rw [Prog.run_bind_ok _ (run_findEmail hn _)]
  unfold RegisterPayload.isFree at hfree
  simp only [hfree, Option.map_none, Option.isSome_none, rejectIf, Bool.false_eq_true, if_false, pure_bind]
  rfl

variable (fault n) in
/-- A registration is refused or stopped before it has written anything, stopped after it has inserted the
account, or goes through. -/
theorem register_cases {p : RegisterPayload} (hids : (db.authTokens.map AuthToken.id).Nodup)
    (hfresh : ∀ invite, p.invite pl db = some invite → db.hashTaken (pl.sha256 (newRefreshToken pl cfg
      (p.account pl invite db).toAuthUser { db with nextId := db.nextId + 2 })) = false) :
    (∃ e db' m, (¬ p.isFree pl db ∨ p.invite pl db = none ∨ ∃ i, n ≤ i ∧ i ≤ n + p.checkCalls ∧ fault i ≠ none) ∧
      Prog.run (authExec fault) (register pl cfg p) (db, n) = (.error e, (db', m)) ∧
      db'.users = db.users ∧ db'.authTokens = db.authTokens) ∨
    (∃ invite, p.isFree pl db ∧ p.invite pl db = some invite ∧
      (∀ i, n ≤ i → i ≤ n + p.checkCalls → fault i = none) ∧
      ((∃ e db' m, (∃ i, n + p.checkCalls < i ∧ i < n + p.checkCalls + creationCalls invite ∧ fault i ≠ none) ∧
        Prog.run (authExec fault) (register pl cfg p) (db, n) = (.error e, (db', m)) ∧
        db'.users = db.users ++ [p.account pl invite db]) ∨
      (∃ tokens db', (∀ i, n + p.checkCalls < i → i < n + p.checkCalls + creationCalls invite → fault i = none) ∧
        Prog.run (authExec fault) (register pl cfg p) (db, n) =
          (.ok ⟨toView (p.account pl invite db).toAuthUser, tokens⟩,
            (db', n + p.checkCalls + creationCalls invite)) ∧
        db'.users = db.users ++ [p.account pl invite db] ∧
        db'.authTokens = (db.countUseOf invite).authTokens))) := by
  have hfind : ∀ record, record ∈ db.authTokens →
      (db.authTokens.find? fun row => row.id = record.id) = some record := fun _ h => find_id hids h
  cases hn : fault n with
  | some e =>
    refine .inl ⟨e, db, n + 1, .inr (.inr ⟨n, le_rfl, by omega, by simp [hn]⟩), ?_, rfl, rfl⟩
    exact Prog.run_bind_error _ (Prog.run_faulty_fails rfl hn db)
  | none =>
    by_cases hfree : p.isFree pl db
    · rw [run_register_free hn hfree]
      cases htoken : truthy p.inviteToken with
      | none =>
        have hinvite : p.invite pl db = some none := by simp only [RegisterPayload.invite, htoken]
        have hcalls : p.checkCalls = 1 := by simp only [RegisterPayload.checkCalls, htoken]
        have hstep : Prog.run (authExec fault) (registerChecked pl cfg p none) (db, n + 1) =
            Prog.run (authExec fault) (do
              let invite ← pure none
              registerChecked pl cfg p invite) (db, n + 1) := rfl
        rw [hcalls]
        obtain ⟨e, db', m, hn', hrun, husers, htokens⟩ | ⟨e, db', m, hn', hlate, hrun, husers⟩ |
            ⟨tokens, db', hlate, hrun, husers, htokens⟩ :=
          registerChecked_cases fault (n + 1) none hfree (by simp) (hfresh none hinvite)
        · exact .inl ⟨e, db', m, .inr (.inr ⟨n + 1, by omega, le_rfl, hn'⟩), hrun, husers, htokens⟩
        · refine .inr ⟨none, hfree, hinvite, fun i hi hle => ?_, .inl ⟨e, db', m, hlate, hrun, husers⟩⟩
          rcases Nat.eq_or_lt_of_le hi with rfl | hlt
          · exact hn
          · rw [show i = n + 1 by omega, hn']
        · refine .inr ⟨none, hfree, hinvite, fun i hi hle => ?_, .inr ⟨tokens, db', fun i hi hlt =>
            hlate i (by omega) hlt, hrun, husers, htokens⟩⟩
          rcases Nat.eq_or_lt_of_le hi with rfl | hlt
          · exact hn
          · exact hlate i hlt (by have := creationCalls_pos none; omega)
      | some token =>
        have hcalls : p.checkCalls = 2 := by simp only [RegisterPayload.checkCalls, htoken]
        have hinvite : p.invite pl db =
            (db.inviteFor pl token (Js.trim (pl.toLowerCase p.email))).map some := by
          simp only [RegisterPayload.invite, htoken]
        have hcheck : ∀ r s, Prog.run (authExec fault)
            (assertInviteForRegister pl token (Js.trim (pl.toLowerCase p.email))) (db, n + 1) = (r, s) →
            Prog.run (authExec fault)
              (some <$> assertInviteForRegister pl token (Js.trim (pl.toLowerCase p.email))) (db, n + 1) =
                (r.map some, s) := fun r s hrun => by
          rw [map_eq_pure_bind]
          cases r with
          | ok row => exact Prog.run_bind_ok _ hrun
          | error e => exact Prog.run_bind_error _ hrun
        rw [hcalls]
        obtain ⟨e, m, hstop, hrun⟩ | ⟨record, hrecord, hn', hrun⟩ :=
          assertInvite_cases fault (n + 1) pl db token (Js.trim (pl.toLowerCase p.email))
        · refine .inl ⟨e, db, m, .inr ?_, Prog.run_bind_error _ (hcheck _ _ hrun), rfl, rfl⟩
          rcases hstop with hnone | hn'
          · exact .inl (by rw [hinvite, hnone]; rfl)
          · exact .inr ⟨n + 1, by omega, by omega, hn'⟩
        rw [hrecord] at hinvite
        rw [Prog.run_bind_ok _ (hcheck _ _ hrun)]
        obtain ⟨e, db', m, hn'', hrun, husers, htokens⟩ | ⟨e, db', m, hn'', hlate, hrun, husers⟩ |
            ⟨tokens, db', hlate, hrun, husers, htokens⟩ :=
          registerChecked_cases fault (n + 2) (some record) hfree
            (fun _ hrow => Option.some.inj hrow ▸ hfind record (inviteFor_mem hrecord))
            (hfresh (some record) hinvite)
        · exact .inl ⟨e, db', m, .inr (.inr ⟨n + 2, by omega, le_rfl, hn''⟩), hrun, husers, htokens⟩
        · refine .inr ⟨some record, hfree, hinvite, fun i hi hle => ?_,
            .inl ⟨e, db', m, hlate, hrun, husers⟩⟩
          have : i = n ∨ i = n + 1 ∨ i = n + 2 := by omega
          rcases this with rfl | rfl | rfl <;> assumption
        · refine .inr ⟨some record, hfree, hinvite, fun i hi hle => ?_, .inr ⟨tokens, db', fun i hi hlt =>
            hlate i (by omega) hlt, hrun, husers, htokens⟩⟩
          have : i = n ∨ i = n + 1 ∨ i = n + 2 := by omega
          rcases this with rfl | rfl | rfl
          · exact hn
          · exact hn'
          · exact hlate _ le_rfl (Nat.lt_add_of_pos_right (creationCalls_pos _))
    · refine .inl ⟨.rpc (RpcErrors.conflict "An account with this email already exists"), db, n + 1,
        .inl hfree, ?_, rfl, rfl⟩
      unfold register
      rw [Prog.run_bind_ok _ (run_findEmail hn _)]
      have hsome : ((db.findUser fun row => row.email = Js.trim (pl.toLowerCase p.email)).map
          UserRow.toAuthUser).isSome = true := by
        rw [Option.isSome_map]
        exact Option.isSome_iff_ne_none.mpr hfree
      simp only [rejectIf, hsome, if_true]
      rfl

/-! ## The compensation -/

theorem updateRevoked_keeps {userId : Text} {tokenHash : Option Text} {db' : Db} {m : Nat}
    (h : Prog.run (authExec fault) (updateRevoked userId tokenHash) (db, n) = (.ok (), (db', m))) :
    db'.users = db.users ∧ db'.authTokens = db.authTokens ∧ db'.now = db.now := by
  unfold updateRevoked at h
  obtain ⟨ids, ⟨db₁, n₁⟩, hmatching, h⟩ := Prog.run_bind_inv _ h
  cases Prog.run_faulty_ok hmatching
  cases Prog.run_faulty_ok h
  exact ⟨rfl, rfl, rfl⟩

theorem saved_id (row : UserRow) (user : AuthUser) (password : Option Text) (now : Time) :
    (row.saved user password now).id = user.id := by
  unfold UserRow.saved
  dsimp only
  split
  · next h => rw [← h]
  · rfl

/-- Where `deactivate` succeeds no account with the id is left, and nothing else has changed. -/
theorem deactivate_ok {userId : Text} {done : Bool} {db' : Db} {m : Nat}
    (h : Prog.run (authExec fault) (deactivate userId) (db, n) = (.ok done, (db', m))) :
    (∀ row ∈ db'.users, row.deletedAt = none → row ∈ db.users ∧ row.id ≠ userId) ∧
      db'.authTokens = db.authTokens := by
  unfold deactivate at h
  obtain ⟨found, ⟨db₁, n₁⟩, hfind, h⟩ := Prog.run_bind_inv _ h
  cases Prog.run_faulty_ok hfind
  cases hfound : db.findUser (fun row => row.id = userId) with
  | none =>
    rw [hfound] at h
    cases h
  | some row =>
    rw [hfound] at h
    have hmatch := List.find?_some hfound
    simp only [Bool.and_eq_true, decide_eq_true_eq] at hmatch
    have hid : row.id = userId := hmatch.1
    obtain ⟨user, _, hrequire, h⟩ := Prog.run_bind_inv _ h
    cases hrequire
    obtain ⟨_, ⟨db₂, n₂⟩, hsave, h⟩ := Prog.run_bind_inv _ h
    have hsave := Prog.run_faulty_ok hsave
    obtain ⟨_, ⟨db₃, n₃⟩, hrevoke, h⟩ := Prog.run_bind_inv _ h
    obtain ⟨hrevoked, hkept, hnow⟩ := updateRevoked_keeps hrevoke
    obtain ⟨_, ⟨db₄, n₄⟩, hremove, h⟩ := Prog.run_bind_inv _ h
    cases Prog.run_faulty_ok hremove
    cases h
    have hsaved : db₂ = db.saveUser { row.toAuthUser with isActive := false } none := by
      simp only [exec] at hsave
      split at hsave
      · cases hsave
      · exact (congrArg Prod.snd hsave).symm
    subst hsaved
    refine ⟨fun row' hrow' hlive => ?_, hkept⟩
    simp only [hrevoked, Db.saveUser, List.mem_map] at hrow'
    obtain ⟨_, ⟨old, hold, rfl⟩, rfl⟩ := hrow'
    by_cases hold' : old.id = row.id
    · have hsaved : (old.saved { row.toAuthUser with isActive := false } none db.now).id = row.id :=
        saved_id _ _ _ _
      rw [if_pos hold', if_pos hsaved] at hlive
      cases hlive
    · rw [if_neg hold', if_neg hold']
      exact ⟨hold, fun heq => hold' (heq.trans hid.symm)⟩

end Faults

end Relay.Accounts
