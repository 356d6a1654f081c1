import Relay.Accounts.Verify.Tokens
import Relay.Lib.Protocol

/-!
# Where credentials come from

A `History` is what there is to know of a run from outside: the databases it went through, the repository calls
made in them, and the requests. `History.Accounted` says of every row that a request of somebody who could show
the password, a token or the mail of the account has put it there. The calls with a warrant keep the accounts
(`History.Accounted.exec`), and every request makes such calls only (`Task.justified`), in whatever order the calls
of the requests come. So nobody gets a session of an account, or sets its password, without one of these
(`sessions_accounted`, `users_accounted`).

A call that would have to wait for a lock may be made at once in some of these runs; it does not matter here.
-/

namespace Relay.Accounts

open Relay.Lib Relay.Lib.Rows Relay.Auth Prog

/-- A request, or the start of an instance of the service. The mail that a registration sends in the background
is a request of its own. -/
inductive Task where
  | request (op : Op)
  | ensureAdmin (email password : Option Text)

def Task.program (pl : Platform) (cfg : Config) : Task → M Response
  | .request op => op.program pl cfg
  | .ensureAdmin email password => (fun _ => .done true) <$> Accounts.ensureAdmin pl email password

structure History where
  visited : Db → Prop
  made : Db → Call → Prop
  asked : Task → Prop
  visited_of_made : ∀ {db c}, made db c → visited db

/-- An address as it is stored. -/
def Platform.address (pl : Platform) (email : Text) : Text := Js.trim (pl.toLowerCase email)

namespace History

variable (pl : Platform) (cfg : Config) (h : History)

/-- It was so at some moment. -/
def Once (P : Db → Prop) : Prop := ∃ db, h.visited db ∧ P db

/-! ## Tokens sent by mail -/

/-- Why there is a token. -/
inductive TokenAccount (row : AuthToken) : Prop
  | verify {user : UserRow} (asked : h.asked (.request (.requestEmailVerification user.id)))
      (stored : h.Once fun db => user ∈ db.users) (type : row.type = .emailVerify)
      (owner : row.userId = some user.id) (email : row.email = some user.email)
  | reset {email : Text} {user : UserRow} (asked : h.asked (.request (.forgotPassword email)))
      (stored : h.Once fun db => user ∈ db.users) (address : user.email = pl.address email)
      (active : user.isActive = true) (type : row.type = .passwordReset) (owner : row.userId = some user.id)
      (email : row.email = some user.email)
  | invite {p : CreateInvitePayload} (asked : h.asked (.request (.createInvite p))) (type : row.type = .invite)
      (owner : row.userId = none) (creator : row.createdByUserId = some p.createdByUserId)
      (email : row.email = truthy (p.email.map pl.address))

/-- The token was valid when it was presented. -/
structure Offered (type : AuthTokenType) (raw : Text) (row : AuthToken) : Prop where
  issued : h.TokenAccount pl row
  stored : h.Once fun db => row ∈ db.authTokens
  type : row.type = type
  hash : row.tokenHash = pl.sha256 raw
  live : row.revokedAt = none
  unused : row.usedCount < row.maxUses
  timely : h.Once fun db => jsDate db.now ≤ row.expiresAt

/-! ## Users -/

/-- Why an account was created. -/
inductive Founded : UserDraft → Prop
  | registered {p : RegisterPayload} {salt : Nat} {verified : Bool} (asked : h.asked (.request (.register p)))
      (invited : verified = true → ∃ token row, truthy p.inviteToken = some token ∧ h.Offered pl .invite token row ∧
        row.email = some (pl.address p.email)) :
      Founded ⟨pl.address p.email, pl.hashPassword p.password salt, .user, true, verified⟩
  | booted {email password : Text} {salt : Nat} (asked : h.asked (.ensureAdmin (some email) (some password))) :
      Founded ⟨pl.address email, pl.hashPassword password salt, .admin, true, true⟩

/-- The account was created so. -/
def Born (id : Text) (d : UserDraft) : Prop :=
  h.Founded pl d ∧ ∃ db, h.made db (.insertUser d) ∧ idText db.nextId = id

/-- Why this is the password of the account. -/
inductive Secret (id : Text) : Text → Prop
  | born {d : UserDraft} (born : h.Born pl id d) : Secret id d.password
  | changed {current new : Text} {salt : Nat} (asked : h.asked (.request (.changePassword id current new)))
      (proved : h.Once fun db => ∃ row ∈ db.users, row.id = id ∧ pl.verifyPassword current row.password = true) :
      Secret id (pl.hashPassword new salt)
  | reset {token password : Text} {salt : Nat} {row : AuthToken}
      (asked : h.asked (.request (.resetPassword token password))) (offered : h.Offered pl .passwordReset token row)
      (owner : row.userId = some id) : Secret id (pl.hashPassword password salt)

structure ProfileAccount (user : AuthUser) : Prop where
  born : ∃ d, h.Born pl user.id d ∧ d.email = user.email
  admin : user.role = .admin → ∃ email password, h.asked (.ensureAdmin (some email) password) ∧
    user.email = pl.address email
  verified : user.isEmailVerified = true → (∃ d, h.Born pl user.id d ∧ d.isEmailVerified = true) ∨
    ∃ token row, h.asked (.request (.verifyEmail token)) ∧ h.Offered pl .emailVerify token row ∧
      row.userId = some user.id
  inactive : user.isActive = false → h.asked (.request (.deactivate user.id))
  deleted : user.deletedAt ≠ none → h.asked (.request (.deactivate user.id))

structure UserAccount (row : UserRow) : Prop where
  profile : h.ProfileAccount pl row.toAuthUser
  secret : h.Secret pl row.id row.password

/-! ## Sessions -/

/-- Why there is a session of the account. -/
inductive Entered (id : Text) : Prop
  | registered {p : RegisterPayload} {d : UserDraft} (asked : h.asked (.request (.register p)))
      (born : h.Born pl id d) (email : d.email = pl.address p.email)
  | login {p : LoginPayload} (asked : h.asked (.request (.login p)))
      (proved : h.Once fun db => ∃ row ∈ db.users, row.id = id ∧ row.email = pl.address p.email ∧
        pl.verifyPassword p.password row.password = true ∧ row.isActive = true)
  | refreshed {p : RefreshPayload} {row : RefreshTokenRow} {user : UserRow} (asked : h.asked (.request (.refresh p)))
      (valid : h.Once fun db => pl.verifyRefresh p.refreshToken (jsDate db.now) = some .refresh)
      (stored : h.Once fun db => row ∈ db.refreshTokens ∧ user ∈ db.users) (hash : row.tokenHash = pl.sha256 p.refreshToken)
      (owner : row.userId = id) (live : row.revoked = false)
      (timely : h.Once fun db => jsDate db.now ≤ row.expiresAt) (same : user.id = id) (active : user.isActive = true)

/-- What is stored of a session: the hash of a token signed for its account. -/
structure SessionAccount (id tokenHash : Text) : Prop where
  entered : h.Entered pl id
  signed : ∃ user jwtid t, user.id = id ∧ tokenHash = pl.sha256 (pl.signRefresh user cfg.refreshExpiresIn jwtid t)

/-- What a transaction is about to write. -/
def WriteAccount : TokenWrite → Prop
  | .save row | .insert row => h.SessionAccount pl cfg row.userId row.tokenHash

/-- Every row is accounted for. -/
structure Accounted (db : Db) : Prop where
  users : ∀ row ∈ db.users, h.UserAccount pl row
  sessions : ∀ row ∈ db.refreshTokens, h.SessionAccount pl cfg row.userId row.tokenHash
  pending : ∀ w ∈ db.pending, h.WriteAccount pl cfg w.2
  tokens : ∀ row ∈ db.authTokens, h.TokenAccount pl row

/-! ## Calls with a warrant -/

/-- The calls that write accounted rows only. -/
def Warrants : Call → Prop
  | .insertUser d => h.Founded pl d
  | .saveUser user password => h.ProfileAccount pl user ∧ ∀ hash, password = some hash → h.Secret pl user.id hash
  | .softRemoveUser user => h.asked (.request (.deactivate user.id))
  | .insertRefreshToken d | .insertRefreshTokenIn _ d => h.SessionAccount pl cfg d.userId d.tokenHash
  | .saveTokenIn _ row => h.SessionAccount pl cfg row.userId row.tokenHash
  | .saveAuthToken row => h.TokenAccount pl row
  | .insertAuthToken d => ∀ id t, h.TokenAccount pl (d.toRow id t)
  | _ => True

variable {pl cfg h}

theorem TokenAccount.of_eq {row row' : AuthToken} (hrow : h.TokenAccount pl row) (htype : row'.type = row.type)
    (howner : row'.userId = row.userId) (hemail : row'.email = row.email)
    (hcreator : row'.createdByUserId = row.createdByUserId) : h.TokenAccount pl row' := by
  cases hrow with
  | verify asked stored type owner email =>
    exact .verify asked stored (htype.trans type) (howner.trans owner) (hemail.trans email)
  | reset asked stored address active type owner email =>
    exact .reset asked stored address active (htype.trans type) (howner.trans owner) (hemail.trans email)
  | invite asked type owner creator email =>
    exact .invite asked (htype.trans type) (howner.trans owner) (hcreator.trans creator) (hemail.trans email)

theorem profileAccount_founded {d : UserDraft} {i : Nat} {t : Time} (hborn : h.Born pl (idText i) d) :
    h.ProfileAccount pl (d.toRow i t).toAuthUser := by
  refine ⟨⟨d, hborn, rfl⟩, fun hadmin => ?_, fun hverified => .inl ⟨d, hborn, hverified⟩, fun hinactive => ?_,
    fun hdeleted => absurd rfl hdeleted⟩
  · cases hborn.1 with
    | registered => cases hadmin
    | booted asked => exact ⟨_, _, asked, rfl⟩
  · cases hborn.1 with
    | registered => cases hinactive
    | booted => cases hinactive

/-- The account of a user does not depend on the time of the last update. -/
theorem ProfileAccount.updated {user : AuthUser} (hu : h.ProfileAccount pl user) (t : Time) :
    h.ProfileAccount pl { user with updatedAt := t } :=
  ⟨hu.born, hu.admin, hu.verified, hu.inactive, hu.deleted⟩

/-- A row after a save of an entity that was loaded earlier. -/
theorem UserAccount.saved {row : UserRow} (hrow : h.UserAccount pl row) {user : AuthUser} {password : Option Text}
    (hid : row.id = user.id) (huser : h.ProfileAccount pl user)
    (hsecret : ∀ hash, password = some hash → h.Secret pl user.id hash) (now : Time) :
    h.UserAccount pl (row.saved user password now) := by
  have hpassword : h.Secret pl user.id (password.getD row.password) := by
    cases password with
    | none => exact hid ▸ hrow.secret
    | some hash => exact hsecret hash rfl
  unfold UserRow.saved
  dsimp only
  split
  · exact hrow
  · exact ⟨huser.updated now, hpassword⟩

/-- The tokens after a transaction has committed: those that were there, and what it has written. -/
theorem mem_foldl_apply {ws : List TokenWrite} {rows : List RefreshTokenRow} {row : RefreshTokenRow}
    (hrow : row ∈ ws.foldl TokenWrite.apply rows) :
    row ∈ rows ∨ .save row ∈ ws ∨ .insert row ∈ ws := by
  induction ws generalizing rows with
  | nil => exact .inl hrow
  | cons w ws ih =>
    rcases ih hrow with hrow | hrow | hrow
    · cases w with
      | save new =>
        rcases mem_replaceRow hrow with rfl | hrow
        · exact .inr (.inl List.mem_cons_self)
        · exact .inl hrow
      | insert new =>
        rcases List.mem_append.mp hrow with hrow | hrow
        · exact .inl hrow
        · rw [List.mem_singleton.mp hrow]
          exact .inr (.inr List.mem_cons_self)
    · exact .inr (.inl (List.mem_cons_of_mem w hrow))
    · exact .inr (.inr (List.mem_cons_of_mem w hrow))

/-- Calls with a warrant keep the accounts. -/
theorem Accounted.exec {s : Db} {c : Call} (hmade : h.made s c) (hs : h.Accounted pl cfg s)
    (hc : h.Warrants pl cfg c) : h.Accounted pl cfg (Accounts.exec c s).2 := by
  cases c with
  | insertUser d =>
    simp only [Accounts.exec]
    split
    · exact hs
    · refine ⟨fun row hrow => ?_, hs.sessions, hs.pending, hs.tokens⟩
      rcases List.mem_append.mp hrow with hrow | hrow
      · exact hs.users row hrow
      · rw [List.mem_singleton.mp hrow]
        have hborn : h.Born pl (idText s.nextId) d := ⟨hc, s, hmade, rfl⟩
        exact ⟨profileAccount_founded hborn, .born hborn⟩
  | saveUser user password =>
    simp only [Accounts.exec]
    split
    · exact hs
    · refine ⟨fun row hrow => ?_, hs.sessions, hs.pending, hs.tokens⟩
      obtain ⟨old, hold, rfl⟩ := List.mem_map.mp hrow
      split
      · next hid => exact (hs.users old hold).saved hid hc.1 hc.2 s.now
      · exact hs.users old hold
  | softRemoveUser user =>
    refine ⟨fun row hrow => ?_, hs.sessions, hs.pending, hs.tokens⟩
    obtain ⟨old, hold, rfl⟩ := List.mem_map.mp hrow
    obtain ⟨hprofile, hsecret⟩ := hs.users old hold
    split
    · next hid =>
      refine ⟨⟨hprofile.born, hprofile.admin, hprofile.verified, hprofile.inactive, fun _ => ?_⟩, hsecret⟩
      change h.asked (.request (.deactivate old.id))
      rw [hid]
      exact hc
    · exact ⟨hprofile, hsecret⟩
  | insertRefreshToken d =>
    simp only [Accounts.exec]
    split
    · exact hs
    · refine ⟨hs.users, fun row hrow => ?_, hs.pending, hs.tokens⟩
      rcases List.mem_append.mp hrow with hrow | hrow
      · exact hs.sessions row hrow
      · rw [List.mem_singleton.mp hrow]
        exact hc
  | revokeTokens ids =>
    refine ⟨hs.users, fun row hrow => ?_, hs.pending, hs.tokens⟩
    obtain ⟨old, hold, rfl⟩ := List.mem_map.mp hrow
    split <;> exact hs.sessions old hold
  | lockToken tx hash =>
    simp only [Accounts.exec]
    split <;> exact ⟨hs.users, hs.sessions, hs.pending, hs.tokens⟩
  | saveTokenIn tx row =>
    refine ⟨hs.users, hs.sessions, fun w hw => ?_, hs.tokens⟩
    rcases List.mem_append.mp hw with hw | hw
    · exact hs.pending w hw
    · rw [List.mem_singleton.mp hw]
      exact hc
  | insertRefreshTokenIn tx d =>
    simp only [Accounts.exec]
    split
    · exact hs
    · refine ⟨hs.users, hs.sessions, fun w hw => ?_, hs.tokens⟩
      rcases List.mem_append.mp hw with hw | hw
      · exact hs.pending w hw
      · rw [List.mem_singleton.mp hw]
        exact hc
  | commitTx tx =>
    refine ⟨hs.users, fun row hrow => ?_, fun w hw => hs.pending w (List.mem_of_mem_filter hw), hs.tokens⟩
    have hwritten : ∀ w, w ∈ (s.pending.filter fun w => w.1 = tx).map Prod.snd → h.WriteAccount pl cfg w := by
      intro w hw
      obtain ⟨⟨i, w⟩, hmem, rfl⟩ := List.mem_map.mp hw
      exact hs.pending _ (List.mem_of_mem_filter hmem)
    rcases mem_foldl_apply hrow with hrow | hrow | hrow
    · exact hs.sessions row hrow
    · exact hwritten _ hrow
    · exact hwritten _ hrow
  | rollbackTx tx =>
    exact ⟨hs.users, hs.sessions, fun w hw => hs.pending w (List.mem_of_mem_filter hw), hs.tokens⟩
  | saveAuthToken row =>
    refine ⟨hs.users, hs.sessions, hs.pending, fun row' hrow => ?_⟩
    rcases mem_replaceRow hrow with rfl | hrow
    · exact hc
    · exact hs.tokens row' hrow
  | revokeAuthTokens type userId =>
    refine ⟨hs.users, hs.sessions, hs.pending, fun row hrow => ?_⟩
    obtain ⟨old, hold, rfl⟩ := List.mem_map.mp hrow
    split
    · exact (hs.tokens old hold).of_eq rfl rfl rfl rfl
    · exact hs.tokens old hold
  | insertAuthToken d =>
    simp only [Accounts.exec]
    split
    · exact hs
    · refine ⟨hs.users, hs.sessions, hs.pending, fun row hrow => ?_⟩
      rcases List.mem_append.mp hrow with hrow | hrow
      · exact hs.tokens row hrow
      · rw [List.mem_singleton.mp hrow]
        exact hc _ _
  | sendMail mail =>
    simp only [Accounts.exec]
    split <;> exact ⟨hs.users, hs.sessions, hs.pending, hs.tokens⟩
  | beginTx => exact ⟨hs.users, hs.sessions, hs.pending, hs.tokens⟩
  | newId => exact ⟨hs.users, hs.sessions, hs.pending, hs.tokens⟩
  | _ => exact hs

end History

/-! ## Programs that keep to the warrants -/

section Programs

variable {α β : Type} {pl : Platform} {cfg : Config} {h : History}

/-- The answers of accounted databases. -/
def History.Answers (pl : Platform) (cfg : Config) (h : History) (c : Call) (r : Except Failure c.Answer) : Prop :=
  ∃ db, h.made db c ∧ h.Accounted pl cfg db ∧ (exec c db).1 = r

/-- The program makes calls with a warrant, and what it returns satisfies `Q`. -/
abbrev Justifies (pl : Platform) (cfg : Config) (h : History) (Q : α → Prop) (p : M α) : Prop :=
  Keeps (h.Answers pl cfg) (h.Warrants pl cfg) Q p

abbrev Justified (pl : Platform) (cfg : Config) (h : History) (p : M α) : Prop :=
  Justifies pl cfg h (fun _ => True) p

theorem justified_unless {P : Prop} [Decidable P] {e : RpcError} {f : Unit → M β} {Q : β → Prop}
    (hf : ¬ P → Justifies pl cfg h Q (f ())) : Justifies pl cfg h Q (rejectIf P e >>= f) := by
  unfold rejectIf
  split
  · exact keeps_fail
  · next hP => exact hf hP

theorem justified_require {a : Option α} {e : RpcError} {f : α → M β} {Q : β → Prop}
    (hf : ∀ x, a = some x → Justifies pl cfg h Q (f x)) : Justifies pl cfg h Q (require a e >>= f) := by
  cases a with
  | none => exact keeps_fail
  | some x => exact hf x rfl

/-- A call whose answer does not matter. -/
theorem justified_skip {c : Call} {f : c.Answer → M β} {Q : β → Prop} (hc : h.Warrants pl cfg c)
    (hf : ∀ a, Justifies pl cfg h Q (f a)) : Justifies pl cfg h Q (perform c >>= f) :=
  keeps_ask hc fun a _ => hf a

/-- The clock. -/
theorem justified_now {f : Time → M β} {Q : β → Prop}
    (hf : ∀ t, (h.Once fun db => t = jsDate db.now) → Justifies pl cfg h Q (f t)) :
    Justifies pl cfg h Q (perform .newDate >>= f) :=
  keeps_ask trivial fun t ⟨db, hmade, _, ht⟩ => hf t ⟨db, h.visited_of_made hmade, (Except.ok.inj ht).symm⟩

/-- A user that was found. -/
theorem justified_findUser {id : Text} {f : Option AuthUser → M β} {Q : β → Prop}
    (hf : ∀ found, (∀ user, found = some user → user.id = id ∧ h.ProfileAccount pl user ∧
      ∃ row : UserRow, row.toAuthUser = user ∧ h.Once fun db => row ∈ db.users) → Justifies pl cfg h Q (f found)) :
    Justifies pl cfg h Q (perform (.findUser id) >>= f) := by
  refine keeps_ask trivial fun found ⟨db, hmade, hdb, hfound⟩ => hf found ?_
  rintro user rfl
  obtain ⟨row, hrow, rfl⟩ := Option.map_eq_some_iff.mp (Except.ok.inj hfound)
  have hp := List.find?_some hrow
  simp only [Bool.and_eq_true, decide_eq_true_eq] at hp
  have hmem := List.mem_of_find?_eq_some hrow
  exact ⟨hp.1, (hdb.users row hmem).profile, row, rfl, db, h.visited_of_made hmade, hmem⟩

theorem justified_findUserByEmail {email : Text} {f : Option AuthUser → M β} {Q : β → Prop}
    (hf : ∀ found, (∀ user, found = some user → user.email = email ∧ h.ProfileAccount pl user ∧
      ∃ row : UserRow, row.toAuthUser = user ∧ h.Once fun db => row ∈ db.users) → Justifies pl cfg h Q (f found)) :
    Justifies pl cfg h Q (perform (.findUserByEmail email) >>= f) := by
  refine keeps_ask trivial fun found ⟨db, hmade, hdb, hfound⟩ => hf found ?_
  rintro user rfl
  obtain ⟨row, hrow, rfl⟩ := Option.map_eq_some_iff.mp (Except.ok.inj hfound)
  have hp := List.find?_some hrow
  simp only [Bool.and_eq_true, decide_eq_true_eq] at hp
  have hmem := List.mem_of_find?_eq_some hrow
  exact ⟨hp.1, (hdb.users row hmem).profile, row, rfl, db, h.visited_of_made hmade, hmem⟩

theorem justified_findUserWithPassword {id : Text} {f : Option UserRow → M β} {Q : β → Prop}
    (hf : ∀ found, (∀ row, found = some row → row.id = id ∧ h.UserAccount pl row ∧
      h.Once fun db => row ∈ db.users) → Justifies pl cfg h Q (f found)) :
    Justifies pl cfg h Q (perform (.findUserWithPassword id) >>= f) := by
  refine keeps_ask trivial fun found ⟨db, hmade, hdb, hfound⟩ => hf found ?_
  rintro row rfl
  have hfound := Except.ok.inj hfound
  have hp := List.find?_some hfound
  simp only [Bool.and_eq_true, decide_eq_true_eq] at hp
  have hmem := List.mem_of_find?_eq_some hfound
  exact ⟨hp.1, hdb.users row hmem, db, h.visited_of_made hmade, hmem⟩

theorem justified_updateRevoked {userId : Text} {hash : Option Text} :
    Justified pl cfg h (updateRevoked userId hash) :=
  justified_skip trivial fun _ => keeps_perform trivial fun _ _ => trivial

/-! ## Tokens -/

/-- A token for a user: the session may be stored. -/
theorem justified_issueTokens {user : AuthUser} {ip userAgent : Option Text} {save : RefreshTokenDraft → M Unit}
    (hentered : h.Entered pl user.id)
    (hsave : ∀ d : RefreshTokenDraft, h.SessionAccount pl cfg d.userId d.tokenHash → Justified pl cfg h (save d)) :
    Justified pl cfg h (issueTokens pl cfg user ip userAgent save) := by
  refine justified_skip trivial fun _ => justified_skip trivial fun jwtid => justified_skip trivial fun issuedAt =>
    justified_skip trivial fun now => keeps_bind (hsave _ ⟨hentered, user, jwtid, issuedAt, rfl, rfl⟩) fun _ _ => trivial

theorem justified_issueToken {input : IssueInput}
    (hinput : ∀ row : AuthToken, row.type = input.type → row.userId = input.userId → row.email = input.email →
      row.createdByUserId = input.createdByUserId → h.TokenAccount pl row) :
    Justified pl cfg h (issueToken pl input) := by
  have hissue : Justified pl cfg h (do
      let raw := pl.randomBytes (← perform .newId)
      let now ← perform .newDate
      perform (.insertAuthToken
        { type := input.type
          tokenHash := pl.sha256 raw
          email := input.email
          userId := input.userId
          createdByUserId := input.createdByUserId
          maxUses := input.maxUses
          expiresAt := now + ms input.ttlMs })
      return raw : M Text) := by
    refine justified_skip trivial fun _ => justified_skip trivial fun _ => justified_skip (fun id t => ?_) fun _ => trivial
    exact hinput _ rfl rfl rfl rfl
  unfold issueToken
  split
  · exact justified_skip trivial fun _ => hissue
  · exact hissue

theorem justifies_findValidToken {raw : Text} {type : AuthTokenType} :
    Justifies pl cfg h (fun found => ∀ row, found = some row → h.Offered pl type raw row)
      (findValidToken pl raw type) := by
  unfold findValidToken
  split
  · exact nofun
  · refine keeps_ask trivial fun found ⟨db, hmade, hdb, hfound⟩ => ?_
    cases found with
    | none => exact nofun
    | some row =>
      have hfound := Except.ok.inj hfound
      have hp := List.find?_some hfound
      simp only [decide_eq_true_eq] at hp
      have hmem := List.mem_of_find?_eq_some hfound
      dsimp only
      split
      · exact nofun
      · next hlive =>
        refine justified_now fun now ⟨db', hv', hnow⟩ => ?_
        split
        · exact nofun
        · next htimely =>
          split
          · exact nofun
          · next hunused =>
            rintro _ ⟨⟩
            refine ⟨hdb.tokens row hmem, ⟨db, h.visited_of_made hmade, hmem⟩, hp.2, hp.1, by simpa using hlive,
              Nat.lt_of_not_le hunused, db', hv', ?_⟩
            change jsDate db'.now ≤ row.expiresAt
            rw [← hnow]
            exact Nat.le_of_not_lt htimely

theorem justifies_countUse {record : AuthToken} (hrecord : h.TokenAccount pl record) :
    Justifies pl cfg h (fun r => r.userId = record.userId) (countUse record) := by
  unfold countUse
  simp only [pure_bind]
  split
  · exact justified_skip trivial fun _ => justified_skip (hrecord.of_eq rfl rfl rfl rfl) fun _ => rfl
  · exact justified_skip (hrecord.of_eq rfl rfl rfl rfl) fun _ => rfl

theorem justifies_consumeToken {raw : Text} {type : AuthTokenType} :
    Justifies pl cfg h (fun r => ∃ row, h.Offered pl type raw row ∧ r.userId = row.userId)
      (consumeToken pl raw type) := by
  refine keeps_bind justifies_findValidToken fun found hfound => justified_require fun record hrecord => ?_
  have hoffered := hfound record hrecord
  exact (justifies_countUse hoffered.issued).mono fun r hr => ⟨record, hoffered, hr⟩

theorem justifies_assertInvite {token email : Text} :
    Justifies pl cfg h (fun row => h.Offered pl .invite token row) (assertInviteForRegister pl token email) := by
  refine keeps_bind justifies_findValidToken fun found hfound => justified_require fun record hrecord =>
    justified_unless fun _ => ?_
  exact hfound record hrecord

theorem justified_consumeInvite {id : Nat} : Justified pl cfg h (consumeInvite id) := by
  refine keeps_ask trivial fun found ⟨db, _, hdb, hfound⟩ => ?_
  cases found with
  | none => trivial
  | some record =>
    have hmem := List.mem_of_find?_eq_some (Except.ok.inj hfound)
    exact keeps_bind (justifies_countUse (hdb.tokens record hmem)) fun _ _ => trivial

theorem eq_some_of_truthy {s : Option Text} {t : Text} (hs : truthy s = some t) : s = some t :=
  (Option.filter_eq_some_iff.mp hs).1

/-! ## Requests -/

theorem justified_requestEmailVerification {userId : Text}
    (hasked : h.asked (.request (.requestEmailVerification userId))) :
    Justified pl cfg h (requestEmailVerification pl cfg userId) := by
  refine justified_findUser fun found hfound => justified_require fun user huser => ?_
  obtain ⟨rfl, _, row, rfl, hstored⟩ := hfound user huser
  split
  · trivial
  · refine keeps_bind (justified_issueToken fun token htype howner hemail _ => ?_) fun raw _ =>
      justified_skip trivial fun _ => trivial
    exact .verify hasked hstored htype howner hemail

theorem justified_verifyEmail {token : Text} (hasked : h.asked (.request (.verifyEmail token))) :
    Justified pl cfg h (verifyEmail pl token) := by
  refine keeps_bind justifies_consumeToken fun record ⟨row, hoffered, howner⟩ =>
    justified_require fun userId hid => justified_findUser fun found hfound => justified_require fun user huser =>
      justified_skip ⟨?_, nofun⟩ fun _ => trivial
  obtain ⟨rfl, haccount, _⟩ := hfound user huser
  refine ⟨haccount.born, haccount.admin, fun _ => .inr ⟨token, row, hasked, hoffered, ?_⟩, haccount.inactive,
    haccount.deleted⟩
  rw [← howner]
  exact eq_some_of_truthy hid

theorem justified_forgotPassword {email : Text} (hasked : h.asked (.request (.forgotPassword email))) :
    Justified pl cfg h (forgotPassword pl cfg email) := by
  refine justified_findUserByEmail fun found hfound => ?_
  cases found with
  | none => trivial
  | some user =>
    obtain ⟨haddress, _, row, rfl, hstored⟩ := hfound user rfl
    dsimp only
    split
    · trivial
    · next hactive =>
      refine keeps_bind (justified_issueToken fun token htype howner hemail _ => ?_) fun raw _ =>
        justified_skip trivial fun _ => trivial
      exact .reset hasked hstored haddress (by simpa using hactive) htype howner hemail

theorem justified_resetPassword {token password : Text} (hasked : h.asked (.request (.resetPassword token password))) :
    Justified pl cfg h (resetPassword pl token password) := by
  refine justified_skip trivial fun salt => keeps_bind (Q := fun _ => True) ?_ fun _ _ =>
    keeps_bind justified_updateRevoked fun _ _ => trivial
  refine keeps_bind justifies_consumeToken fun record ⟨row, hoffered, howner⟩ =>
    justified_require fun userId hid => justified_findUserWithPassword fun found hfound =>
      justified_require fun user huser => justified_skip ⟨?_, ?_⟩ fun _ => trivial
  · exact (hfound user huser).2.1.profile
  · obtain ⟨rfl, _⟩ := hfound user huser
    rintro _ ⟨⟩
    refine .reset hasked hoffered ?_
    rw [← howner]
    exact eq_some_of_truthy hid

theorem justified_createInvite {p : CreateInvitePayload} (hasked : h.asked (.request (.createInvite p))) :
    Justified pl cfg h (createInvite pl cfg p) := by
  have hissue : ∀ maxUses ttl, Justified pl cfg h (issueToken pl
      { type := .invite
        email := truthy (p.email.map fun e => Js.trim (pl.toLowerCase e))
        userId := none
        createdByUserId := some p.createdByUserId
        maxUses
        ttlMs := ttl }) := fun _ _ =>
    justified_issueToken fun row htype howner hemail hcreator => .invite hasked htype howner hcreator hemail
  have hrest : ∀ maxUses ttl (k : Text → Option AuthToken → M InviteView),
      (∀ raw found, Justified pl cfg h (k raw found)) → Justified pl cfg h (issueToken pl
        { type := .invite
          email := truthy (p.email.map fun e => Js.trim (pl.toLowerCase e))
          userId := none
          createdByUserId := some p.createdByUserId
          maxUses
          ttlMs := ttl } >>= fun raw => perform (.findAuthTokenByHash (pl.sha256 raw)) >>= k raw) :=
    fun maxUses ttl k hk => keeps_bind (hissue maxUses ttl) fun raw _ => justified_skip trivial (hk raw)
  unfold createInvite
  dsimp only
  split
  · refine hrest _ _ _ fun raw found => ?_
    cases found <;> trivial
  · refine justified_skip trivial fun existing => justified_unless fun _ => hrest _ _ _ fun raw found => ?_
    cases found <;> trivial

theorem justified_revokeInvite {id : Nat} : Justified pl cfg h (revokeInvite id) := by
  refine keeps_ask trivial fun found ⟨db, _, hdb, hfound⟩ => justified_require fun record hrecord =>
    justified_skip trivial fun now => justified_skip ?_ fun _ => trivial
  obtain ⟨rfl, _⟩ := Option.filter_eq_some_iff.mp hrecord
  have hmem := List.mem_of_find?_eq_some (Except.ok.inj hfound)
  exact (hdb.tokens record hmem).of_eq rfl rfl rfl rfl

theorem justified_createAccount {p : RegisterPayload} (hasked : h.asked (.request (.register p))) {d : UserDraft}
    (hfounded : h.Founded pl d) (hemail : d.email = pl.address p.email) (inviteId : Option Nat) :
    Justified pl cfg h (createAccount pl cfg d inviteId) := by
  refine keeps_ask hfounded fun saved ⟨db, hmade, _, hsaved⟩ => ?_
  have hid : saved.id = idText db.nextId := by
    simp only [exec] at hsaved
    split at hsaved
    · cases hsaved
    · rw [← Except.ok.inj hsaved]
      rfl
  have hentered : h.Entered pl saved.id := .registered hasked ⟨hfounded, db, hmade, hid.symm⟩ hemail
  have htokens : Justified pl cfg h (issueTokens pl cfg saved none none fun d => perform (.insertRefreshToken d)) :=
    justified_issueTokens hentered fun d hd => keeps_perform hd fun _ _ => trivial
  cases inviteId with
  | none => exact keeps_bind htokens fun _ _ => trivial
  | some id => exact keeps_bind justified_consumeInvite fun _ _ => keeps_bind htokens fun _ _ => trivial

theorem justified_register {p : RegisterPayload} (hasked : h.asked (.request (.register p))) :
    Justified pl cfg h (register pl cfg p) := by
  refine justified_skip trivial fun existing => justified_unless fun _ => ?_
  have hrest : ∀ (invite : Option AuthToken) (k : Except Failure AuthResult → M AuthResult),
      (∀ row, invite = some row → ∃ token, truthy p.inviteToken = some token ∧ h.Offered pl .invite token row) →
      (∀ result, Justified pl cfg h (k result)) →
      Justified pl cfg h (perform .newId >>= fun salt => (createAccount pl cfg
        { email := Js.trim (pl.toLowerCase p.email)
          password := pl.hashPassword p.password salt
          role := .user
          isActive := true
          isEmailVerified := invite.any fun i => truthy i.email = some (Js.trim (pl.toLowerCase p.email)) }
        (invite.map AuthToken.id)).attempt >>= k) := by
    intro invite k hinvite hk
    refine justified_skip trivial fun salt => keeps_bind (keeps_attempt
      (justified_createAccount hasked (.registered hasked fun hverified => ?_) rfl _)) fun result _ => hk result
    obtain ⟨row, rfl, hemail⟩ := (Option.any_eq_true _ _).mp hverified
    obtain ⟨token, htoken, hoffered⟩ := hinvite row rfl
    exact ⟨token, row, htoken, hoffered, eq_some_of_truthy (of_decide_eq_true hemail)⟩
  cases htoken : truthy p.inviteToken with
  | none =>
    refine hrest none _ (fun row hrow => by cases hrow) fun result => ?_
    split <;> trivial
  | some token =>
    refine keeps_bind (Q := fun invite => ∀ row, invite = some row → h.Offered pl .invite token row)
      (keeps_bind justifies_assertInvite fun row hrow => keeps_ret.mpr fun row' heq => ?_) fun invite hinvite =>
        hrest invite _ (fun row hrow => ⟨token, htoken, hinvite row hrow⟩) fun result => ?_
    · cases heq
      exact hrow
    · split <;> trivial

theorem justified_login {p : LoginPayload} (hasked : h.asked (.request (.login p))) :
    Justified pl cfg h (login pl cfg p) := by
  refine keeps_ask trivial fun found ⟨db, hmade, _, hfound⟩ => justified_require fun user huser =>
    justified_unless fun hpassword => justified_unless fun hactive => keeps_bind
      (justified_issueTokens (.login hasked ⟨db, h.visited_of_made hmade, user, ?_⟩) fun d hd =>
        keeps_perform hd fun _ _ => trivial) fun _ _ => trivial
  subst huser
  have hfound := Except.ok.inj hfound
  have hp := List.find?_some hfound
  simp only [Bool.and_eq_true, decide_eq_true_eq] at hp
  exact ⟨List.mem_of_find?_eq_some hfound, rfl, hp.1, by simpa using hpassword, by simpa using hactive⟩

theorem justified_transaction {body : Nat → M α} (hbody : ∀ tx, Justified pl cfg h (body tx)) :
    Justified pl cfg h (transaction body) := by
  refine justified_skip trivial fun tx => keeps_bind (keeps_attempt (hbody tx)) fun result _ => ?_
  cases result with
  | ok a => exact justified_skip trivial fun _ => trivial
  | error e => exact justified_skip trivial fun _ => keeps_fail

theorem justified_refresh {p : RefreshPayload} (hasked : h.asked (.request (.refresh p))) :
    Justified pl cfg h (refresh pl cfg p) := by
  refine justified_now fun now ⟨db₀, hv₀, hnow⟩ => justified_unless fun hvalid => justified_transaction fun tx =>
    keeps_ask trivial fun found ⟨db, hmade, hdb, hfound⟩ => justified_require fun r hr => ?_
  subst hr
  obtain ⟨stored, user⟩ := r
  obtain ⟨row, hlock⟩ : ∃ row : UserRow, db.tokenWithUser (pl.sha256 p.refreshToken) = some (stored, row) ∧
      row.toAuthUser = user := by
    simp only [exec] at hfound
    split at hfound
    · cases hfound
    · next stored' row hlock =>
      cases hfound
      exact ⟨row, hlock, rfl⟩
  obtain ⟨hlock, rfl⟩ := hlock
  obtain ⟨stored', hstored, hlock⟩ := Option.bind_eq_some_iff.mp hlock
  obtain ⟨row', hrow, heq⟩ := Option.bind_eq_some_iff.mp hlock
  cases heq
  have hp := List.find?_some hstored
  simp only [decide_eq_true_eq] at hp
  have hq := List.find?_some hrow
  simp only [Bool.and_eq_true, decide_eq_true_eq] at hq
  have hmem := List.mem_of_find?_eq_some hstored
  refine justified_unless fun hlive => justified_now fun now' ⟨db₁, hv₁, hnow'⟩ => justified_unless fun htimely =>
    justified_unless fun hactive => justified_skip (hdb.sessions stored hmem) fun _ => keeps_bind
      (justified_issueTokens ?_ fun d hd => keeps_perform hd fun _ _ => trivial) fun _ _ => trivial
  refine .refreshed hasked ⟨db₀, hv₀, ?_⟩ ⟨db, h.visited_of_made hmade, hmem, List.mem_of_find?_eq_some hrow⟩ hp
    hq.1.symm (by simpa using hlive) ⟨db₁, hv₁, ?_⟩ rfl (by simpa using hactive)
  · change pl.verifyRefresh p.refreshToken (jsDate db₀.now) = some .refresh
    rw [← hnow]
    exact not_not.mp hvalid
  · change jsDate db₁.now ≤ stored.expiresAt
    rw [← hnow']
    exact Nat.le_of_not_lt htimely

theorem justified_changePassword {userId current new : Text}
    (hasked : h.asked (.request (.changePassword userId current new))) :
    Justified pl cfg h (changePassword pl userId current new) := by
  refine justified_findUserWithPassword fun found hfound => justified_require fun user huser =>
    justified_unless fun hpassword => justified_skip trivial fun salt => justified_skip ⟨?_, ?_⟩ fun _ =>
      keeps_bind justified_updateRevoked fun _ _ => trivial
  · exact (hfound user huser).2.1.profile
  · obtain ⟨rfl, _, db, hv, hmem⟩ := hfound user huser
    rintro _ ⟨⟩
    exact .changed hasked ⟨db, hv, user, hmem, rfl, by simpa using hpassword⟩

theorem justified_deactivate {userId : Text} (hasked : h.asked (.request (.deactivate userId))) :
    Justified pl cfg h (deactivate userId) := by
  refine justified_findUser fun found hfound => justified_require fun user huser => ?_
  obtain ⟨rfl, haccount, _⟩ := hfound user huser
  refine justified_skip ⟨⟨haccount.born, haccount.admin, haccount.verified, fun _ => hasked, haccount.deleted⟩, nofun⟩
    fun _ => keeps_bind justified_updateRevoked fun _ _ => justified_skip hasked fun _ => trivial

theorem justified_ensureAdmin {email password : Option Text} (hasked : h.asked (.ensureAdmin email password)) :
    Justified pl cfg h (ensureAdmin pl email password) := by
  unfold ensureAdmin
  cases haddress : truthy (email.map fun e => Js.trim (pl.toLowerCase e)) with
  | none => trivial
  | some address =>
    obtain ⟨e, rfl, rfl⟩ := Option.map_eq_some_iff.mp (eq_some_of_truthy haddress)
    refine justified_findUserByEmail fun found hfound => ?_
    cases found with
    | some user =>
      obtain ⟨hemail, haccount, _⟩ := hfound user rfl
      dsimp only
      split
      · exact keeps_perform ⟨⟨haccount.born, fun _ => ⟨e, password, hasked, hemail⟩, haccount.verified,
          haccount.inactive, haccount.deleted⟩, nofun⟩ fun _ _ => trivial
      · trivial
    | none =>
      cases hpassword : truthy password with
      | none => trivial
      | some secret =>
        obtain rfl := eq_some_of_truthy hpassword
        exact justified_skip trivial fun salt => justified_skip (.booted hasked) fun _ => trivial

/-- Every request and every start of an instance only makes calls with a warrant. -/
theorem Task.justified {task : Task} (hasked : h.asked task) : Justified pl cfg h (task.program pl cfg) := by
  have map {α : Type} {p : M α} (f : α → Response) (hp : Justified pl cfg h p) : Justified pl cfg h (f <$> p) :=
    keeps_bind hp fun _ _ => trivial
  cases task with
  | ensureAdmin email password => exact map _ (justified_ensureAdmin hasked)
  | request op =>
    cases op with
    | register p => exact map _ (justified_register hasked)
    | login p => exact map _ (justified_login hasked)
    | refresh p => exact map _ (justified_refresh hasked)
    | logout u t => exact map _ (keeps_bind justified_updateRevoked fun _ _ => trivial)
    | validate u =>
      exact map _ (justified_skip trivial fun _ => justified_require fun _ _ => justified_unless fun _ => trivial)
    | me u => exact map _ (justified_skip trivial fun _ => justified_require fun _ _ => trivial)
    | changePassword u current new => exact map _ (justified_changePassword hasked)
    | forgotPassword email => exact map _ (justified_forgotPassword hasked)
    | resetPassword t password => exact map _ (justified_resetPassword hasked)
    | requestEmailVerification u => exact map _ (justified_requestEmailVerification hasked)
    | verifyEmail t => exact map _ (justified_verifyEmail hasked)
    | createInvite p => exact map _ (justified_createInvite hasked)
    | listInvites => exact map _ (justified_skip trivial fun _ => trivial)
    | getInvite t =>
      refine map _ (keeps_bind justifies_findValidToken fun found _ => ?_)
      cases found <;> trivial
    | revokeInvite id => exact map _ justified_revokeInvite
    | deactivate u => exact map _ (justified_deactivate hasked)

end Programs

/-! ## Runs -/

section Runs

variable (pl : Platform) (cfg : Config) (mailer : Mailer) (now : Time) (es : List (Pool.Event Task Nat))

/-- What there is to know of a run of the service. -/
def history : History where
  visited := Pool.Visited exec (Task.program pl cfg) (fun (d : Nat) db => db.wait d) es ⟨Db.empty mailer now, []⟩
  made := Pool.Made exec (Task.program pl cfg) (fun (d : Nat) db => db.wait d) es ⟨Db.empty mailer now, []⟩
  asked task := .start task ∈ es
  visited_of_made hmade := hmade.visited

/-- The database interleaved requests get to, from one without rows. -/
def served : Db :=
  (Runs.final (Pool.step exec (Task.program pl cfg) fun (d : Nat) db => db.wait d) es ⟨Db.empty mailer now, []⟩).store

/-- Whatever requests interleave, every row they leave is accounted for. -/
theorem served_accounted : (history pl cfg mailer now es).Accounted pl cfg (served pl cfg mailer now es) := by
  have hempty : (history pl cfg mailer now es).Accounted pl cfg (Db.empty mailer now) := by
    have hnone : ∀ {γ : Type} (P : γ → Prop), ∀ row ∈ ([] : List γ), P row := fun _ _ hrow =>
      absurd hrow List.not_mem_nil
    exact ⟨hnone _, hnone _, hnone _, hnone _⟩
  have hprogram : ∀ task, Pool.Event.start task ∈ es → Sat ((history pl cfg mailer now es).Answers pl cfg)
      ((history pl cfg mailer now es).Warrants pl cfg) (task.program pl cfg) := fun task htask =>
    (Task.justified (h := history pl cfg mailer now es) htask).sat
  have hwait : ∀ (d : Nat) db, (history pl cfg mailer now es).Accounted pl cfg db →
      (history pl cfg mailer now es).Accounted pl cfg (db.wait d) := fun d db hdb =>
    ⟨hdb.users, hdb.sessions, hdb.pending, hdb.tokens⟩
  have hvisited : (history pl cfg mailer now es).visited (served pl cfg mailer now es) := ⟨es, List.prefix_rfl, rfl⟩
  exact Pool.visited_invariant hempty hprogram (fun db c hmade hdb hc => hdb.exec hmade hc) hwait hvisited

/-- Whatever requests interleave: the password of an account is the one it was created with, one set by somebody
who knew the password it had at some moment, or one set with a reset token for it; nobody is an administrator but
the configured one; an address counts as verified only after its token, or an invite for it, was presented. -/
theorem users_accounted {row : UserRow} (hrow : row ∈ (served pl cfg mailer now es).users) :
    (history pl cfg mailer now es).UserAccount pl row := (served_accounted pl cfg mailer now es).users row hrow

/-- Whatever requests interleave: a session belongs to an account somebody has registered, whose password
somebody has shown, or one of whose live refresh tokens somebody has presented. -/
theorem sessions_accounted {row : RefreshTokenRow} (hrow : row ∈ (served pl cfg mailer now es).refreshTokens) :
    (history pl cfg mailer now es).SessionAccount pl cfg row.userId row.tokenHash :=
  (served_accounted pl cfg mailer now es).sessions row hrow

end Runs

/-- Somebody registers, has a reset token sent, sets a new password with it, and logs in. -/
def forgetful : List (Pool.Event Task Nat) :=
  .start (.request (.register ⟨"A@b.c".toList, "pw".toList, none⟩)) :: List.replicate 8 (.advance 0) ++
    .start (.request (.forgotPassword "a@b.c".toList)) :: List.replicate 8 (.advance 1) ++
    .start (.request (.resetPassword "0123456789abcdef4".toList "new".toList)) :: List.replicate 10 (.advance 2) ++
    .start (.request (.login ⟨"a@b.c".toList, "new".toList, none, none⟩)) :: List.replicate 6 (.advance 3)

theorem users_accounted_forgetful :
    (history Platform.toy Config.toy .log 0 forgetful).UserAccount Platform.toy
      ((⟨"a@b.c".toList, "new#6".toList, .user, true, false⟩ : UserDraft).toRow 1 0) :=
  users_accounted Platform.toy Config.toy .log 0 forgetful (by decide +kernel)

theorem sessions_accounted_forgetful :
    (history Platform.toy Config.toy .log 0 forgetful).SessionAccount Platform.toy Config.toy "1".toList "$r7".toList :=
  @sessions_accounted Platform.toy Config.toy .log 0 forgetful
    ((⟨"1".toList, "$r7".toList, 604800000000, none, none⟩ : RefreshTokenDraft).toRow 8 0) (by decide +kernel)

end Relay.Accounts
