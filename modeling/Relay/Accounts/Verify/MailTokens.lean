import Relay.Lib.Runs
import Relay.Accounts.Verify.Registration

/-!
# The tokens sent by mail

The requests of the token service, one after the other. Between two calls of a request time passes, the
accounts change, and a call may fail and end the request there. `SingleTokens` is what holds of the table of
tokens throughout: of the tokens of one type sent to one user, all but the last are revoked. Rows only age
(`AuthToken.Ages`): no request takes back a use or a revocation.
-/

namespace Relay.Accounts

open Relay.Lib Relay.Lib.Rows Relay.Auth

/-! ## Runs of the token service -/

inductive TokenOp where
  | requestEmailVerification (userId : Text)
  | verifyEmail (token : Text)
  | forgotPassword (email : Text)
  | resetPassword (token passwordHash : Text)
  | createInvite (p : CreateInvitePayload)
  | listInvites
  | getInvite (token : Text)
  | assertInviteForRegister (token email : Text)
  | consumeInvite (tokenId : Nat)
  | revokeInvite (inviteId : Nat)

def TokenOp.program (pl : Platform) (cfg : Config) : TokenOp → M Unit
  | .requestEmailVerification u => (fun _ => ()) <$> Accounts.requestEmailVerification pl cfg u
  | .verifyEmail t => (fun _ => ()) <$> Accounts.verifyEmail pl t
  | .forgotPassword email => (fun _ => ()) <$> Accounts.forgotPassword pl cfg email
  | .resetPassword t passwordHash => (fun _ => ()) <$> resetPasswordHash pl t passwordHash
  | .createInvite p => (fun _ => ()) <$> Accounts.createInvite pl cfg p
  | .listInvites => (fun _ => ()) <$> Accounts.listInvites cfg
  | .getInvite t => (fun _ => ()) <$> Accounts.getInvite pl t
  | .assertInviteForRegister t email => (fun _ => ()) <$> Accounts.assertInviteForRegister pl t email
  | .consumeInvite id => Accounts.consumeInvite id
  | .revokeInvite id => (fun _ => ()) <$> Accounts.revokeInvite id

/-- What happens at a call: it may fail; then time passes, and others have left the accounts as they are. -/
structure Moment where
  failure : Option Failure
  elapsed : Nat
  users : List UserRow

def Moment.pass (m : Moment) (db : Db) : Db := { db with users := m.users, now := db.now + m.elapsed }

/-- The database, and what is going to happen. -/
abbrev Timeline := Db × List Moment

abbrev timelineExec : (c : Call) → Timeline → Except Failure c.Answer × Timeline :=
  amid exec Moment.pass Moment.failure

variable (pl : Platform) (cfg : Config)

def tokenStep (op : TokenOp) (t : Timeline) : Timeline := (Prog.run timelineExec (op.program pl cfg) t).2

/-- The database after a run of the token service. -/
def after (ops : List TokenOp) (t : Timeline) : Db := (Runs.final (tokenStep pl cfg) ops t).1

/-- The rows of the tokens of a type issued to a user, in the order of issue. -/
def Db.issuedTo (db : Db) (type : AuthTokenType) (userId : Text) : List AuthToken :=
  db.authTokens.filter fun row => row.type = type ∧ row.userId = some userId

/-- The raw token is a random value, and has been issued to the user. -/
structure Issued (type : AuthTokenType) (userId raw : Text) (db : Db) : Prop where
  random : ∃ n, raw = pl.randomBytes n
  stored : ∃ row ∈ db.issuedTo type userId, row.tokenHash = pl.sha256 raw

/-- `findValidToken` finds a row for the token. -/
def Accepts (type : AuthTokenType) (raw : Text) (db : Db) : Prop :=
  ∃ row, (Prog.run exec (findValidToken pl raw type) db).1 = .ok (some row)

/-- The request has consumed the token: its `consumeToken` returned. -/
def Consumes (type : AuthTokenType) (raw : Text) (t : Timeline) : TokenOp → Prop
  | .verifyEmail token => type = .emailVerify ∧ token = raw ∧
    ∃ row, (Prog.run timelineExec (consumeToken pl token .emailVerify) t).1 = .ok row
  | .resetPassword token _ => type = .passwordReset ∧ token = raw ∧
    ∃ row, (Prog.run timelineExec (consumeToken pl token .passwordReset) t).1 = .ok row
  | _ => False

/-- What a run has left of the tokens of a type issued to a user, and what any requests after it find. -/
structure LatestOnly (type : AuthTokenType) (userId : Text) (ops : List TokenOp) (t : Timeline) : Prop where
  unique : ∀ raw raw', Issued pl type userId raw (after pl cfg ops t) →
    Issued pl type userId raw' (after pl cfg ops t) → Accepts pl type raw (after pl cfg ops t) →
    Accepts pl type raw' (after pl cfg ops t) → raw = raw'
  latest : ∀ raw, Issued pl type userId raw (after pl cfg ops t) →
    Accepts pl type raw (after pl cfg ops t) →
    (((after pl cfg ops t).issuedTo type userId).getLast?.map AuthToken.tokenHash) = some (pl.sha256 raw)
  /-- Another token has been issued since. -/
  superseded : ∀ raw raw' later, Issued pl type userId raw (after pl cfg ops t) →
    ¬ Issued pl type userId raw' (after pl cfg ops t) →
    Issued pl type userId raw' (after pl cfg (ops ++ later) t) →
    ¬ Accepts pl type raw (after pl cfg (ops ++ later) t)
  consumed : ∀ raw op later, Issued pl type userId raw (after pl cfg ops t) →
    Consumes pl type raw (Runs.final (tokenStep pl cfg) ops t) op →
    ¬ Accepts pl type raw (after pl cfg (ops ++ op :: later) t)
  expired : ∀ raw later, (∃ row ∈ (after pl cfg ops t).issuedTo type userId,
      row.tokenHash = pl.sha256 raw ∧ row.expiresAt < jsDate (after pl cfg ops t).now) →
    ¬ Accepts pl type raw (after pl cfg (ops ++ later) t)
  /-- Whatever the reason. -/
  refused : ∀ raw later, Issued pl type userId raw (after pl cfg ops t) →
    ¬ Accepts pl type raw (after pl cfg ops t) → ¬ Accepts pl type raw (after pl cfg (ops ++ later) t)

/-! ## Rows that age -/

/-- What the calls make of a row: it is used and revoked. -/
structure AuthToken.Ages (old new : AuthToken) : Prop where
  id : new.id = old.id
  type : new.type = old.type
  tokenHash : new.tokenHash = old.tokenHash
  userId : new.userId = old.userId
  maxUses : new.maxUses = old.maxUses
  expiresAt : new.expiresAt = old.expiresAt
  used : old.usedCount ≤ new.usedCount
  revoked : old.revokedAt.isSome = true → new.revokedAt.isSome = true

theorem AuthToken.Ages.refl (row : AuthToken) : row.Ages row := 
  ⟨rfl, rfl, rfl, rfl, rfl, rfl, le_rfl, fun h => h⟩

theorem AuthToken.Ages.trans {a b c : AuthToken} (h : a.Ages b) (h' : b.Ages c) : a.Ages c where
  id := h'.id.trans h.id
  type := h'.type.trans h.type
  tokenHash := h'.tokenHash.trans h.tokenHash
  userId := h'.userId.trans h.userId
  maxUses := h'.maxUses.trans h.maxUses
  expiresAt := h'.expiresAt.trans h.expiresAt
  used := Nat.le_trans h.used h'.used
  revoked := fun hrevoked => h'.revoked (h.revoked hrevoked)

/-- The rows of one table have aged, rows were appended, and time has passed. -/
structure Grown (db db' : Db) : Prop where
  rows : ∃ f new, db'.authTokens = db.authTokens.map f ++ new ∧
    ∀ row ∈ db.authTokens, AuthToken.Ages row (f row)
  now : db.now ≤ db'.now

namespace Grown

variable {a b c : Db}

/-- No row was appended. -/
theorem of_map {f : AuthToken → AuthToken} (hrows : b.authTokens = a.authTokens.map f)
    (hages : ∀ row ∈ a.authTokens, row.Ages (f row)) (hnow : a.now ≤ b.now) : Grown a b :=
  ⟨⟨f, [], by rw [hrows, List.append_nil], hages⟩, hnow⟩

theorem of_eq (hrows : b.authTokens = a.authTokens) (hnow : a.now ≤ b.now) : Grown a b :=
  of_map (f := id) (by rw [hrows, List.map_id]) (fun row _ => .refl row) hnow

theorem refl (db : Db) : Grown db db := of_eq rfl le_rfl

theorem trans (h : Grown a b) (h' : Grown b c) : Grown a c := by
  obtain ⟨f, new, hb, hf⟩ := h.rows
  obtain ⟨f', new', hc, hf'⟩ := h'.rows
  refine ⟨⟨f' ∘ f, new.map f' ++ new', ?_, fun row hrow => ?_⟩, Nat.le_trans h.now h'.now⟩
  · rw [hc, hb, List.map_append, List.map_map, List.append_assoc]
  · refine (hf row hrow).trans (hf' (f row) ?_)
    rw [hb]
    exact List.mem_append_left _ (List.mem_map_of_mem hrow)

theorem mem (h : Grown a b) {row : AuthToken} (hrow : row ∈ a.authTokens) :
    ∃ row' ∈ b.authTokens, row.Ages row' := by
  obtain ⟨f, new, hb, hf⟩ := h.rows
  refine ⟨f row, ?_, hf row hrow⟩
  rw [hb]
  exact List.mem_append_left _ (List.mem_map_of_mem hrow)

end Grown

/-! ## The table of tokens -/

/-- Of the tokens of a type sent to a user, all but the last are revoked; each can be used once. -/
structure SingleTokens (db : Db) : Prop where
  ids : Keyed AuthToken.id db.authTokens db.nextId
  hashes : (db.authTokens.map AuthToken.tokenHash).Nodup
  once : ∀ row ∈ db.authTokens, row.type ≠ .invite → row.maxUses = 1
  revoked : db.authTokens.Pairwise fun row later => row.type ≠ .invite → later.type = row.type →
    later.userId = row.userId → row.revokedAt.isSome = true

/-- What a request does to the table: a token that is sent to a user is issued when the earlier ones are
revoked, and what is saved is a row that has aged. -/
def Legal (db : Db) : Call → Prop
  | .insertAuthToken d => d.type ≠ .invite → d.maxUses = 1 ∧
    ∀ row ∈ db.authTokens, row.type = d.type → row.userId = d.userId → row.revokedAt.isSome = true
  | .saveAuthToken row => ∃ old ∈ db.authTokens, old.Ages row
  | _ => True

/-- The calls that write to the table. -/
def writesTokens : Call → Bool
  | .saveAuthToken _ | .revokeAuthTokens _ _ | .insertAuthToken _ => true
  | _ => false

theorem exec_keepsTokens {c : Call} (h : writesTokens c = false) (db : Db) :
    (exec c db).2.authTokens = db.authTokens ∧ db.nextId ≤ (exec c db).2.nextId ∧
      db.now ≤ (exec c db).2.now := by
  cases c with
  | saveAuthToken row => cases h
  | revokeAuthTokens type userId => cases h
  | insertAuthToken d => cases h
  | insertUser d => simp only [exec]; split <;> simp
  | saveUser user password => simp only [exec]; split <;> simp [Db.saveUser]
  | insertRefreshToken d => simp only [exec]; split <;> simp
  | insertRefreshTokenIn tx d => simp only [exec]; split <;> simp
  | lockToken tx tokenHash => simp only [exec]; split <;> simp
  | sendMail mail => simp only [exec]; split <;> simp
  | _ => simp [exec, Db.commitTx, Db.endTx]

namespace SingleTokens

variable {db db' : Db}

theorem empty (h : db.authTokens = []) : SingleTokens db := by
  refine ⟨?_, ?_, ?_, ?_⟩ <;> rw [h]
  · exact .nil
  · exact List.nodup_nil
  · exact fun row hrow => absurd hrow List.not_mem_nil
  · exact List.Pairwise.nil

/-- Rows that age. -/
theorem map {f : AuthToken → AuthToken} (h : SingleTokens db)
    (hrows : db'.authTokens = db.authTokens.map f) (hages : ∀ row ∈ db.authTokens, row.Ages (f row))
    (hnext : db.nextId ≤ db'.nextId) : SingleTokens db' := by
  refine ⟨⟨?_, fun row hrow => ?_⟩, ?_, fun row hrow htype => ?_, ?_⟩
  · have hids : db'.authTokens.map AuthToken.id = db.authTokens.map AuthToken.id := by
      rw [hrows, List.map_map]
      exact List.map_congr_left fun row hrow => (hages row hrow).id
    rw [hids]
    exact h.ids.nodup
  · rw [hrows] at hrow
    obtain ⟨old, hold, rfl⟩ := List.mem_map.mp hrow
    rw [(hages old hold).id]
    exact Nat.lt_of_lt_of_le (h.ids.lt old hold) hnext
  · have hhashes : db'.authTokens.map AuthToken.tokenHash = db.authTokens.map AuthToken.tokenHash := by
      rw [hrows, List.map_map]
      exact List.map_congr_left fun row hrow => (hages row hrow).tokenHash
    rw [hhashes]
    exact h.hashes
  · rw [hrows] at hrow
    obtain ⟨old, hold, rfl⟩ := List.mem_map.mp hrow
    rw [(hages old hold).type] at htype
    rw [(hages old hold).maxUses]
    exact h.once old hold htype
  · rw [hrows, List.pairwise_map]
    refine h.revoked.imp_of_mem fun {row later} hrow hlater hrevoked => ?_
    rw [(hages row hrow).type, (hages row hrow).userId, (hages later hlater).type,
      (hages later hlater).userId]
    exact fun htype htypes husers => (hages row hrow).revoked (hrevoked htype htypes husers)

/-- One more row, its id and its hash new. -/
theorem concat {d : AuthTokenDraft} (h : SingleTokens db) (hlegal : Legal db (.insertAuthToken d))
    (hnew : (db.authTokens.any fun row => row.tokenHash = d.tokenHash) = false)
    (hrows : db'.authTokens = db.authTokens ++ [d.toRow db.nextId db.now])
    (hnext : db'.nextId = db.nextId + 1) : SingleTokens db' := by
  refine ⟨?_, ?_, fun row hrow htype => ?_, ?_⟩
  · rw [hrows, hnext]
    exact h.ids.concat rfl
  · rw [hrows, List.map_append, List.nodup_append]
    refine ⟨h.hashes, List.nodup_singleton _, fun hash hmem hash' hmem' heq => ?_⟩
    obtain ⟨row, hrow, rfl⟩ := List.mem_map.mp hmem
    rw [List.map_singleton, List.mem_singleton] at hmem'
    exact List.any_eq_false.mp hnew row hrow (decide_eq_true (heq.trans hmem'))
  · rw [hrows, List.mem_append, List.mem_singleton] at hrow
    obtain hrow | rfl := hrow
    · exact h.once row hrow htype
    · exact (hlegal htype).1
  · rw [hrows, List.pairwise_append]
    refine ⟨h.revoked, List.pairwise_singleton _ _, fun row hrow later hlater htype htypes husers => ?_⟩
    obtain rfl := List.mem_singleton.mp hlater
    have htype' : d.type ≠ .invite := fun h => htype (htypes ▸ h)
    exact (hlegal htype').2 row hrow htypes.symm husers.symm

/-- A legal call keeps the table, and its rows age. -/
theorem call {c : Call} (h : SingleTokens db) (hlegal : Legal db c) :
    SingleTokens (exec c db).2 ∧ Grown db (exec c db).2 := by
  cases hwrites : writesTokens c with
  | false =>
    obtain ⟨hrows, hnext, hnow⟩ := exec_keepsTokens hwrites db
    exact ⟨h.map (f := id) (by rw [hrows, List.map_id]) (fun row _ => .refl row) hnext, .of_eq hrows hnow⟩
  | true =>
    cases c with
    | saveAuthToken row =>
      obtain ⟨old, hold, hages⟩ := hlegal
      have hrow : ∀ r ∈ db.authTokens, r.Ages (if r.id = row.id then row else r) := by
        intro r hr
        split
        · next hid => exact h.ids.eq_of_id_eq hr hold (hid.trans hages.id) ▸ hages
        · exact .refl r
      exact ⟨h.map rfl hrow le_rfl, .of_map rfl hrow le_rfl⟩
    | revokeAuthTokens type userId =>
      have hrow : ∀ r ∈ db.authTokens, r.Ages
          (if r.type = type ∧ (∃ u, userId = some u ∧ r.userId = some u) ∧ r.revokedAt = none then
            { r with revokedAt := some db.now }
          else r) := by
        intro r _
        split
        · exact ⟨rfl, rfl, rfl, rfl, rfl, rfl, le_rfl, fun _ => rfl⟩
        · exact .refl r
      exact ⟨h.map rfl hrow le_rfl, .of_map rfl hrow le_rfl⟩
    | insertAuthToken d =>
      simp only [exec]
      cases hnew : db.authTokens.any fun row => row.tokenHash = d.tokenHash with
      | true => exact ⟨h, .refl db⟩
      | false =>
        exact ⟨h.concat hlegal hnew rfl rfl, ⟨id, _, by rw [List.map_id]; rfl, fun row _ => .refl row⟩, le_rfl⟩
    | _ => cases hwrites

end SingleTokens

/-! ## The requests -/

section Lawful

variable {pl cfg} {α β : Type} {t : Timeline}

/-- What the program does to the table is legal. -/
abbrev Lawful (Q : α → Timeline → Prop) (p : M α) (t : Timeline) : Prop :=
  Prog.Guards timelineExec (fun _ => True) Eq (fun t c => Legal t.1 c) Q p t

theorem lawful_perform {c : Call} {Q : c.Answer → Timeline → Prop} (hlegal : Legal t.1 c)
    (hQ : ∀ a t', (exec c t.1).1 = .ok a → t'.1.authTokens = (exec c t.1).2.authTokens → Q a t') :
    Lawful Q (perform c) t := by
  refine Prog.guards_perform fun t' _ ht => ?_
  subst ht
  refine ⟨hlegal, fun a ha => ?_⟩
  obtain ⟨hok, hsame | ⟨m, hm⟩⟩ := amid_ok ha
  · exact hQ a _ hok (by rw [hsame])
  · exact hQ a _ hok (by rw [hm]; rfl)

/-- A call that leaves the table alone. -/
theorem lawful_read {c : Call} (h : writesTokens c = false) :
    Lawful (fun a t' => (exec c t.1).1 = .ok a ∧ t'.1.authTokens = t.1.authTokens) (perform c) t := by
  refine lawful_perform ?_ fun a t' ha ht' => ⟨ha, ht'.trans (exec_keepsTokens h t.1).1⟩
  cases c with
  | saveAuthToken row => cases h
  | insertAuthToken d => cases h
  | _ => trivial

theorem lawful_skip {c : Call} {Q : β → Timeline → Prop} {f : c.Answer → M β} (h : writesTokens c = false)
    (hf : ∀ a t', t'.1.authTokens = t.1.authTokens → Lawful Q (f a) t') :
    Lawful Q (perform c >>= f) t :=
  Prog.guards_bind (lawful_read h) fun a t' ha => hf a t' ha.2

theorem lawful_require {Q : β → Timeline → Prop} {a : Option α} {e : RpcError} {f : α → M β}
    (hf : ∀ x, a = some x → Lawful Q (f x) t) : Lawful Q (require a e >>= f) t := by
  cases a with
  | none => trivial
  | some x => exact hf x rfl

theorem lawful_rejectIf {Q : β → Timeline → Prop} {condition : Prop} [Decidable condition] {e : RpcError}
    {f : Unit → M β} (hf : Lawful Q (f ()) t) : Lawful Q (rejectIf condition e >>= f) t := by
  unfold rejectIf
  split
  · trivial
  · exact hf

theorem lawful_map {f : α → β} {p : M α} (hp : Lawful (fun _ _ => True) p t) :
    Lawful (fun _ _ => True) (f <$> p) t := Prog.guards_bind hp fun _ _ _ => trivial

theorem lawful_issueToken {input : IssueInput}
    (h : input.type ≠ .invite → input.maxUses = 1 ∧ ∃ u, input.userId = some u) :
    Lawful (fun _ _ => True) (issueToken pl input) t := by
  have hinsert : ∀ t' : Timeline,
      (input.type ≠ .invite → ∀ row ∈ t'.1.authTokens, row.type = input.type → row.userId = input.userId →
        row.revokedAt.isSome = true) →
      Lawful (fun _ _ => True) (do
        let raw := pl.randomBytes (← perform .newId)
        let now ← perform .newDate
        perform (.insertAuthToken
          { type := input.type
            tokenHash := pl.sha256 raw
            email := input.email
            userId := input.userId
            createdByUserId := input.createdByUserId
            maxUses := input.maxUses
            expiresAt := now + ms input.ttlMs })
        return raw : M Text) t' := by
    intro t' hrevoked
    refine lawful_skip rfl fun id t₁ h₁ => lawful_skip rfl fun now t₂ h₂ => ?_
    refine Prog.guards_bind (lawful_perform (Q := fun _ _ => True) ?_ fun _ _ _ _ => trivial)
      fun _ _ _ => trivial
    intro htype
    rw [h₂, h₁]
    exact ⟨(h htype).1, hrevoked htype⟩
  unfold issueToken
  split
  · next hmail =>
    refine Prog.guards_bind (lawful_perform (Q := fun _ t' => ∀ row ∈ t'.1.authTokens,
      row.type = input.type → row.userId = input.userId → row.revokedAt.isSome = true) trivial ?_)
      fun _ t' ht' => hinsert t' fun _ => ht'
    intro _ t' _ ht' row hrow htype huser
    have hne : input.type ≠ .invite := by
      intro hinvite
      rcases hmail with hmail | hmail <;> exact absurd (hmail.symm.trans hinvite) nofun
    obtain ⟨_, u, hu⟩ := h hne
    rw [ht'] at hrow
    obtain ⟨old, _, rfl⟩ := List.mem_map.mp hrow
    split
    · rfl
    · next hkept =>
      rw [if_neg hkept] at htype huser
      refine Option.isSome_iff_ne_none.mpr fun hnone => hkept ⟨htype, ⟨u, hu, ?_⟩, hnone⟩
      exact huser.trans hu
  · next hinvite =>
    refine hinsert t fun htype => absurd ?_ hinvite
    cases hinput : input.type with
    | emailVerify => exact .inl rfl
    | passwordReset => exact .inr rfl
    | invite => exact absurd hinput htype

/-- The row that is found, as the table has it. -/
structure Found (pl : Platform) (raw : Text) (type : AuthTokenType) (row : AuthToken) (db : Db) : Prop where
  mem : row ∈ db.authTokens
  tokenHash : row.tokenHash = pl.sha256 raw
  type : row.type = type

theorem Found.ages {raw : Text} {type : AuthTokenType} {row row' : AuthToken} {db db' : Db}
    (h : Found pl raw type row db) (hmem : row' ∈ db'.authTokens) (hages : row.Ages row') :
    Found pl raw type row' db' := ⟨hmem, hages.tokenHash.trans h.tokenHash, hages.type.trans h.type⟩

theorem lawful_findValidToken {raw : Text} {type : AuthTokenType} :
    Lawful (fun found t' => ∀ row ∈ found, Found pl raw type row t'.1) (findValidToken pl raw type) t := by
  unfold findValidToken
  split
  · exact fun row hrow => nomatch hrow
  · refine Prog.guards_bind (lawful_read rfl) fun found t' ht' => ?_
    cases found with
    | none => exact fun row hrow => nomatch hrow
    | some found =>
      have hfound := Except.ok.inj ht'.1
      have hmatch := List.find?_some hfound
      simp only [decide_eq_true_eq] at hmatch
      dsimp only
      split
      · exact fun row hrow => nomatch hrow
      · refine lawful_skip rfl fun now t₁ h₁ => ?_
        split
        · exact fun row hrow => nomatch hrow
        · split
          · exact fun row hrow => nomatch hrow
          · intro row hrow
            cases hrow
            refine ⟨?_, hmatch.1, hmatch.2⟩
            rw [h₁, ht'.2]
            exact List.mem_of_find?_eq_some hfound

theorem lawful_countUse {record : AuthToken} (h : record ∈ t.1.authTokens) :
    Lawful (fun row t' => row ∈ t'.1.authTokens ∧ record.Ages row ∧ 1 ≤ row.usedCount) (countUse record) t := by
  have hsave : ∀ (t' : Timeline) (row : AuthToken), t'.1.authTokens = t.1.authTokens → record.Ages row →
      1 ≤ row.usedCount →
      Lawful (fun row t' => row ∈ t'.1.authTokens ∧ record.Ages row ∧ 1 ≤ row.usedCount) (do
        perform (.saveAuthToken row)
        return row : M AuthToken) t' := by
    intro t' row ht' hages hused
    have hmem : record ∈ t'.1.authTokens := by
      rw [ht']
      exact h
    refine Prog.guards_bind (lawful_perform (Q := fun _ t₁ => row ∈ t₁.1.authTokens) ⟨record, hmem, hages⟩
      fun _ t₁ _ h₁ => ?_) fun _ _ hrow => ⟨hrow, hages, hused⟩
    rw [h₁]
    exact mem_replaceRow_iff.mpr (.inl ⟨rfl, record, hmem, hages.id.symm⟩)
  unfold countUse
  simp only [pure_bind]
  split
  · refine lawful_skip rfl fun now t' ht' => hsave t' _ ht' ?_ (Nat.le_add_left _ _)
    exact ⟨rfl, rfl, rfl, rfl, rfl, rfl, Nat.le_succ _, fun _ => rfl⟩
  · exact hsave t _ rfl ⟨rfl, rfl, rfl, rfl, rfl, rfl, Nat.le_succ _, fun h => h⟩ (Nat.le_add_left _ _)

theorem lawful_consumeToken {raw : Text} {type : AuthTokenType} :
    Lawful (fun row t' => Found pl raw type row t'.1 ∧ 1 ≤ row.usedCount) (consumeToken pl raw type) t :=
  Prog.guards_bind lawful_findValidToken fun _ _ hfound =>
    lawful_require fun record hrecord =>
      (lawful_countUse (hfound record hrecord).mem).mono fun _ _ ⟨hmem, hages, hused⟩ =>
        ⟨(hfound record hrecord).ages hmem hages, hused⟩

theorem lawful_issueInvite {input : IssueInput} (hinvite : input.type = .invite) :
    Lawful (fun _ _ => True) (do
      let raw ← issueToken pl input
      match ← perform (.findAuthTokenByHash (pl.sha256 raw)) with
      | none => .fail .entityNotFound
      | some saved => return toInviteView cfg saved (some raw) : M InviteView) t := by
  refine Prog.guards_bind (lawful_issueToken fun htype => absurd hinvite htype) fun raw t₁ _ => ?_
  refine lawful_skip rfl fun found t₂ _ => ?_
  cases found <;> trivial

variable (pl cfg) in
theorem TokenOp.lawful (op : TokenOp) (t : Timeline) :
    Lawful (fun _ _ => True) (op.program pl cfg) t := by
  cases op with
  | requestEmailVerification u =>
    refine lawful_map (lawful_skip rfl fun found t₁ _ => lawful_require fun user _ => ?_)
    split
    · trivial
    · refine Prog.guards_bind (lawful_issueToken fun _ => ⟨rfl, user.id, rfl⟩) fun raw t₂ _ => ?_
      exact lawful_skip rfl fun _ _ _ => trivial
  | verifyEmail token =>
    refine lawful_map (Prog.guards_bind lawful_consumeToken fun record t₁ _ => ?_)
    refine lawful_require fun u _ => lawful_skip rfl fun found t₂ _ => lawful_require fun user _ => ?_
    exact lawful_skip rfl fun _ _ _ => trivial
  | forgotPassword email =>
    refine lawful_map (lawful_skip rfl fun found t₁ _ => ?_)
    cases found with
    | none => trivial
    | some user =>
      dsimp only
      split
      · trivial
      · refine Prog.guards_bind (lawful_issueToken fun _ => ⟨rfl, user.id, rfl⟩) fun raw t₂ _ => ?_
        exact lawful_skip rfl fun _ _ _ => trivial
  | resetPassword token passwordHash =>
    refine lawful_map (Prog.guards_bind lawful_consumeToken fun record t₁ _ => ?_)
    refine lawful_require fun u _ => lawful_skip rfl fun found t₂ _ => lawful_require fun user _ => ?_
    exact lawful_skip rfl fun _ _ _ => trivial
  | createInvite p =>
    refine lawful_map ?_
    unfold Accounts.createInvite
    dsimp only
    split
    · exact lawful_issueInvite rfl
    · exact lawful_skip rfl fun existing t₁ _ => lawful_rejectIf (lawful_issueInvite rfl)
  | listInvites => exact lawful_map (lawful_skip rfl fun _ _ _ => trivial)
  | getInvite token =>
    refine lawful_map (Prog.guards_bind lawful_findValidToken fun found t₁ _ => ?_)
    cases found <;> trivial
  | assertInviteForRegister token email =>
    refine lawful_map (Prog.guards_bind lawful_findValidToken fun found t₁ _ => ?_)
    exact lawful_require fun record _ => lawful_rejectIf trivial
  | consumeInvite id =>
    refine Prog.guards_bind (lawful_read rfl) fun found t₁ h₁ => ?_
    cases found with
    | none => trivial
    | some record =>
      have hrecord : record ∈ t₁.1.authTokens := by
        rw [h₁.2]
        exact List.mem_of_find?_eq_some (Except.ok.inj h₁.1)
      exact Prog.guards_bind (lawful_countUse hrecord) fun _ _ _ => trivial
  | revokeInvite id =>
    refine lawful_map (Prog.guards_bind (lawful_read rfl) fun found t₁ h₁ => ?_)
    refine lawful_require fun record hrecord => lawful_skip rfl fun now t₂ h₂ => ?_
    refine Prog.guards_bind (lawful_perform (Q := fun _ _ => True) ⟨record, ?_, ?_⟩ fun _ _ _ _ => trivial)
      fun _ _ _ => trivial
    · obtain ⟨hfound, _⟩ := Option.filter_eq_some_iff.mp hrecord
      rw [hfound] at h₁
      rw [h₂, h₁.2]
      exact List.mem_of_find?_eq_some (Except.ok.inj h₁.1)
    · exact ⟨rfl, rfl, rfl, rfl, rfl, rfl, le_rfl, fun _ => rfl⟩

end Lawful

/-! ## Runs -/

section Runs

variable {pl cfg} {α β : Type} {t : Timeline} {type : AuthTokenType} {userId raw raw' : Text}

/-- Legal calls keep the table, and its rows age, whatever happens meanwhile. -/
theorem SingleTokens.calls {p : M α} {base : Db}
    (hp : Prog.Calls timelineExec (fun t c => Legal t.1 c) p t) (h : SingleTokens t.1)
    (hbase : Grown base t.1) :
    SingleTokens (Prog.run timelineExec p t).2.1 ∧ Grown base (Prog.run timelineExec p t).2.1 := by
  refine hp.preserves (I := fun t => SingleTokens t.1 ∧ Grown base t.1) (fun t c hlegal ht => ?_) ⟨h, hbase⟩
  refine amid_keeps (I := fun db => SingleTokens db ∧ Grown base db) (fun ⟨hsingle, hgrown⟩ => ?_)
    (fun m db ⟨hsingle, hgrown⟩ => ?_) ht
  · exact ⟨(hsingle.call hlegal).1, hgrown.trans (hsingle.call hlegal).2⟩
  · exact ⟨hsingle.map (f := id) (List.map_id _).symm (fun row _ => .refl row) le_rfl,
      hgrown.trans (.of_eq rfl (Nat.le_add_right _ _))⟩

variable (pl cfg) in
theorem TokenOp.calls (op : TokenOp) (t : Timeline) :
    Prog.Calls timelineExec (fun t c => Legal t.1 c) (op.program pl cfg) t :=
  (op.lawful pl cfg t).calls (fun _ => rfl) (fun _ _ _ _ => trivial) trivial

variable (pl cfg) in
theorem SingleTokens.run {base : Db} (ops : List TokenOp) (h : SingleTokens t.1) (hbase : Grown base t.1) :
    SingleTokens (after pl cfg ops t) ∧ Grown base (after pl cfg ops t) := by
  induction ops generalizing t with
  | nil => exact ⟨h, hbase⟩
  | cons op ops ih =>
    obtain ⟨hsingle, hgrown⟩ := SingleTokens.calls (op.calls pl cfg t) h hbase
    exact ih hsingle hgrown

/-! ## Tokens that are refused -/

theorem run_findValidToken (db : Db) :
    Prog.run exec (findValidToken pl raw type) db = (.ok (db.validToken pl raw type), db) := by
  obtain ⟨e, hfault, _⟩ | ⟨m, _, hrun⟩ := findValidToken_cases (fun _ => none) 0 pl db raw type
  · cases hfault
  have halone : ∃ m', 0 ≤ m' ∧ Prog.run (authExec fun _ => none) (findValidToken pl raw type) (db, 0) =
      ((Prog.run exec (findValidToken pl raw type) db).1,
        ((Prog.run exec (findValidToken pl raw type) db).2, m')) :=
    Prog.run_faulty_of_none (fun _ _ => rfl) (findValidToken pl raw type) db
  obtain ⟨m', _, hsame⟩ := halone
  rw [hrun] at hsame
  simp only [Prod.mk.injEq] at hsame
  exact Prod.ext hsame.1.symm hsame.2.1.symm

theorem accepts_iff {db : Db} (h : SingleTokens db) : Accepts pl type raw db ↔
    16 ≤ Js.length raw ∧ ∃ row ∈ db.authTokens, row.tokenHash = pl.sha256 raw ∧ row.type = type ∧
      row.revokedAt = none ∧ jsDate db.now ≤ row.expiresAt ∧ row.usedCount < row.maxUses := by
  unfold Accepts
  rw [run_findValidToken]
  unfold Db.validToken
  constructor
  · rintro ⟨row, hrow⟩
    obtain ⟨hfound, hvalid⟩ := Option.filter_eq_some_iff.mp (Except.ok.inj hrow)
    obtain ⟨hlength, hrevoked, hexpires, hused⟩ := of_decide_eq_true hvalid
    have hmatch := List.find?_some hfound
    simp only [decide_eq_true_eq] at hmatch
    obtain ⟨hhash, htype⟩ := hmatch
    exact ⟨hlength, row, List.mem_of_find?_eq_some hfound, hhash, htype, hrevoked, hexpires, hused⟩
  · rintro ⟨hlength, row, hrow, hhash, htype, hvalid⟩
    cases hfound : db.authTokens.find? fun row => row.tokenHash = pl.sha256 raw ∧ row.type = type with
    | none => exact absurd (decide_eq_true ⟨hhash, htype⟩) (List.find?_eq_none.mp hfound row hrow)
    | some found =>
      have hmatch := List.find?_some hfound
      simp only [decide_eq_true_eq] at hmatch
      obtain ⟨hhash', _⟩ := hmatch
      obtain rfl := List.inj_on_of_nodup_map h.hashes (List.mem_of_find?_eq_some hfound) hrow
        (hhash'.trans hhash.symm)
      exact ⟨found, congrArg Except.ok (Option.filter_some_pos (decide_eq_true ⟨hlength, hvalid⟩))⟩

/-- The row of the token is revoked, used up or expired. -/
def Spent (pl : Platform) (type : AuthTokenType) (raw : Text) (db : Db) : Prop :=
  ∃ row, Found pl raw type row db ∧
    (row.revokedAt.isSome = true ∨ row.maxUses ≤ row.usedCount ∨ row.expiresAt < jsDate db.now)

theorem Spent.not_accepts {db : Db} (hspent : Spent pl type raw db) (h : SingleTokens db) :
    ¬ Accepts pl type raw db := by
  obtain ⟨row, hfound, hwhy⟩ := hspent
  rw [accepts_iff h]
  rintro ⟨_, row', hrow', hhash, _, hrevoked, hexpires, hused⟩
  obtain rfl := List.inj_on_of_nodup_map h.hashes hrow' hfound.mem (hhash.trans hfound.tokenHash.symm)
  rcases hwhy with hwhy | hwhy | hwhy
  · rw [hrevoked] at hwhy
    cases hwhy
  · exact Nat.not_le.mpr hused hwhy
  · exact Nat.not_le.mpr hwhy hexpires

/-- No request brings the token back. -/
theorem Spent.grown {db db' : Db} (hspent : Spent pl type raw db) (h : Grown db db') :
    Spent pl type raw db' := by
  obtain ⟨row, hfound, hwhy⟩ := hspent
  obtain ⟨row', hmem, hages⟩ := h.mem hfound.mem
  refine ⟨row', hfound.ages hmem hages, ?_⟩
  rcases hwhy with hwhy | hwhy | hwhy
  · exact .inl (hages.revoked hwhy)
  · refine .inr (.inl ?_)
    rw [hages.maxUses]
    exact Nat.le_trans hwhy hages.used
  · refine .inr (.inr ?_)
    rw [hages.expiresAt]
    exact Nat.lt_of_lt_of_le hwhy (jsDate_mono h.now)

theorem mem_issuedTo {db : Db} {row : AuthToken} :
    row ∈ db.issuedTo type userId ↔ row ∈ db.authTokens ∧ row.type = type ∧ row.userId = some userId := by
  unfold Db.issuedTo
  rw [List.mem_filter, decide_eq_true_eq]

/-- A token that was issued and is refused has too few characters or is spent. -/
theorem spent_of_refused {db : Db} (h : SingleTokens db) (hissued : Issued pl type userId raw db)
    (hrefused : ¬ Accepts pl type raw db) : Js.length raw < 16 ∨ Spent pl type raw db := by
  obtain ⟨row, hrow, hhash⟩ := hissued.stored
  obtain ⟨hmem, htype, _⟩ := mem_issuedTo.mp hrow
  by_contra hcontra
  rw [not_or, Nat.not_lt] at hcontra
  obtain ⟨hlength, hspent⟩ := hcontra
  refine hrefused ((accepts_iff h).mpr ⟨hlength, row, hmem, hhash, htype, ?_, ?_, ?_⟩)
  · by_contra hrevoked
    exact hspent ⟨row, ⟨hmem, hhash, htype⟩, .inl (Option.isSome_iff_ne_none.mpr hrevoked)⟩
  · by_contra hexpires
    exact hspent ⟨row, ⟨hmem, hhash, htype⟩, .inr (.inr (Nat.not_le.mp hexpires))⟩
  · by_contra hused
    exact hspent ⟨row, ⟨hmem, hhash, htype⟩, .inr (.inl (Nat.not_lt.mp hused))⟩

theorem not_accepts_of_grown {db db' : Db} (h : SingleTokens db) (h' : SingleTokens db') (hgrown : Grown db db')
    (hissued : Issued pl type userId raw db) (hrefused : ¬ Accepts pl type raw db) :
    ¬ Accepts pl type raw db' := by
  rcases spent_of_refused h hissued hrefused with hshort | hspent
  · intro haccepts
    exact Nat.not_le.mpr hshort ((accepts_iff h').mp haccepts).1
  · exact (hspent.grown hgrown).not_accepts h'

/-! ## The latest token -/

/-- The token that is accepted is the last that was issued. -/
theorem latest_of_accepts {db : Db} (h : SingleTokens db) (hmail : type ≠ .invite)
    (hissued : Issued pl type userId raw db) (haccepts : Accepts pl type raw db) :
    (db.issuedTo type userId).getLast?.map AuthToken.tokenHash = some (pl.sha256 raw) := by
  obtain ⟨row, hrow, hhash⟩ := hissued.stored
  obtain ⟨_, row', hrow', hhash', _, hlive, _⟩ := (accepts_iff h).mp haccepts
  obtain rfl := List.inj_on_of_nodup_map h.hashes hrow' (mem_issuedTo.mp hrow).1 (hhash'.trans hhash.symm)
  obtain hnil | ⟨init, last, hlast⟩ := List.eq_nil_or_concat' (db.issuedTo type userId)
  · rw [hnil] at hrow
    exact absurd hrow List.not_mem_nil
  have hrevoked := h.revoked.filter fun row => row.type = type ∧ row.userId = some userId
  change (db.issuedTo type userId).Pairwise _ at hrevoked
  have hmem := hrow
  rw [hlast] at hrevoked hrow ⊢
  rw [List.getLast?_concat, Option.map_some]
  rw [List.mem_append, List.mem_singleton] at hrow
  obtain hinit | rfl := hrow
  · obtain ⟨_, htype, huser⟩ := mem_issuedTo.mp hmem
    obtain ⟨_, htype', huser'⟩ := mem_issuedTo.mp (hlast ▸ List.mem_append_right init List.mem_cons_self)
    have hlater := (List.pairwise_append.mp hrevoked).2.2 _ hinit last List.mem_cons_self
      (fun h => hmail (htype.symm.trans h)) (htype'.trans htype.symm) (huser'.trans huser.symm)
    rw [hlive] at hlater
    cases hlater
  · rw [hhash]

/-- A token is refused once another was issued. -/
theorem not_accepts_superseded {db db' : Db} (h' : SingleTokens db') (hgrown : Grown db db')
    (hmail : type ≠ .invite) (hissued : Issued pl type userId raw db)
    (hnew : ¬ Issued pl type userId raw' db) (hissued' : Issued pl type userId raw' db') :
    ¬ Accepts pl type raw db' := by
  obtain ⟨row, hrow, hhash⟩ := hissued.stored
  obtain ⟨hmem, htype, huser⟩ := mem_issuedTo.mp hrow
  obtain ⟨later, hlater, hhash'⟩ := hissued'.stored
  obtain ⟨hmem', htype', huser'⟩ := mem_issuedTo.mp hlater
  obtain ⟨f, new, hrows, hages⟩ := hgrown.rows
  have hf := hages row hmem
  rw [hrows] at hmem'
  obtain hold | hlater := List.mem_append.mp hmem'
  · obtain ⟨old, holdmem, rfl⟩ := List.mem_map.mp hold
    obtain ⟨_, htypes, hhashes, husers, _⟩ := hages old holdmem
    exact absurd ⟨hissued'.random, old, mem_issuedTo.mpr ⟨holdmem, htypes.symm.trans htype',
      husers.symm.trans huser'⟩, hhashes.symm.trans hhash'⟩ hnew
  have hrevoked := h'.revoked
  rw [hrows] at hrevoked
  have hspent := (List.pairwise_append.mp hrevoked).2.2 (f row) (List.mem_map_of_mem hmem) later hlater
    (fun h => hmail (htype.symm.trans (hf.type.symm.trans h)))
    (htype'.trans (htype.symm.trans hf.type.symm)) (huser'.trans (huser.symm.trans hf.userId.symm))
  refine Spent.not_accepts ⟨f row, ⟨?_, hf.tokenHash.trans hhash, hf.type.trans htype⟩, .inl hspent⟩ h'
  rw [hrows]
  exact List.mem_append_left _ (List.mem_map_of_mem hmem)

/-! ## Consumed tokens -/

/-- The token is spent when `consumeToken` returns, and stays so for the rest of the request. -/
theorem spent_of_consumed (h : SingleTokens t.1) (hmail : type ≠ .invite) {f : AuthToken → M α}
    (hlegal : Prog.Calls timelineExec (fun t c => Legal t.1 c) (consumeToken pl raw type >>= f) t)
    {record : AuthToken} (hconsumed : (Prog.run timelineExec (consumeToken pl raw type) t).1 = .ok record) :
    Spent pl type raw (Prog.run timelineExec (consumeToken pl raw type >>= f) t).2.1 := by
  obtain ⟨t', hrun⟩ : ∃ t', Prog.run timelineExec (consumeToken pl raw type) t = (.ok record, t') :=
    ⟨_, Prod.ext hconsumed rfl⟩
  have hsingle : SingleTokens t'.1 := by
    have hkeeps := (SingleTokens.calls hlegal.bind_left h (.refl t.1)).1
    rw [hrun] at hkeeps
    exact hkeeps
  obtain ⟨hfound, hused⟩ := lawful_consumeToken.run_ok (fun _ => rfl) (fun _ _ _ _ => trivial) trivial hrun
  have hspent : Spent pl type raw t'.1 := by
    refine ⟨record, hfound, .inr (.inl ?_)⟩
    rw [hsingle.once record hfound.mem (hfound.type ▸ hmail)]
    exact hused
  rw [Prog.run_bind_ok timelineExec hrun]
  exact hspent.grown (SingleTokens.calls (hlegal.bind_right hrun) hsingle (.refl t'.1)).2

variable (cfg) in
theorem Consumes.spent {op : TokenOp} (hconsumes : Consumes pl type raw t op) (h : SingleTokens t.1) :
    Spent pl type raw (tokenStep pl cfg op t).1 := by
  have hlegal := op.calls pl cfg t
  cases op with
  | verifyEmail token =>
    obtain ⟨rfl, rfl, row, hrow⟩ := hconsumes
    change Prog.Calls _ _ (verifyEmail pl token >>= fun _ => pure ()) t at hlegal
    unfold verifyEmail at hlegal
    rw [bind_assoc] at hlegal
    have hspent := spent_of_consumed h (show AuthTokenType.emailVerify ≠ .invite from nofun) hlegal hrow
    rw [← bind_assoc] at hspent
    exact hspent
  | resetPassword token passwordHash =>
    obtain ⟨rfl, rfl, row, hrow⟩ := hconsumes
    change Prog.Calls _ _ (resetPasswordHash pl token passwordHash >>= fun _ => pure ()) t at hlegal
    unfold resetPasswordHash at hlegal
    rw [bind_assoc] at hlegal
    have hspent := spent_of_consumed h (show AuthTokenType.passwordReset ≠ .invite from nofun) hlegal hrow
    rw [← bind_assoc] at hspent
    exact hspent
  | _ => exact hconsumes.elim

end Runs

/-- At any time in any run of the token service at most one of the tokens of a type sent to a user is
accepted, the one issued last, and a token that was superseded, consumed or has expired is never accepted
again. -/
theorem latestOnly (hdistinct : ∀ m n, pl.sha256 (pl.randomBytes m) = pl.sha256 (pl.randomBytes n) →
      pl.randomBytes m = pl.randomBytes n)
    {type : AuthTokenType} (hmail : type ≠ .invite) (userId : Text) (ops : List TokenOp) {t : Timeline}
    (hempty : t.1.authTokens = []) : LatestOnly pl cfg type userId ops t := by
  have hsingle : SingleTokens (after pl cfg ops t) := ((SingleTokens.empty hempty).run pl cfg ops (.refl t.1)).1
  have hlater : ∀ later, SingleTokens (after pl cfg (ops ++ later) t) ∧
      Grown (after pl cfg ops t) (after pl cfg (ops ++ later) t) := by
    intro later
    have hrun := SingleTokens.run pl cfg later (t := Runs.final (tokenStep pl cfg) ops t) hsingle (.refl _)
    unfold after
    rw [Runs.final_append]
    exact hrun
  refine ⟨?_, ?_, ?_, ?_, ?_, ?_⟩
  · intro raw raw' hraw hraw' haccepts haccepts'
    obtain ⟨m, rfl⟩ := hraw.random
    obtain ⟨n, rfl⟩ := hraw'.random
    have hlast := latest_of_accepts hsingle hmail hraw haccepts
    rw [latest_of_accepts hsingle hmail hraw' haccepts'] at hlast
    exact hdistinct m n (Option.some.inj hlast).symm
  · exact fun raw => latest_of_accepts hsingle hmail
  · intro raw raw' later hraw hnew hraw'
    exact not_accepts_superseded (hlater later).1 (hlater later).2 hmail hraw hnew hraw'
  · intro raw op later _ hconsumes
    have hstep : after pl cfg (ops ++ op :: later) t =
        after pl cfg later (tokenStep pl cfg op (Runs.final (tokenStep pl cfg) ops t)) := by
      unfold after
      rw [Runs.final_append]
      rfl
    have hop := SingleTokens.run pl cfg [op] (t := Runs.final (tokenStep pl cfg) ops t) hsingle (.refl _)
    have hspent := hconsumes.spent cfg hsingle
    obtain ⟨hend, hgrown⟩ := SingleTokens.run pl cfg later hop.1 (.refl _)
    rw [hstep]
    exact (hspent.grown hgrown).not_accepts hend
  · rintro raw later ⟨row, hrow, hhash, hexpired⟩
    obtain ⟨hmem, htype, _⟩ := mem_issuedTo.mp hrow
    have hspent : Spent pl type raw (after pl cfg ops t) :=
      ⟨row, ⟨hmem, hhash, htype⟩, .inr (.inr hexpired)⟩
    exact (hspent.grown (hlater later).2).not_accepts (hlater later).1
  · intro raw later hraw hrefused
    exact not_accepts_of_grown hsingle (hlater later).1 (hlater later).2 hraw hrefused

/-- Two requests for one user: the second token is accepted. -/
theorem latestOnly_twoResets :
    LatestOnly .toy .toy .passwordReset "u".toList
      [.forgotPassword "a@b.c".toList, .forgotPassword "a@b.c".toList] (oneSession, []) ∧
    Accepts .toy .passwordReset (Platform.toy.randomBytes 3)
      (after .toy .toy [.forgotPassword "a@b.c".toList, .forgotPassword "a@b.c".toList] (oneSession, [])) :=
  ⟨latestOnly .toy .toy (fun _ _ h => (List.cons.inj h).2)
    (show AuthTokenType.passwordReset ≠ .invite from nofun) _ _ rfl, _, rfl⟩

end Relay.Accounts
