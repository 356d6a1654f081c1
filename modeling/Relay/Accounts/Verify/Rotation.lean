import Relay.Accounts.Verify.Tokens
import Relay.Accounts.Verify.Programs

/-!
# Rotation of refresh tokens

A refresh locks the row of its token, checks it, revokes it and stores the next token, all in one
transaction. `rotation` is the protocol of a request: a refresh goes through the stages in turn, and the
other requests make no call of a transaction. `Rotations` says what the stages know about the stored rows:
a row that a transaction holds is not revoked, nobody else can change it, and once the transaction is
committed the row is revoked for good.
-/

namespace Relay.Accounts

open Relay.Lib Relay.Lib.Rows Relay.Auth

/-- How far a refresh has come. -/
inductive Rotation where
  | start
  | opened (tx : Nat)
  /-- The row is not there or not acceptable. -/
  | refused (tx : Nat)
  | holding (tx : Nat) (row : RefreshTokenRow)
  | saved (tx : Nat) (row : RefreshTokenRow)
  | inserted (tx : Nat) (row : RefreshTokenRow)
  | accepted
  | closed
deriving DecidableEq

namespace Rotation

/-- The open transaction. -/
def tx : Rotation → Option Nat
  | opened tx | refused tx | holding tx _ | saved tx _ | inserted tx _ => some tx
  | start | accepted | closed => none

/-- The calls that may come next in a refresh of the token with the hash. -/
def Allowed (tokenHash : Option Text) : Rotation → Call → Prop
  | start, c => c.inTx = false ∨ c = .beginTx ∧ tokenHash.isSome
  | opened tx, c => ∃ hash, tokenHash = some hash ∧ c = .lockToken tx hash
  | refused tx, c => c = .rollbackTx tx
  | holding tx row, c => c = .newDate ∨ c = .saveTokenIn tx { row with revoked := true } ∨
      c = .rollbackTx tx
  | saved tx _, c => c = .newDate ∨ c = .newId ∨ (∃ d, c = .insertRefreshTokenIn tx d) ∨
      c = .rollbackTx tx
  | inserted tx _, c => c = .commitTx tx
  | accepted, _ => False
  | closed, _ => False

def next : Rotation → (c : Call) → Except Failure c.Answer → Rotation
  | start, .beginTx, .ok tx => opened tx
  | opened tx, .lockToken _ _, .ok (some (row, _)) =>
    if row.revoked then refused tx else holding tx row
  | opened tx, .lockToken _ _, _ => refused tx
  | holding tx row, .saveTokenIn _ _, .ok () => saved tx row
  | saved tx row, .insertRefreshTokenIn _ _, .ok () => inserted tx row
  | inserted _ _, .commitTx _, .ok () => accepted
  | _, .commitTx _, _ => closed
  | _, .rollbackTx _, _ => closed
  | g, _, _ => g

end Rotation

/-- The hash of the token a request refreshes. -/
def Op.rotates (pl : Platform) : Op → Option Text
  | .refresh p => some (pl.sha256 p.refreshToken)
  | _ => none

def rotation (pl : Platform) : Protocols Op Rotation := fun op =>
  { allowed := Rotation.Allowed (op.rotates pl)
    next := Rotation.next
    answers := fun _ _ => True }

/-- A refresh that succeeds has been accepted. -/
def Rotates (op : Op) (r : Except Failure Response) (g : Rotation) : Prop :=
  ∀ p a, op = .refresh p → r = .ok a → g = .accepted

/-! ## The programs -/

section Programs

variable {α β : Type} (cfg : Config)

theorem Rotation.next_of_not_inTx {g : Rotation} {c : Call} (h : c.inTx = false)
    (r : Except Failure c.Answer) : g.next c r = g := by
  cases c <;> first | (cases h; done) | cases g <;> rfl

variable {pl : Platform} {p : RefreshPayload}

/-- The transaction may be rolled back. -/
def Rotation.CanRollBack (tx : Nat) (g : Rotation) : Prop :=
  g.tx = some tx ∧ g ≠ .opened tx ∧ ∀ row, g ≠ .inserted tx row

/-- How far the body of the transaction gets. -/
def Rotated (tx : Nat) (r : Except Failure AuthResult) (g : Rotation) : Prop :=
  match r with
  | .ok _ => ∃ row, g = .inserted tx row
  | .error _ => g.CanRollBack tx

theorem issueTokensIn_follows (user : AuthUser) (tx : Nat) (row : RefreshTokenRow) :
    Prog.Follows (rotation pl (.refresh p)) (fun r g => match r with
        | .ok _ => g = .inserted tx row
        | .error _ => g = .saved tx row)
      (issueTokens pl cfg user p.ip p.userAgent fun d => perform (.insertRefreshTokenIn tx d))
      (.saved tx row) := by
  refine follows_issueTokens ⟨.inl rfl, fun _ _ => rfl⟩ ⟨.inr (.inl rfl), fun _ _ => rfl⟩
    (fun d tokens _ _ => ?_) fun _ => rfl
  refine ⟨.inr (.inr (.inl ⟨_, rfl⟩)), fun r _ => ?_⟩
  rcases r with e | ⟨⟨⟩⟩ <;> exact rfl

/-- The lookup of the row under its lock. -/
def Locked (tx : Nat) (r : Except Failure (Option (RefreshTokenRow × AuthUser))) (g : Rotation) : Prop :=
  match r with
  | .ok (some (row, _)) => g = if row.revoked then .refused tx else .holding tx row
  | _ => g = .refused tx

/-- The save of the revoked row. -/
def Saved (tx : Nat) (row : RefreshTokenRow) (r : Except Failure Unit) (g : Rotation) : Prop :=
  match r with
  | .ok _ => g = .saved tx row
  | .error _ => g = .holding tx row

theorem canRollBack_refused (tx : Nat) : (Rotation.refused tx).CanRollBack tx := ⟨rfl, by simp, by simp⟩

theorem canRollBack_holding (tx : Nat) (row : RefreshTokenRow) : (Rotation.holding tx row).CanRollBack tx :=
  ⟨rfl, by simp, by simp⟩

theorem canRollBack_saved (tx : Nat) (row : RefreshTokenRow) : (Rotation.saved tx row).CanRollBack tx :=
  ⟨rfl, by simp, by simp⟩

theorem rotate_follows (tx : Nat) :
    Prog.Follows (rotation pl (.refresh p)) (Rotated tx) (rotate pl cfg p tx) (.opened tx) := by
  refine Prog.follows_bind (Q := Locked tx) (Prog.follows_perform ⟨_, rfl, rfl⟩ fun r _ => ?_) ?_ ?_
  · rcases r with e | _ | ⟨row, user⟩ <;> rfl
  · rintro (_ | ⟨row, user⟩) g hg
    · cases hg
      exact canRollBack_refused tx
    · change g = _ at hg
      refine follows_rejectIf (fun hrevoked => ?_) fun _ => ?_
      · rw [if_neg hrevoked] at hg
        subst hg
        have hback := canRollBack_holding tx row
        refine Prog.follows_skip (.inl rfl) (fun _ _ => rfl) (fun now _ => ?_) fun _ => hback
        refine follows_rejectIf (fun _ => follows_rejectIf (fun _ => ?_) fun _ => hback) fun _ => hback
        refine Prog.follows_bind (Q := Saved tx row) (Prog.follows_perform (.inr (.inl rfl)) fun r _ => ?_)
          ?_ ?_
        · rcases r with e | ⟨⟨⟩⟩ <;> rfl
        · intro _ g hg
          cases hg
          refine Prog.follows_bind (issueTokensIn_follows cfg user tx row) ?_ ?_
          · intro tokens g hg
            exact ⟨row, hg⟩
          · intro e g hg
            subst hg
            exact canRollBack_saved tx row
        · intro e g hg
          cases hg
          exact hback
      · split at hg <;> subst hg
        · exact canRollBack_refused tx
        · exact canRollBack_holding tx row
  · intro e g hg
    cases hg
    exact canRollBack_refused tx

theorem follows_rollback {g : Rotation} {tx : Nat} (hg : g.CanRollBack tx) {e : Failure}
    {Q : Except Failure α → Rotation → Prop} (hQ : ∀ e g, Q (.error e) g) :
    Prog.Follows (rotation pl (.refresh p)) Q (do perform (.rollbackTx tx); .fail e) g := by
  obtain ⟨htx, hopened, hinserted⟩ := hg
  have hallowed : Rotation.Allowed (some (pl.sha256 p.refreshToken)) g (.rollbackTx tx) := by
    cases g with
    | opened tx' =>
      cases htx
      exact absurd rfl hopened
    | inserted tx' row =>
      cases htx
      exact absurd rfl (hinserted row)
    | refused tx' =>
      cases htx
      rfl
    | holding tx' row =>
      cases htx
      exact .inr (.inr rfl)
    | saved tx' row =>
      cases htx
      exact .inr (.inr (.inr rfl))
    | _ => cases htx
  exact Prog.follows_bind (Q := fun _ _ => True) (Prog.follows_perform hallowed fun _ _ => trivial)
    (fun _ g _ => hQ e g) fun e g _ => hQ e g

theorem refresh_follows (p : RefreshPayload) :
    Prog.Follows (rotation pl (.refresh p)) (Rotates (.refresh p))
      ((Op.refresh p).program pl cfg) .start := by
  have herror : ∀ (e : Failure) (g : Rotation), Rotates (.refresh p) (.error e) g := fun _ _ => nofun
  refine Prog.follows_bind (Q := fun r g => ∀ a, r = .ok a → g = .accepted) ?_
    (fun a g hg _ _ _ _ => hg a rfl) fun _ _ _ => herror _ _
  refine Prog.follows_skip (.inl rfl) (fun _ _ => rfl) (fun now _ => ?_) fun _ => nofun
  refine follows_rejectIf (fun _ => ?_) fun _ => nofun
  refine Prog.follows_bind (Q := fun r g => ∀ tx, r = .ok tx → g = .opened tx)
    (Prog.follows_perform (.inr ⟨rfl, rfl⟩) fun r _ => ?_) ?_ fun _ _ _ => nofun
  · rintro tx rfl
    rfl
  rintro tx g hg
  obtain rfl := hg tx rfl
  refine Prog.follows_bind (Q := fun r g => ∀ r', r = .ok r' → Rotated tx r' g)
    (Prog.Follows.attempt ((rotate_follows cfg tx).mono fun r g hg r' hr' => ?_)) ?_
    fun _ _ _ => nofun
  · cases hr'
    exact hg
  rintro (e | a) g hg
  · exact follows_rollback (hg _ rfl) fun _ _ => nofun
  · obtain ⟨row, rfl⟩ := hg _ rfl
    refine Prog.follows_bind (Q := fun r g => ∀ u, r = .ok u → g = .accepted)
      (Prog.follows_perform rfl fun r _ => ?_) (fun u g hg a ha => hg u rfl) fun _ _ _ => nofun
    rintro u rfl
    rfl

theorem Op.rotation_follows (op : Op) :
    Prog.Follows (rotation pl op) (Rotates op) (op.program pl cfg) .start := by
  by_cases hop : ∃ p, op = .refresh p
  · obtain ⟨p, rfl⟩ := hop
    exact refresh_follows cfg p
  · refine (Prog.follows_of_sat (P := rotation pl op) (g := .start)
      (fun c hc => ⟨Or.inl hc, Rotation.next_of_not_inTx hc⟩)
      (op.outside pl cfg fun p hp => hop ⟨p, hp⟩)).mono fun r g _ p a hp _ => ?_
    exact absurd ⟨p, hp⟩ hop

end Programs

/-! ## The stored rows -/

/-- Locks, and what transactions have written. -/
structure Transactions (db : Db) : Prop where
  keys : TokenKeys db
  exclusive : ∀ id tx tx', (id, tx) ∈ db.locks → (id, tx') ∈ db.locks → tx = tx'
  pending_lt : ∀ w ∈ db.pending, w.1 < db.nextId

/-- The transaction holds the row of the hash, and it is not revoked. -/
structure Holds (db : Db) (tokenHash : Option Text) (tx : Nat) (row : RefreshTokenRow) : Prop where
  lt : tx < db.nextId
  stored : row ∈ db.refreshTokens
  live : row.revoked = false
  hash : tokenHash = some row.tokenHash
  locked : (row.id, tx) ∈ db.locks

/-- What a stage says about the database. -/
def Rotation.Sound (db : Db) (tokenHash : Option Text) : Rotation → Prop
  | start | closed => True
  | opened tx => tx < db.nextId ∧ db.writes tx = []
  | refused tx => tx < db.nextId
  | holding tx row => Holds db tokenHash tx row ∧ db.writes tx = []
  | saved tx row => Holds db tokenHash tx row ∧
      db.writes tx = [.save { row with revoked := true }]
  | inserted tx row => Holds db tokenHash tx row ∧
      ∃ new, db.writes tx = [.save { row with revoked := true }, .insert new]
  | accepted => ∃ hash, tokenHash = some hash ∧ Revoked db hash

structure Rotations (pl : Platform) (db : Db) (gs : List (Op × Rotation)) : Prop where
  txs : Transactions db
  sound : ∀ (i : Nat) (o : Op) (g : Rotation), gs[i]? = some (o, g) → g.Sound db (o.rotates pl)
  apart : ∀ (i j : Nat) (o : Op) (g : Rotation) (o' : Op) (g' : Rotation) (tx : Nat), i ≠ j →
    gs[i]? = some (o, g) → gs[j]? = some (o', g') → g.tx = some tx → g'.tx ≠ some tx
  once : ∀ (i j : Nat) (o o' : Op), i ≠ j → gs[i]? = some (o, .accepted) → gs[j]? = some (o', .accepted) →
    o.rotates pl ≠ o'.rotates pl

/-- What a step of one request leaves to the others; `mine` is its transaction. -/
structure Later (db db' : Db) (mine : Option Nat) : Prop where
  nextId : db.nextId ≤ db'.nextId
  revoked : ∀ hash, Revoked db hash → Revoked db' hash
  writes : ∀ tx, mine ≠ some tx → db'.writes tx = db.writes tx
  locks : ∀ id tx, mine ≠ some tx → (id, tx) ∈ db.locks → (id, tx) ∈ db'.locks
  rows : ∀ row tx, mine ≠ some tx → (row.id, tx) ∈ db.locks → row ∈ db.refreshTokens →
    row ∈ db'.refreshTokens

section Later

variable {db db' : Db} {mine : Option Nat} {tokenHash : Option Text} {tx : Nat} {row : RefreshTokenRow}

theorem Holds.later (h : Holds db tokenHash tx row) (hlater : Later db db' mine)
    (hmine : mine ≠ some tx) : Holds db' tokenHash tx row where
  lt := Nat.lt_of_lt_of_le h.lt hlater.nextId
  stored := hlater.rows row tx hmine h.locked h.stored
  live := h.live
  hash := h.hash
  locked := hlater.locks _ _ hmine h.locked

theorem Rotation.Sound.tx_lt {g : Rotation} (h : g.Sound db tokenHash) (htx : g.tx = some tx) :
    tx < db.nextId := by
  cases g with
  | opened tx' =>
    cases htx
    exact h.1
  | refused tx' =>
    cases htx
    exact h
  | holding tx' row =>
    cases htx
    exact h.1.lt
  | saved tx' row =>
    cases htx
    exact h.1.lt
  | inserted tx' row =>
    cases htx
    exact h.1.lt
  | _ => cases htx

theorem Rotation.Sound.later {g : Rotation} (h : g.Sound db tokenHash) (hlater : Later db db' mine)
    (hmine : ∀ tx, g.tx = some tx → mine ≠ some tx) : g.Sound db' tokenHash := by
  cases g with
  | start => trivial
  | closed => trivial
  | opened tx' => exact ⟨Nat.lt_of_lt_of_le h.1 hlater.nextId, (hlater.writes _ (hmine _ rfl)).trans h.2⟩
  | refused tx' => exact Nat.lt_of_lt_of_le h hlater.nextId
  | holding tx' row =>
    exact ⟨h.1.later hlater (hmine _ rfl), (hlater.writes _ (hmine _ rfl)).trans h.2⟩
  | saved tx' row =>
    exact ⟨h.1.later hlater (hmine _ rfl), (hlater.writes _ (hmine _ rfl)).trans h.2⟩
  | inserted tx' row =>
    obtain ⟨hholds, new, hwrites⟩ := h
    exact ⟨hholds.later hlater (hmine _ rfl), new, (hlater.writes _ (hmine _ rfl)).trans hwrites⟩
  | accepted =>
    obtain ⟨hash, heq, hrevoked⟩ := h
    exact ⟨hash, heq, hlater.revoked hash hrevoked⟩

/-- Two held rows of one hash, or a held row and a revoked one, would be one row. -/
theorem Holds.not_revoked (h : Holds db tokenHash tx row) (hkeys : TokenKeys db) {hash : Text}
    (hhash : tokenHash = some hash) : ¬ Revoked db hash := by
  rintro ⟨row', hrow', heq, hrevoked⟩
  have hrow := h.hash
  rw [hhash] at hrow
  cases hrow
  rw [hkeys.eq_of_hash hrow' h.stored heq, h.live] at hrevoked
  cases hrevoked

end Later

section Step

variable {pl : Platform} {db db' : Db} {gs : List (Op × Rotation)} {i : Nat} {op : Op}
  {g g' : Rotation}

/-- The invariant after a step, in which no revoked row has come to life. -/
def Onward (pl : Platform) (db db' : Db) (gs : List (Op × Rotation)) : Prop :=
  Rotations pl db' gs ∧ ∀ hash, Revoked db hash → Revoked db' hash

/-- One request moves on. -/
theorem Rotations.step (h : Rotations pl db gs) (hg : gs[i]? = some (op, g)) (htxs : Transactions db')
    (hlater : Later db db' g.tx) (hsound : g'.Sound db' (op.rotates pl))
    (htx : ∀ tx, g'.tx = some tx → g.tx = some tx ∨ db.nextId ≤ tx)
    (haccepted : g' = .accepted → ∃ tx row, Holds db (op.rotates pl) tx row) :
    Onward pl db db' (gs.set i (op, g')) := by
  refine ⟨?_, hlater.revoked⟩
  refine ⟨htxs, fun j o g₁ hj => ?_, fun j k o g₁ o' g₂ tx hjk hj hk htx₁ htx₂ => ?_,
    fun j k o o' hjk hj hk heq => ?_⟩
  · obtain ⟨_, heq⟩ | ⟨hne, hj⟩ := (getElem?_set_iff hg).mp hj
    · cases heq
      exact hsound
    · exact (h.sound j o g₁ hj).later hlater fun tx htx => h.apart j i o g₁ op g tx hne hj hg htx
  · obtain ⟨hji, hj₁⟩ | ⟨_, hj₁⟩ := (getElem?_set_iff hg).mp hj <;>
      obtain ⟨hki, hk₁⟩ | ⟨_, hk₁⟩ := (getElem?_set_iff hg).mp hk
    · exact hjk (hji.trans hki.symm)
    · cases hj₁
      obtain htx₁ | hle := htx tx htx₁
      · exact h.apart i k _ _ _ _ tx (hji ▸ hjk) hg hk₁ htx₁ htx₂
      · have hlt := (h.sound _ _ _ hk₁).tx_lt htx₂
        omega
    · cases hk₁
      obtain htx₂ | hle := htx tx htx₂
      · exact h.apart j i _ _ _ _ tx (hki ▸ hjk) hj₁ hg htx₁ htx₂
      · have hlt := (h.sound _ _ _ hj₁).tx_lt htx₁
        omega
    · exact h.apart j k _ _ _ _ tx hjk hj₁ hk₁ htx₁ htx₂
  · obtain ⟨hji, hj₁⟩ | ⟨_, hj₁⟩ := (getElem?_set_iff hg).mp hj <;>
      obtain ⟨hki, hk₁⟩ | ⟨_, hk₁⟩ := (getElem?_set_iff hg).mp hk
    · exact hjk (hji.trans hki.symm)
    · cases hj₁
      obtain ⟨tx, row, hholds⟩ := haccepted rfl
      obtain ⟨hash, hhash, hrevoked⟩ := h.sound _ _ _ hk₁
      exact hholds.not_revoked h.txs.keys (heq.trans hhash) hrevoked
    · cases hk₁
      obtain ⟨tx, row, hholds⟩ := haccepted rfl
      obtain ⟨hash, hhash, hrevoked⟩ := h.sound _ _ _ hj₁
      exact hholds.not_revoked h.txs.keys (heq.symm.trans hhash) hrevoked
    · exact h.once j k o o' hjk hj₁ hk₁ heq

/-- A step that leaves the stage of its request. -/
theorem Rotations.aside (h : Rotations pl db gs) (hg : gs[i]? = some (op, g)) (htxs : Transactions db')
    (hlater : Later db db' none) : Onward pl db db' (gs.set i (op, g)) := by
  rw [set_self hg]
  refine ⟨⟨htxs, fun j o g₁ hj => ?_, h.apart, h.once⟩, hlater.revoked⟩
  exact (h.sound j o g₁ hj).later hlater fun _ _ => nofun

/-! ### Calls outside transactions -/

theorem SameTokens.later (h : SameTokens db db') : Later db db' none where
  nextId := h.nextId
  revoked _ := h.revoked
  writes tx _ := h.writes tx
  locks _ _ _ hl := h.locks ▸ hl
  rows _ _ _ _ hrow := h.tokens ▸ hrow

theorem SameTokens.transactions (h : SameTokens db db') (ht : Transactions db) : Transactions db' where
  keys := h.keys ht.keys
  exclusive := h.locks ▸ ht.exclusive
  pending_lt w hw := Nat.lt_of_lt_of_le (ht.pending_lt w (h.pending ▸ hw)) h.nextId

theorem later_insertRefreshToken (db : Db) (d : RefreshTokenDraft) :
    Later db (exec (.insertRefreshToken d) db).2 none := by
  have hrevoked := fun hash (h : Revoked db hash) => h.insertRefreshToken d
  obtain heq | ⟨_, heq⟩ := exec_insertRefreshToken db d
  · rw [heq]
    exact ⟨le_rfl, fun _ h => h, fun _ _ => rfl, fun _ _ _ h => h, fun _ _ _ _ h => h⟩
  · rw [heq] at hrevoked ⊢
    exact ⟨Nat.le_succ _, hrevoked, fun _ _ => rfl, fun _ _ _ h => h, fun _ _ _ _ h =>
      List.mem_append_left _ h⟩

theorem Transactions.insertRefreshToken (ht : Transactions db) (d : RefreshTokenDraft) :
    Transactions (exec (.insertRefreshToken d) db).2 := by
  have hkeys := ht.keys.insertRefreshToken d
  obtain heq | ⟨_, heq⟩ := exec_insertRefreshToken db d
  · rw [heq]
    exact ht
  · rw [heq] at hkeys ⊢
    exact ⟨hkeys, ht.exclusive, fun w hw => Nat.lt_succ_of_lt (ht.pending_lt w hw)⟩

/-- A row that is locked is not written: the `UPDATE` waits. -/
theorem later_revokeTokens {ids : List Nat} (hfree : waits db (.revokeTokens ids) = false) :
    Later db (exec (.revokeTokens ids) db).2 none where
  nextId := le_rfl
  revoked _ h := h.revokeTokens ids
  writes _ _ := rfl
  locks _ _ _ h := h
  rows row tx _ hlocked hrow := by
    refine List.mem_map.mpr ⟨row, hrow, if_neg fun hid => ?_⟩
    exact List.any_eq_false.mp hfree _ hlocked (by simpa using hid)

theorem Rotations.outside (h : Rotations pl db gs) (hg : gs[i]? = some (op, g)) {c : Call}
    (hc : c.inTx = false) (hfree : waits db c = false) :
    Onward pl db (exec c db).2 (gs.set i (op, g)) := by
  cases hleaves : c.leavesTokens with
  | true =>
    have hsame := exec_leavesTokens hleaves db
    exact h.aside hg (hsame.transactions h.txs) hsame.later
  | false =>
    cases c with
    | insertRefreshToken d =>
      exact h.aside hg (h.txs.insertRefreshToken d) (later_insertRefreshToken db d)
    | revokeTokens ids =>
      exact h.aside hg ⟨h.txs.keys.revokeTokens ids, h.txs.exclusive, h.txs.pending_lt⟩
        (later_revokeTokens hfree)
    | _ => first | (cases hc; done) | cases hleaves

/-! ### The calls of a refresh -/

variable {tx : Nat} {row : RefreshTokenRow} {hash : Text}

theorem writes_eq_nil_of_le (ht : Transactions db) (h : db.nextId ≤ tx) : db.writes tx = [] := by
  rw [Db.writes, List.map_eq_nil_iff, List.filter_eq_nil_iff]
  intro w hw
  have hlt := ht.pending_lt w hw
  simp only [decide_eq_true_eq]
  omega

theorem Rotations.begins (h : Rotations pl db gs) (hg : gs[i]? = some (op, .start)) :
    Onward pl db (exec .beginTx db).2 (gs.set i (op, .opened db.nextId)) := by
  have hsame := exec_leavesTokens (c := .beginTx) rfl db
  refine h.step hg (hsame.transactions h.txs) hsame.later
    ⟨Nat.lt_succ_self _, (hsame.writes _).trans (writes_eq_nil_of_le h.txs le_rfl)⟩ ?_ nofun
  rintro tx ⟨⟩
  exact .inr le_rfl

theorem Rotations.refuses (h : Rotations pl db gs) (hg : gs[i]? = some (op, .opened tx)) :
    Onward pl db db (gs.set i (op, .refused tx)) :=
  h.step hg h.txs ⟨le_rfl, fun _ h => h, fun _ _ => rfl, fun _ _ _ h => h, fun _ _ _ _ h => h⟩
    (h.sound _ _ _ hg).1 (fun _ h => .inl h) nofun

theorem Rotations.locks (h : Rotations pl db gs) (hg : gs[i]? = some (op, .opened tx))
    (hop : op.rotates pl = some hash) (hfree : waits db (.lockToken tx hash) = false) :
    Onward pl db (exec (.lockToken tx hash) db).2
      (gs.set i (op, Rotation.next (.opened tx) (.lockToken tx hash)
        (exec (.lockToken tx hash) db).1)) := by
  cases hfound : db.tokenWithUser hash with
  | none =>
    have hexec : exec (.lockToken tx hash) db = (.ok none, db) := by simp only [exec, hfound]
    rw [hexec]
    exact h.refuses hg
  | some found =>
    obtain ⟨row, user⟩ := found
    have hexec : exec (.lockToken tx hash) db =
        (.ok (some (row, user.toAuthUser)), { db with locks := db.locks ++ [(row.id, tx)] }) := by
      simp only [exec, hfound]
    obtain ⟨hstored, hhash⟩ := Db.tokenWithUser_eq hfound
    have hsole : ∀ tx', (row.id, tx') ∈ db.locks → tx' = tx := by
      intro tx' hl
      simp only [waits, hfound, Option.any_some, Db.lockedByOther, List.any_eq_false] at hfree
      simpa using hfree _ hl
    have hlater : Later db { db with locks := db.locks ++ [(row.id, tx)] } (some tx) :=
      ⟨le_rfl, fun _ h => h, fun _ _ => rfl, fun _ _ _ h => List.mem_append_left _ h,
        fun _ _ _ _ h => h⟩
    have htxs : Transactions { db with locks := db.locks ++ [(row.id, tx)] } := by
      refine ⟨⟨h.txs.keys.ids, h.txs.keys.hashes⟩, fun id tx₁ tx₂ h₁ h₂ => ?_, h.txs.pending_lt⟩
      obtain h₁ | h₁ := List.mem_append.mp h₁ <;> obtain h₂ | h₂ := List.mem_append.mp h₂
      · exact h.txs.exclusive id tx₁ tx₂ h₁ h₂
      · cases List.mem_singleton.mp h₂
        exact hsole _ h₁
      · cases List.mem_singleton.mp h₁
        exact (hsole _ h₂).symm
      · cases List.mem_singleton.mp h₁
        cases List.mem_singleton.mp h₂
        rfl
    obtain ⟨hlt, hwrites⟩ := h.sound _ _ _ hg
    rw [hexec]
    simp only [Rotation.next]
    cases hrevoked : row.revoked with
    | true => exact h.step hg htxs hlater hlt (fun _ h => .inl h) (by simp)
    | false =>
      refine h.step hg htxs hlater ⟨⟨hlt, hstored, hrevoked, ?_, ?_⟩, hwrites⟩ (fun _ h => .inl h) (by simp)
      · rw [hop, hhash]
      · exact List.mem_append_right _ (List.mem_singleton_self _)

/-- The transaction writes one thing more. -/
def Db.writeIn (db : Db) (tx : Nat) (w : TokenWrite) (n : Nat) : Db :=
  { db with pending := db.pending ++ [(tx, w)], nextId := n }

variable {w : TokenWrite} {n : Nat}

theorem writes_writeIn : (db.writeIn tx w n).writes tx = db.writes tx ++ [w] := by
  simp [Db.writes, Db.writeIn]

theorem inserts_writeIn : (db.writeIn tx w n).inserts = db.inserts ++ w.inserted.toList := by
  cases w <;> simp [Db.inserts, Db.writeIn, TokenWrite.inserted]

theorem later_writeIn (hn : db.nextId ≤ n) : Later db (db.writeIn tx w n) (some tx) where
  nextId := hn
  revoked _ h := h
  writes tx' hne := by
    have hne : tx ≠ tx' := fun heq => hne (congrArg some heq)
    simp [Db.writes, Db.writeIn, hne]
  locks _ _ _ h := h
  rows _ _ _ _ h := h

theorem Transactions.writeIn (ht : Transactions db) (hlt : tx < db.nextId) (hn : db.nextId ≤ n)
    (hkeys : TokenKeys (db.writeIn tx w n)) : Transactions (db.writeIn tx w n) := by
  refine ⟨hkeys, ht.exclusive, fun w' hw => Nat.lt_of_lt_of_le ?_ hn⟩
  obtain hw | hw := List.mem_append.mp hw
  · exact ht.pending_lt w' hw
  · cases List.mem_singleton.mp hw
    exact hlt

theorem Holds.writeIn {tokenHash : Option Text} (h : Holds db tokenHash tx row) (hn : db.nextId ≤ n) :
    Holds (db.writeIn tx w n) tokenHash tx row :=
  ⟨Nat.lt_of_lt_of_le h.lt hn, h.stored, h.live, h.hash, h.locked⟩

theorem Rotations.saves (h : Rotations pl db gs) (hg : gs[i]? = some (op, .holding tx row)) :
    Onward pl db (exec (.saveTokenIn tx { row with revoked := true }) db).2
      (gs.set i (op, .saved tx row)) := by
  change Onward pl db (db.writeIn tx (.save { row with revoked := true }) db.nextId) _
  obtain ⟨hholds, hwrites⟩ := h.sound _ _ _ hg
  have hkeys : TokenKeys (db.writeIn tx (.save { row with revoked := true }) db.nextId) := by
    refine h.txs.keys.perm ?_ le_rfl
    rw [inserts_writeIn]
    simp [TokenWrite.inserted, Db.writeIn]
  refine h.step hg (h.txs.writeIn hholds.lt le_rfl hkeys) (later_writeIn le_rfl)
    ⟨hholds.writeIn le_rfl, ?_⟩ (fun _ h => .inl h) nofun
  rw [writes_writeIn, hwrites]
  rfl

theorem Rotations.inserts (h : Rotations pl db gs) (hg : gs[i]? = some (op, .saved tx row))
    (d : RefreshTokenDraft) :
    Onward pl db (exec (.insertRefreshTokenIn tx d) db).2
      (gs.set i (op, Rotation.next (.saved tx row) (.insertRefreshTokenIn tx d)
        (exec (.insertRefreshTokenIn tx d) db).1)) := by
  obtain heq | ⟨hfree, heq⟩ := exec_insertRefreshTokenIn db tx d
  · rw [heq]
    exact ⟨(set_self hg).symm ▸ h, fun _ h => h⟩
  · rw [heq]
    change Onward pl db (db.writeIn tx (.insert (d.toRow db.nextId db.now)) (db.nextId + 1)) _
    obtain ⟨hholds, hwrites⟩ := h.sound _ _ _ hg
    have hkeys : TokenKeys (db.writeIn tx (.insert (d.toRow db.nextId db.now)) (db.nextId + 1)) := by
      have hid : (d.toRow db.nextId db.now).id = db.nextId := rfl
      refine h.txs.keys.insert hid (hash_ne_of_not_taken hfree) ?_ rfl
      rw [inserts_writeIn]
      change List.Perm _ (db.refreshTokens ++ (db.inserts ++ [_]))
      rw [← List.append_assoc]
      exact (List.perm_append_singleton _ _).symm
    refine h.step hg (h.txs.writeIn hholds.lt (Nat.le_succ _) hkeys) (later_writeIn (Nat.le_succ _))
      ⟨hholds.writeIn (Nat.le_succ _), d.toRow db.nextId db.now, ?_⟩ (fun _ h => .inl h) nofun
    rw [writes_writeIn, hwrites]
    rfl

theorem later_endTx : Later db (db.endTx tx) (some tx) where
  nextId := le_rfl
  revoked _ h := h
  writes tx' hne := by
    have hne : tx ≠ tx' := fun heq => hne (congrArg some heq)
    unfold Db.writes Db.endTx
    rw [List.filter_filter]
    congr 1
    refine List.filter_congr fun w _ => ?_
    by_cases hw : w.1 = tx'
    · simp [hw, Ne.symm hne]
    · simp [hw]
  locks id tx' hne hl := by
    refine List.mem_filter.mpr ⟨hl, ?_⟩
    have hne : tx' ≠ tx := fun heq => hne (congrArg some heq.symm)
    simpa using hne
  rows _ _ _ _ h := h

theorem inserts_endTx_sublist : (db.endTx tx).inserts.Sublist db.inserts :=
  List.filter_sublist.filterMap _

theorem Transactions.endTx (ht : Transactions db) : Transactions (db.endTx tx) where
  keys := ht.keys.sublist (List.Sublist.append_left inserts_endTx_sublist _) le_rfl
  exclusive id tx₁ tx₂ h₁ h₂ :=
    ht.exclusive id tx₁ tx₂ (List.mem_filter.mp h₁).1 (List.mem_filter.mp h₂).1
  pending_lt w hw := ht.pending_lt w (List.mem_filter.mp hw).1

theorem Rotations.rollsBack (h : Rotations pl db gs) (hg : gs[i]? = some (op, g))
    (htx : g.tx = some tx) : Onward pl db (exec (.rollbackTx tx) db).2 (gs.set i (op, .closed)) :=
  h.step hg h.txs.endTx (htx ▸ later_endTx) trivial nofun nofun

/-- What a committed refresh leaves. -/
theorem commitTx_eq {new : RefreshTokenRow}
    (hwrites : db.writes tx = [.save { row with revoked := true }, .insert new]) :
    (db.commitTx tx).refreshTokens =
      replaceRow RefreshTokenRow.id { row with revoked := true } db.refreshTokens ++ [new] := by
  unfold Db.commitTx
  change List.foldl TokenWrite.apply db.refreshTokens (db.writes tx) = _
  rw [hwrites]
  rfl

/-- The rows the transaction inserts leave its writes for the table. -/
theorem inserts_perm (db : Db) (tx : Nat) :
    db.inserts.Perm ((db.writes tx).filterMap TokenWrite.inserted ++ (db.endTx tx).inserts) := by
  have hwrites : (db.writes tx).filterMap TokenWrite.inserted =
      (db.pending.filter fun w => w.1 = tx).filterMap fun w => w.2.inserted := by
    rw [Db.writes, List.filterMap_map]
    rfl
  rw [hwrites]
  unfold Db.inserts Db.endTx
  rw [← List.filterMap_append]
  refine List.Perm.filterMap _ ?_
  have hperm := (List.filter_append_perm (fun w : Nat × TokenWrite => decide (w.1 = tx)) db.pending).symm
  convert hperm using 2
  refine List.filter_congr fun w _ => ?_
  by_cases hw : w.1 = tx <;> simp [hw]

theorem Rotations.commits (h : Rotations pl db gs) (hg : gs[i]? = some (op, .inserted tx row)) :
    Onward pl db (exec (.commitTx tx) db).2 (gs.set i (op, .accepted)) := by
  change Onward pl db (db.commitTx tx) _
  obtain ⟨hholds, new, hwrites⟩ := h.sound _ _ _ hg
  have htokens := commitTx_eq hwrites
  have hid : ∀ r ∈ db.refreshTokens, r.id = row.id → r = row := fun r hr heq =>
    h.txs.keys.eq_of_id hr hholds.stored heq
  have hinserts : db.inserts.Perm (new :: (db.commitTx tx).inserts) := by
    have hperm := inserts_perm db tx
    rw [hwrites] at hperm
    exact hperm
  have hmoved : TokenKeys { db with
      refreshTokens := replaceRow RefreshTokenRow.id { row with revoked := true } db.refreshTokens } := by
    refine h.txs.keys.map (f := fun r => if r.id = row.id then { row with revoked := true } else r)
      ?_ ?_ rfl rfl le_rfl
    · intro r hr
      split
      · next heq => exact heq.symm
      · rfl
    · intro r hr
      split
      · next heq => rw [hid r hr heq]
      · rfl
  have hkeys : TokenKeys (db.commitTx tx) := by
    refine hmoved.perm ?_ le_rfl
    rw [htokens]
    change List.Perm (_ ++ db.inserts) _
    rw [List.append_assoc]
    exact hinserts.append_left _
  have hrevoked : ∀ hash, Revoked db hash → Revoked (db.commitTx tx) hash := by
    rintro hash ⟨r, hr, hhash, hrev⟩
    refine ⟨r, ?_, hhash, hrev⟩
    rw [htokens]
    refine List.mem_append_left _ (mem_replaceRow_iff.mpr (.inr ⟨hr, fun heq => ?_⟩))
    rw [hid r hr heq, hholds.live] at hrev
    cases hrev
  have hlater : Later db (db.commitTx tx) (some tx) := by
    have hend : Later db (db.endTx tx) (some tx) := later_endTx
    refine ⟨le_rfl, hrevoked, hend.writes, hend.locks, fun r tx' hne hl hr => ?_⟩
    rw [htokens]
    refine List.mem_append_left _ (mem_replaceRow_iff.mpr (.inr ⟨hr, fun heq => hne ?_⟩))
    have hl' : (row.id, tx') ∈ db.locks := heq ▸ hl
    exact congrArg some (h.txs.exclusive _ _ _ hholds.locked hl')
  have haccepted : Revoked (db.commitTx tx) row.tokenHash := by
    refine ⟨{ row with revoked := true }, ?_, rfl, rfl⟩
    rw [htokens]
    exact List.mem_append_left _ (mem_replaceRow_iff.mpr (.inl ⟨rfl, row, hholds.stored, rfl⟩))
  have hend : Transactions (db.endTx tx) := h.txs.endTx
  exact h.step hg ⟨hkeys, hend.exclusive, hend.pending_lt⟩ hlater ⟨_, hholds.hash, haccepted⟩ nofun
    fun _ => ⟨tx, row, hholds⟩

/-- Every call keeps the invariant. -/
theorem Rotations.call (h : Rotations pl db gs) (hg : gs[i]? = some (op, g)) {c : Call}
    (hallowed : g.Allowed (op.rotates pl) c) (hfree : waits db c = false) :
    Onward pl db (exec c db).2 (gs.set i (op, g.next c (exec c db).1)) := by
  have houtside : c.inTx = false →
      Onward pl db (exec c db).2 (gs.set i (op, g.next c (exec c db).1)) := by
    intro hc
    rw [Rotation.next_of_not_inTx hc]
    exact h.outside hg hc hfree
  cases g with
  | start =>
    obtain hc | ⟨rfl, _⟩ := hallowed
    · exact houtside hc
    · exact h.begins hg
  | opened tx =>
    obtain ⟨hash, hop, rfl⟩ := hallowed
    exact h.locks hg hop hfree
  | refused tx =>
    obtain rfl := hallowed
    exact h.rollsBack hg rfl
  | holding tx row =>
    obtain rfl | rfl | rfl := hallowed
    · exact houtside rfl
    · exact h.saves hg
    · exact h.rollsBack hg rfl
  | saved tx row =>
    obtain rfl | rfl | ⟨d, rfl⟩ | rfl := hallowed
    · exact houtside rfl
    · exact houtside rfl
    · exact h.inserts hg d
    · exact h.rollsBack hg rfl
  | inserted tx row =>
    obtain rfl := hallowed
    exact h.commits hg
  | accepted => exact hallowed.elim
  | closed => exact hallowed.elim

theorem Rotations.wait (h : Rotations pl db gs) (d : Nat) : Rotations pl (db.wait d) gs where
  txs := ⟨⟨h.txs.keys.ids, h.txs.keys.hashes⟩, h.txs.exclusive, h.txs.pending_lt⟩
  sound j o g hj := by
    have hlater : Later db (db.wait d) none :=
      ⟨le_rfl, fun _ h => h, fun _ _ => rfl, fun _ _ _ h => h, fun _ _ _ _ h => h⟩
    exact (h.sound j o g hj).later hlater fun _ _ => nofun
  apart := h.apart
  once := h.once

end Step

/-! ## Runs -/

section Runs

variable {pl : Platform} {cfg : Config} {db : Db} {ops : List Op} {hash : Text} {i : Nat}

/-- Serving refreshes, so that `J` holds as well. -/
abbrev Refreshing (pl : Platform) (ops : List Op) (J : Db → List (Op × Rotation) → Prop)
    (w : Service Op Rotation) : Prop :=
  Serving (rotation pl) Rotates (fun s gs => Rotations pl s gs ∧ J s gs) ops w

/-- A further invariant, shown call by call. -/
theorem refreshing_always {J : Db → List (Op × Rotation) → Prop} {w : Service Op Rotation}
    (hcall : ∀ s gs i op g c, Rotations pl s gs → J s gs → gs[i]? = some (op, g) →
      g.Allowed (op.rotates pl) c → (∀ hash, Revoked s hash → Revoked (exec c s).2 hash) →
      J (exec c s).2 (gs.set i (op, g.next c (exec c s).1)))
    (hwait : ∀ d s gs, J s gs → J (Db.wait s d) gs) (h : Refreshing pl ops J w) (es : List Event) :
    Runs.Always (serviceStep (rotation pl)) (Refreshing pl ops J) es w := by
  have hany : Runs.Along (serviceStep (rotation pl)) (Staged.Meets waits fun _ _ _ _ => True) es w :=
    Runs.Along.of_forall fun w e => Staged.meets_true waits w e
  refine Serving.always (fun _ _ _ => trivial) ?_ ?_ h hany
  · rintro s gs i op g c ⟨hrot, hJ⟩ hg hallowed hfree _
    obtain ⟨hrot', hrevoked⟩ := hrot.call hg hallowed hfree
    exact ⟨hrot', hcall s gs i op g c hrot hJ hg hallowed hrevoked⟩
  · rintro d s gs ⟨hrot, hJ⟩
    exact ⟨hrot.wait d, hwait d s gs hJ⟩

theorem refreshing_start (h : AtRest db) :
    Refreshing pl ops (fun _ _ => True) (incoming pl cfg id (fun _ => .start) ops db) := by
  have hstart : ∀ (i : Nat) (o : Op) (g : Rotation),
      (ops.map fun o => (o, Rotation.start))[i]? = some (o, g) → g = .start := by
    intro i o g hg
    rw [List.getElem?_map] at hg
    obtain ⟨o', _, heq⟩ := Option.map_eq_some_iff.mp hg
    cases heq
    rfl
  refine Serving.start (Op.rotation_follows cfg) ⟨⟨⟨h.keys, ?_, ?_⟩, ?_, ?_, ?_⟩, trivial⟩
  · rw [h.locks]
    nofun
  · rw [h.pending]
    nofun
  · intro i o g hg
    cases hstart i o g hg
    trivial
  · intro i j o g o' g' tx _ hi _ htx
    cases hstart i o g hi
    cases htx
  · intro i j o o' _ hi
    cases hstart i o _ hi

/-- Thread `i` refreshes a token whose row is revoked, and has not read the row as anything else. -/
def TooLate (pl : Platform) (hash : Text) (i : Nat) (s : Db) (gs : List (Op × Rotation)) : Prop :=
  Revoked s hash ∧ ∃ op, op.rotates pl = some hash ∧
    ∃ g, gs[i]? = some (op, g) ∧ ((∃ tx, g = .opened tx ∨ g = .refused tx) ∨ g = .closed)

theorem TooLate.call {s : Db} {gs : List (Op × Rotation)} {j : Nat} {op : Op} {g : Rotation} {c : Call}
    (hrot : Rotations pl s gs) (h : TooLate pl hash i s gs) (hg : gs[j]? = some (op, g))
    (hallowed : g.Allowed (op.rotates pl) c)
    (hrevoked : ∀ hash, Revoked s hash → Revoked (exec c s).2 hash) :
    TooLate pl hash i (exec c s).2 (gs.set j (op, g.next c (exec c s).1)) := by
  obtain ⟨hrev, op', hop', g', hg', hstage⟩ := h
  refine ⟨hrevoked hash hrev, op', hop', ?_⟩
  by_cases hij : i = j
  · subst hij
    rw [hg] at hg'
    cases hg'
    refine ⟨_, (getElem?_set_iff hg).mpr (.inl ⟨rfl, rfl⟩), ?_⟩
    obtain ⟨tx, rfl | rfl⟩ | rfl := hstage
    · obtain ⟨hash', hhash', rfl⟩ := hallowed
      rw [hop'] at hhash'
      cases hhash'
      refine .inl ⟨tx, .inr ?_⟩
      cases hfound : s.tokenWithUser hash with
      | none => simp [exec, hfound, Rotation.next]
      | some found =>
        obtain ⟨row, user⟩ := found
        simp [exec, hfound, Rotation.next, hrev.found hrot.txs.keys hfound]
    · obtain rfl := hallowed
      exact .inr rfl
    · exact hallowed.elim
  · exact ⟨g', (getElem?_set_iff hg).mpr (.inr ⟨hij, hg'⟩), hstage⟩

/-- Two refreshes that succeed have refreshed different tokens; and a refresh whose locked read comes
after its row was revoked does not succeed. -/
theorem refresh_once (h : AtRest db) (ops : List Op) (es₁ es₂ es₃ : List Event) :
    let w := fun es => (Runs.final (serviceStep (rotation pl)) es
      (incoming pl cfg id (fun _ => .start) ops db)).pool
    (∀ i j p q a b, i ≠ j → ops[i]? = some (.refresh p) → ops[j]? = some (.refresh q) →
      (w es₁).result i = some (.ok a) → (w es₁).result j = some (.ok b) →
      pl.sha256 p.refreshToken ≠ pl.sha256 q.refreshToken) ∧
    (∀ i p a, ops[i]? = some (.refresh p) → (w es₁).result i = some (.ok a) →
      Revoked (w es₁).store (pl.sha256 p.refreshToken)) ∧
    ∀ i tx hash a, Revoked (w es₁).store hash →
      (w (es₁ ++ es₂)).nextCall i = some (.lockToken tx hash) →
      (w (es₁ ++ es₂ ++ es₃)).result i ≠ some (.ok a) := by
  intro w
  have hstart : Refreshing pl ops (fun _ _ => True) (incoming pl cfg id (fun _ => .start) ops db) :=
    refreshing_start h
  have hrun := (refreshing_always (fun _ _ _ _ _ _ _ _ _ _ _ => trivial) (fun _ _ _ _ => trivial)
    hstart es₁).final
  refine ⟨fun i j p q a b hij hp hq ha hb => ?_, fun i p a hp ha => ?_,
    fun i tx hash a hrevoked hnext ha => ?_⟩
  · obtain ⟨g, hg, hrot⟩ := hrun.result hp ha
    obtain ⟨g', hg', hrot'⟩ := hrun.result hq hb
    obtain rfl := hrot p a rfl rfl
    obtain rfl := hrot' q b rfl rfl
    intro heq
    exact hrun.inv.1.once i j _ _ hij hg hg' (congrArg some heq)
  · obtain ⟨g, hg, hrot⟩ := hrun.result hp ha
    obtain rfl := hrot p a rfl rfl
    obtain ⟨hash, hhash, hrevoked⟩ := hrun.inv.1.sound _ _ _ hg
    cases hhash
    exact hrevoked
  · -- the row stays revoked up to the locked read, which then refuses it
    have hrun₂ : Refreshing pl ops (fun s _ => Revoked s hash) (Runs.final (serviceStep (rotation pl))
        es₂ (Runs.final (serviceStep (rotation pl)) es₁
          (incoming pl cfg id (fun _ => .start) ops db))) :=
      (refreshing_always (J := fun s _ => Revoked s hash)
        (fun s gs i op g c _ hrev _ _ hrevoked => hrevoked hash hrev) (fun _ _ _ hrev => hrev)
        ⟨hrun.follow, hrun.served, hrun.inv.1, hrevoked⟩ es₂).final
    rw [← Runs.final_append] at hrun₂
    obtain ⟨op, g, hg, hallowed⟩ := hrun₂.nextCall hnext
    have hlate : TooLate pl hash i (w (es₁ ++ es₂)).store (Runs.final (serviceStep (rotation pl))
        (es₁ ++ es₂) (incoming pl cfg id (fun _ => .start) ops db)).stages := by
      refine ⟨hrun₂.inv.2, op, ?_⟩
      cases g with
      | opened tx' =>
        obtain ⟨hash', hhash', heq⟩ := hallowed
        cases heq
        exact ⟨hhash', _, hg, .inl ⟨_, .inl rfl⟩⟩
      | start =>
        obtain hc | ⟨hc, _⟩ := hallowed <;> cases hc
      | refused tx' => cases hallowed
      | holding tx' row => obtain hc | hc | hc := hallowed <;> cases hc
      | saved tx' row => obtain hc | hc | ⟨_, hc⟩ | hc := hallowed <;> cases hc
      | inserted tx' row => cases hallowed
      | accepted => exact hallowed.elim
      | closed => exact hallowed.elim
    have hrun₃ := (refreshing_always (J := TooLate pl hash i)
      (fun s gs j op g c hrot hlate hg hallowed hrevoked => hlate.call hrot hg hallowed hrevoked)
      (fun _ _ _ hlate => hlate)
      ⟨hrun₂.follow, hrun₂.served, hrun₂.inv.1, hlate⟩ es₃).final
    rw [← Runs.final_append] at hrun₃
    obtain ⟨_, op', hop', g', hg', hstage⟩ := hrun₃.inv.2
    obtain ⟨g₁, hg₁, hrot⟩ := hrun₃.result (hrun₃.stage hg') ha
    rw [hg'] at hg₁
    cases hg₁
    cases op' with
    | refresh p =>
      obtain rfl := hrot p a rfl rfl
      obtain ⟨_, hstage | hstage⟩ | hstage := hstage <;> cases hstage
    | _ => cases hop'

/-- Both have opened a transaction before the first locks the row; the second then waits. -/
def bothRefresh : List Event :=
  [.advance 0, .advance 1, .advance 0, .advance 1, .advance 0, .advance 1, .advance 0, .advance 0,
    .advance 1, .advance 0, .advance 0, .advance 0, .advance 0, .advance 0, .advance 0, .advance 1,
    .advance 1]

theorem refresh_once_bothRefresh :
    let w := (Runs.final (serviceStep (rotation .toy)) bothRefresh (incoming .toy .toy id
      (fun _ => .start) [.refresh ⟨"r0".toList, none, none⟩, .refresh ⟨"r0".toList, none, none⟩]
      oneSession)).pool
    w.result 0 ≠ w.result 1 := by
  intro w heq
  obtain ⟨b, hr⟩ := exists_ok (r := w.result 0) (by decide)
  exact (@refresh_once .toy .toy _ oneSession_atRest
    [.refresh ⟨"r0".toList, none, none⟩, .refresh ⟨"r0".toList, none, none⟩] bothRefresh [] []).1
    0 1 _ _ b b (by decide) rfl rfl hr (heq ▸ hr) rfl

example : ((Runs.final (serviceStep (rotation .toy)) bothRefresh (incoming .toy .toy id
    (fun _ => .start) [.refresh ⟨"r0".toList, none, none⟩, .refresh ⟨"r0".toList, none, none⟩]
    oneSession)).pool.result 1) = some (.error (.rpc invalidRefreshToken)) := by decide

end Runs

end Relay.Accounts
