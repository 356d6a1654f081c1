import Relay.Accounts.System

/-!
# The table of refresh tokens

What the calls do to it: rows keep their ids and hashes, both unique together with the rows that open
transactions are about to insert, and a revoked row stays revoked.
-/

namespace Relay.Accounts

open Relay.Lib Relay.Lib.Rows

def TokenWrite.inserted : TokenWrite → Option RefreshTokenRow
  | .save _ => none
  | .insert row => some row

/-- The rows open transactions are about to insert. -/
def Db.inserts (db : Db) : List RefreshTokenRow := db.pending.filterMap fun w => w.2.inserted

/-- What a transaction has written. -/
def Db.writes (db : Db) (tx : Nat) : List TokenWrite :=
  (db.pending.filter fun w => w.1 = tx).map Prod.snd

/-- The stored row with the hash is revoked. -/
def Revoked (db : Db) (tokenHash : Text) : Prop :=
  ∃ row ∈ db.refreshTokens, row.tokenHash = tokenHash ∧ row.revoked = true

instance (db : Db) (tokenHash : Text) : Decidable (Revoked db tokenHash) :=
  inferInstanceAs (Decidable (∃ _ ∈ _, _))

/-- The primary key and the unique index on the hash. -/
structure TokenKeys (db : Db) : Prop where
  ids : Keyed RefreshTokenRow.id (db.refreshTokens ++ db.inserts) db.nextId
  hashes : ((db.refreshTokens ++ db.inserts).map fun row => row.tokenHash).Nodup

namespace TokenKeys

variable {db db' : Db} {row row' : RefreshTokenRow}

theorem eq_of_hash (h : TokenKeys db) (hrow : row ∈ db.refreshTokens) (hrow' : row' ∈ db.refreshTokens)
    (heq : row.tokenHash = row'.tokenHash) : row = row' :=
  List.inj_on_of_nodup_map h.hashes (List.mem_append_left _ hrow) (List.mem_append_left _ hrow') heq

theorem eq_of_id (h : TokenKeys db) (hrow : row ∈ db.refreshTokens) (hrow' : row' ∈ db.refreshTokens)
    (heq : row.id = row'.id) : row = row' :=
  h.ids.eq_of_id_eq (List.mem_append_left _ hrow) (List.mem_append_left _ hrow') heq

/-- Rows changed one by one, with their ids and hashes kept. -/
theorem map {f : RefreshTokenRow → RefreshTokenRow} (h : TokenKeys db)
    (hid : ∀ row ∈ db.refreshTokens, (f row).id = row.id)
    (hhash : ∀ row ∈ db.refreshTokens, (f row).tokenHash = row.tokenHash)
    (htokens : db'.refreshTokens = db.refreshTokens.map f) (hinserts : db'.inserts = db.inserts)
    (hnext : db.nextId ≤ db'.nextId) : TokenKeys db' := by
  have hids : (db'.refreshTokens ++ db'.inserts).map RefreshTokenRow.id =
      (db.refreshTokens ++ db.inserts).map RefreshTokenRow.id := by
    rw [htokens, hinserts, List.map_append, List.map_append, List.map_map]
    congr 1
    exact List.map_congr_left hid
  have hhashes : (db'.refreshTokens ++ db'.inserts).map (fun row => row.tokenHash) =
      (db.refreshTokens ++ db.inserts).map fun row => row.tokenHash := by
    rw [htokens, hinserts, List.map_append, List.map_append, List.map_map]
    congr 1
    exact List.map_congr_left hhash
  refine ⟨⟨hids ▸ h.ids.nodup, fun row hrow => ?_⟩, hhashes ▸ h.hashes⟩
  have hmem : row.id ∈ (db.refreshTokens ++ db.inserts).map RefreshTokenRow.id :=
    hids ▸ List.mem_map_of_mem hrow
  obtain ⟨r, hr, heq⟩ := List.mem_map.mp hmem
  have hlt := h.ids.lt r hr
  omega

/-- The same rows, stored or about to be inserted, in another order. -/
theorem perm (h : TokenKeys db)
    (hperm : (db.refreshTokens ++ db.inserts).Perm (db'.refreshTokens ++ db'.inserts))
    (hnext : db.nextId ≤ db'.nextId) : TokenKeys db' where
  ids := ⟨(hperm.map _).nodup_iff.mp h.ids.nodup, fun row hrow =>
    Nat.lt_of_lt_of_le (h.ids.lt row (hperm.mem_iff.mpr hrow)) hnext⟩
  hashes := (hperm.map _).nodup_iff.mp h.hashes

/-- Fewer rows. -/
theorem sublist (h : TokenKeys db)
    (hsub : (db'.refreshTokens ++ db'.inserts).Sublist (db.refreshTokens ++ db.inserts))
    (hnext : db.nextId ≤ db'.nextId) : TokenKeys db' where
  ids := ⟨h.ids.nodup.sublist (hsub.map _), fun row hrow =>
    Nat.lt_of_lt_of_le (h.ids.lt row (hsub.subset hrow)) hnext⟩
  hashes := h.hashes.sublist (hsub.map _)

/-- One more row, with the next id and a hash that no row has. -/
theorem insert (h : TokenKeys db) (hid : row.id = db.nextId)
    (hhash : ∀ r ∈ db.refreshTokens ++ db.inserts, r.tokenHash ≠ row.tokenHash)
    (hperm : (row :: (db.refreshTokens ++ db.inserts)).Perm (db'.refreshTokens ++ db'.inserts))
    (hnext : db'.nextId = db.nextId + 1) : TokenKeys db' := by
  refine ⟨⟨(hperm.map _).nodup_iff.mp ?_, fun r hr => ?_⟩, (hperm.map _).nodup_iff.mp ?_⟩
  · refine List.nodup_cons.mpr ⟨fun hmem => ?_, h.ids.nodup⟩
    obtain ⟨r, hr, heq⟩ := List.mem_map.mp hmem
    have hlt := h.ids.lt r hr
    omega
  · obtain rfl | hr := List.mem_cons.mp (hperm.mem_iff.mpr hr)
    · omega
    · have hlt := h.ids.lt r hr
      omega
  · refine List.nodup_cons.mpr ⟨fun hmem => ?_, h.hashes⟩
    obtain ⟨r, hr, heq⟩ := List.mem_map.mp hmem
    exact hhash r hr heq

end TokenKeys

theorem hash_ne_of_not_taken {db : Db} {tokenHash : Text} (h : db.hashTaken tokenHash = false) :
    ∀ r ∈ db.refreshTokens ++ db.inserts, r.tokenHash ≠ tokenHash := by
  intro r hr heq
  obtain ⟨hstored, hpending⟩ := Bool.or_eq_false_iff.mp h
  obtain hr | hr := List.mem_append.mp hr
  · exact List.any_eq_false.mp hstored r hr (by simpa using heq)
  · obtain ⟨⟨tx, w⟩, hw, hwr⟩ := List.mem_filterMap.mp hr
    have := List.any_eq_false.mp hpending _ hw
    cases w with
    | save row => cases hwr
    | insert row =>
      cases hwr
      exact this (by simpa using heq)

/-! ## Calls that leave the table alone -/

/-- The call has nothing to do with refresh tokens and transactions. -/
def Call.leavesTokens : Call → Bool
  | .insertRefreshToken _ | .revokeTokens _ | .lockToken _ _ | .saveTokenIn _ _
  | .insertRefreshTokenIn _ _ | .commitTx _ | .rollbackTx _ => false
  | _ => true

/-- The calls of a transaction. -/
def Call.inTx : Call → Bool
  | .beginTx | .lockToken _ _ | .saveTokenIn _ _ | .insertRefreshTokenIn _ _ | .commitTx _
  | .rollbackTx _ => true
  | _ => false

structure SameTokens (db db' : Db) : Prop where
  tokens : db'.refreshTokens = db.refreshTokens
  locks : db'.locks = db.locks
  pending : db'.pending = db.pending
  nextId : db.nextId ≤ db'.nextId

theorem exec_leavesTokens {c : Call} (h : c.leavesTokens = true) (db : Db) :
    SameTokens db (exec c db).2 := by
  cases c with
  | insertRefreshToken d => cases h
  | revokeTokens ids => cases h
  | lockToken tx hash => cases h
  | saveTokenIn tx row => cases h
  | insertRefreshTokenIn tx d => cases h
  | commitTx tx => cases h
  | rollbackTx tx => cases h
  | insertUser d =>
    simp only [exec]
    split
    · exact ⟨rfl, rfl, rfl, le_rfl⟩
    · exact ⟨rfl, rfl, rfl, Nat.le_succ _⟩
  | saveUser user password =>
    simp only [exec]
    split <;> exact ⟨rfl, rfl, rfl, le_rfl⟩
  | insertAuthToken d =>
    simp only [exec]
    split
    · exact ⟨rfl, rfl, rfl, le_rfl⟩
    · exact ⟨rfl, rfl, rfl, Nat.le_succ _⟩
  | sendMail mail =>
    simp only [exec]
    split <;> exact ⟨rfl, rfl, rfl, le_rfl⟩
  | beginTx => exact ⟨rfl, rfl, rfl, Nat.le_succ _⟩
  | newId => exact ⟨rfl, rfl, rfl, Nat.le_succ _⟩
  | _ => exact ⟨rfl, rfl, rfl, le_rfl⟩

theorem SameTokens.inserts {db db' : Db} (h : SameTokens db db') : db'.inserts = db.inserts := by
  rw [Db.inserts, h.pending, Db.inserts]

theorem SameTokens.writes {db db' : Db} (h : SameTokens db db') (tx : Nat) :
    db'.writes tx = db.writes tx := by
  rw [Db.writes, h.pending, Db.writes]

theorem SameTokens.keys {db db' : Db} (h : SameTokens db db') (hkeys : TokenKeys db) :
    TokenKeys db' :=
  hkeys.perm (by rw [h.tokens, h.inserts]) h.nextId

theorem SameTokens.revoked {db db' : Db} (h : SameTokens db db') {hash : Text}
    (hrevoked : Revoked db hash) : Revoked db' hash := by
  obtain ⟨row, hrow, hhash⟩ := hrevoked
  exact ⟨row, h.tokens ▸ hrow, hhash⟩

/-! ## Calls outside transactions -/

variable {db : Db}

theorem exec_insertRefreshToken (db : Db) (d : RefreshTokenDraft) :
    exec (.insertRefreshToken d) db =
        (.error (.query (.uniqueViolation "IDX_refresh_tokens_tokenHash")), db) ∨
      db.hashTaken d.tokenHash = false ∧ exec (.insertRefreshToken d) db =
        (.ok (), { db with
          refreshTokens := db.refreshTokens ++ [d.toRow db.nextId db.now]
          nextId := db.nextId + 1 }) := by
  cases h : db.hashTaken d.tokenHash with
  | true => exact .inl (by simp [exec, h])
  | false => exact .inr ⟨rfl, by simp [exec, h]⟩

theorem exec_insertRefreshTokenIn (db : Db) (tx : Nat) (d : RefreshTokenDraft) :
    exec (.insertRefreshTokenIn tx d) db =
        (.error (.query (.uniqueViolation "IDX_refresh_tokens_tokenHash")), db) ∨
      db.hashTaken d.tokenHash = false ∧ exec (.insertRefreshTokenIn tx d) db =
        (.ok (), { db with
          pending := db.pending ++ [(tx, .insert (d.toRow db.nextId db.now))]
          nextId := db.nextId + 1 }) := by
  cases h : db.hashTaken d.tokenHash with
  | true => exact .inl (by simp [exec, h])
  | false => exact .inr ⟨rfl, by simp [exec, h]⟩

theorem TokenKeys.insertRefreshToken (h : TokenKeys db) (d : RefreshTokenDraft) :
    TokenKeys (exec (.insertRefreshToken d) db).2 := by
  obtain heq | ⟨hfree, heq⟩ := exec_insertRefreshToken db d
  · rw [heq]
    exact h
  · rw [heq]
    have hid : (d.toRow db.nextId db.now).id = db.nextId := rfl
    refine h.insert hid (hash_ne_of_not_taken hfree) ?_ rfl
    change List.Perm (_ :: (db.refreshTokens ++ db.inserts))
      ((db.refreshTokens ++ [_]) ++ db.inserts)
    rw [List.append_assoc]
    exact List.perm_middle.symm

theorem TokenKeys.revokeTokens (h : TokenKeys db) (ids : List Nat) :
    TokenKeys (exec (.revokeTokens ids) db).2 := by
  refine h.map (f := fun row => if row.id ∈ ids then { row with revoked := true } else row) ?_ ?_
    rfl rfl le_rfl <;>
  · intro row _
    split <;> rfl

theorem Revoked.insertRefreshToken {tokenHash : Text} (h : Revoked db tokenHash)
    (d : RefreshTokenDraft) : Revoked (exec (.insertRefreshToken d) db).2 tokenHash := by
  obtain ⟨row, hrow, hhash⟩ := h
  obtain heq | ⟨_, heq⟩ := exec_insertRefreshToken db d
  · rw [heq]
    exact ⟨row, hrow, hhash⟩
  · rw [heq]
    exact ⟨row, List.mem_append_left _ hrow, hhash⟩

theorem Revoked.revokeTokens {tokenHash : Text} (h : Revoked db tokenHash) (ids : List Nat) :
    Revoked (exec (.revokeTokens ids) db).2 tokenHash := by
  obtain ⟨row, hrow, hhash, hrevoked⟩ := h
  refine ⟨_, List.mem_map_of_mem hrow, ?_⟩
  split
  · exact ⟨hhash, rfl⟩
  · exact ⟨hhash, hrevoked⟩

/-- What the database is when no request is being served. -/
structure AtRest (db : Db) : Prop where
  keys : TokenKeys db
  locks : db.locks = []
  pending : db.pending = []

theorem oneSession_atRest : AtRest oneSession := ⟨⟨⟨by decide, by decide⟩, by decide⟩, rfl, rfl⟩

/-! ## The locked read -/

section LockedRead

variable {row : RefreshTokenRow} {user : UserRow} {hash : Text}

/-- The row the locked read finds is stored and has the hash. -/
theorem Db.tokenWithUser_eq (h : db.tokenWithUser hash = some (row, user)) :
    row ∈ db.refreshTokens ∧ row.tokenHash = hash := by
  obtain ⟨row', hrow, hrest⟩ := Option.bind_eq_some_iff.mp h
  obtain ⟨user', huser, heq⟩ := Option.bind_eq_some_iff.mp hrest
  cases heq
  exact ⟨List.mem_of_find?_eq_some hrow, by simpa using List.find?_some hrow⟩

/-- The row a locked read finds when the row of the hash is revoked. -/
theorem Revoked.found (hrot : TokenKeys db) (h : Revoked db hash)
    (hfound : db.tokenWithUser hash = some (row, user)) : row.revoked = true := by
  obtain ⟨row', hrow', hhash, hrevoked⟩ := h
  obtain ⟨hrow, hhash'⟩ := Db.tokenWithUser_eq hfound
  rw [hrot.eq_of_hash hrow hrow' (hhash'.trans hhash.symm)]
  exact hrevoked

end LockedRead

end Relay.Accounts
