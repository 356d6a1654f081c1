import Mathlib.Data.Rat.Floor
import Relay.Accounts.Verify.Tokens
import Relay.Accounts.System
import Relay.Gateway.Verify.Revocation

/-!
# The lifetimes of tokens

The JWT library reads `JWT_ACCESS_EXPIRES_IN` and `JWT_REFRESH_EXPIRES_IN` with the package `ms`; the blacklist
and the rows of refresh tokens use the parsers of the source, which fall back to a day and to seven days where
they cannot parse. The two agree on digits with one of the units `s`, `m`, `h` and `d`, and otherwise only by the
length of the fallback (`lifetimes_agree_iff`).

`millis` stands for `ms`: a number of milliseconds, none for a text that makes signing fail. `exp` reads the
claim of that name, in seconds.
-/

namespace Relay.Accounts

open Relay.Lib Relay.Auth Prog
open Gateway.Auth (seconds Blacklisted)
open Gateway.Auth.TokenBlacklistService (revokeAccessToken)

/-- `Math.floor(timestamp + ms(expiresIn) / 1000)` of the JWT library, `timestamp` the seconds of the clock. -/
def expClaim (millis : Text → Option ℚ) (expiresIn : Text) (now : Time) : Option ℤ :=
  (millis expiresIn).map fun m => ⌊((now / 1000000 : ℕ) : ℚ) + m / 1000⌋

/-- A number with a unit that the source knows is, if it is parsed, as long as the source says. -/
def ReadsUnits (millis : Text → Option ℚ) : Prop :=
  ∀ expiresIn amount unit m, parseAmount expiresIn = some (amount, unit) → millis expiresIn = some m →
    m = ((amount * unit : ℕ) : ℚ)

/-- The claim of a signed token; none where signing fails. -/
def SetsExp (millis : Text → Option ℚ) (exp : Text → Option ℤ) (pl : Platform) : Prop :=
  (∀ user expiresIn now, exp (pl.signAccess user expiresIn now) = expClaim millis expiresIn now) ∧
    ∀ user expiresIn jwtid now, exp (pl.signRefresh user expiresIn jwtid now) = expClaim millis expiresIn now

/-- The repository `issueTokens` saves with: the one outside transactions, or that of one. -/
inductive Saving where
  | alone
  | within (tx : Nat)

def Saving.save : Saving → RefreshTokenDraft → M Unit
  | .alone, d => perform (.insertRefreshToken d)
  | .within tx, d => perform (.insertRefreshTokenIn tx d)

/-- A save that succeeds adds the row, and no other row had its hash. -/
theorem Saving.save_ok (saving : Saving) {d : RefreshTokenDraft} {tokens tokens' : TokenPair} {db db' : Db} {n : Nat}
    (h : runUnder exec (fun (d : Nat) db => db.wait d) (saving.save d >>= fun _ => ret tokens) [n] db =
      (.ok tokens', db')) :
    tokens' = tokens ∧ db'.now = db.now + n ∧ db.hashTaken d.tokenHash = false ∧
      ∀ row ∈ db'.refreshTokens ++ db'.inserts,
        row = d.toRow db.nextId db.now ∨ row ∈ db.refreshTokens ++ db.inserts := by
  cases saving with
  | alone =>
    obtain heq | ⟨hfree, heq⟩ := exec_insertRefreshToken db d
    · simp only [save, perform, Prog.perform, call_bind, runUnder, heq] at h
      cases h
    · simp only [save, perform, Prog.perform, call_bind, runUnder, heq] at h
      cases h
      refine ⟨rfl, rfl, hfree, ?_⟩
      intro row hrow
      simp only [Db.wait, Db.inserts, List.mem_append, List.mem_singleton] at hrow ⊢
      obtain (hstored | hnew) | hinsert := hrow
      · exact .inr (.inl hstored)
      · exact .inl hnew
      · exact .inr (.inr hinsert)
  | within tx =>
    obtain heq | ⟨hfree, heq⟩ := exec_insertRefreshTokenIn db tx d
    · simp only [save, perform, Prog.perform, call_bind, runUnder, heq] at h
      cases h
    · simp only [save, perform, Prog.perform, call_bind, runUnder, heq] at h
      cases h
      refine ⟨rfl, rfl, hfree, ?_⟩
      intro row hrow
      simp only [Db.wait, Db.inserts, List.filterMap_append, List.mem_append] at hrow ⊢
      obtain hstored | hinsert | hnew := hrow
      · exact .inr (.inl hstored)
      · exact .inr (.inr hinsert)
      · exact .inl (List.mem_singleton.mp hnew)

/-- A run of `issueTokens` that succeeds, with the time that passes after each of its calls. -/
structure Issue (pl : Platform) (cfg : Config) where
  saving : Saving
  user : AuthUser
  ip : Option Text
  userAgent : Option Text
  db : Db
  afterAccess : Nat
  afterId : Nat
  afterRefresh : Nat
  afterRow : Nat
  afterSave : Nat
  tokens : TokenPair
  db' : Db
  run : runUnder exec (fun (d : Nat) db => db.wait d) (issueTokens pl cfg user ip userAgent saving.save)
    [afterAccess, afterId, afterRefresh, afterRow, afterSave] db = (.ok tokens, db')

namespace Issue

variable {pl : Platform} {cfg : Config} (i : Issue pl cfg) (exp : Text → Option ℤ)

/-- When the refresh token is signed. -/
def signedAt : Time := i.db.now + i.afterAccess + i.afterId

/-- When the lifetime of its row is computed. -/
def rowAt : Time := i.signedAt + i.afterRefresh

/-- Both are in one second of the clock. -/
def Prompt : Prop := i.rowAt / 1000000 = i.signedAt / 1000000

/-- Both tokens could be signed. -/
def Signed : Prop := (exp i.tokens.accessToken).isSome = true ∧ (exp i.tokens.refreshToken).isSome = true

/-- A revocation while the access token is valid is remembered until the token expires. -/
def Outlived : Prop :=
  ∀ e, exp i.tokens.accessToken = some e → ∀ (g : Gateway.Auth.Config) (hash : Text → Text)
    (keys : Gateway.Auth.Keys) (t : Time), g.accessExpiresSeconds = parseDurationSeconds cfg.accessExpiresIn →
      i.db'.now ≤ t → ((t / 1000000 : ℕ) : ℤ) < e →
        Blacklisted hash i.tokens.accessToken (seconds e.toNat)
          (revokeAccessToken g hash i.tokens.accessToken t keys)

/-- The row of the refresh token expires within a second of the token. -/
def Near : Prop :=
  ∀ e, exp i.tokens.refreshToken = some e → ∀ row ∈ i.db'.refreshTokens ++ i.db'.inserts,
    row.tokenHash = pl.sha256 i.tokens.refreshToken → |(row.expiresAt : ℤ) - e * 1000000| ≤ 1000000

/-- The row that is saved. -/
def draft : RefreshTokenDraft where
  userId := i.user.id
  tokenHash := pl.sha256 (pl.signRefresh i.user cfg.refreshExpiresIn i.db.nextId (jsDate i.signedAt))
  expiresAt := jsDate i.rowAt + ms (parseDurationMs cfg.refreshExpiresIn)
  userAgent := i.userAgent
  ip := i.ip

/-- After the readings of the clock and of the generator the run saves the row. -/
theorem run_save :
    runUnder exec (fun (d : Nat) db => db.wait d)
      (i.saving.save i.draft >>= fun _ => ret ⟨pl.signAccess i.user cfg.accessExpiresIn (jsDate i.db.now),
        pl.signRefresh i.user cfg.refreshExpiresIn i.db.nextId (jsDate i.signedAt), cfg.accessExpiresIn⟩)
      [i.afterSave] { i.db with nextId := i.db.nextId + 1, now := i.rowAt + i.afterRow } = (.ok i.tokens, i.db') :=
  i.run

/-- What the run returns and leaves. -/
theorem result :
    i.tokens = ⟨pl.signAccess i.user cfg.accessExpiresIn (jsDate i.db.now),
      pl.signRefresh i.user cfg.refreshExpiresIn i.db.nextId (jsDate i.signedAt), cfg.accessExpiresIn⟩ ∧
    i.db.now ≤ i.db'.now ∧
    ∀ row ∈ i.db'.refreshTokens ++ i.db'.inserts, row.tokenHash = pl.sha256 i.tokens.refreshToken →
      row.expiresAt = jsDate i.rowAt + ms (parseDurationMs cfg.refreshExpiresIn) := by
  obtain ⟨htokens, hnow, hfree, hrows⟩ := i.saving.save_ok i.run_save
  refine ⟨htokens, ?_, fun row hrow hhash => ?_⟩
  · have hle : ∀ n a b c d e : ℕ, n ≤ n + a + b + c + d + e := by
      intro n a b c d e
      omega
    rw [hnow]
    exact hle _ _ _ _ _ _
  · rw [htokens] at hhash
    obtain rfl | hold := hrows row hrow
    · rfl
    · exact absurd hhash (hash_ne_of_not_taken hfree row hold)

/-- The run on an empty database at the beginning of a second; half a second passes before the row is saved. -/
def first (pl : Platform) (cfg : Config) (user : AuthUser) : Issue pl cfg where
  saving := .alone
  user := user
  ip := none
  userAgent := none
  db := Db.empty .log 0
  afterAccess := 0
  afterId := 0
  afterRefresh := 500000
  afterRow := 0
  afterSave := 0
  tokens := ⟨pl.signAccess user cfg.accessExpiresIn 0, pl.signRefresh user cfg.refreshExpiresIn 0 0,
    cfg.accessExpiresIn⟩
  db' := (runUnder exec (fun (d : Nat) db => db.wait d)
    (issueTokens pl cfg user none none Saving.alone.save) [0, 0, 500000, 0, 0] (Db.empty .log 0)).2
  run := rfl

section First

variable (pl : Platform) (cfg : Config) (user : AuthUser)

theorem first_signedAt : (first pl cfg user).signedAt = 0 := rfl

theorem first_rowAt : (first pl cfg user).rowAt = 500000 := by
  unfold rowAt
  rw [first_signedAt]
  exact Nat.zero_add _

theorem first_now : (first pl cfg user).db'.now = 500000 := rfl

theorem first_prompt : (first pl cfg user).Prompt := by
  unfold Prompt
  rw [first_rowAt, first_signedAt]

/-- The row is there. -/
theorem first_row : ∃ row ∈ (first pl cfg user).db'.refreshTokens ++ (first pl cfg user).db'.inserts,
    row.tokenHash = pl.sha256 (first pl cfg user).tokens.refreshToken :=
  ⟨_, List.mem_append_left _ List.mem_cons_self, rfl⟩

end First

end Issue

/-! ## When the lifetimes agree -/

section Agree

variable {millis : Text → Option ℚ} {exp : Text → Option ℤ} {pl : Platform} {cfg : Config}

theorem expClaim_eq {expiresIn : Text} {now : Time} {e : ℤ} :
    expClaim millis expiresIn now = some e ↔
      ∃ m, millis expiresIn = some m ∧ e = ((now / 1000000 : ℕ) : ℤ) + ⌊m / 1000⌋ := by
  unfold expClaim
  rw [Option.map_eq_some_iff]
  constructor
  · rintro ⟨m, hm, rfl⟩
    exact ⟨m, hm, Int.floor_natCast_add _ _⟩
  · rintro ⟨m, hm, rfl⟩
    exact ⟨m, hm, Int.floor_natCast_add _ _⟩

/-- What the source can parse lasts whole seconds, as many as it says. -/
theorem floor_of_parsed (hunits : ReadsUnits millis) {expiresIn : Text} {m : ℚ} (hm : millis expiresIn = some m)
    (hparsed : (parseAmount expiresIn).isSome = true) :
    ⌊m / 1000⌋ = (parseDurationSeconds expiresIn : ℤ) := by
  obtain ⟨⟨amount, unit⟩, hp⟩ := Option.isSome_iff_exists.mp hparsed
  rw [hunits _ _ _ _ hp hm, parseAmount_seconds hp]
  push_cast
  rw [mul_div_assoc, div_self (by norm_num), mul_one, Int.floor_natCast]

theorem parseDurationSeconds_fallback {expiresIn : Text} (h : ¬ (parseAmount expiresIn).isSome = true) :
    parseDurationSeconds expiresIn = 24 * 60 * 60 := by
  unfold parseDurationSeconds
  rw [Option.not_isSome_iff_eq_none.mp h]

theorem parseDurationMs_fallback {expiresIn : Text} (h : ¬ (parseAmount expiresIn).isSome = true) :
    parseDurationMs expiresIn = 7 * 86400000 := by
  unfold parseDurationMs
  rw [Option.not_isSome_iff_eq_none.mp h]

theorem parseDurationMs_parsed {expiresIn : Text} (h : (parseAmount expiresIn).isSome = true) :
    parseDurationMs expiresIn = parseDurationSeconds expiresIn * 1000 := by
  obtain ⟨⟨amount, unit⟩, hp⟩ := Option.isSome_iff_exists.mp h
  rw [← parseAmount_seconds hp]
  unfold parseDurationMs
  rw [hp]

/-- The library and the source read lifetimes that agree: the access token does not live longer than its entry
in the blacklist, and the refresh token lives as long as its row, or up to two seconds longer. -/
def Agrees (millis : Text → Option ℚ) (cfg : Config) : Prop :=
  ∀ x y, millis cfg.accessExpiresIn = some x → millis cfg.refreshExpiresIn = some y →
    ((parseAmount cfg.accessExpiresIn).isSome = true ∨ ⌊x / 1000⌋ ≤ 24 * 60 * 60) ∧
    ((parseAmount cfg.refreshExpiresIn).isSome = true ∨ ⌊y / 1000⌋ = 7 * 86400 ∨ ⌊y / 1000⌋ = 7 * 86400 + 1)

/-- An entry written at `t` outlives a token that was signed before and lives no longer than the entry. -/
theorem blacklisted_revoke {g : Gateway.Auth.Config} {hash : Text → Text} {keys : Gateway.Auth.Keys}
    {token : Text} {t : Time} {e : ℤ} :
    Blacklisted hash token (seconds e.toNat) (revokeAccessToken g hash token t keys) ↔
      seconds e.toNat ≤ t + seconds g.accessExpiresSeconds := by
  unfold Blacklisted revokeAccessToken
  simp only [AList.lookup_insert]
  constructor
  · rintro ⟨entry, ⟨⟩, hle⟩
    exact hle
  · intro hle
    exact ⟨_, rfl, hle⟩

theorem seconds_toNat_le {n t ttl : ℕ} {k : ℤ} (hn : n * 1000000 ≤ t) (hk : k ≤ ttl) :
    ((n : ℤ) + k).toNat * 1000000 ≤ t + ttl * 1000000 := by
  have hle : ((n : ℤ) + k).toNat ≤ n + ttl := by omega
  calc ((n : ℤ) + k).toNat * 1000000
      ≤ (n + ttl) * 1000000 := Nat.mul_le_mul_right _ hle
    _ = n * 1000000 + ttl * 1000000 := Nat.add_mul n ttl 1000000
    _ ≤ t + ttl * 1000000 := Nat.add_le_add_right hn _

/-- The access token expires when its entry does, or before. -/
theorem Issue.outlived_of_le (i : Issue pl cfg) (hexp : SetsExp millis exp pl) {x : ℚ}
    (hx : millis cfg.accessExpiresIn = some x)
    (hle : ⌊x / 1000⌋ ≤ (parseDurationSeconds cfg.accessExpiresIn : ℤ)) : i.Outlived exp := by
  obtain ⟨htokens, hnow, _⟩ := i.result
  intro e he g hash keys t hg ht _
  rw [htokens, hexp.1, expClaim_eq] at he
  obtain ⟨x', hx', rfl⟩ := he
  rw [hx] at hx'
  cases hx'
  rw [blacklisted_revoke, hg]
  have hissued : jsDate i.db.now / 1000000 * 1000000 ≤ t :=
    (Nat.div_mul_le_self _ _).trans ((Nat.div_mul_le_self _ _).trans (hnow.trans ht))
  have hbound := seconds_toNat_le hissued hle
  unfold seconds
  exact hbound

/-- The row is computed within the second after the one the token counts from. -/
theorem Issue.near_of_eq (i : Issue pl cfg) (hexp : SetsExp millis exp pl) (hprompt : i.Prompt) {y : ℚ} {n : ℕ}
    (hy : millis cfg.refreshExpiresIn = some y) (hn : parseDurationMs cfg.refreshExpiresIn = n * 1000)
    (hfloor : ⌊y / 1000⌋ = n ∨ ⌊y / 1000⌋ = n + 1) : i.Near exp := by
  obtain ⟨htokens, _, hrows⟩ := i.result
  intro e he row hrow hhash
  rw [hrows row hrow hhash, hn]
  rw [htokens, hexp.2, expClaim_eq] at he
  obtain ⟨y', hy', rfl⟩ := he
  rw [hy] at hy'
  cases hy'
  have harith : ∀ (s r n : ℕ) (k : ℤ), r / 1000000 = s / 1000000 → k = n ∨ k = n + 1 →
      |((r / 1000 * 1000 + n * 1000 * 1000 : ℕ) : ℤ) -
        (((s / 1000 * 1000 / 1000000 : ℕ) : ℤ) + k) * 1000000| ≤ 1000000 := by
    intro s r n k hs hk
    rw [abs_le]
    omega
  have hclose := harith i.signedAt i.rowAt n ⌊y / 1000⌋ hprompt hfloor
  unfold jsDate ms
  exact hclose

/-- Runs on an empty database tell texts that do not agree. -/
theorem agrees_of_issues (hexp : SetsExp millis exp pl)
    (h : ∀ i : Issue pl cfg, i.Signed exp → i.Prompt → i.Outlived exp ∧ i.Near exp) : Agrees millis cfg := by
  intro x y hx hy
  let user : AuthUser := ⟨[], [], .user, true, true, 0, 0, none⟩
  have hx0 : exp (Issue.first pl cfg user).tokens.accessToken = some ⌊x / 1000⌋ := by
    refine (hexp.1 _ _ _).trans (expClaim_eq.mpr ⟨x, hx, ?_⟩)
    rw [Nat.zero_div, Nat.cast_zero, zero_add]
  have hy0 : exp (Issue.first pl cfg user).tokens.refreshToken = some ⌊y / 1000⌋ := by
    refine (hexp.2 _ _ _ _).trans (expClaim_eq.mpr ⟨y, hy, ?_⟩)
    rw [Nat.zero_div, Nat.cast_zero, zero_add]
  have hsigned : (Issue.first pl cfg user).Signed exp := ⟨by rw [hx0]; rfl, by rw [hy0]; rfl⟩
  obtain ⟨houtlived, hnear⟩ := h _ hsigned (Issue.first_prompt pl cfg user)
  constructor
  · -- A token that lives longer than a day is still valid when its entry is gone.
    by_contra hcond
    rw [not_or, not_le] at hcond
    obtain ⟨hparsed, hlong⟩ := hcond
    have hfallback := parseDurationSeconds_fallback hparsed
    have hpos : 0 < parseDurationSeconds cfg.accessExpiresIn := by
      rw [hfallback]
      decide
    have hblacklisted := houtlived _ hx0 ⟨1, parseDurationSeconds cfg.accessExpiresIn, hpos⟩ id
      Gateway.Auth.Keys.empty 500000 rfl (Issue.first_now pl cfg user).le
      (lt_trans (by decide) hlong)
    rw [blacklisted_revoke] at hblacklisted
    change ⌊x / 1000⌋.toNat * 1000000 ≤
      500000 + parseDurationSeconds cfg.accessExpiresIn * 1000000 at hblacklisted
    rw [hfallback] at hblacklisted
    omega
  · by_contra hcond
    rw [not_or, not_or] at hcond
    obtain ⟨hparsed, hfar⟩ := hcond
    obtain ⟨row, hrow, hhash⟩ := Issue.first_row pl cfg user
    have hclose := hnear _ hy0 row hrow hhash
    rw [(Issue.first pl cfg user).result.2.2 row hrow hhash, Issue.first_rowAt,
      parseDurationMs_fallback hparsed, abs_le] at hclose
    have hexpires : jsDate 500000 + ms (7 * 86400000) = 604800500000 := by decide
    rw [hexpires] at hclose
    omega

/-- In every run whose tokens are issued promptly the lifetimes agree exactly when the library and the source
read such. -/
theorem lifetimes_agree_iff (hunits : ReadsUnits millis) (hexp : SetsExp millis exp pl) :
    (∀ i : Issue pl cfg, i.Signed exp → i.Prompt → i.Outlived exp ∧ i.Near exp) ↔ Agrees millis cfg := by
  constructor
  · exact agrees_of_issues hexp
  · intro h i hsigned hprompt
    obtain ⟨e, he⟩ := Option.isSome_iff_exists.mp hsigned.1
    obtain ⟨e', he'⟩ := Option.isSome_iff_exists.mp hsigned.2
    rw [i.result.1, hexp.1, expClaim_eq] at he
    rw [i.result.1, hexp.2, expClaim_eq] at he'
    obtain ⟨x, hx, _⟩ := he
    obtain ⟨y, hy, _⟩ := he'
    obtain ⟨haccess, hrefresh⟩ := h x y hx hy
    constructor
    · refine i.outlived_of_le hexp hx ?_
      by_cases hparsed : (parseAmount cfg.accessExpiresIn).isSome = true
      · exact (floor_of_parsed hunits hx hparsed).le
      · rw [parseDurationSeconds_fallback hparsed]
        exact haccess.resolve_left hparsed
    · by_cases hparsed : (parseAmount cfg.refreshExpiresIn).isSome = true
      · exact i.near_of_eq hexp hprompt hy (parseDurationMs_parsed hparsed)
          (.inl (floor_of_parsed hunits hy hparsed))
      · exact i.near_of_eq hexp hprompt hy (n := 7 * 86400) (by rw [parseDurationMs_fallback hparsed])
          (hrefresh.resolve_left hparsed)

end Agree

/-! ## A week -/

/-- `ms` on digits with one of the units `s`, `m`, `h`, `d` and `w`. -/
def unitMillis (expiresIn : Text) : Option ℚ :=
  match parseAmount expiresIn with
  | some (amount, unit) => some ((amount * unit : ℕ) : ℚ)
  | none =>
    if expiresIn.getLast? = some 'w' ∧ expiresIn.dropLast ≠ [] ∧ expiresIn.dropLast.all Char.isDigit then
      some ((digitsValue expiresIn.dropLast * 604800000 : ℕ) : ℚ)
    else none

/-- Tokens as long as their claim says. -/
def signed (expiresIn : Text) (now : Time) : Text :=
  match expClaim unitMillis expiresIn now with
  | none => []
  | some e => List.replicate (e.toNat + 1) 'x'

def signedExp : Text → Option ℤ
  | [] => none
  | _ :: rest => some rest.length

def Platform.signing : Platform :=
  { Platform.toy with
    signAccess := fun _ expiresIn now => signed expiresIn now
    signRefresh := fun _ expiresIn _ now => signed expiresIn now }

theorem readsUnits_unitMillis : ReadsUnits unitMillis := by
  intro expiresIn amount unit m hp hm
  unfold unitMillis at hm
  rw [hp] at hm
  exact (Option.some.inj hm).symm

theorem unitMillis_nonneg {expiresIn : Text} {m : ℚ} (hm : unitMillis expiresIn = some m) : 0 ≤ m := by
  unfold unitMillis at hm
  split at hm
  · cases hm
    exact Nat.cast_nonneg _
  · split at hm
    · cases hm
      exact Nat.cast_nonneg _
    · cases hm

theorem signedExp_signed (expiresIn : Text) (now : Time) :
    signedExp (signed expiresIn now) = expClaim unitMillis expiresIn now := by
  unfold signed
  cases he : expClaim unitMillis expiresIn now with
  | none => rfl
  | some e =>
    obtain ⟨m, hm, rfl⟩ := expClaim_eq.mp he
    have hnonneg : 0 ≤ ⌊m / 1000⌋ := Int.floor_nonneg.mpr (div_nonneg (unitMillis_nonneg hm) (by norm_num))
    simp only [List.replicate_succ, signedExp, List.length_replicate]
    rw [Int.toNat_of_nonneg (add_nonneg (Nat.cast_nonneg _) hnonneg)]

theorem setsExp_signing : SetsExp unitMillis signedExp Platform.signing :=
  ⟨fun _ => signedExp_signed, fun _ expiresIn _ => signedExp_signed expiresIn⟩

/-- A day and seven days. -/
theorem lifetimes_agree_days : Agrees unitMillis Config.toy ∧
    ∀ i : Issue Platform.signing Config.toy, i.Signed signedExp → i.Prompt →
      i.Outlived signedExp ∧ i.Near signedExp :=
  have hagrees : Agrees unitMillis Config.toy := fun _ _ _ _ => ⟨.inl (by decide), .inl (by decide)⟩
  ⟨hagrees, (lifetimes_agree_iff readsUnits_unitMillis setsExp_signing).mpr hagrees⟩

/-- A week: the token lives seven days, and its entry in the blacklist one. -/
theorem lifetimes_agree_fails :
    ¬ ∀ i : Issue Platform.signing { Config.toy with accessExpiresIn := "1w".toList },
      i.Signed signedExp → i.Prompt → i.Outlived signedExp ∧ i.Near signedExp := by
  intro h
  have hagrees := agrees_of_issues setsExp_signing h 604800000 604800000 (by decide +kernel) (by decide +kernel)
  obtain hparsed | hshort := hagrees.1
  · exact absurd hparsed (by decide)
  · norm_num at hshort

end Relay.Accounts
