import Relay.Lib.Runs
import Relay.Gateway.Auth

/-!
# Whether revocation takes hold

A run interleaves, in any order, the writes the gateway's handlers make to their Redis keys, the
requests of the auth service and the passing of time. Two questions are settled over such runs:

* after a user was deactivated and the cached session has expired, the gateway lets every valid
  token of the user through, since an empty cache counts as an active user
  (`deactivated_authorized`);
* a logout blocks the token in exactly those header spellings for which the guard and the logout
  handler cut out the same text (`blocks_iff`).
-/

namespace Relay.Gateway.Auth

open Relay.Lib Relay.Auth

structure Sys where
  auth : Db
  keys : Keys
  now : Time

def Sys.empty : Sys := ⟨⟨[], []⟩, Keys.empty, 0⟩

inductive Event where
  /-- The last line of the register, login and refresh handlers. -/
  | sessionSet (user : AuthUserView)
  /-- Part of the logout and password handlers, like the next one. -/
  | sessionInvalidate (id : Text)
  | revokeAccessToken (token : Text)
  /-- A new account; its id is new as well. -/
  | register (user : AuthUser)
  | verifyEmail (id : Text)
  | deactivate (id : Text)
  | elapse (d : Time)

variable (cfg : Config) (hash : Text → Text)

def step : Event → Sys → Sys
  | .sessionSet user, s => { s with keys := AuthSessionCache.set cfg user s.now s.keys }
  | .sessionInvalidate id, s => { s with keys := AuthSessionCache.invalidate id s.keys }
  | .revokeAccessToken token, s =>
    { s with keys := TokenBlacklistService.revokeAccessToken cfg hash token s.now s.keys }
  | .register user, s =>
    if s.auth.users.any fun row => row.id = user.id then s
    else { s with auth.users := s.auth.users ++ [{ user with deletedAt := none }] }
  | .verifyEmail id, s =>
    match s.auth.users.find? fun row => row.id = id ∧ row.deletedAt = none with
    | none => s
    | some user =>
      { s with auth := s.auth.replaceUser { user with isEmailVerified := true, updatedAt := s.now } }
  | .deactivate id, s => { s with auth := (Prog.run (Auth.exec s.now) (deactivate id) s.auth).2 }
  | .elapse d, s => { s with now := s.now + d }

theorem now_le_step (e : Event) (s : Sys) : s.now ≤ (step cfg hash e s).now := by
  cases e with
  | sessionSet user => exact Nat.le_refl _
  | sessionInvalidate id => exact Nat.le_refl _
  | revokeAccessToken token => exact Nat.le_refl _
  | register user =>
    simp only [step]
    split <;> exact Nat.le_refl _
  | verifyEmail id =>
    simp only [step]
    split <;> exact Nat.le_refl _
  | deactivate id => exact Nat.le_refl _
  | elapse d => exact Nat.le_add_right _ _

/-! ## Deactivated accounts -/

/-- The account exists no more: there is a row with the id, and every such row is deleted. -/
def Gone (u : Text) (db : Db) : Prop :=
  (∃ row ∈ db.users, row.id = u) ∧ ∀ row ∈ db.users, row.id = u → row.deletedAt ≠ none

/-- Rewriting the row of another account. -/
theorem Gone.replaceUser {u : Text} {db : Db} (h : Gone u db) {user : AuthUser}
    (hne : user.id ≠ u) : Gone u (db.replaceUser user) := by
  obtain ⟨⟨row, hrow, hid⟩, hall⟩ := h
  constructor
  · refine ⟨row, List.mem_map.mpr ⟨row, hrow, ?_⟩, hid⟩
    rw [if_neg]
    exact fun heq => hne (heq.symm.trans hid)
  · intro row' hrow' hid'
    obtain ⟨old, hold, rfl⟩ := List.mem_map.mp hrow'
    split at hid'
    · exact absurd hid' hne
    · rw [if_neg ‹_›]
      exact hall old hold hid'

theorem Gone.find_eq_none {u : Text} {db : Db} (h : Gone u db) :
    (db.users.find? fun row => row.id = u ∧ row.deletedAt = none) = none := by
  rw [List.find?_eq_none]
  intro row hrow hcond
  simp only [decide_eq_true_eq] at hcond
  exact h.2 row hrow hcond.1 hcond.2

theorem find_id {u : Text} {db : Db} {user : AuthUser}
    (h : (db.users.find? fun row => row.id = u ∧ row.deletedAt = none) = some user) :
    user.id = u := by
  have hcond := List.find?_some h
  simp only [decide_eq_true_eq] at hcond
  exact hcond.1

theorem run_deactivate_none {now : Time} {u : Text} {db : Db}
    (h : (db.users.find? fun row => row.id = u ∧ row.deletedAt = none) = none) :
    Prog.run (Auth.exec now) (deactivate u) db = (.error (RpcErrors.notFound "User"), db) := by
  have hfind : Prog.run (Auth.exec now) (findUser u) db = (.ok none, db) :=
    congrArg (fun o => (Except.ok o, db)) h
  unfold deactivate
  rw [Prog.run_bind_ok _ hfind]
  rfl

/-- Both saves of `deactivate` write the row of the account. -/
theorem run_deactivate_some {now : Time} {u : Text} {db : Db} {user : AuthUser}
    (h : (db.users.find? fun row => row.id = u ∧ row.deletedAt = none) = some user) :
    ∃ tokens, Prog.run (Auth.exec now) (deactivate u) db =
      (.ok (), { (db.replaceUser { user with isActive := false, updatedAt := now }).replaceUser
        { user with isActive := false, updatedAt := now, deletedAt := some now } with
        refreshTokens := tokens }) := by
  have hfind : Prog.run (Auth.exec now) (findUser u) db = (.ok (some user), db) :=
    congrArg (fun o => (Except.ok o, db)) h
  unfold deactivate
  rw [Prog.run_bind_ok _ hfind]
  exact ⟨_, rfl⟩

/-- A deactivation that went through leaves no account. -/
theorem gone_deactivate {now : Time} {u : Text} {db : Db}
    (h : (Prog.run (Auth.exec now) (deactivate u) db).1 = .ok ()) :
    Gone u (Prog.run (Auth.exec now) (deactivate u) db).2 := by
  rcases hfind : db.users.find? fun row => row.id = u ∧ row.deletedAt = none with _ | user
  · rw [run_deactivate_none hfind] at h
    cases h
  obtain ⟨tokens, hrun⟩ := @run_deactivate_some now _ _ _ hfind
  rw [hrun]
  have hid := find_id hfind
  have hmem := List.mem_of_find?_eq_some hfind
  constructor
  · refine ⟨_, List.mem_map.mpr ⟨_, List.mem_map.mpr ⟨user, hmem, if_pos rfl⟩, if_pos rfl⟩, hid⟩
  · intro row hrow hrowid
    obtain ⟨old, _, rfl⟩ := List.mem_map.mp hrow
    by_cases hold : old.id = user.id
    · rw [if_pos hold]
      exact Option.some_ne_none now
    · rw [if_neg hold] at hrowid
      exact absurd (hrowid.trans hid.symm) hold

/-- No event brings a deleted account back. -/
theorem Gone.step {u : Text} {s : Sys} (h : Gone u s.auth) (e : Event) :
    Gone u (step cfg hash e s).auth := by
  cases e with
  | sessionSet user => exact h
  | sessionInvalidate id => exact h
  | revokeAccessToken token => exact h
  | register user =>
    simp only [Auth.step]
    split
    · exact h
    · rename_i hany
      obtain ⟨⟨row, hrow, hid⟩, hall⟩ := h
      refine ⟨⟨row, List.mem_append_left _ hrow, hid⟩, fun row' hrow' hid' => ?_⟩
      rcases List.mem_append.mp hrow' with hold | hnew
      · exact hall row' hold hid'
      · rw [List.mem_singleton.mp hnew] at hid'
        refine absurd (List.any_eq_true.mpr ⟨row, hrow, ?_⟩) hany
        exact decide_eq_true (hid.trans hid'.symm)
  | verifyEmail id =>
    simp only [Auth.step]
    split
    · exact h
    · rename_i user hfind
      refine h.replaceUser fun hid => ?_
      have hu : id = u := (find_id hfind).symm.trans hid
      rw [hu, h.find_eq_none] at hfind
      cases hfind
  | deactivate id =>
    simp only [Auth.step]
    rcases hfind : s.auth.users.find? fun row => row.id = id ∧ row.deletedAt = none with _ | user
    · rw [run_deactivate_none hfind]
      exact h
    · obtain ⟨tokens, hrun⟩ := @run_deactivate_some s.now _ _ _ hfind
      have hne : user.id ≠ u := by
        intro hid
        have hu : id = u := (find_id hfind).symm.trans hid
        rw [hu, h.find_eq_none] at hfind
        cases hfind
      rw [hrun]
      have hoff : Gone u (s.auth.replaceUser { user with isActive := false, updatedAt := s.now }) :=
        h.replaceUser hne
      exact hoff.replaceUser hne
  | elapse d => exact h

theorem Gone.final {u : Text} {s : Sys} (h : Gone u s.auth) (es : List Event) :
    Gone u (Runs.final (Auth.step cfg hash) es s).auth := by
  induction es generalizing s with
  | nil => exact h
  | cons e es ih => exact ih (h.step cfg hash e)

/-- The auth service refuses the session of a deleted account. -/
theorem validate_gone {now : Time} {u : Text} {db : Db} (h : Gone u db) :
    (Prog.run (Auth.exec now) (validate u) db).1 =
      .error (RpcErrors.unauthorized "User session is no longer valid") := by
  have hfind : Prog.run (Auth.exec now) (findUser u) db = (.ok none, db) :=
    congrArg (fun o => (Except.ok o, db)) h.find_eq_none
  unfold validate
  rw [Prog.run_bind_ok _ hfind]
  rfl

/-! ## Expired sessions -/

/-- At the end of the run, every session stored for `u` in it has expired. -/
def SetsExpired (u : Text) : List Event → Sys → Prop
  | [], _ => True
  | e :: es, s =>
    (∀ user, e = .sessionSet user → user.id = u →
      s.now + seconds cfg.validateCacheSeconds ≤
        (Runs.final (step cfg hash) (e :: es) s).now) ∧
    SetsExpired u es (step cfg hash e s)

/-- The cached session of `u`, if any, expires at `t` or before. -/
def ExpiresBy (u : Text) (t : Time) (keys : Keys) : Prop :=
  ∀ entry, keys.validate.lookup u = some entry → entry.expiresAt ≤ t

theorem ExpiresBy.set {u : Text} {t now : Time} {keys : Keys} (h : ExpiresBy u t keys)
    {user : AuthUserView} (hset : user.id = u → now + seconds cfg.validateCacheSeconds ≤ t) :
    ExpiresBy u t (AuthSessionCache.set cfg user now keys) := by
  intro entry hentry
  by_cases hid : u = user.id
  · subst hid
    simp only [AuthSessionCache.set, AList.lookup_insert, Option.some.injEq] at hentry
    rw [← hentry]
    exact hset rfl
  · simp only [AuthSessionCache.set, AList.lookup_insert_ne hid] at hentry
    exact h entry hentry

theorem ExpiresBy.invalidate {u id : Text} {t : Time} {keys : Keys} (h : ExpiresBy u t keys) :
    ExpiresBy u t (AuthSessionCache.invalidate id keys) := by
  intro entry hentry
  by_cases hid : u = id
  · subst hid
    simp only [AuthSessionCache.invalidate, AList.lookup_erase] at hentry
    cases hentry
  · simp only [AuthSessionCache.invalidate, AList.lookup_erase_ne hid] at hentry
    exact h entry hentry

theorem ExpiresBy.step {u : Text} {t : Time} {s : Sys} (h : ExpiresBy u t s.keys) {e : Event}
    (hset : ∀ user, e = .sessionSet user → user.id = u →
      s.now + seconds cfg.validateCacheSeconds ≤ t) :
    ExpiresBy u t (step cfg hash e s).keys := by
  cases e with
  | sessionSet user => exact h.set cfg (hset user rfl)
  | sessionInvalidate id => exact h.invalidate
  | revokeAccessToken token => exact h
  | register user =>
    simp only [Auth.step]
    split <;> exact h
  | verifyEmail id =>
    simp only [Auth.step]
    split <;> exact h
  | deactivate id => exact h
  | elapse d => exact h

/-- When every session stored for `u` has expired, the cache has none. -/
theorem SetsExpired.get_eq_none {u : Text} {es : List Event} {s : Sys}
    (h : SetsExpired cfg hash u es s)
    (hs : ExpiresBy u (Runs.final (step cfg hash) es s).now s.keys) :
    AuthSessionCache.get u (Runs.final (step cfg hash) es s).now
      (Runs.final (step cfg hash) es s).keys = none := by
  induction es generalizing s with
  | nil =>
    unfold AuthSessionCache.get
    rcases hentry : (Runs.final (step cfg hash) [] s).keys.validate.lookup u with _ | entry
    · rfl
    · exact if_neg (Nat.not_lt.mpr (hs entry hentry))
  | cons e es ih => exact ih h.2 (hs.step cfg hash h.1)

variable (verify : Text → Time → Option JwtPayload)

/-- The user a token without a cached session stands for. -/
def JwtPayload.asUser (payload : JwtPayload) : AuthenticatedUser :=
  ⟨payload.sub, payload.email, payload.role, true, false⟩

theorem validatePayload_of_get_eq_none {payload : JwtPayload} {now : Time} {keys : Keys}
    (haccess : payload.type = .access) (hsub : payload.sub ≠ [])
    (hget : AuthSessionCache.get payload.sub now keys = none) :
    validatePayload payload now keys = .ok payload.asUser := by
  unfold validatePayload
  rw [if_neg (by simp [haccess, hsub]), hget]
  rfl

variable {verify hash}

theorem canActivate_of_not_revoked {context : HttpContext} {now : Time} {keys : Keys}
    (hhttp : context.isHttp = true) (hpublic : context.isPublic = false)
    (hfree : ∀ token, extractBearer context.authorization = some token →
      TokenBlacklistService.isRevoked hash token now keys = false) :
    canActivate verify hash context now keys =
      (passportCanActivate verify context.authorization now keys).map some := by
  unfold canActivate
  simp only [hhttp, hpublic, Bool.not_true, Bool.false_eq_true, if_false]
  split
  · rename_i token htoken
    rw [if_neg]
    rintro ⟨_, hrevoked⟩
    rw [hfree token htoken] at hrevoked
    cases hrevoked
  · rfl

variable (verify hash)

/-- Whatever happened since: once `deactivate` has gone through for `u` and every session stored for
`u` has expired, the auth service refuses `u`, while the gateway takes every valid access token of
`u` for an active user, in requests and in handshakes. -/
theorem deactivated_authorized (es₁ es₂ : List Event) (u : Text) (token : Text)
    (payload : JwtPayload) (sys : Sys)
    (hsys : sys = Runs.final (step cfg hash) (es₁ ++ .deactivate u :: es₂) Sys.empty)
    (hdeactivated : (Prog.run (Auth.exec (Runs.final (step cfg hash) es₁ Sys.empty).now)
      (deactivate u) (Runs.final (step cfg hash) es₁ Sys.empty).auth).1 = .ok ())
    (hexpired : SetsExpired cfg hash u (es₁ ++ .deactivate u :: es₂) Sys.empty)
    (hverify : verify token sys.now = some payload) (haccess : payload.type = .access)
    (hsub : payload.sub = u) (hu : u ≠ []) :
    (Prog.run (Auth.exec sys.now) (validate u) sys.auth).1 =
        .error (RpcErrors.unauthorized "User session is no longer valid") ∧
      validatePayload payload sys.now sys.keys = .ok payload.asUser ∧
      (∀ context, context.isHttp = true → context.isPublic = false →
        context.authorization.bind fromAuthHeaderAsBearerToken = some token →
        (∀ t, extractBearer context.authorization = some t →
          TokenBlacklistService.isRevoked hash t sys.now sys.keys = false) →
        canActivate verify hash context sys.now sys.keys = .ok (some payload.asUser)) ∧
      (∀ client, extractToken client = some token → token ≠ [] →
        TokenBlacklistService.isRevoked hash token sys.now sys.keys = false →
        authenticate verify hash client sys.now sys.keys = .ok payload.asUser) := by
  subst hsub
  have hgone : Gone payload.sub sys.auth := by
    have hfinal : sys = Runs.final (step cfg hash) es₂ (step cfg hash (.deactivate payload.sub)
        (Runs.final (step cfg hash) es₁ Sys.empty)) := by
      rw [hsys, Runs.final_append]
      rfl
    rw [hfinal]
    exact Gone.final cfg hash (gone_deactivate hdeactivated) es₂
  have hget : AuthSessionCache.get payload.sub sys.now sys.keys = none := by
    rw [hsys]
    exact hexpired.get_eq_none cfg hash nofun
  have hvalid := validatePayload_of_get_eq_none haccess hu hget
  refine ⟨validate_gone hgone, hvalid, ?_, ?_⟩
  · intro context hhttp hpublic htoken hfree
    rw [canActivate_of_not_revoked hhttp hpublic hfree]
    unfold passportCanActivate
    rw [htoken]
    simp only [hverify, hvalid]
    rfl
  · intro client htoken hne hfree
    unfold authenticate
    rw [htoken]
    simp only [hne, hfree, hverify, haccess, hu, hget, Bool.false_eq_true, if_false, ne_eq,
      not_true_eq_false, false_or]
    rfl

/-! ### A run -/

def demoConfig : Config := ⟨15, 86400, by decide⟩

def demoUser : AuthUser := ⟨['u'], ['m'], .user, true, true, 0, 0, none⟩

def demoPayload : JwtPayload := ⟨['u'], ['m'], .user, .access⟩

/-- The only token is `T`; it never expires here. -/
def demoVerify (token : Text) (_ : Time) : Option JwtPayload :=
  if token = ['T'] then some demoPayload else none

/-- The user registers, gets a session, is deactivated, and a minute passes. -/
def demoRun : List Event :=
  [.register demoUser, .sessionSet (toView demoUser)] ++ .deactivate ['u'] :: [.elapse (seconds 60)]

theorem deactivated_authorized_demo :
    validatePayload demoPayload (Runs.final (step demoConfig id) demoRun Sys.empty).now
      (Runs.final (step demoConfig id) demoRun Sys.empty).keys = .ok demoPayload.asUser := by
  refine (deactivated_authorized demoConfig id demoVerify
    [.register demoUser, .sessionSet (toView demoUser)] [.elapse (seconds 60)] ['u'] ['T']
    demoPayload _ rfl (by decide) ?_ (by decide) rfl rfl (by decide)).2.1
  refine ⟨nofun, ⟨fun _ _ _ => by decide, nofun, nofun, trivial⟩⟩

/-- The run lets the token of a deactivated user through. -/
theorem deactivated_rejected_fails :
    ¬ ∀ (cfg : Config) (hash : Text → Text) (verify : Text → Time → Option JwtPayload)
        (es₁ es₂ : List Event) (u : Text) (token : Text) (payload : JwtPayload) (sys : Sys),
      sys = Runs.final (step cfg hash) (es₁ ++ .deactivate u :: es₂) Sys.empty →
      (Prog.run (Auth.exec (Runs.final (step cfg hash) es₁ Sys.empty).now)
        (deactivate u) (Runs.final (step cfg hash) es₁ Sys.empty).auth).1 = .ok () →
      SetsExpired cfg hash u (es₁ ++ .deactivate u :: es₂) Sys.empty →
      verify token sys.now = some payload → payload.type = .access → payload.sub = u →
      TokenBlacklistService.isRevoked hash token sys.now sys.keys = false →
      ∀ user, validatePayload payload sys.now sys.keys ≠ .ok user := by
  intro h
  refine h demoConfig id demoVerify [.register demoUser, .sessionSet (toView demoUser)]
    [.elapse (seconds 60)] ['u'] ['T'] demoPayload _ rfl (by decide) ?_ (by decide) rfl rfl
    (by decide) demoPayload.asUser (by decide)
  exact ⟨nofun, ⟨fun _ _ _ => by decide, nofun, nofun, trivial⟩⟩

/-! ## Logged-out tokens -/

/-- The blacklist has an entry for the token that lives until `t` at least. -/
def Blacklisted (token : Text) (t : Time) (keys : Keys) : Prop :=
  ∃ entry, keys.blacklist.lookup (hash token) = some entry ∧ t ≤ entry.expiresAt

theorem Blacklisted.isRevoked {token : Text} {t now : Time} {keys : Keys}
    (h : Blacklisted hash token t keys) (hnow : now < t) :
    TokenBlacklistService.isRevoked hash token now keys = true := by
  obtain ⟨entry, hentry, hle⟩ := h
  unfold TokenBlacklistService.isRevoked
  rw [hentry]
  exact decide_eq_true (Nat.lt_of_lt_of_le hnow hle)

/-- No event shortens the life of a blacklist entry. -/
theorem Blacklisted.step {token : Text} {t : Time} {s : Sys}
    (h : Blacklisted hash token t s.keys) (ht : t ≤ s.now + seconds cfg.accessExpiresSeconds)
    (e : Event) : Blacklisted hash token t (step cfg hash e s).keys := by
  cases e with
  | revokeAccessToken token' =>
    obtain ⟨entry, hentry, hle⟩ := h
    by_cases hid : hash token = hash token'
    · exact ⟨_, by rw [hid]; exact AList.lookup_insert _, ht⟩
    · exact ⟨entry, (AList.lookup_insert_ne hid).trans hentry, hle⟩
  | sessionSet user => exact h
  | sessionInvalidate id => exact h
  | register user =>
    simp only [Auth.step]
    split <;> exact h
  | verifyEmail id =>
    simp only [Auth.step]
    split <;> exact h
  | deactivate id => exact h
  | elapse d => exact h

theorem Blacklisted.final {token : Text} {t : Time} {s : Sys}
    (h : Blacklisted hash token t s.keys) (ht : t ≤ s.now + seconds cfg.accessExpiresSeconds)
    (es : List Event) : Blacklisted hash token t (Runs.final (Auth.step cfg hash) es s).keys := by
  induction es generalizing s with
  | nil => exact h
  | cons e es ih =>
    exact ih (h.step cfg hash ht e)
      (Nat.le_trans ht (Nat.add_le_add_right (now_le_step cfg hash e s) _))

/-- The system after the logout handler. -/
def Sys.logout (s : Sys) (userId : Text) (header : Text) : Sys :=
  { s with keys := Auth.logout hash cfg userId (some header) s.now s.keys }

/-- After a logout with header `h1`, and as long as its blacklist entry lives, no request with
header `h2` to a route that is not public is authorised, whatever tokens are valid and whatever
happens in between. -/
def Blocks (h1 h2 : Text) : Prop :=
  ∀ (verify : Text → Time → Option JwtPayload) (s : Sys) (userId : Text) (es : List Event),
    (Runs.final (step cfg hash) es (s.logout cfg hash userId h1)).now <
        s.now + seconds cfg.accessExpiresSeconds →
      ∀ user, canActivate verify hash ⟨true, false, some h2⟩
        (Runs.final (step cfg hash) es (s.logout cfg hash userId h1)).now
        (Runs.final (step cfg hash) es (s.logout cfg hash userId h1)).keys ≠ .ok user

theorem drop_seven {h : Text} (hpre : bearerPrefix.isPrefixOf h = true) :
    h = bearerPrefix ++ h.drop 7 := by
  obtain ⟨rest, rfl⟩ := List.isPrefixOf_iff_prefix.mp hpre
  rfl

/-- For a header `h2` passport takes a token from, a logout with `h1` blocks `h2` exactly when the
guard cuts out of `h2` the text the handler cut out of `h1`. -/
theorem blocks_iff (hinj : Function.Injective hash) (t h1 h2 : Text)
    (ht2 : fromAuthHeaderAsBearerToken h2 = some t) :
    Blocks cfg hash h1 h2 ↔
      bearerPrefix.isPrefixOf h2 = true ∧ h2.drop 7 = Js.replaceFirst bearerPrefix [] h1 := by
  constructor
  · intro h
    by_contra hcond
    -- A fresh system in which every token is valid.
    have hblocked := h (fun _ _ => some demoPayload) Sys.empty [] [] (by
      change 0 < 0 + cfg.accessExpiresSeconds * 1000000
      rw [Nat.zero_add]
      exact Nat.mul_pos cfg.access_pos (by decide)) (some demoPayload.asUser)
    refine hblocked ?_
    rw [canActivate_of_not_revoked rfl rfl]
    · unfold passportCanActivate
      rw [Option.bind_some, ht2]
      simp only
      rw [validatePayload_of_get_eq_none rfl (by decide)]
      · rfl
      · simp only [Runs.final, Sys.logout, Auth.logout]
        unfold AuthSessionCache.get
        split
        · rfl
        · rename_i entry hentry
          exfalso
          revert hentry
          unfold logoutToken
          simp only [Option.map_some]
          split
          · intro hsome
            cases hsome
          · intro hsome
            cases hsome
    · intro token htoken
      unfold extractBearer at htoken
      split at htoken
      · cases htoken
      · rename_i hdr hhdr
        cases hhdr
        split at htoken
        · rename_i hpre
          cases htoken
          have hne : h2.drop 7 ≠ Js.replaceFirst bearerPrefix [] h1 := fun he => hcond ⟨hpre, he⟩
          have hkey : hash (h2.drop 7) ≠ hash (Js.replaceFirst bearerPrefix [] h1) :=
            fun he => hne (hinj he)
          unfold TokenBlacklistService.isRevoked
          have hlookup : (Runs.final (step cfg hash) []
              (Sys.empty.logout cfg hash [] h1)).keys.blacklist.lookup (hash (h2.drop 7)) =
                none := by
            simp only [Runs.final, Sys.logout, Auth.logout, logoutToken, Option.map_some]
            split
            · rfl
            · exact AList.lookup_insert_ne hkey
          rw [hlookup]
        · cases htoken
  · rintro ⟨hpre, heq⟩ verify s userId es hlive user
    have hne : h2.drop 7 ≠ [] := by
      intro hnil
      have hnone : fromAuthHeaderAsBearerToken bearerPrefix = none := by decide
      rw [drop_seven hpre, hnil, List.append_nil, hnone] at ht2
      cases ht2
    have hblack : Blacklisted hash (h2.drop 7) (s.now + seconds cfg.accessExpiresSeconds)
        (s.logout cfg hash userId h1).keys := by
      simp only [Sys.logout, Auth.logout, logoutToken, Option.map_some]
      rw [← heq, if_neg hne]
      exact ⟨_, AList.lookup_insert _, Nat.le_refl _⟩
    have hrevoked := (hblack.final cfg hash (Nat.le_refl _) es).isRevoked hash hlive
    have htoken : extractBearer (some h2) = some (h2.drop 7) := if_pos hpre
    unfold canActivate
    simp only [Bool.not_true, Bool.false_eq_true, if_false, htoken, hrevoked, hne, ne_eq,
      not_false_eq_true, and_self, if_true]
    simp

/-- The same spelling in both requests is blocked. -/
theorem blocks_same : Blocks demoConfig id "Bearer T".toList "Bearer T".toList :=
  (blocks_iff demoConfig id Function.injective_id ['T'] "Bearer T".toList "Bearer T".toList
    (by decide)).mpr (by decide)

/-- Passport takes the token from `bearer T` as well; the guard finds no token to look up. -/
theorem blocks_fails :
    ¬ ∀ (cfg : Config) (hash : Text → Text) (t h1 h2 : Text),
      fromAuthHeaderAsBearerToken h1 = some t → fromAuthHeaderAsBearerToken h2 = some t →
        Blocks cfg hash h1 h2 := by
  intro h
  have hblocks := h demoConfig id ['T'] "Bearer T".toList "bearer T".toList (by decide)
    (by decide)
  refine hblocks demoVerify Sys.empty ['u'] [] (by decide) (some demoPayload.asUser) ?_
  decide

end Relay.Gateway.Auth
