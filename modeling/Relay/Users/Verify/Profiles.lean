import Relay.Lib.Requests
import Relay.Users.Service

/-!
# One profile for each user

`createProfile` looks for the profile of the user, inserts one, and looks again if the insert has violated the
index. Requests for one user that run at the same time interleave their calls; the first insert decides, and
all of them return its row (`createProfile_once`).
-/

namespace Relay.Users

open Relay.Lib Prog

variable {arrange : Arrangement} {toLowerCase : Text → Text} {db : Db} {u : UserId}

/-! ## The calls of a request -/

/-- How far a request has come. -/
inductive Stage where
  | looking
  /-- No profile was found. -/
  | missing
  /-- The insert has violated the index. -/
  | conflict
  | done (view : UserProfileView)
  /-- No profile was found after the conflict. -/
  | stuck

/-- The calls for a profile of the user, in their order. -/
def lookups (payload : CreateProfilePayload) : Protocol Call Call.Answer Failure Stage where
  allowed g c := match g with
    | .looking => c = .findProfile payload.userId
    | .missing => ∃ d : ProfileDraft, d.userId = payload.userId ∧ c = .insertProfile d
    | .conflict => c = .findProfile payload.userId
    | .done _ => False
    | .stuck => False
  next g c r := match g, c, r with
    | .looking, .findProfile _, .ok (some row) => .done (toView row)
    | .looking, .findProfile _, .ok none => .missing
    | .missing, .insertProfile _, .ok row => .done (toView row)
    | .missing, .insertProfile _, .error _ => .conflict
    | .conflict, .findProfile _, .ok (some row) => .done (toView row)
    | .conflict, .findProfile _, .ok none => .stuck
    | _, _, _ => .stuck
  answers c r := match c with
    | .findProfile _ => ∃ found, r = .ok found
    | .insertProfile _ => ∀ e, r = .error e → ∃ constraint, e = .queryFailed constraint
    | _ => True

/-- What a request returns. -/
def Returned (_ : CreateProfilePayload) (r : Except Failure UserProfileView) (g : Stage) : Prop :=
  g = .stuck ∨ ∃ view, r = .ok view ∧ g = .done view

theorem createProfile_follows (payload : CreateProfilePayload) :
    Follows (lookups payload) (Returned payload) (createProfile toLowerCase payload) .looking := by
  refine ⟨rfl, fun r hr => ?_⟩
  obtain ⟨found, rfl⟩ := hr
  cases found with
  | some existing => exact .inr ⟨_, rfl, rfl⟩
  | none =>
    refine ⟨⟨_, rfl, rfl⟩, fun r hr => ?_⟩
    cases r with
    | ok saved => exact .inr ⟨_, rfl, rfl⟩
    | error e =>
      obtain ⟨constraint, rfl⟩ := hr e rfl
      refine ⟨rfl, fun r hr => ?_⟩
      obtain ⟨found, rfl⟩ := hr
      cases found with
      | some existing => exact .inr ⟨_, rfl, rfl⟩
      | none => exact .inl rfl

theorem lookups_answers (payload : CreateProfilePayload) (db : Db) (c : Call) :
    (lookups payload).answers c (exec arrange c db).1 := by
  cases c with
  | findProfile userId => exact ⟨_, rfl⟩
  | insertProfile d =>
    intro e he
    simp only [exec] at he
    split at he
    · cases he
      exact ⟨_, rfl⟩
    · cases he
  | _ => trivial

/-! ## The rows -/

/-- The view shows the row; it may spell the user as the request did. -/
def Shows (view : UserProfileView) (row : UserProfile) : Prop := { view with userId := row.userId } = toView row

/-- What a stage says of the rows of the user. -/
def Stage.Sound (u : UserId) (db : Db) : Stage → Prop
  | .looking => True
  | .missing => True
  | .conflict => ∃ row, db.active u = [row]
  | .done view => ∃ row, db.active u = [row] ∧ Shows view row
  | .stuck => False

/-- What is known while requests create a profile of the user: there is at most one, and the requests that came
past it have found it. -/
def Settling (u : UserId) (db : Db) (gs : List (CreateProfilePayload × Stage)) : Prop :=
  (db.active u).length ≤ 1 ∧
    ∀ (i : Nat) (p : CreateProfilePayload) (g : Stage), gs[i]? = some (p, g) → p.userId = u ∧ g.Sound u db

/-- A stage stays sound while the row of the user stays. -/
theorem Stage.Sound.keep {db' : Db} (h : ∀ row, db.active u = [row] → db'.active u = [row]) {g : Stage}
    (hg : g.Sound u db) : g.Sound u db' := by
  cases g with
  | looking => trivial
  | missing => trivial
  | conflict =>
    obtain ⟨row, hrow⟩ := hg
    exact ⟨row, h row hrow⟩
  | done view =>
    obtain ⟨row, hrow, hshows⟩ := hg
    exact ⟨row, h row hrow, hshows⟩
  | stuck => exact hg

theorem Settling.set {gs : List (CreateProfilePayload × Stage)} {i : Nat} {p : CreateProfilePayload} {g g' : Stage}
    {db' : Db} (h : Settling u db gs) (hg : gs[i]? = some (p, g)) (hlength : (db'.active u).length ≤ 1)
    (hkeep : ∀ row, db.active u = [row] → db'.active u = [row]) (hg' : g'.Sound u db') :
    Settling u db' (gs.set i (p, g')) := by
  refine ⟨hlength, fun j q y hj => ?_⟩
  obtain ⟨rfl, heq⟩ | ⟨_, hj⟩ := (getElem?_set_iff hg).mp hj
  · cases heq
    exact ⟨(h.2 j p g hg).1, hg'⟩
  · exact ⟨(h.2 j q y hj).1, (h.2 j q y hj).2.keep hkeep⟩

theorem eq_singleton_of_length_le {α : Type} {l : List α} (h : l.length ≤ 1) (hne : l ≠ []) : ∃ a, l = [a] := by
  cases l with
  | nil => exact absurd rfl hne
  | cons a l =>
    have hnil : l = [] := List.length_eq_zero_iff.mp (Nat.le_zero.mp (Nat.le_of_succ_le_succ h))
    exact ⟨a, by rw [hnil]⟩

variable (arrange) in
theorem active_insert {d : ProfileDraft} (hd : d.userId = u) (hnone : db.active u = []) :
    (exec arrange (.insertProfile d) db).2.active u = [d.toRow db.nextId db.now] := by
  subst hd
  simp only [exec, hnone, ne_eq, not_true, if_false]
  unfold Db.active at hnone ⊢
  rw [List.filter_append, hnone]
  simp [ProfileDraft.toRow]

/-- The step lemma: every call of a request keeps what is known. -/
theorem Settling.call {gs : List (CreateProfilePayload × Stage)} {i : Nat} {p : CreateProfilePayload} {g : Stage}
    {c : Call} (h : Settling u db gs) (hg : gs[i]? = some (p, g)) (hc : (lookups p).allowed g c) :
    Settling u (exec arrange c db).2 (gs.set i (p, (lookups p).next g c (exec arrange c db).1)) := by
  obtain ⟨hu, hsound⟩ := h.2 i p g hg
  cases g with
  | looking =>
    cases hc
    refine h.set hg h.1 (fun row hrow => hrow) ?_
    by_cases hactive : db.active u = []
    · simp [exec, lookups, hu, hactive, Stage.Sound]
    · obtain ⟨row, hrow⟩ := eq_singleton_of_length_le h.1 hactive
      simp only [exec, lookups, hu, hrow, List.head?_cons]
      exact ⟨row, hrow, rfl⟩
  | missing =>
    obtain ⟨d, hd, rfl⟩ := hc
    have hdu : d.userId = u := hd.trans hu
    by_cases hactive : db.active u = []
    · have hinsert := active_insert arrange hdu hactive
      have hanswer : (exec arrange (.insertProfile d) db).1 =
          .ok { d.toRow db.nextId db.now with userId := d.userId } := by simp [exec, hdu, hactive]
      refine h.set hg ?_ (fun row hrow => ?_) ?_
      · rw [hinsert]
        exact Nat.le_refl 1
      · rw [hactive] at hrow
        cases hrow
      · rw [hanswer]
        exact ⟨_, hinsert, rfl⟩
    · obtain ⟨row, hrow⟩ := eq_singleton_of_length_le h.1 hactive
      have hrefused : exec arrange (.insertProfile d) db =
          (.error (.queryFailed "UQ_user_profiles_userId_active"), db) := by simp [exec, hdu, hactive]
      rw [hrefused]
      exact h.set hg h.1 (fun _ h => h) ⟨row, hrow⟩
  | conflict =>
    cases hc
    obtain ⟨row, hrow⟩ := hsound
    refine h.set hg h.1 (fun row hrow => hrow) ?_
    simp only [exec, lookups, hu, hrow, List.head?_cons]
    exact ⟨row, hrow, rfl⟩
  | done view => exact hc.elim
  | stuck => exact hc.elim

/-! ## Runs -/

/-- The requests after a run of their calls, in the order that the events say. -/
def creating (arrange : Arrangement) (toLowerCase : Text → Text) (ps : List CreateProfilePayload)
    (es : List (Pool.Event Empty Nat)) (db : Db) : Pool Call Call.Answer Failure UserProfileView Db :=
  Runs.final (Pool.step (exec arrange) Empty.elim fun d db => db.wait d) es ⟨db, ps.map (createProfile toLowerCase)⟩

/-- Requests for one user that run in any order: each that has ended returned the one profile of the user. -/
theorem createProfile_once (hdb : (db.active u).length ≤ 1) {ps : List CreateProfilePayload}
    (hps : ∀ p ∈ ps, p.userId = u) (es : List (Pool.Event Empty Nat)) {i : Nat}
    {r : Except Failure UserProfileView} (hr : (creating arrange toLowerCase ps es db).result i = some r) :
    ∃ row view, (creating arrange toLowerCase ps es db).store.active u = [row] ∧ r = .ok view ∧ Shows view row := by
  have hstart : Serving lookups Returned (Settling u) ps
      (requests (createProfile toLowerCase) (fun _ => Stage.looking) ps db) := by
    refine Serving.start createProfile_follows ⟨hdb, fun i p g hg => ?_⟩
    rw [List.getElem?_map] at hg
    obtain ⟨q, hq, heq⟩ := Option.map_eq_some_iff.mp hg
    cases heq
    exact ⟨hps p (List.mem_of_getElem? hq), trivial⟩
  have hcall : ∀ (v : Db) (gs : List (CreateProfilePayload × Stage)) (i : Nat) (p : CreateProfilePayload)
      (g : Stage) (c : Call), Settling u v gs → gs[i]? = some (p, g) → (lookups p).allowed g c → false = false → True →
        Settling u (exec arrange c v).2 (gs.set i (p, (lookups p).next g c (exec arrange c v).1)) :=
    fun v gs i p g c h hg hc _ _ => h.call hg hc
  have hrun : Runs.Always (serve (exec arrange) (fun (d : Nat) (db : Db) => db.wait d) lookups fun _ _ => false)
      (Serving lookups Returned (Settling u) ps) es
      (requests (createProfile toLowerCase) (fun _ => Stage.looking) ps db) :=
    Runs.Always.of_step (fun w e h => h.step (L := fun _ _ _ _ => True) lookups_answers hcall
      (fun (d : Nat) (v : Db) gs h => show Settling u (v.wait d) gs from h) (Staged.meets_true _ w e)) hstart
  have hpool : (Runs.final (serve (exec arrange) (fun (d : Nat) (db : Db) => db.wait d) lookups fun _ _ => false) es
      (requests (createProfile toLowerCase) (fun _ => Stage.looking) ps db)).pool =
        creating arrange toLowerCase ps es db := serve_pool es
  have hend := hrun.final
  rw [← hpool] at hr ⊢
  obtain ⟨p, hp⟩ : ∃ p, ps[i]? = some p := by
    rw [← hend.served, List.getElem?_map]
    obtain ⟨t, ht, _⟩ := Option.bind_eq_some_iff.mp hr
    have hlt := (List.getElem?_eq_some_iff.mp ht).1
    rw [hend.follow.length_eq] at hlt
    exact ⟨_, by rw [List.getElem?_eq_getElem hlt]; rfl⟩
  obtain ⟨g, hg, hreturned⟩ := hend.result hp hr
  have hsound := (hend.inv.2 i p g hg).2
  obtain rfl | ⟨view, rfl, rfl⟩ := hreturned
  · exact hsound.elim
  · obtain ⟨row, hrow, hshows⟩ := hsound
    exact ⟨row, view, hrow, rfl, hshows⟩

/-- A request for one user. -/
def profileOf (name : Text) : CreateProfilePayload := ⟨⟨['a'], Eq.refl true⟩, "A@mail".toList, name, ['x']⟩

/-- Both look first, then both insert, and the second looks again. -/
def bothAtOnce : List (Pool.Event Empty Nat) :=
  [.advance 0, .advance 1, .pass 5, .advance 0, .advance 1, .advance 1]

/-- The second request returns the profile of the first. -/
theorem createProfile_once_both :
    ∃ row view, (creating (fun _ _ rows => rows) Js.toLower [profileOf ['p'], profileOf ['q']] bothAtOnce
        (Db.empty 0)).store.active ⟨['a'], rfl⟩ = [row] ∧
      (.ok ⟨0, ⟨['a'], rfl⟩, "a@mail".toList, ['p'], ['x'], none, none, none, none, true, 0, 0⟩ :
        Except Failure UserProfileView) = .ok view ∧ Shows view row :=
  createProfile_once (i := 1) (by decide) (by simp [profileOf]) bothAtOnce (by decide +kernel)

end Relay.Users
