import Mathlib.Data.Finset.Card
import Relay.Chat.Verify.Additions

/-!
# The size of a group that grows

`addMembers` compares the number of active members and requested users with the cap before it skips the
users who are members already. A request that names current members is rejected although the group would
stay within the cap (`addsWithinCap_iff`).
-/

namespace Relay.Chat

open Relay.Lib Relay.Lib.Rows Prog

variable {s t : Db} {c : ConversationId} {u : UserId} {ids : List UserId}

/-- The active members and the requested users. -/
def Db.union (db : Db) (c : ConversationId) (ids : List UserId) : Finset UserId :=
  (db.seated c).toFinset ∪ ids.toFinset

/-- The request succeeds. -/
def Adds (s : Db) (c : ConversationId) (u : UserId) (ids : List UserId) : Prop :=
  ∃ view, (run exec (addMembers c u ids) s).1 = .ok view

/-- The request succeeds exactly when the union has at most 50 users, which are then the members. -/
def AddsWithinCap (s : Db) (c : ConversationId) (u : UserId) (ids : List UserId) : Prop :=
  (Adds s c u ids ↔ (s.union c ids).card ≤ 50) ∧
    (Adds s c u ids → ((run exec (addMembers c u ids) s).2.seated c).toFinset = s.union c ids)

/-! ## The users who join -/

theorem nodup_requested : (requested u ids).Nodup := Js.nodup_eraseDups _

/-- Different users in the spelling of the database, none of them a member. -/
theorem allLand_of_canon {us taken : List UserId} (hcanon : ∀ id ∈ us, id.canon = id)
    (hnodup : us.Nodup) (hout : ∀ id ∈ us, id ∉ taken) (n : Nat) : AllLand noFault taken us n := by
  induction us generalizing taken n with
  | nil => trivial
  | cons id us ih =>
    obtain ⟨hid, hcanon⟩ := List.forall_mem_cons.mp hcanon
    obtain ⟨hfresh, hnodup⟩ := List.nodup_cons.mp hnodup
    obtain ⟨hnew, hout⟩ := List.forall_mem_cons.mp hout
    rw [AllLand, Lands, hid]
    refine ⟨⟨rfl, hnew⟩, ih hcanon hnodup (fun id' hid' => ?_) (n + 1)⟩
    rw [List.mem_cons, not_or]
    refine ⟨fun heq => hfresh ?_, hout id' hid'⟩
    rw [← heq]
    exact hid'

theorem seated_seatEach (s : Db) (c : ConversationId) (us : List UserId) :
    (s.seatEach c us).seated c = s.seated c ++ us.map UserId.canon := by
  induction us generalizing s with
  | nil => simp [Db.seatEach]
  | cons id us ih => simp [Db.seatEach, ih, seated_seatNew]

/-- The union counts every active member and every requested user at most once. -/
theorem card_union_le (hu : u ∈ s.seated c) :
    (s.union c ids).card ≤ (s.seated c).length + (requested u ids).length := by
  have hunion : s.union c ids = (s.seated c).toFinset ∪ (requested u ids).toFinset := by
    ext id
    simp only [Db.union, Finset.mem_union, List.mem_toFinset, mem_requested]
    by_cases hid : id = u
    · simp [hid, hu]
    · simp [hid]
  rw [hunion]
  exact Nat.le_trans (Finset.card_union_le _ _)
    (Nat.add_le_add (List.toFinset_card_le _) (List.toFinset_card_le _))

/-! ## The request of an owner or admin -/

/-- The user runs the group as its owner or as an administrator. -/
def Db.Administers (db : Db) (c : ConversationId) (u : UserId) : Prop :=
  ∃ cv, db.membership c u = .ok cv ∧ cv.type = .group ∧
    ∃ m ∈ cv.members, m.userId = u ∧ isGroupAdmin m.role = true

theorem Db.Administers.seated (h : s.Administers c u) : u ∈ s.seated c := by
  obtain ⟨cv, hcv, _, m, hm, huser, _⟩ := h
  rw [(Db.membership_eq_ok hcv).2.1] at hm
  exact List.mem_map.mpr ⟨m, hm, huser⟩

theorem asMember_of_membership {cv : ConversationWithMembers} (h : s.membership c u = .ok cv) :
    asMember (s.load c) u = some cv := by
  obtain ⟨hrow, hmembers, m, hm⟩ := Db.membership_eq_ok h
  have hid := Db.membership_id h
  unfold asMember Db.load
  simp only [hrow, Option.map_some, Db.withMembers, hid, Option.bind_eq_bind, Option.bind_some, hm]
  rw [← hmembers]
  rfl

/-- What is left to check for an owner or administrator. -/
theorem addPlan_administers (hkeyed : WellKeyed s) (hs : SeatedOnce s) (h : s.Administers c u)
    (hother : ∃ id ∈ ids, id ≠ u) :
    ∃ cv, cv.members = s.seats c ∧ addPlan (s.load c) u ids =
      if (s.seated c).length + (requested u ids).length ≤ MAX_GROUP_MEMBERS then some cv else none := by
  obtain ⟨cv, hcv, htype, m, hm, huser, hadmin⟩ := h
  have hmembers : cv.members = s.seats c := (Db.membership_eq_ok hcv).2.1
  have hfind : cv.members.find? (fun member => member.userId = u) = some m := by
    cases hfind : cv.members.find? fun member => member.userId = u with
    | none =>
      have hnot := List.find?_eq_none.mp hfind m hm
      simp [huser] at hnot
    | some m' =>
      have huser' : m'.userId = u := by simpa using List.find?_some hfind
      rw [hmembers] at hm
      obtain ⟨hmem, hconv, hleft⟩ := Db.mem_seats.mp hm
      obtain ⟨hmem', hconv', hleft'⟩ := Db.mem_seats.mp (hmembers ▸ List.mem_of_find?_eq_some hfind)
      refine congrArg some (hkeyed.members.eq_of_id_eq hmem' hmem ?_)
      exact hs m' hmem' m hmem (hconv'.trans hconv.symm) (huser'.trans huser.symm) hleft' hleft
  have hsome : requested u ids ≠ [] := by
    obtain ⟨id, hid, hne⟩ := hother
    exact List.ne_nil_of_mem (mem_requested.mpr ⟨hid, hne⟩)
  have hlen : (s.seated c).length = cv.members.length := by
    rw [hmembers]
    exact List.length_map _
  refine ⟨cv, hmembers, ?_⟩
  unfold addPlan
  rw [asMember_of_membership hcv, hlen]
  simp only [Option.bind_eq_bind, Option.bind_some, guard, htype, hfind, Option.any_some, hadmin, hsome, if_true,
    ne_eq, not_false_eq_true]
  split <;> rfl

/-- The request succeeds exactly when the number of members and requested users is within the cap, and the
requested users are members then. -/
theorem adds_iff (hkeyed : WellKeyed s) (hs : SeatedOnce s) (h : s.Administers c u)
    (hlower : ∀ id ∈ ids, id.canon = id) (hother : ∃ id ∈ ids, id ≠ u) :
    (Adds s c u ids ↔ (s.seated c).length + (requested u ids).length ≤ MAX_GROUP_MEMBERS) ∧
      (Adds s c u ids → ((run exec (addMembers c u ids) s).2.seated c).toFinset = s.union c ids) := by
  have hu : u ∈ s.seated c := h.seated
  obtain ⟨cv, hmembers, hplan⟩ := addPlan_administers hkeyed hs h hother
  have hcanon : ∀ id ∈ newcomers cv (requested u ids), id.canon = id :=
    fun id hid => hlower id (mem_requested.mp (List.mem_of_mem_filter hid)).1
  have hnew : ∀ id, id ∈ newcomers cv (requested u ids) ↔ id ∈ requested u ids ∧ id ∉ s.seated c := by
    intro id
    rw [mem_newcomers, hmembers]
    rfl
  have hall : AllLand noFault (s.seated c) (newcomers cv (requested u ids)) 0 :=
    allLand_of_canon hcanon (nodup_requested.filter _) (fun id hid => ((hnew id).mp hid).2) 0
  unfold Adds
  rcases run_addMembers_alone hkeyed c u ids with
    ⟨hnone, e, hrun⟩ | ⟨cv', us, hsome, rfl, ⟨⟨view, hrun⟩, _⟩ | ⟨_, hnot⟩⟩
  · rw [hrun]
    rw [hnone] at hplan
    split at hplan
    · cases hplan
    · next hmany => exact ⟨iff_of_false (by simp) hmany, by simp⟩
  · rw [hrun]
    rw [hsome] at hplan
    split at hplan
    · next hfew =>
      cases hplan
      refine ⟨iff_of_true ⟨view, rfl⟩ hfew, fun _ => ?_⟩
      rw [seated_seatEach, List.map_congr_left hcanon, List.map_id']
      ext id
      simp only [Db.union, List.toFinset_append, Finset.mem_union, List.mem_toFinset, hnew, mem_requested]
      by_cases hid : id ∈ s.seated c
      · simp [hid]
      · have hne : id ≠ u := by
          rintro rfl
          exact hid hu
        simp [hid, hne]
    · cases hplan
  · rw [hsome] at hplan
    split at hplan
    · cases hplan
      exact absurd hall hnot
    · cases hplan

/-- For an owner or administrator of a group and users in the spelling of the database, not all of them the
actor: the request succeeds exactly when the union has at most 50 users, and leaves the union, unless the
union is within the cap and the number of members and requested users is not. -/
theorem addsWithinCap_iff (hreach : Reachable s) (h : s.Administers c u) (hlower : ∀ id ∈ ids, id.canon = id)
    (hother : ∃ id ∈ ids, id ≠ u) :
    AddsWithinCap s c u ids ↔
      ¬ ((s.union c ids).card ≤ 50 ∧ 50 < (s.seated c).length + (requested u ids).length) := by
  obtain ⟨hadds, hset⟩ := adds_iff hreach.inv.keyed hreach.seatedOnce h hlower hother
  have hle : (s.union c ids).card ≤ (s.seated c).length + (requested u ids).length := card_union_le h.seated
  unfold AddsWithinCap
  rw [and_iff_left hset, hadds, show MAX_GROUP_MEMBERS = 50 from rfl]
  omega

/-- Users to fill a group with. -/
def userOf (n : Nat) : UserId := ⟨List.replicate n 'a', by simp [uuidChar]⟩

/-- The members of a group besides its founder. -/
def guestsOf (n : Nat) : List UserId := (List.range n).map fun i => userOf (i + 2)

/-- A group of `n + 1` users; the founder is the first. -/
def Db.groupOf (n : Nat) : Db :=
  ((Op.createGroup (userOf 1) "team".toList (guestsOf n)).run (Db.empty 0 0)).2

theorem reachable_groupOf (n : Nat) : Reachable (Db.groupOf n) := (reachable_empty 0 0).run _

/-- The founder of a group of three adds a fourth user. -/
theorem addsWithinCap_iff_groupOf : AddsWithinCap (Db.groupOf 2) 0 (userOf 1) [userOf 9] ↔
    ¬ (((Db.groupOf 2).union 0 [userOf 9]).card ≤ 50 ∧
      50 < ((Db.groupOf 2).seated 0).length + (requested (userOf 1) [userOf 9]).length) := by
  have hruns : (Db.groupOf 2).Administers 0 (userOf 1) := ⟨_, rfl, rfl, _, List.mem_cons_self, rfl, rfl⟩
  exact addsWithinCap_iff (reachable_groupOf 2) hruns (by decide) (by decide)

/-- The founder of a group of 26 adds the 25 other members again: the union has 26 users, but the members and
the requested users are 51. -/
theorem addsWithinCap_fails : ¬ ∀ (s : Db) (c : ConversationId) (u : UserId) (ids : List UserId), Reachable s →
    s.Administers c u → (∀ id ∈ ids, id.canon = id) → (∃ id ∈ ids, id ≠ u) → AddsWithinCap s c u ids := by
  intro hall
  have hreach : Reachable (Db.groupOf 25) := reachable_groupOf 25
  have hruns : (Db.groupOf 25).Administers 0 (userOf 1) := ⟨_, rfl, rfl, _, List.mem_cons_self, rfl, rfl⟩
  have hlower : ∀ id ∈ guestsOf 25, id.canon = id := by decide +kernel
  have hother : ∃ id ∈ guestsOf 25, id ≠ userOf 1 := ⟨userOf 2, by decide +kernel, by decide⟩
  have hsmall : ((Db.groupOf 25).union 0 (guestsOf 25)).card ≤ 50 := by decide +kernel
  have hmany : ¬ ((Db.groupOf 25).seated 0).length + (requested (userOf 1) (guestsOf 25)).length ≤
      MAX_GROUP_MEMBERS := by decide +kernel
  obtain ⟨hadds, _⟩ := adds_iff hreach.inv.keyed hreach.seatedOnce hruns hlower hother
  exact hmany (hadds.mp ((hall _ _ _ _ hreach hruns hlower hother).1.mpr hsmall))

end Relay.Chat
