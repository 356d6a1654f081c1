import Relay.Lib.Faults
import Relay.Chat.Verify.Ownership
import Relay.Chat.Verify.Viewers

/-!
# Adding members

`addMembers` goes over the requested users one by one; since `requireMembership` keeps the active members
only, a requested user either is one of them and is skipped, or gets a new row. So the loop is a list of
inserts (`addEach_eq`), of which the first that fails ends the request (`run_insertEach`).
-/

namespace Relay.Chat

open Relay.Lib Relay.Lib.Rows Prog

variable {s t : Db} {c : ConversationId} {u : UserId} {cv : ConversationWithMembers}

/-! ## The loop as inserts -/

/-- The users a request names, the actor aside. -/
def requested (actorId : UserId) (memberIds : List UserId) : List UserId :=
  (memberIds.filter fun id => id ≠ actorId).eraseDups

theorem mem_requested {ids : List UserId} {id : UserId} : id ∈ requested u ids ↔ id ∈ ids ∧ id ≠ u := by
  simp [requested, List.mem_eraseDups]

/-- The users without an active row that is spelled like them. -/
def newcomers (cv : ConversationWithMembers) (us : List UserId) : List UserId :=
  us.filter fun u => u ∉ cv.members.map ConversationMember.userId

theorem mem_newcomers {us : List UserId} :
    u ∈ newcomers cv us ↔ u ∈ us ∧ u ∉ cv.members.map ConversationMember.userId := by
  simp [newcomers]

theorem newcomers_of_mem (us : List UserId) (h : u ∈ cv.members.map ConversationMember.userId) :
    newcomers cv (u :: us) = newcomers cv us :=
  List.filter_cons_of_neg (by simpa using h)

theorem newcomers_of_not_mem (us : List UserId) (h : u ∉ cv.members.map ConversationMember.userId) :
    newcomers cv (u :: us) = u :: newcomers cv us :=
  List.filter_cons_of_pos (by simpa using h)

def insertEach (c : ConversationId) : List UserId → M Unit
  | [] => return ()
  | u :: us => do
    perform (.insertMember c u .member)
    insertEach c us

theorem addEach_eq (hactive : ∀ m ∈ cv.members, m.leftAt = none) (us : List UserId) :
    addEach cv us = insertEach cv.id (newcomers cv us) := by
  induction us with
  | nil => rfl
  | cons u us ih =>
    unfold addEach addMember
    rw [ih]
    cases hfind : cv.members.find? fun member => member.userId = u with
    | some existing =>
      have hmem := List.mem_of_find?_eq_some hfind
      have huser : existing.userId = u := by simpa using List.find?_some hfind
      have hskip : u ∈ cv.members.map ConversationMember.userId := huser ▸ List.mem_map_of_mem hmem
      simp only [if_pos (hactive existing hmem)]
      rw [newcomers_of_mem us hskip]
      rfl
    | none =>
      have hnew : u ∉ cv.members.map ConversationMember.userId := by
        intro hu
        obtain ⟨m, hm, huser⟩ := List.mem_map.mp hu
        have hnone := List.find?_eq_none.mp hfind m hm
        simp [huser] at hnone
      rw [newcomers_of_not_mem us hnew]
      rfl

/-! ## The request -/

/-- The conversation a request adds to, when it passes the checks. -/
def addPlan (found : Option ConversationWithMembers) (actorId : UserId) (memberIds : List UserId) :
    Option ConversationWithMembers := do
  let cv ← asMember found actorId
  guard (cv.type = .group)
  guard ((cv.members.find? fun member => member.userId = actorId).any
    (fun member => isGroupAdmin member.role) = true)
  guard (requested actorId memberIds ≠ [])
  guard (cv.members.length + (requested actorId memberIds).length ≤ MAX_GROUP_MEMBERS)
  return cv

/-- A request loads the group, and is rejected or inserts the newcomers. -/
theorem addMembers_eq (c : ConversationId) (u : UserId) (ids : List UserId) :
    ∃ k, addMembers c u ids = perform (.findConversation c) >>= k ∧
      ∀ found, Decides (k found) ((addPlan found u ids).map fun cv =>
        insertEach cv.id (newcomers cv (requested u ids)) >>= fun _ => getConversation c u) := by
  simp only [addMembers, requireMembership, assertGroupAdmin, bind_assoc, addPlan, asMember, map_bind_option,
    pure_bind]
  refine ⟨_, rfl, fun found => ?_⟩
  refine decides_require fun cv _ => decides_require fun _ _ =>
    decides_rejectIf (by simp) fun _ => decides_rejectIf (by simp) fun _ =>
      decides_rejectIf (by simp [requested]) fun _ => decides_rejectIf ?_ fun _ => ?_
  · simp only [activeMembers_activeMembers, requested, Nat.not_lt]
  · change _ = _ >>= _
    rw [← addEach_eq fun m hm => (mem_activeMembers.mp hm).2]
    rfl

/-! ## Inserts that may fail -/

/-- The calls that write to a repository. -/
def Call.isWrite : Call → Bool
  | .createPrivateTx _ _ _ | .createGroupTx _ _ _ | .saveConversation _ | .softDeleteConversation _
  | .saveMember _ | .saveMembers _ | .insertMember _ _ _ | .insertMessage _ | .saveMessage _
  | .insertHide _ _ | .removeReaction _ | .insertReaction _ _ _ | .insertScheduled _ | .saveScheduled _
  | .claimScheduled _ | .insertBlock _ _ | .deleteBlock _ _ | .insertAudit _ _ _ _ _
  | .saveWorkspace _ => true
  | _ => false

theorem ReadCall.not_write {c : Call} (h : ReadCall c) : c.isWrite = false := by
  cases c <;> first | rfl | exact h.elim

/-- The users with an active row of the conversation, as they are stored. -/
def Db.seated (db : Db) (c : ConversationId) : List UserId :=
  (db.seats c).map ConversationMember.userId

theorem Db.mem_seated : u ∈ s.seated c ↔
    ∃ m ∈ s.members, m.conversationId = c ∧ m.leftAt = none ∧ m.userId = u := by
  simp only [Db.seated, List.mem_map, Db.mem_seats, and_assoc]

section Inserts

variable (fault : Nat → Option Failure)

/-- The `n`-th write does not fail, and the user has no active row yet. -/
def Lands (taken : List UserId) (u : UserId) (n : Nat) : Prop := fault n = none ∧ u.canon ∉ taken

instance (taken : List UserId) (u : UserId) (n : Nat) : Decidable (Lands fault taken u n) :=
  inferInstanceAs (Decidable (_ ∧ _))

/-- The users up to the first whose insert is not made. -/
def landing : List UserId → List UserId → Nat → List UserId
  | _, [], _ => []
  | taken, u :: us, n =>
    if Lands fault taken u n then u :: landing (u.canon :: taken) us (n + 1) else []

/-- All of the inserts are made. -/
def AllLand : List UserId → List UserId → Nat → Prop
  | _, [], _ => True
  | taken, u :: us, n => Lands fault taken u n ∧ AllLand (u.canon :: taken) us (n + 1)

end Inserts

/-- The row of a new member. -/
def Db.newMember (db : Db) (c : ConversationId) (u : UserId) : ConversationMember :=
  ⟨db.nextId, c, u.canon, .member, db.now, none, none, none, none⟩

def Db.seatNew (db : Db) (c : ConversationId) (u : UserId) : Db :=
  { db with members := db.members ++ [db.newMember c u], nextId := db.nextId + 1 }

theorem insertMember_eq (hkeyed : WellKeyed s) (c : ConversationId) (u : UserId) :
    s.insertMember c u .member = if u.canon ∈ s.seated c then none else some (s.seatNew c u) := by
  have hfree : s.memberTaken (s.newMember c u) = true ↔ u.canon ∈ s.seated c := by
    rw [← not_iff_not, Bool.not_eq_true, memberTaken_eq_false, Db.mem_seated]
    constructor
    · rintro h ⟨m, hm, hconv, hleft, huser⟩
      exact h rfl m hm (Nat.ne_of_lt (hkeyed.members.lt m hm)) hconv huser hleft
    · intro h _ m hmem _ hconv huser hleft
      exact h ⟨m, hmem, hconv, hleft, huser⟩
  unfold Db.insertMember
  change (if s.memberTaken (s.newMember c u) = true then none else some (s.seatNew c u)) = _
  simp only [hfree]

theorem seated_seatNew (s : Db) (c : ConversationId) (u : UserId) :
    (s.seatNew c u).seated c = s.seated c ++ [u.canon] := by
  simp [Db.seated, Db.seats, Db.membersOf, Db.seatNew, Db.newMember, activeMembers]

theorem WellKeyed.seatNew (h : WellKeyed s) (c : ConversationId) (u : UserId) :
    WellKeyed (s.seatNew c u) :=
  have ⟨hc, _, hmsg, hsch⟩ := h.step_nextId
  ⟨hc, h.members.concat rfl, hmsg, hsch⟩

/-- The database after the inserts for the users. -/
def Db.seatEach (db : Db) (c : ConversationId) : List UserId → Db
  | [] => db
  | u :: us => (db.seatNew c u).seatEach c us

/-- The first insert is not made. -/
def FirstFails (fault : Nat → Option Failure) (taken : List UserId) : List UserId → Nat → Prop
  | [], _ => False
  | u :: _, n => ¬ Lands fault taken u n

theorem landing_eq_self {fault : Nat → Option Failure} {us taken : List UserId} {n : Nat}
    (h : AllLand fault taken us n) : landing fault taken us n = us := by
  induction us generalizing taken n with
  | nil => rfl
  | cons u us ih =>
    obtain ⟨hland, hrest⟩ := h
    rw [landing, if_pos hland, ih hrest]

theorem landing_eq_nil {fault : Nat → Option Failure} {us taken : List UserId} {n : Nat}
    (h : ¬ AllLand fault taken us n) : landing fault taken us n = [] ↔ FirstFails fault taken us n := by
  cases us with
  | nil => exact absurd trivial h
  | cons u us =>
    change _ ↔ ¬ Lands fault taken u n
    rw [landing]
    by_cases hland : Lands fault taken u n
    · simp [hland]
    · simp [hland]

/-- All inserts are made, or those before the first that is not. -/
theorem run_insertEach (hkeyed : WellKeyed s) (fault : Nat → Option Failure) (us taken : List UserId)
    (htaken : ∀ w, w ∈ taken ↔ w ∈ s.seated c) (n : Nat) :
    (∃ m, run (Lib.faulty exec Call.isWrite fault) (insertEach c us) (s, n) =
        (.ok (), (s.seatEach c us, m))) ∧ AllLand fault taken us n ∨
      (∃ e m, run (Lib.faulty exec Call.isWrite fault) (insertEach c us) (s, n) =
        (.error e, (s.seatEach c (landing fault taken us n), m))) ∧ ¬ AllLand fault taken us n := by
  induction us generalizing s taken n with
  | nil => exact .inl ⟨⟨n, rfl⟩, trivial⟩
  | cons u us ih =>
    have hinsert : exec (.insertMember c u .member) s =
        if u.canon ∈ s.seated c then
          (.error (.query (.uniqueViolation "UQ_conversation_members_active")), s)
        else (.ok (), s.seatNew c u) := by
      simp only [exec]
      rw [insertMember_eq hkeyed]
      split <;> rfl
    unfold insertEach
    by_cases hland : Lands fault taken u n
    · have hout : u.canon ∉ s.seated c := fun h => hland.2 ((htaken _).mpr h)
      rw [if_neg hout] at hinsert
      have hrun : run (Lib.faulty exec Call.isWrite fault) (perform (.insertMember c u .member)) (s, n) =
          _ := run_faulty_works rfl hland.1 s
      rw [hinsert] at hrun
      rw [run_bind_ok _ hrun]
      have htaken' : ∀ w, w ∈ u.canon :: taken ↔ w ∈ (s.seatNew c u).seated c := by
        intro w
        rw [seated_seatNew, List.mem_cons, List.mem_append, List.mem_singleton, htaken, or_comm]
      rcases ih (hkeyed.seatNew c u) (u.canon :: taken) htaken' (n + 1) with
        ⟨⟨m, hrest⟩, hall⟩ | ⟨⟨e, m, hrest⟩, hnot⟩
      · exact .inl ⟨⟨m, hrest⟩, hland, hall⟩
      · refine .inr ⟨⟨e, m, ?_⟩, fun h => hnot h.2⟩
        rw [landing, if_pos hland]
        exact hrest
    · refine .inr ⟨?_, fun h => hland h.1⟩
      rw [landing, if_neg hland]
      cases hfault : fault n with
      | some e => exact ⟨e, n + 1, run_bind_error _ (run_faulty_fails rfl hfault s)⟩
      | none =>
        have hin : u.canon ∈ s.seated c := by
          by_contra hout
          exact hland ⟨hfault, fun h => hout ((htaken _).mp h)⟩
        rw [if_pos hin] at hinsert
        have hrun : run (Lib.faulty exec Call.isWrite fault) (perform (.insertMember c u .member))
            (s, n) = _ := run_faulty_works rfl hfault s
        rw [hinsert] at hrun
        exact ⟨_, n + 1, run_bind_error _ hrun⟩

/-! ## The whole request -/

theorem membership_of_asMember (h : asMember (s.load c) u = some cv) : s.membership c u = .ok cv := by
  obtain ⟨cv', hload, hcv⟩ := Option.bind_eq_some_iff.mp h
  obtain ⟨m, hm, heq⟩ := Option.bind_eq_some_iff.mp hcv
  obtain ⟨row, hrow, hwith⟩ := Option.map_eq_some_iff.mp hload
  subst hwith
  cases heq
  have hid := (Db.findConversation_eq_some hrow).2.1
  simp only [Db.withMembers, hid] at hm ⊢
  simp only [Db.membership, hrow, hm]

theorem membership_seatNew (h : s.membership c u = .ok cv) (c' : ConversationId) (u' : UserId) :
    ∃ cv', (s.seatNew c' u').membership c u = .ok cv' := by
  obtain ⟨hrow, _, m, hm⟩ := Db.membership_eq_ok h
  have hrow' : (s.seatNew c' u').findConversation c = some cv.toConversation := hrow
  have hm' : findActive ((s.seatNew c' u').membersOf c) u = some m := by
    unfold Db.membersOf Db.seatNew findActive at *
    rw [List.filter_append, List.find?_append, hm]
    rfl
  exact ⟨⟨cv.toConversation, activeMembers ((s.seatNew c' u').membersOf c)⟩, by
    simp only [Db.membership, hrow', hm']⟩

theorem membership_seatEach (h : s.membership c u = .ok cv) (us : List UserId) :
    ∃ cv', (s.seatEach c us).membership c u = .ok cv' := by
  induction us generalizing s cv with
  | nil => exact ⟨cv, h⟩
  | cons u' us ih =>
    obtain ⟨cv', hcv'⟩ := membership_seatNew h c u'
    exact ih hcv'

/-- What the request has planned for the stored group. -/
theorem addPlan_load {ids : List UserId} (h : addPlan (s.load c) u ids = some cv) :
    s.membership c u = .ok cv ∧ cv.id = c ∧ cv.members = s.seats c := by
  obtain ⟨cv', hcv', h⟩ := Option.bind_eq_some_iff.mp h
  obtain ⟨_, _, h⟩ := Option.bind_eq_some_iff.mp h
  obtain ⟨_, _, h⟩ := Option.bind_eq_some_iff.mp h
  obtain ⟨_, _, h⟩ := Option.bind_eq_some_iff.mp h
  obtain ⟨_, _, h⟩ := Option.bind_eq_some_iff.mp h
  cases h
  obtain ⟨_, hid, hmembers, _⟩ := asMember_load hcv'
  exact ⟨membership_of_asMember hcv', hid, hmembers⟩

/-- A request whose writes may fail: it is rejected, all inserts are made and it answers, or those before
the first that is not. -/
theorem run_addMembers (hkeyed : WellKeyed s) (fault : Nat → Option Failure) (c : ConversationId)
    (u : UserId) (ids : List UserId) :
    (addPlan (s.load c) u ids = none ∧
        ∃ e m, run (Lib.faulty exec Call.isWrite fault) (addMembers c u ids) (s, 0) = (.error e, (s, m))) ∨
      ∃ cv us, addPlan (s.load c) u ids = some cv ∧ us = newcomers cv (requested u ids) ∧
        ((∃ view m, run (Lib.faulty exec Call.isWrite fault) (addMembers c u ids) (s, 0) =
            (.ok view, (s.seatEach c us, m))) ∧ AllLand fault (s.seated c) us 0 ∨
          (∃ e m, run (Lib.faulty exec Call.isWrite fault) (addMembers c u ids) (s, 0) =
            (.error e, (s.seatEach c (landing fault (s.seated c) us 0), m))) ∧
              ¬ AllLand fault (s.seated c) us 0) := by
  obtain ⟨k, hk, hdecides⟩ := addMembers_eq c u ids
  have hload : run (Lib.faulty exec Call.isWrite fault) (perform (.findConversation c)) (s, 0) =
      (.ok (s.load c), (s, 0)) := run_faulty_safe rfl s 0
  have hdecided := hdecides (s.load c)
  rw [hk, run_bind_ok _ hload]
  cases hplan : addPlan (s.load c) u ids with
  | none =>
    rw [hplan] at hdecided
    obtain ⟨e, he⟩ := hdecided
    rw [he]
    exact .inl ⟨rfl, _, 0, rfl⟩
  | some cv =>
    obtain ⟨hmembership, hid, _⟩ := addPlan_load hplan
    rw [hplan] at hdecided
    rw [show k (s.load c) = insertEach cv.id (newcomers cv (requested u ids)) >>= fun _ =>
      getConversation c u from hdecided, hid]
    refine .inr ⟨cv, _, rfl, rfl, ?_⟩
    rcases run_insertEach hkeyed fault (newcomers cv (requested u ids)) (s.seated c)
      (fun _ => Iff.rfl) 0 with ⟨⟨m, hrun⟩, hall⟩ | ⟨⟨e, m, hrun⟩, hnot⟩
    · obtain ⟨cv', hcv'⟩ := membership_seatEach hmembership (newcomers cv (requested u ids))
      have hreads : Sat (fun _ _ => True) (fun c => Call.isWrite c = false) (getConversation c u) :=
        Sat.mono (fun _ _ h => h) (fun _ h => h.not_write) (uses_getConversation (fun _ h => h) c u)
      have hanswer : run (Lib.faulty exec Call.isWrite fault) (getConversation c u)
          (s.seatEach c (newcomers cv (requested u ids)), m) = _ := run_faulty_of_sat hreads _ m
      rw [run_getConversation hcv'] at hanswer
      exact .inl ⟨⟨_, m, (run_bind_ok _ hrun).trans hanswer⟩, hall⟩
    · exact .inr ⟨⟨e, m, run_bind_error _ hrun⟩, hnot⟩

/-- No write fails. -/
def noFault (_ : Nat) : Option Failure := none

/-- A request whose writes do not fail; the index may still refuse one of the rows. -/
theorem run_addMembers_alone (hkeyed : WellKeyed s) (c : ConversationId) (u : UserId)
    (ids : List UserId) :
    (addPlan (s.load c) u ids = none ∧ ∃ e, run exec (addMembers c u ids) s = (.error e, s)) ∨
      ∃ cv us, addPlan (s.load c) u ids = some cv ∧ us = newcomers cv (requested u ids) ∧
        ((∃ view, run exec (addMembers c u ids) s = (.ok view, s.seatEach c us)) ∧
            AllLand noFault (s.seated c) us 0 ∨
          (∃ e, run exec (addMembers c u ids) s =
            (.error e, s.seatEach c (landing noFault (s.seated c) us 0))) ∧
              ¬ AllLand noFault (s.seated c) us 0) := by
  have hnone : ∃ m, 0 ≤ m ∧ run (Lib.faulty exec Call.isWrite noFault) (addMembers c u ids) (s, 0) =
      ((run exec (addMembers c u ids) s).1, ((run exec (addMembers c u ids) s).2, m)) :=
    run_faulty_of_none (fun _ _ => rfl) _ s
  obtain ⟨m, _, hm⟩ := hnone
  have hback : ∀ {r : Except Failure ConversationView} {t : Db} {m' : Nat},
      run (Lib.faulty exec Call.isWrite noFault) (addMembers c u ids) (s, 0) = (r, (t, m')) →
        run exec (addMembers c u ids) s = (r, t) := by
    intro r t m' h
    rw [hm] at h
    simp only [Prod.mk.injEq] at h
    exact Prod.ext h.1 h.2.1
  rcases run_addMembers hkeyed noFault c u ids with ⟨hnone, e, _, hrun⟩ | ⟨cv, us, hplan, hus, hcases⟩
  · exact .inl ⟨hnone, e, hback hrun⟩
  · refine .inr ⟨cv, us, hplan, hus, ?_⟩
    rcases hcases with ⟨⟨view, _, hrun⟩, hall⟩ | ⟨⟨e, _, hrun⟩, hnot⟩
    · exact .inl ⟨⟨view, hback hrun⟩, hall⟩
    · exact .inr ⟨⟨e, hback hrun⟩, hnot⟩

end Relay.Chat
