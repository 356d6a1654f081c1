import Relay.Chat.Verify.Additions

/-!
# Requests that stop between their writes

`leave`, `addMembers` and `deleteGroup` make several writes and no transaction around them. When a write
fails after another was made, the request throws and what was made stays: a group with two owners, with some
of its new members, or with no members and not deleted. `allOrNothing_iff` says for which failing writes
this does not happen.
-/

namespace Relay.Chat

open Relay.Lib Relay.Lib.Rows Prog

variable {s t : Db} {c : ConversationId} {u : UserId}

/-! ## The requests and their failing writes -/

inductive CompoundOp where
  | leave (c : ConversationId) (actorId : UserId)
  | addMembers (c : ConversationId) (actorId : UserId) (memberIds : List UserId)
  | deleteGroup (c : ConversationId) (actorId : UserId)
deriving DecidableEq

def CompoundOp.op : CompoundOp → Op
  | .leave c u => .leave c u
  | .addMembers c u ids => .addMembers c u ids
  | .deleteGroup c u => .deleteGroup c u

def CompoundOp.conversationId : CompoundOp → ConversationId
  | .leave c _ => c
  | .addMembers c _ _ => c
  | .deleteGroup c _ => c

/-- A request served with failing writes, and the database it leaves. -/
def Op.runFaulty (op : Op) (fault : Nat → Option Failure) (s : Db) : Except Failure Response × Db :=
  let r := Prog.run (Lib.faulty exec Call.isWrite fault) op.program (s, 0)
  (r.1, r.2.1)

/-- A request is served, some of its writes failing, or time passes. -/
inductive FaultyEvent where
  | serve (op : Op) (fault : Nat → Option Failure)
  | pass (d : Nat)

def faultyStep : FaultyEvent → Db → Db
  | .serve op fault, s => (op.runFaulty fault s).2
  | .pass d, s => s.wait d

/-- When a conversation was deleted, if it is there. -/
def Db.deletedAt (db : Db) (c : ConversationId) : Option (Option Time) :=
  (db.conversations.find? fun row => row.id = c).map Conversation.deletedAt

/-- The member rows of the conversation with their roles, and its deletion, are as before. -/
def Untouched (c : ConversationId) (s t : Db) : Prop :=
  t.membersOf c = s.membersOf c ∧ t.deletedAt c = s.deletedAt c

/-- A request that throws leaves its conversation as it was. -/
def AllOrNothing (fault : Nat → Option Failure) (s : Db) (op : CompoundOp) : Prop :=
  ∀ e, (op.op.runFaulty fault s).1 = .error e →
    Untouched op.conversationId s (op.op.runFaulty fault s).2

/-- The group a request deletes, when it passes the checks. -/
def deletePlan (found : Option ConversationWithMembers) (actorId : UserId) :
    Option ConversationWithMembers := do
  let cv ← asMember found actorId
  guard (cv.type = .group)
  guard (cv.createdBy = actorId)
  return cv

/-- If a write fails, it is the first that changes something: an owner who hands the group over to another
member leaves after the successor was saved; the inserts of new members come one after the other, and one
also fails for a user who has an active row in another spelling; the group is deleted after its members
were saved. -/
def FailsFirst (fault : Nat → Option Failure) (s : Db) : CompoundOp → Prop
  | .leave c u => ∀ m next, (SeatOp.leave u).plan (s.load c) = some (.leave m (some next)) →
    next.role ≠ .owner → fault 0 = none → fault 1 = none
  | .addMembers c u ids => ∀ cv, addPlan (s.load c) u ids = some cv →
    FirstFails fault (s.seated c) (newcomers cv (requested u ids)) 0 ∨
      AllLand fault (s.seated c) (newcomers cv (requested u ids)) 0
  | .deleteGroup c u => deletePlan (s.load c) u ≠ none → fault 0 = none → fault 1 = none

theorem Untouched.refl (c : ConversationId) (s : Db) : Untouched c s s := ⟨rfl, rfl⟩

theorem allOrNothing_of_ok {fault : Nat → Option Failure} {op : CompoundOp} {r : Response}
    (h : (op.op.runFaulty fault s).1 = .ok r) : AllOrNothing fault s op := by
  intro e he
  rw [h] at he
  cases he

theorem allOrNothing_of_error {fault : Nat → Option Failure} {op : CompoundOp} {e : Failure}
    (h : op.op.runFaulty fault s = (.error e, t)) :
    AllOrNothing fault s op ↔ Untouched op.conversationId s t := by
  unfold AllOrNothing
  rw [h]
  exact ⟨fun hall => hall e rfl, fun hun _ _ => hun⟩

/-! ## Added members -/

theorem membersOf_seatEach (s : Db) (c : ConversationId) (us : List UserId) :
    ((s.seatEach c us).membersOf c).length = (s.membersOf c).length + us.length := by
  induction us generalizing s with
  | nil => rfl
  | cons u us ih =>
    rw [Db.seatEach, ih]
    simp [Db.membersOf, Db.seatNew, Db.newMember]
    omega

theorem untouched_seatEach {us : List UserId} : Untouched c s (s.seatEach c us) ↔ us = [] := by
  constructor
  · intro h
    have hlen := membersOf_seatEach s c us
    rw [h.1] at hlen
    exact List.length_eq_zero_iff.mp (by omega)
  · rintro rfl
    exact .refl c s

theorem allOrNothing_addMembers (hkeyed : WellKeyed s) (fault : Nat → Option Failure)
    (ids : List UserId) :
    AllOrNothing fault s (.addMembers c u ids) ↔ FailsFirst fault s (.addMembers c u ids) := by
  have hop : ∀ r, run (Lib.faulty exec Call.isWrite fault) (addMembers c u ids) (s, 0) = r →
      (CompoundOp.addMembers c u ids).op.runFaulty fault s = (r.1.map .conversation, r.2.1) := by
    rintro r rfl
    unfold Op.runFaulty
    simp only [CompoundOp.op, Op.program, run_map]
  rcases run_addMembers hkeyed fault c u ids with ⟨hnone, e, m, hrun⟩ | ⟨cv, us, hplan, rfl, hcases⟩
  · rw [allOrNothing_of_error (hop _ hrun)]
    refine iff_of_true (.refl c s) fun cv hcv => ?_
    rw [hnone] at hcv
    cases hcv
  · have hiff : FailsFirst fault s (.addMembers c u ids) ↔
        FirstFails fault (s.seated c) (newcomers cv (requested u ids)) 0 ∨
          AllLand fault (s.seated c) (newcomers cv (requested u ids)) 0 := by
      simp only [FailsFirst, hplan, Option.some.injEq, forall_eq']
    rw [hiff]
    rcases hcases with ⟨⟨view, m, hrun⟩, hall⟩ | ⟨⟨e, m, hrun⟩, hnot⟩
    · exact iff_of_true (allOrNothing_of_ok (congrArg Prod.fst (hop _ hrun))) (.inr hall)
    · rw [allOrNothing_of_error (hop _ hrun), or_iff_left hnot, ← landing_eq_nil hnot]
      exact untouched_seatEach

/-! ## A member who leaves -/

theorem run_depart_faulty (fault : Nat → Option Failure) (m : ConversationMember) (n : Nat) :
    run (Lib.faulty exec Call.isWrite fault) (depart m) (s, n) =
      match fault n with
      | some e => (.error e, (s, n + 1))
      | none => (.ok (), (s.putMember { m with leftAt := some (jsDate s.now) }, n + 1)) := by
  have hnow : run (Lib.faulty exec Call.isWrite fault) (perform .newDate) (s, n) =
      (.ok (jsDate s.now), (s, n)) := run_faulty_safe rfl s n
  unfold depart
  rw [run_bind_ok _ hnow]
  cases hfault : fault n with
  | some e => exact run_faulty_fails rfl hfault s
  | none =>
    refine (run_faulty_works rfl hfault s).trans ?_
    rw [exec_saveMember (memberTaken_of_left (Option.some_ne_none _))]

theorem untouched_putMember {m m' : ConversationMember} (hkeyed : WellKeyed s) (hm : m ∈ s.seats c)
    (hid : m'.id = m.id) (hconv : m'.conversationId = c) :
    Untouched c s (s.putMember m') ↔ m' = m := by
  obtain ⟨hmem, _, _⟩ := Db.mem_seats.mp hm
  constructor
  · intro h
    have hmem' : m' ∈ (s.putMember m').membersOf c :=
      Db.mem_membersOf.mpr ⟨Db.mem_putMember.mpr (.inl ⟨rfl, m, hmem, hid.symm⟩), hconv⟩
    rw [h.1] at hmem'
    exact hkeyed.members.eq_of_id_eq (Db.mem_membersOf.mp hmem').1 hmem hid
  · rintro rfl
    have hsame : replaceRow ConversationMember.id m' s.members = s.members := by
      unfold replaceRow
      refine (List.map_congr_left fun r hr => ?_).trans (List.map_id _)
      split
      · next hrid => exact (hkeyed.members.eq_of_id_eq hr hmem hrid).symm
      · rfl
    exact ⟨by rw [Db.membersOf, Db.putMember, hsame]; rfl, rfl⟩

theorem allOrNothing_leave (hkeyed : WellKeyed s) (hs : SeatedOnce s) (fault : Nat → Option Failure) :
    AllOrNothing fault s (.leave c u) ↔ FailsFirst fault s (.leave c u) := by
  obtain ⟨k, hk, hdecides⟩ := (SeatOp.leave u).program_eq c
  have hload : run (Lib.faulty exec Call.isWrite fault) (perform (.findConversation c)) (s, 0) =
      (.ok (s.load c), (s, 0)) := run_faulty_safe rfl s 0
  have hdecided := hdecides (s.load c)
  have hop : ∀ r, run (Lib.faulty exec Call.isWrite fault) (k (s.load c)) (s, 0) = r →
      (CompoundOp.leave c u).op.runFaulty fault s = (r.1, r.2.1) := by
    rintro r rfl
    unfold Op.runFaulty
    rw [show (CompoundOp.leave c u).op.program = perform (.findConversation c) >>= k from hk,
      run_bind_ok _ hload]
  cases hplan : (SeatOp.leave u).plan (s.load c) with
  | none =>
    rw [hplan] at hdecided
    obtain ⟨e, he⟩ := hdecided
    rw [allOrNothing_of_error (hop (.error _, (s, 0)) (by rw [he]; rfl))]
    refine iff_of_true (.refl c s) ?_
    simp [FailsFirst, hplan]
  | some plan =>
    have hfits := SeatOp.plan_fits hplan
    rw [hplan] at hdecided
    rw [show k (s.load c) = plan.write >>= fun _ => return .left true from hdecided] at hop
    cases plan with
    | remove target =>
      obtain ⟨⟨_, hop', _⟩, _⟩ := hfits
      cases hop'
    | assign target role =>
      obtain ⟨⟨_, hop', _⟩, _⟩ := hfits
      cases hop'
    | leave m next =>
      cases next with
      | none =>
        have hfirst : FailsFirst fault s (.leave c u) := by simp [FailsFirst, hplan]
        refine iff_of_true ?_ hfirst
        have hdepart := run_depart_faulty (s := s) fault m 0
        cases hfault : fault 0 with
        | some e =>
          rw [hfault] at hdepart
          rw [allOrNothing_of_error (hop _ (run_bind_error _ hdepart))]
          exact .refl c s
        | none =>
          rw [hfault] at hdepart
          exact allOrNothing_of_ok (congrArg Prod.fst (hop _ (run_bind_ok _ hdepart)))
      | some n =>
        obtain ⟨_, _, hnext⟩ := hfits
        have hn : n ∈ s.seats c := by
          split at hnext
          · exact (nextOwner_mem hnext.symm).1
          · cases hnext
        obtain ⟨hmem, hconv, hleft⟩ := Db.mem_seats.mp hn
        have hfirst : FailsFirst fault s (.leave c u) ↔
            (n.role ≠ .owner → fault 0 = none → fault 1 = none) := by
          simp [FailsFirst, hplan]
        rw [hfirst]
        rw [show SeatPlan.write (.leave m (some n)) = perform (.saveMember { n with role := .owner }) >>=
          fun _ => depart m from rfl, bind_assoc] at hop
        cases hfault : fault 0 with
        | some e =>
          have hsave : run (Lib.faulty exec Call.isWrite fault)
              (perform (.saveMember { n with role := .owner })) (s, 0) = _ := run_faulty_fails rfl hfault s
          rw [allOrNothing_of_error (hop _ (run_bind_error _ hsave))]
          exact iff_of_true (.refl c s) fun _ h => absurd h (Option.some_ne_none e)
        | none =>
          -- The successor is saved.
          have hsave : run (Lib.faulty exec Call.isWrite fault)
              (perform (.saveMember { n with role := .owner })) (s, 0) = _ := run_faulty_works rfl hfault s
          have hfree : s.memberTaken { n with role := .owner } = false :=
            memberTaken_of_seated hs hmem hleft rfl
          rw [exec_saveMember hfree] at hsave
          rw [run_bind_ok _ hsave] at hop
          have hdepart := run_depart_faulty (s := s.putMember { n with role := .owner }) fault m 1
          cases hfault' : fault 1 with
          | some e =>
            rw [hfault'] at hdepart
            rw [allOrNothing_of_error (hop _ (run_bind_error _ hdepart))]
            have hsame : ({ n with role := .owner } : ConversationMember) = n ↔ n.role = .owner := by
              constructor
              · intro h
                rw [← h]
              · intro h
                rw [← h]
            have hput : Untouched c s (s.putMember { n with role := .owner }) ↔
                ({ n with role := .owner } : ConversationMember) = n :=
              untouched_putMember hkeyed hn rfl hconv
            refine hput.trans (hsame.trans ?_)
            simp
          | none =>
            rw [hfault'] at hdepart
            refine iff_of_true ?_ fun _ _ => rfl
            exact allOrNothing_of_ok (congrArg Prod.fst (hop _ (run_bind_ok _ hdepart)))

/-! ## A deleted group -/

theorem deleteGroup_eq (c : ConversationId) (u : UserId) :
    ∃ k, deleteGroup c u = perform (.findConversation c) >>= k ∧
      ∀ found, Decides (k found) ((deletePlan found u).map fun cv => do
        let now ← perform .newDate
        perform (.saveMembers (cv.members.map fun member => { member with leftAt := some now }))
        perform (.softDeleteConversation cv.id)
        return ⟨true, cv.members.map ConversationMember.userId⟩) := by
  simp only [deleteGroup, requireMembership, bind_assoc, deletePlan, asMember, map_bind_option, pure_bind]
  refine ⟨_, rfl, fun found => ?_⟩
  refine decides_require fun cv _ => decides_require fun _ _ =>
    decides_rejectIf (by simp) fun _ => decides_rejectIf (by simp) fun _ => ?_
  have hrows : ∀ now : Time, ((activeMembers cv.members).map fun member =>
      if member.leftAt = none then { member with leftAt := some now } else member) =
        (activeMembers cv.members).map fun member => { member with leftAt := some now } := by
    intro now
    exact List.map_congr_left fun m hm => if_pos (mem_activeMembers.mp hm).2
  change _ = _
  refine congrArg (perform Call.newDate >>= ·) (funext fun now => ?_)
  rw [hrows now]

theorem deletePlan_load {cv : ConversationWithMembers} (h : deletePlan (s.load c) u = some cv) :
    cv.id = c ∧ cv.members = s.seats c ∧ s.seats c ≠ [] := by
  obtain ⟨cv', hcv', h⟩ := Option.bind_eq_some_iff.mp h
  obtain ⟨_, _, h⟩ := Option.bind_eq_some_iff.mp h
  obtain ⟨_, _, h⟩ := Option.bind_eq_some_iff.mp h
  cases h
  obtain ⟨_, hid, hmembers, m, hm, _⟩ := asMember_load hcv'
  exact ⟨hid, hmembers, List.ne_nil_of_mem hm⟩

/-- The save of the members who leave. -/
theorem saveMembers_departed (s : Db) (ms : List ConversationMember) (now : Time) :
    ∃ t, s.saveMembers (ms.map fun m => { m with leftAt := some now }) = some t := by
  induction ms generalizing s with
  | nil => exact ⟨s, rfl⟩
  | cons m ms ih =>
    have hfree : s.memberTaken { m with leftAt := some now } = false :=
      memberTaken_of_left (Option.some_ne_none _)
    obtain ⟨t, ht⟩ := ih (s.putMember { m with leftAt := some now })
    refine ⟨t, ?_⟩
    rw [List.map_cons, Db.saveMembers, Db.saveMember, hfree]
    exact ht

theorem allOrNothing_deleteGroup (fault : Nat → Option Failure) :
    AllOrNothing fault s (.deleteGroup c u) ↔ FailsFirst fault s (.deleteGroup c u) := by
  obtain ⟨k, hk, hdecides⟩ := deleteGroup_eq c u
  have hload : run (Lib.faulty exec Call.isWrite fault) (perform (.findConversation c)) (s, 0) =
      (.ok (s.load c), (s, 0)) := run_faulty_safe rfl s 0
  have hdecided := hdecides (s.load c)
  have hop : ∀ r, run (Lib.faulty exec Call.isWrite fault) (k (s.load c)) (s, 0) = r →
      (CompoundOp.deleteGroup c u).op.runFaulty fault s = (r.1.map .groupDeleted, r.2.1) := by
    rintro r rfl
    unfold Op.runFaulty
    simp only [CompoundOp.op, Op.program, run_map]
    rw [hk, run_bind_ok _ hload]
  cases hplan : deletePlan (s.load c) u with
  | none =>
    rw [hplan] at hdecided
    obtain ⟨e, he⟩ := hdecided
    rw [allOrNothing_of_error (hop (.error _, (s, 0)) (by rw [he]; rfl))]
    exact iff_of_true (.refl c s) fun h => absurd hplan h
  | some cv =>
    obtain ⟨hid, hmembers, hsome⟩ := deletePlan_load hplan
    rw [hplan, Option.map_some, hid, hmembers] at hdecided
    rw [show k (s.load c) = _ from hdecided] at hop
    have hfirst : FailsFirst fault s (.deleteGroup c u) ↔ (fault 0 = none → fault 1 = none) := by
      simp [FailsFirst, hplan]
    rw [hfirst]
    have hnow : run (Lib.faulty exec Call.isWrite fault) (perform .newDate) (s, 0) =
        (.ok (jsDate s.now), (s, 0)) := run_faulty_safe rfl s 0
    rw [run_bind_ok _ hnow] at hop
    obtain ⟨t, ht⟩ := saveMembers_departed s (s.seats c) (jsDate s.now)
    have hexec : exec (.saveMembers ((s.seats c).map fun m => { m with leftAt := some (jsDate s.now) })) s =
        (.ok (), t) := by
      simp only [exec, ht]
      rfl
    cases hfault : fault 0 with
    | some e =>
      have hsave : run (Lib.faulty exec Call.isWrite fault) (perform (.saveMembers ((s.seats c).map
          fun m => { m with leftAt := some (jsDate s.now) }))) (s, 0) = _ := run_faulty_fails rfl hfault s
      rw [allOrNothing_of_error (hop _ (run_bind_error _ hsave))]
      exact iff_of_true (.refl c s) fun h => absurd h (Option.some_ne_none e)
    | none =>
      have hsave : run (Lib.faulty exec Call.isWrite fault) (perform (.saveMembers ((s.seats c).map
          fun m => { m with leftAt := some (jsDate s.now) }))) (s, 0) = _ := run_faulty_works rfl hfault s
      rw [hexec] at hsave
      rw [run_bind_ok _ hsave] at hop
      cases hfault' : fault 1 with
      | some e =>
        have hdelete : run (Lib.faulty exec Call.isWrite fault) (perform (.softDeleteConversation c))
            (t, 0 + 1) = _ := run_faulty_fails rfl hfault' t
        rw [allOrNothing_of_error (hop _ (run_bind_error _ hdelete))]
        refine iff_of_false (fun hun : Untouched c s t => ?_) (by simp)
        -- A member of the group is no longer one.
        obtain ⟨m, hm⟩ := List.exists_mem_of_ne_nil _ hsome
        obtain ⟨hmem, hconv, hleft⟩ := Db.mem_seats.mp hm
        have hmem' : m ∈ t.membersOf c := by
          rw [hun.1]
          exact Db.mem_membersOf.mpr ⟨hmem, hconv⟩
        rcases (Db.saveMembers_mem ht).1 m (Db.mem_membersOf.mp hmem').1 with hsaved | ⟨_, hother⟩
        · obtain ⟨r, _, hr⟩ := List.mem_map.mp hsaved
          rw [← hr] at hleft
          cases hleft
        · exact hother _ (List.mem_map_of_mem hm) rfl
      | none =>
        have hdelete : run (Lib.faulty exec Call.isWrite fault) (perform (.softDeleteConversation c))
            (t, 0 + 1) = _ := run_faulty_works rfl hfault' t
        refine iff_of_true ?_ fun _ => rfl
        exact allOrNothing_of_ok (congrArg Prod.fst (hop _ (run_bind_ok _ hdelete)))

/-! ## Runs -/

/-- What every write keeps, whether or not others fail. -/
theorem faulty_final (es : List FaultyEvent) (now : Time) (timeZone : Int) :
    WellKeyed (Runs.final faultyStep es (Db.empty now timeZone)) ∧
      SeatedOnce (Runs.final faultyStep es (Db.empty now timeZone)) := by
  have hrun : Runs.Always faultyStep (fun s => WellKeyed s ∧ SeatedOnce s) es (Db.empty now timeZone) := by
    refine .of_step (fun s e hs => ?_) ⟨wellKeyed_empty now timeZone, seatedOnce_empty now timeZone⟩
    cases e with
    | serve op fault =>
      have hcalls : Calls (Lib.faulty exec Call.isWrite fault) (fun _ _ => True) op.program (s, 0) :=
        calls_true _ _
      exact hcalls.preserves (I := fun t => WellKeyed t.1 ∧ SeatedOnce t.1)
        (fun _ c _ ht => faulty_keeps (I := fun s => WellKeyed s ∧ SeatedOnce s)
          (fun h => ⟨h.1.exec c, h.2.exec c⟩) ht) hs
    | pass d => exact ⟨hs.1.wait d, hs.2⟩
  exact hrun.final

/-- After any run of requests some of whose writes have failed: a request that throws leaves the member
rows, the roles and the deletion of its conversation as they were, exactly when the write that fails is the
first that changes something. -/
theorem allOrNothing_iff (es : List FaultyEvent) (now : Time) (timeZone : Int)
    (fault : Nat → Option Failure) (op : CompoundOp) :
    AllOrNothing fault (Runs.final faultyStep es (Db.empty now timeZone)) op ↔
      FailsFirst fault (Runs.final faultyStep es (Db.empty now timeZone)) op := by
  obtain ⟨hkeyed, hs⟩ := faulty_final es now timeZone
  cases op with
  | leave c u => exact allOrNothing_leave hkeyed hs fault
  | addMembers c u ids => exact allOrNothing_addMembers hkeyed fault ids
  | deleteGroup c u => exact allOrNothing_deleteGroup fault

/-- A founds a group with B and C. -/
def founded : List FaultyEvent :=
  [.serve (.createGroup userA "team".toList [userB, userC]) fun _ => none]

/-- The second write fails. -/
def secondFails (n : Nat) : Option Failure :=
  if n = 1 then some (.query (.driver "Connection terminated")) else none

/-- A leaves, and stays an owner beside B. -/
theorem allOrNothing_fails :
    ¬ ∀ (es : List FaultyEvent) (now : Time) (timeZone : Int) (fault : Nat → Option Failure)
      (op : CompoundOp), AllOrNothing fault (Runs.final faultyStep es (Db.empty now timeZone)) op := by
  intro h
  have hleave := (h founded 0 0 secondFails (.leave 0 userA) (.query (.driver "Connection terminated"))
    (by decide +kernel)).1
  exact absurd hleave (by decide +kernel)

end Relay.Chat
