import Relay.Chat.Verify.Additions
import Relay.Chat.Verify.Ownership

/-!
# Users who come back to a group

`requireMembership` drops the rows of former members before `addMembers` looks for them, so the branch that
reactivates a row is never taken: a user who comes back gets a second row. A run of group requests keeps one
row for each user of a conversation exactly when nobody comes back in it (`oneRow_iff_noReturn`).
-/

namespace Relay.Chat

open Relay.Lib Relay.Lib.Rows Prog

variable {s t : Db} {c : ConversationId} {u : UserId} {ids : List UserId}

/-! ## One row for each user -/

/-- Each user has at most one row of a conversation. -/
def OneRow (s : Db) : Prop :=
  ∀ r ∈ s.members, ∀ r' ∈ s.members, r.conversationId = r'.conversationId → r.userId = r'.userId → r.id = r'.id

instance : Decidable (OneRow s) :=
  inferInstanceAs (Decidable (∀ r ∈ s.members, ∀ r' ∈ s.members,
    r.conversationId = r'.conversationId → r.userId = r'.userId → r.id = r'.id))

/-- A user without an active row whom an accepted request names gets their row back: active, in the role
MEMBER, with the same `lastReadAt`. -/
def Reactivates (s : Db) : GroupEvent → Prop
  | .serve (.addMembers c a ids) =>
    ∀ view t, run exec (addMembers c a ids) s = (.ok view, t) →
      ∀ r ∈ s.members, r.conversationId = c → r.userId ∈ ids.map UserId.canon → r.userId ∉ s.seated c →
        ∃ r' ∈ t.members, r'.id = r.id ∧ r'.leftAt = none ∧ r'.role = .member ∧ r'.lastReadAt = r.lastReadAt
  | _ => True

/-- The users the request takes in. -/
def Db.joining (db : Db) (c : ConversationId) (actorId : UserId) (memberIds : List UserId) : List UserId :=
  match addPlan (db.load c) actorId memberIds with
  | none => []
  | some cv => landing noFault (db.seated c) (newcomers cv (requested actorId memberIds)) 0

/-- The user has no row of the conversation. -/
def Db.Rowless (db : Db) (c : ConversationId) (u : UserId) : Prop :=
  ∀ r ∈ db.members, r.conversationId = c → r.userId ≠ u

/-- The request takes in nobody who has been a member before. -/
def NoReturn (s : Db) : GroupEvent → Prop
  | .serve (.addMembers c a ids) => ∀ u ∈ s.joining c a ids, s.Rowless c u.canon
  | _ => True

theorem OneRow.of_origins (horigins : t.members.map ConversationMember.origin = s.members.map ConversationMember.origin)
    (h : OneRow s) : OneRow t := by
  have hback : ∀ r ∈ t.members, ∃ q ∈ s.members, q.origin = r.origin := by
    intro r hr
    have hmem := List.mem_map_of_mem (f := ConversationMember.origin) hr
    rw [horigins] at hmem
    exact List.mem_map.mp hmem
  intro r hr r' hr' hconv huser
  obtain ⟨q, hq, ho⟩ := hback r hr
  obtain ⟨q', hq', ho'⟩ := hback r' hr'
  simp only [ConversationMember.origin, ConversationMember.Origin.mk.injEq] at ho ho'
  obtain ⟨hid, hc, hu⟩ := ho
  obtain ⟨hid', hc', hu'⟩ := ho'
  rw [← hid, ← hid']
  exact h q hq q' hq' (by rw [hc, hc', hconv]) (by rw [hu, hu', huser])

theorem origins_saveMembers {ms : List ConversationMember} (hkeyed : WellKeyed s)
    (hms : ∀ m ∈ ms, s.KnowsMember m) (ht : s.saveMembers ms = some t) :
    t.members.map ConversationMember.origin = s.members.map ConversationMember.origin := by
  induction ms generalizing s with
  | nil =>
    cases ht
    rfl
  | cons m ms ih =>
    simp only [Db.saveMembers] at ht
    split at ht
    · cases ht
    · next s' hs' =>
      have hs := Db.saveMember_eq_some hs'
      have horigins : s'.members.map ConversationMember.origin = s.members.map ConversationMember.origin := by
        rw [hs]
        exact origins_saveMember hkeyed (hms m List.mem_cons_self)
      have hkeyed' : WellKeyed s' := by
        rw [hs]
        exact ⟨hkeyed.conversations, hkeyed.members.replaceRow, hkeyed.messages, hkeyed.scheduled⟩
      rw [ih hkeyed' (fun m' hm' => ?_) ht, horigins]
      unfold Db.KnowsMember
      rw [horigins]
      exact hms m' (List.mem_cons_of_mem _ hm')

/-- The members of a conversation that did not exist before. -/
theorem OneRow.insertMembers {s' : Db} {us : List (UserId × ConversationMemberRole)} (hinv : Inv s)
    (hmembers : s'.members = s.members) (hins : s'.insertMembers s.nextId us = some t) (hs : SeatedOnce t)
    (h : OneRow s) : OneRow t := by
  obtain ⟨rows, rfl, hrows, _⟩ := Db.insertMembers_eq_some hins
  have hold : ∀ r ∈ s.members, r.conversationId ≠ s.nextId := by
    intro r hr hconv
    have hmem : r ∈ s.membersOf s.nextId := Db.mem_membersOf.mpr ⟨hr, hconv⟩
    rw [hinv.membersOf_nextId] at hmem
    exact List.not_mem_nil hmem
  have hnew : ∀ r ∈ rows, r.conversationId = s.nextId ∧ r.leftAt = none := by
    intro r hr
    have hmem := List.mem_map_of_mem (f := fun r : ConversationMember => (r.conversationId, r.userId, r.leftAt)) hr
    rw [hrows] at hmem
    obtain ⟨_, _, heq⟩ := List.mem_map.mp hmem
    simp only [Prod.mk.injEq] at heq
    exact ⟨heq.1.symm, heq.2.2.symm⟩
  intro r hr r' hr' hconv huser
  rcases List.mem_append.mp hr with hr₁ | hr₁ <;> rcases List.mem_append.mp hr' with hr₁' | hr₁'
  · rw [hmembers] at hr₁ hr₁'
    exact h r hr₁ r' hr₁' hconv huser
  · rw [hmembers] at hr₁
    exact absurd (hconv.trans (hnew r' hr₁').1) (hold r hr₁)
  · rw [hmembers] at hr₁'
    exact absurd (hconv.symm.trans (hnew r hr₁).1) (hold r' hr₁')
  · exact hs r hr r' hr' hconv huser (hnew r hr₁).2 (hnew r' hr₁').2

/-! ## The requests that take nobody in -/

/-- Calls that insert no row into a conversation that exists. -/
def KeepsRows : Call → Prop
  | .createPrivateTx _ _ _ | .insertMember _ _ _ => False
  | _ => True

theorem ReadCall.keepsRows {call : Call} (h : ReadCall call) : KeepsRows call := by
  cases call <;> first | exact trivial | exact h.elim

theorem OneRow.exec (hinv : Inv s) (hs : SeatedOnce s) {call : Call} (hlawful : Lawful s call)
    (hkeeps : KeepsRows call) (h : OneRow s) : OneRow (exec call s).2 := by
  have hs' : SeatedOnce (Chat.exec call s).2 := hs.exec call
  cases call with
  | createPrivateTx a b key => exact hkeeps.elim
  | insertMember id u role => exact hkeeps.elim
  | createGroupTx a ids name =>
    revert hs'
    refine after_createGroupTx (P := fun t => SeatedOnce t → OneRow t) (fun _ => h) fun t ht hs' => ?_
    have hmembers : (s.insertConversation .group (some name) a none).members = s.members := rfl
    exact h.insertMembers hinv hmembers ht hs'
  | saveConversation cv =>
    simp only [Chat.exec]
    split <;> exact h
  | saveMember m =>
    refine after_saveMember h fun t ht => ?_
    refine h.of_origins ?_
    rw [Db.saveMember_eq_some ht]
    exact origins_saveMember hinv.keyed hlawful.1
  | saveMembers ms =>
    refine after_saveMembers h fun t ht => ?_
    exact h.of_origins (origins_saveMembers hinv.keyed (fun m hm => (hlawful m hm).1) ht)
  | insertHide m u =>
    simp only [Chat.exec]
    split <;> exact h
  | insertReaction m u emoji =>
    simp only [Chat.exec]
    split <;> exact h
  | insertBlock a b =>
    simp only [Chat.exec]
    split <;> exact h
  | _ => exact h

theorem OneRow.run (hreach : Reachable s) {op : Op} (huses : Uses KeepsRows op.program) (h : OneRow s) :
    OneRow (op.run s).2 := by
  have hcalls : Calls Chat.exec (fun v call => Lawful v call ∧ KeepsRows call) op.program s :=
    (op.calls hreach.inv).and_sat huses
  have hall : (Inv (op.run s).2 ∧ SeatedOnce (op.run s).2) ∧ OneRow (op.run s).2 := by
    refine hcalls.preserves (I := fun v => (Inv v ∧ SeatedOnce v) ∧ OneRow v) ?_
      ⟨⟨hreach.inv, hreach.seatedOnce⟩, h⟩
    rintro v call ⟨hlawful, hkeeps⟩ ⟨⟨hinv, hs⟩, hv⟩
    exact ⟨⟨hinv.exec hlawful, hs.exec call⟩, hv.exec hinv hs hlawful hkeeps⟩
  exact hall.2

theorem keepsRows_seat (c : ConversationId) (op : SeatOp) : Uses KeepsRows (op.op c).program := by
  have hread : ∀ call, ReadCall call → KeepsRows call := fun _ h => h.keepsRows
  cases op with
  | removeMember a u =>
    exact uses_bind (uses_removeMember hread (fun _ => trivial) c a u) fun _ => trivial
  | setMemberRole a u role =>
    exact uses_bind (uses_setMemberRole hread (fun _ => trivial) c a u role) fun _ => trivial
  | leave a => exact uses_bind (uses_leave hread (fun _ => trivial) c a) fun _ => trivial

/-! ## The request that takes users in -/

/-- The users who get a row are different ones, and none of them has a seat. -/
theorem landing_canon {fault : Nat → Option Failure} {us taken : List UserId} {n : Nat} :
    ((landing fault taken us n).map UserId.canon).Nodup ∧
      ∀ id ∈ landing fault taken us n, id.canon ∉ taken := by
  induction us generalizing taken n with
  | nil => simp [landing]
  | cons id us ih =>
    rw [landing]
    split
    · next hland =>
      have hrest : ((landing fault (id.canon :: taken) us (n + 1)).map UserId.canon).Nodup ∧
          ∀ id' ∈ landing fault (id.canon :: taken) us (n + 1), id'.canon ∉ id.canon :: taken := ih
      obtain ⟨hnodup, hout⟩ := hrest
      have hfresh : ∀ id' ∈ landing fault (id.canon :: taken) us (n + 1), id'.canon ≠ id.canon := by
        intro id' hid' heq
        exact hout id' hid' (heq ▸ List.mem_cons_self)
      refine ⟨List.nodup_cons.mpr ⟨fun hmem => ?_, hnodup⟩,
        List.forall_mem_cons.mpr ⟨hland.2, fun id' hid' hmem => ?_⟩⟩
      · obtain ⟨id', hid', heq⟩ := List.mem_map.mp hmem
        exact hfresh id' hid' heq
      · exact hout id' hid' (List.mem_cons_of_mem _ hmem)
    · simp

theorem oneRow_seatNew (hkeyed : WellKeyed s) :
    OneRow (s.seatNew c u) ↔ OneRow s ∧ s.Rowless c u.canon := by
  have hnew : ∀ r ∈ s.members, r.id ≠ s.nextId := fun r hr => Nat.ne_of_lt (hkeyed.members.lt r hr)
  constructor
  · intro h
    refine ⟨fun r hr r' hr' => h r (List.mem_append_left _ hr) r' (List.mem_append_left _ hr'), ?_⟩
    intro r hr hconv huser
    exact hnew r hr (h r (List.mem_append_left _ hr) (s.newMember c u) List.mem_concat_self hconv huser)
  · rintro ⟨h, hrowless⟩ r hr r' hr' hconv huser
    rcases List.mem_append.mp hr with hr | hr <;> rcases List.mem_append.mp hr' with hr' | hr'
    · exact h r hr r' hr' hconv huser
    · obtain rfl := List.mem_singleton.mp hr'
      exact absurd huser (hrowless r hr hconv)
    · obtain rfl := List.mem_singleton.mp hr
      exact absurd huser.symm (hrowless r' hr' hconv.symm)
    · rw [List.mem_singleton.mp hr, List.mem_singleton.mp hr']

theorem rowless_seatNew {w : UserId} :
    (s.seatNew c u).Rowless c w ↔ s.Rowless c w ∧ u.canon ≠ w := by
  simp [Db.Rowless, Db.seatNew, Db.newMember, or_imp, forall_and]

theorem oneRow_seatEach {us : List UserId} (hkeyed : WellKeyed s) (hnodup : (us.map UserId.canon).Nodup) :
    OneRow (s.seatEach c us) ↔ OneRow s ∧ ∀ id ∈ us, s.Rowless c id.canon := by
  induction us generalizing s with
  | nil => simp [Db.seatEach]
  | cons id us ih =>
    obtain ⟨hfresh, hnodup⟩ := List.nodup_cons.mp hnodup
    have hne : ∀ id' ∈ us, id.canon ≠ id'.canon := by
      intro id' hid' heq
      exact hfresh (List.mem_map.mpr ⟨id', hid', heq.symm⟩)
    rw [Db.seatEach, ih (hkeyed.seatNew c id) hnodup, oneRow_seatNew hkeyed, List.forall_mem_cons, and_assoc]
    refine and_congr_right fun _ => and_congr_right fun _ => forall₂_congr fun id' hid' => ?_
    rw [rowless_seatNew, and_iff_left (hne id' hid')]

theorem run_addMembers_store (hkeyed : WellKeyed s) (c : ConversationId) (u : UserId) (ids : List UserId) :
    (run exec (addMembers c u ids) s).2 = s.seatEach c (s.joining c u ids) := by
  unfold Db.joining
  rcases run_addMembers_alone hkeyed c u ids with
    ⟨hnone, e, hrun⟩ | ⟨cv, us, hsome, rfl, ⟨⟨view, hrun⟩, hall⟩ | ⟨⟨e, hrun⟩, _⟩⟩
  · rw [hrun, hnone]
    rfl
  · rw [hrun, hsome]
    simp only [landing_eq_self hall]
  · rw [hrun, hsome]

/-- An accepted request takes in every user it names who has no seat. -/
theorem mem_joining_of_ok (hinv : Inv s) {view : ConversationView}
    (hrun : run exec (addMembers c u ids) s = (.ok view, t)) {id : UserId} (hid : id ∈ ids)
    (hout : id.canon ∉ s.seated c) : id ∈ s.joining c u ids := by
  unfold Db.joining
  rcases run_addMembers_alone hinv.keyed c u ids with
    ⟨_, e, herror⟩ | ⟨cv, us, hsome, rfl, ⟨_, hall⟩ | ⟨⟨e, herror⟩, _⟩⟩
  · rw [hrun] at herror
    cases herror
  · rw [hsome]
    simp only [landing_eq_self hall]
    obtain ⟨hcv, _, hmembers⟩ := addPlan_load hsome
    obtain ⟨_, _, m, hm⟩ := Db.membership_eq_ok hcv
    have hnot : id ∉ s.seated c := by
      intro hseat
      obtain ⟨r, hr, _, _, huser⟩ := Db.mem_seated.mp hseat
      have hcanon : id.canon = id := by
        rw [← huser]
        exact hinv.canon r hr
      rw [hcanon] at hout
      exact hout hseat
    have hactor : u ∈ s.seated c := by
      obtain ⟨hm, huser, hleft⟩ := findActive_eq_some hm
      obtain ⟨hmem, hconv⟩ := Db.mem_membersOf.mp hm
      exact Db.mem_seated.mpr ⟨m, hmem, hconv, hleft, huser⟩
    have hne : id ≠ u := by
      rintro rfl
      exact hnot hactor
    refine mem_newcomers.mpr ⟨mem_requested.mpr ⟨hid, hne⟩, ?_⟩
    rw [hmembers]
    exact hnot
  · rw [hrun] at herror
    cases herror

/-! ## Runs -/

/-- A step leaves one row for each user exactly when nobody comes back in it. -/
theorem oneRow_groupStep (hreach : Reachable s) (h : OneRow s) (e : GroupEvent) :
    OneRow (groupStep e s) ↔ NoReturn s e := by
  have hkeeps : ∀ op : Op, Uses KeepsRows op.program → (OneRow (op.run s).2 ↔ True) :=
    fun op huses => iff_true_intro (h.run hreach huses)
  have hread : ∀ call, ReadCall call → KeepsRows call := fun _ h => h.keepsRows
  cases e with
  | pass d => exact iff_of_true h trivial
  | serve op =>
    cases op with
    | createGroup a name ids =>
      exact hkeeps _ (uses_bind (uses_createGroup (fun _ _ _ => trivial) a name ids) fun _ => trivial)
    | deleteGroup c a =>
      exact hkeeps _ (uses_bind
        (uses_deleteGroup hread (fun _ => trivial) (fun _ => trivial) c a) fun _ => trivial)
    | seat c op => exact hkeeps _ (keepsRows_seat c op)
    | addMembers c a ids =>
      have hstore : groupStep (.serve (.addMembers c a ids)) s = s.seatEach c (s.joining c a ids) := by
        rw [← run_addMembers_store hreach.inv.keyed]
        exact congrArg Prod.snd (run_map exec Response.conversation (addMembers c a ids) s)
      have hnodup : ((s.joining c a ids).map UserId.canon).Nodup := by
        unfold Db.joining
        split
        · exact List.nodup_nil
        · exact landing_canon.1
      rw [hstore, oneRow_seatEach hreach.inv.keyed hnodup, and_iff_right h]
      rfl

theorem NoReturn.reactivates (hreach : Reachable s) {e : GroupEvent} (h : NoReturn s e) : Reactivates s e := by
  cases e with
  | pass d => trivial
  | serve op =>
    cases op with
    | addMembers c a ids =>
      intro view t hrun r hr hconv hnamed hout
      obtain ⟨id, hid, heq⟩ := List.mem_map.mp hnamed
      rw [← heq] at hout
      exact absurd heq.symm (h id (mem_joining_of_ok hreach.inv hrun hid hout) r hr hconv)
    | _ => trivial

/-- In a run of group requests each user has one row of each conversation, and whoever comes back gets it
back, exactly when no request takes in a user who has been a member before. -/
theorem oneRow_iff_noReturn (es : List GroupEvent) (now : Time) (timeZone : Int) :
    Runs.Always groupStep OneRow es (Db.empty now timeZone) ∧
        Runs.Along groupStep Reactivates es (Db.empty now timeZone) ↔
      Runs.Along groupStep NoReturn es (Db.empty now timeZone) := by
  have hreach : ∀ s e, Reachable s → Reachable (groupStep e s) := by
    rintro s (op | d) h
    · exact h.run _
    · exact h.wait d
  have hstart : Reachable (Db.empty now timeZone) := reachable_empty now timeZone
  have hempty : OneRow (Db.empty now timeZone) := fun _ hr => absurd hr List.not_mem_nil
  have hone : Runs.Always groupStep OneRow es (Db.empty now timeZone) ↔
      Runs.Along groupStep NoReturn es (Db.empty now timeZone) :=
    Runs.always_iff_along hreach (fun s e hs h => oneRow_groupStep hs h e) hstart hempty
  rw [hone]
  refine and_iff_left_of_imp fun hnone => ?_
  have hall : Runs.Always groupStep Reachable es (Db.empty now timeZone) :=
    Runs.Always.of_step hreach hstart
  exact Runs.Along.of_always_along (fun s e hs h => h.reactivates hs) hall hnone

/-- The founder of a group adds a user who has left it. -/
def rejoined : List GroupEvent :=
  [.serve (.createGroup userA ['g'] [userB]), .serve (.seat 0 (.leave userB)),
    .serve (.addMembers 0 userA [userB])]

/-- The user has two rows then. -/
theorem oneRow_fails : ¬ ∀ (es : List GroupEvent) (now : Time) (timeZone : Int),
    Runs.Always groupStep OneRow es (Db.empty now timeZone) ∧
      Runs.Along groupStep Reactivates es (Db.empty now timeZone) := by
  intro hall
  have hone : OneRow (Runs.final groupStep rejoined (Db.empty 0 0)) := (hall rejoined 0 0).1.final
  have htwo : ¬ OneRow (Runs.final groupStep rejoined (Db.empty 0 0)) := by decide +kernel
  exact htwo hone

end Relay.Chat
