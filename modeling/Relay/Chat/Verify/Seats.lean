import Relay.Lib.Protocol
import Relay.Chat.Verify.Checks

/-!
# The requests that change who runs a group

`leave`, `removeMember` and `setMemberRole` load the group once, decide on what they have loaded and
save one or two member rows. `SeatOp.plan` is the decision and `SeatPlan.write` the saves;
`SeatOp.program_eq` says that the program of the request is just that, and `SeatOp.run_store` what it
leaves when nothing comes between. An active row of a group is called a seat.
-/

namespace Relay.Chat

open Relay.Lib Relay.Lib.Rows Prog

variable {s : Db}

/-! ## Seats -/

/-- The active rows of a conversation. -/
def Db.seats (db : Db) (c : ConversationId) : List ConversationMember :=
  activeMembers (db.membersOf c)

theorem Db.mem_seats {c : ConversationId} {m : ConversationMember} :
    m ∈ s.seats c ↔ m ∈ s.members ∧ m.conversationId = c ∧ m.leftAt = none := by
  unfold Db.seats
  rw [mem_activeMembers, Db.mem_membersOf, and_assoc]

/-- `UQ_conversation_members_active` as a fact about the stored rows. -/
def SeatedOnce (s : Db) : Prop :=
  ∀ m ∈ s.members, ∀ m' ∈ s.members, m.conversationId = m'.conversationId →
    m.userId = m'.userId → m.leftAt = none → m'.leftAt = none → m.id = m'.id

theorem seatedOnce_empty (now : Time) (timeZone : Int) : SeatedOnce (Db.empty now timeZone) :=
  fun _ h => absurd h List.not_mem_nil

/-- The row takes the place of the stored row with its id. -/
def Db.putMember (db : Db) (m : ConversationMember) : Db :=
  { db with members := replaceRow ConversationMember.id m db.members }

theorem Db.mem_putMember {m m' : ConversationMember} :
    m' ∈ (s.putMember m).members ↔
      m' = m ∧ (∃ r ∈ s.members, r.id = m.id) ∨ m' ∈ s.members ∧ m'.id ≠ m.id :=
  mem_replaceRow_iff

/-- The index allows the row. -/
theorem memberTaken_eq_false {m : ConversationMember} :
    s.memberTaken m = false ↔ (m.leftAt = none → ∀ r ∈ s.members, r.id ≠ m.id →
      r.conversationId = m.conversationId → r.userId = m.userId → r.leftAt ≠ none) := by
  unfold Db.memberTaken
  rw [Bool.and_eq_false_imp, decide_eq_true_eq]
  simp only [List.any_eq_false, Bool.and_eq_true, decide_eq_true_eq, not_and, ne_eq, and_imp]

theorem memberTaken_of_left {m : ConversationMember} (h : m.leftAt ≠ none) :
    s.memberTaken m = false :=
  memberTaken_eq_false.mpr fun hleft => absurd hleft h

theorem memberTaken_of_seated (hs : SeatedOnce s) {m r : ConversationMember}
    (hr : r ∈ s.members) (hseated : r.leftAt = none) (ho : m.origin = r.origin) :
    s.memberTaken m = false := by
  have hid : m.id = r.id := congrArg ConversationMember.Origin.id ho
  have hconv : m.conversationId = r.conversationId :=
    congrArg ConversationMember.Origin.conversationId ho
  have huser : m.userId = r.userId := congrArg ConversationMember.Origin.userId ho
  rw [memberTaken_eq_false]
  intro _ row hrow hne hconv' huser' hleft
  refine hne ?_
  rw [hid]
  exact hs row hrow r hr (hconv'.trans hconv) (huser'.trans huser) hleft hseated

/-- A save of a member row, when the index allows it. -/
theorem exec_saveMember {m : ConversationMember} (h : s.memberTaken m = false) :
    exec (.saveMember m) s = (.ok (), s.putMember m) := by
  simp only [exec, Db.saveMember, h]
  rfl

theorem seatedOnce_insertMember {t : Db} {c : ConversationId} {u : UserId}
    {role : ConversationMemberRole} (h : SeatedOnce s) (ht : s.insertMember c u role = some t) :
    SeatedOnce t := by
  have hfree : s.memberTaken ⟨s.nextId, c, u.canon, role, s.now, none, none, none, none⟩ = false := by
    unfold Db.insertMember at ht
    dsimp only at ht
    split at ht
    · cases ht
    · next hnot => exact Bool.eq_false_iff.mpr hnot
  have hfree := memberTaken_eq_false.mp hfree rfl
  rw [Db.insertMember_eq_some ht]
  intro m hm m' hm' hconv huser hleft hleft'
  rcases List.mem_append.mp hm with hm | hm <;> rcases List.mem_append.mp hm' with hm' | hm'
  · exact h m hm m' hm' hconv huser hleft hleft'
  · obtain rfl := List.mem_singleton.mp hm'
    by_contra hne
    exact hfree m hm hne hconv huser hleft
  · obtain rfl := List.mem_singleton.mp hm
    by_contra hne
    exact hfree m' hm' (Ne.symm hne) hconv.symm huser.symm hleft'
  · rw [List.mem_singleton.mp hm, List.mem_singleton.mp hm']

theorem seatedOnce_insertMembers {t : Db} {c : ConversationId}
    {us : List (UserId × ConversationMemberRole)} (h : SeatedOnce s)
    (ht : s.insertMembers c us = some t) : SeatedOnce t := by
  induction us generalizing s with
  | nil =>
    cases ht
    exact h
  | cons u us ih =>
    simp only [Db.insertMembers] at ht
    split at ht
    · cases ht
    · next s' hs' => exact ih (seatedOnce_insertMember h hs') ht

theorem seatedOnce_saveMember {t : Db} {m : ConversationMember} (h : SeatedOnce s)
    (ht : s.saveMember m = some t) : SeatedOnce t := by
  have hfree : s.memberTaken m = false := by
    unfold Db.saveMember at ht
    split at ht
    · cases ht
    · next hnot => exact Bool.eq_false_iff.mpr hnot
  have hfree := memberTaken_eq_false.mp hfree
  rw [Db.saveMember_eq_some ht]
  intro x hx y hy hconv huser hleft hleft'
  obtain ⟨hxm, _⟩ | hx := mem_replaceRow_iff.mp hx <;>
    obtain ⟨hym, _⟩ | hy := mem_replaceRow_iff.mp hy
  · rw [hxm, hym]
  · subst hxm
    exact absurd hleft' (hfree hleft y hy.1 hy.2 hconv.symm huser.symm)
  · subst hym
    exact absurd hleft (hfree hleft' x hx.1 hx.2 hconv huser)
  · exact h x hx.1 y hy.1 hconv huser hleft hleft'

theorem seatedOnce_saveMembers {t : Db} {ms : List ConversationMember} (h : SeatedOnce s)
    (ht : s.saveMembers ms = some t) : SeatedOnce t := by
  induction ms generalizing s with
  | nil =>
    cases ht
    exact h
  | cons m ms ih =>
    simp only [Db.saveMembers] at ht
    split at ht
    · cases ht
    · next s' hs' => exact ih (seatedOnce_saveMember h hs') ht

/-- No call seats a user twice. -/
theorem SeatedOnce.exec (h : SeatedOnce s) (c : Call) : SeatedOnce (exec c s).2 := by
  cases c with
  | createPrivateTx a b key =>
    refine after_createPrivateTx h fun t ht => ?_
    exact seatedOnce_insertMembers (s := s.insertConversation _ _ _ _) h ht
  | createGroupTx a ids name =>
    refine after_createGroupTx h fun t ht => ?_
    exact seatedOnce_insertMembers (s := s.insertConversation _ _ _ _) h ht
  | saveConversation c =>
    simp only [Chat.exec]
    split <;> exact h
  | saveMember m =>
    refine after_saveMember h fun t ht => ?_
    exact seatedOnce_saveMember h ht
  | saveMembers ms =>
    refine after_saveMembers h fun t ht => ?_
    exact seatedOnce_saveMembers h ht
  | insertMember id u role =>
    refine after_insertMember h fun t ht => ?_
    exact seatedOnce_insertMember h ht
  | insertHide m u =>
    simp only [Chat.exec]
    split <;> exact h
  | insertReaction m u emoji =>
    simp only [Chat.exec]
    split <;> exact h
  | insertBlock a b =>
    simp only [Chat.exec]
    split <;> exact h
  | _ => exact h

theorem SeatedOnce.run (h : SeatedOnce s) (op : Op) : SeatedOnce (op.run s).2 := by
  have hcalls : Calls Chat.exec (fun _ _ => True) op.program s := calls_true _ s
  exact hcalls.preserves (fun s c _ h => h.exec c) h

theorem Reachable.seatedOnce (h : Reachable s) : SeatedOnce s := by
  obtain ⟨now, timeZone, es, rfl⟩ := h
  have hrun : Runs.Always poolStep (fun p => SeatedOnce p.store) es ⟨Db.empty now timeZone, []⟩ := by
    refine Runs.Always.of_step (fun p e hp => ?_) (seatedOnce_empty now timeZone)
    obtain ⟨o, _, heq⟩ | ⟨i, c, k, _, _, heq⟩ | ⟨i, _, _, heq⟩ | ⟨d, _, heq⟩ :=
      Pool.step_cases Chat.exec Op.program (fun d db => db.wait d) p e
    all_goals
      unfold poolStep
      rw [heq]
    · exact hp
    · exact hp.exec c
    · exact hp
    · exact hp
  exact hrun.final

/-! ## Decided or rejected -/

/-- The program is rejected, or is the one in `o`. -/
def Decides {α : Type} (p : M α) : Option (M α) → Prop
  | none => ∃ e, p = reject e
  | some q => p = q

section Decides

variable {α β : Type}

theorem decides_rejectIf {P Q : Prop} [Decidable P] [Decidable Q] {e : RpcError} {f : Unit → M β}
    {g : Unit → Option (M β)} (hPQ : Q ↔ ¬ P) (h : ¬ P → Decides (f ()) (g ())) :
    Decides (rejectIf P e >>= f) (guard Q >>= g) := by
  by_cases hP : P
  · rw [show (guard Q : Option Unit) = none from if_neg fun hQ => hPQ.mp hQ hP, rejectIf, if_pos hP]
    exact ⟨e, rfl⟩
  · rw [show (guard Q : Option Unit) = some () from if_pos (hPQ.mpr hP), rejectIf, if_neg hP]
    exact h hP

theorem decides_require {a : Option α} {e : RpcError} {f : α → M β} {g : α → Option (M β)}
    (h : ∀ x, a = some x → Decides (f x) (g x)) : Decides (require a e >>= f) (a >>= g) := by
  cases a with
  | none => exact ⟨e, rfl⟩
  | some x => exact h x rfl

theorem Decides.map {p : M α} {o : Option (M α)} (f : α → β) (h : Decides p o) :
    Decides (f <$> p) (o.map (f <$> ·)) := by
  cases o with
  | none =>
    obtain ⟨e, rfl⟩ := h
    exact ⟨e, rfl⟩
  | some q => exact congrArg (f <$> ·) h

end Decides

/-- The conversation as `requireMembership` returns it, when the actor is an active member. -/
def asMember (found : Option ConversationWithMembers) (actorId : UserId) :
    Option ConversationWithMembers := do
  let conversation ← found
  let _ ← findActive conversation.members actorId
  return { conversation with members := activeMembers conversation.members }

/-! ## The requests -/

inductive SeatOp where
  | leave (actorId : UserId)
  | removeMember (actorId memberId : UserId)
  | setMemberRole (actorId memberId : UserId) (role : Option ConversationMemberRole)
deriving DecidableEq

def SeatOp.op (c : ConversationId) : SeatOp → Op
  | .leave actorId => .leave c actorId
  | .removeMember actorId memberId => .removeMember c actorId memberId
  | .setMemberRole actorId memberId role => .setMemberRole c actorId memberId role

/-- What a request has decided to save, with the rows as it has loaded them. -/
inductive SeatPlan where
  | leave (membership : ConversationMember) (next : Option ConversationMember)
  | remove (target : ConversationMember)
  | assign (target : ConversationMember) (role : ConversationMemberRole)
deriving DecidableEq

/-- The checks of a request, on the conversation it has loaded. -/
def SeatOp.plan (found : Option ConversationWithMembers) : SeatOp → Option SeatPlan
  | .leave actorId => do
    let conversation ← asMember found actorId
    guard (conversation.type ≠ .priv)
    let membership ← findActive conversation.members actorId
    return .leave membership
      (if membership.role = .owner then nextOwner conversation.members actorId else none)
  | .removeMember actorId memberId => do
    let conversation ← asMember found actorId
    guard (conversation.type = .group)
    guard ((conversation.members.find? fun member => member.userId = actorId).any
      (fun member => isGroupAdmin member.role) = true)
    guard (memberId ≠ actorId)
    let target ← findActive conversation.members memberId
    guard (target.role ≠ .owner)
    return .remove target
  | .setMemberRole actorId memberId role => do
    let conversation ← asMember found actorId
    guard (conversation.type = .group)
    guard ((findActive conversation.members actorId).any (fun m => m.role = .owner) = true)
    let role ← role.filter fun role => role = .admin ∨ role = .member
    let target ← findActive conversation.members memberId
    guard (target.role ≠ .owner)
    guard (target.userId ≠ actorId)
    return .assign target role

/-- The row of the departing member is saved last. -/
def depart (membership : ConversationMember) : M Unit := do
  let now ← perform .newDate
  perform (.saveMember { membership with leftAt := some now })

def SeatPlan.write : SeatPlan → M Unit
  | .leave membership none => depart membership
  | .leave membership (some next) => do
    perform (.saveMember { next with role := .owner })
    depart membership
  | .remove target => depart target
  | .assign target role => perform (.saveMember { target with role })

/-- What a request does after its saves. -/
def SeatOp.reply (c : ConversationId) : SeatOp → M Response
  | .leave _ => return .left true
  | .removeMember actorId _ => .conversation <$> getConversation c actorId
  | .setMemberRole actorId _ _ => .conversation <$> getConversation c actorId

/-- A request loads the group, and is rejected or goes on as its plan says. -/
theorem SeatOp.program_eq (c : ConversationId) (op : SeatOp) :
    ∃ k, (op.op c).program = perform (.findConversation c) >>= k ∧
      ∀ found, Decides (k found) ((op.plan found).map fun plan =>
        plan.write >>= fun _ => op.reply c) := by
  cases op with
  | leave actorId =>
    simp only [SeatOp.op, Op.program, Chat.leave, requireMembership, map_eq_pure_bind, bind_assoc,
      SeatOp.plan, asMember, map_bind_option, pure_bind]
    refine ⟨_, rfl, fun found => ?_⟩
    refine decides_require fun cv _ => decides_require fun _ _ =>
      decides_rejectIf Iff.rfl fun _ => decides_require fun m _ => ?_
    change _ = SeatPlan.write _ >>= _
    unfold handOver
    split
    · cases nextOwner (activeMembers cv.members) actorId <;>
        simp only [SeatPlan.write, depart, bind_assoc] <;> rfl
    · simp only [SeatPlan.write, depart, bind_assoc]
      rfl
  | removeMember actorId memberId =>
    simp only [SeatOp.op, Op.program, Chat.removeMember, requireMembership, assertGroupAdmin,
      map_eq_pure_bind, bind_assoc, SeatOp.plan, asMember, map_bind_option, pure_bind]
    refine ⟨_, rfl, fun found => ?_⟩
    refine decides_require fun cv _ => decides_require fun _ _ =>
      decides_rejectIf (by simp) fun _ => decides_rejectIf (by simp) fun _ =>
        decides_rejectIf Iff.rfl fun _ => decides_require fun m _ =>
          decides_rejectIf Iff.rfl fun _ => ?_
    change _ = SeatPlan.write _ >>= _
    simp only [SeatPlan.write, depart, SeatOp.reply, map_eq_pure_bind, bind_assoc]
  | setMemberRole actorId memberId role =>
    simp only [SeatOp.op, Op.program, Chat.setMemberRole, requireMembership, map_eq_pure_bind,
      bind_assoc, SeatOp.plan, asMember, map_bind_option, pure_bind]
    refine ⟨_, rfl, fun found => ?_⟩
    refine decides_require fun cv _ => decides_require fun _ _ =>
      decides_rejectIf (by simp) fun _ => decides_rejectIf (by simp) fun _ =>
        decides_require fun role _ => decides_require fun m _ =>
          decides_rejectIf Iff.rfl fun _ => decides_rejectIf Iff.rfl fun _ => ?_
    change _ = SeatPlan.write _ >>= _
    simp only [SeatPlan.write, SeatOp.reply, map_eq_pure_bind]

/-! ## What a plan rests on -/

/-- What `findConversation` answers. -/
def Db.load (db : Db) (c : ConversationId) : Option ConversationWithMembers :=
  (db.findConversation c).map db.withMembers

theorem asMember_load {c : ConversationId} {u : UserId} {cv : ConversationWithMembers}
    (h : asMember (s.load c) u = some cv) :
    cv.toConversation ∈ s.conversations ∧ cv.id = c ∧ cv.members = s.seats c ∧
      ∃ m ∈ s.seats c, m.userId = u := by
  obtain ⟨cv', hload, hcv⟩ := Option.bind_eq_some_iff.mp h
  obtain ⟨m, hm, heq⟩ := Option.bind_eq_some_iff.mp hcv
  obtain ⟨row, hrow, hwith⟩ := Option.map_eq_some_iff.mp hload
  obtain ⟨hmem, hid, _⟩ := Db.findConversation_eq_some hrow
  subst hwith
  cases heq
  obtain ⟨hmem', huser, hleft⟩ := findActive_eq_some hm
  have hseats : activeMembers (s.withMembers row).members = s.seats c := by
    rw [← hid]
    rfl
  exact ⟨hmem, hid, hseats, m, hseats ▸ mem_activeMembers.mpr ⟨hmem', hleft⟩, huser⟩

/-- The rows of a plan are seats of the group as it was loaded, with the roles the checks ask for. -/
def SeatPlan.Fits (s : Db) (c : ConversationId) (op : SeatOp) : SeatPlan → Prop
  | .leave m next => op = .leave m.userId ∧ m ∈ s.seats c ∧
    next = if m.role = .owner then nextOwner (s.seats c) m.userId else none
  | .remove t => (∃ a, op = .removeMember a t.userId ∧
    ∃ m ∈ s.seats c, m.userId = a ∧ isGroupAdmin m.role = true) ∧ t ∈ s.seats c ∧ t.role ≠ .owner
  | .assign t role => (∃ a, op = .setMemberRole a t.userId (some role) ∧
    ∃ m ∈ s.seats c, m.userId = a ∧ m.role = .owner) ∧ t ∈ s.seats c ∧ t.role ≠ .owner ∧
      (role = .admin ∨ role = .member)

theorem mem_seats_of_findActive {c : ConversationId} {u : UserId} {m : ConversationMember}
    (h : findActive (s.seats c) u = some m) : m ∈ s.seats c ∧ m.userId = u :=
  have ⟨hmem, huser, _⟩ := findActive_eq_some h
  ⟨hmem, huser⟩

theorem exists_of_any_find? {rows : List ConversationMember} {p q : ConversationMember → Bool}
    (h : (rows.find? p).any q = true) : ∃ m ∈ rows, p m = true ∧ q m = true := by
  cases hfind : rows.find? p with
  | none =>
    rw [hfind] at h
    cases h
  | some m =>
    rw [hfind] at h
    exact ⟨m, List.mem_of_find?_eq_some hfind, List.find?_some hfind, h⟩

theorem SeatOp.plan_fits {c : ConversationId} {op : SeatOp} {plan : SeatPlan}
    (hplan : op.plan (s.load c) = some plan) : plan.Fits s c op := by
  cases op with
  | leave actorId =>
    obtain ⟨cv, hcv, h⟩ := Option.bind_eq_some_iff.mp hplan
    obtain ⟨_, _, h⟩ := Option.bind_eq_some_iff.mp h
    obtain ⟨m, hm, h⟩ := Option.bind_eq_some_iff.mp h
    obtain ⟨_, _, hmembers, _⟩ := asMember_load hcv
    rw [hmembers] at hm h
    obtain ⟨hmem, huser⟩ := mem_seats_of_findActive hm
    cases h
    subst huser
    exact ⟨rfl, hmem, rfl⟩
  | removeMember actorId memberId =>
    obtain ⟨cv, hcv, h⟩ := Option.bind_eq_some_iff.mp hplan
    obtain ⟨_, _, h⟩ := Option.bind_eq_some_iff.mp h
    obtain ⟨_, hadmin, h⟩ := Option.bind_eq_some_iff.mp h
    obtain ⟨_, _, h⟩ := Option.bind_eq_some_iff.mp h
    obtain ⟨t, ht, h⟩ := Option.bind_eq_some_iff.mp h
    obtain ⟨_, hrole, h⟩ := Option.bind_eq_some_iff.mp h
    obtain ⟨_, _, hmembers, _⟩ := asMember_load hcv
    rw [hmembers] at hadmin ht
    obtain ⟨hmem, huser⟩ := mem_seats_of_findActive ht
    obtain ⟨m, hm, hactor, hisAdmin⟩ := exists_of_any_find? (by simpa using hadmin)
    cases h
    subst huser
    exact ⟨⟨actorId, rfl, m, hm, by simpa using hactor, hisAdmin⟩, hmem, by simpa using hrole⟩
  | setMemberRole actorId memberId role =>
    obtain ⟨cv, hcv, h⟩ := Option.bind_eq_some_iff.mp hplan
    obtain ⟨_, _, h⟩ := Option.bind_eq_some_iff.mp h
    obtain ⟨_, howner, h⟩ := Option.bind_eq_some_iff.mp h
    obtain ⟨role', hrole', h⟩ := Option.bind_eq_some_iff.mp h
    obtain ⟨t, ht, h⟩ := Option.bind_eq_some_iff.mp h
    obtain ⟨_, hrole, h⟩ := Option.bind_eq_some_iff.mp h
    obtain ⟨_, _, h⟩ := Option.bind_eq_some_iff.mp h
    obtain ⟨_, _, hmembers, _⟩ := asMember_load hcv
    rw [hmembers] at howner ht
    unfold findActive at howner
    obtain ⟨hmem, huser⟩ := mem_seats_of_findActive ht
    obtain ⟨m, hm, hactor, hisOwner⟩ := exists_of_any_find? (by simpa using howner)
    obtain ⟨hrequested, hallowed⟩ := Option.filter_eq_some_iff.mp hrole'
    cases h
    subst huser
    subst hrequested
    simp only [Bool.and_eq_true, decide_eq_true_eq] at hactor hisOwner hallowed
    exact ⟨⟨actorId, rfl, m, hm, hactor.1, hisOwner⟩, hmem, by simpa using hrole, hallowed⟩

/-! ## A request served alone -/

/-- The rows a plan leaves when nothing has come between. -/
def SeatPlan.apply (db : Db) : SeatPlan → Db
  | .leave m none => db.putMember { m with leftAt := some (jsDate db.now) }
  | .leave m (some next) =>
    (db.putMember { next with role := .owner }).putMember { m with leftAt := some (jsDate db.now) }
  | .remove t => db.putMember { t with leftAt := some (jsDate db.now) }
  | .assign t role => db.putMember { t with role }

theorem run_depart (m : ConversationMember) :
    run exec (depart m) s =
      (.ok (), s.putMember { m with leftAt := some (jsDate s.now) }) := by
  unfold depart
  rw [run_read (a := jsDate s.now) rfl, run_perform]
  exact exec_saveMember (memberTaken_of_left (Option.some_ne_none _))

theorem SeatPlan.run_saves (hs : SeatedOnce s) {c : ConversationId} {op : SeatOp}
    {plan : SeatPlan} (h : plan.Fits s c op) :
    run exec plan.write s = (.ok (), plan.apply s) := by
  cases plan with
  | leave m next =>
    cases next with
    | none => exact run_depart m
    | some n =>
      obtain ⟨_, _, hnext⟩ := h
      have hn : n ∈ s.members ∧ n.leftAt = none := by
        split at hnext
        · have hmem := (nextOwner_mem hnext.symm).1
          exact ⟨(Db.mem_seats.mp hmem).1, (Db.mem_seats.mp hmem).2.2⟩
        · cases hnext
      have hfree : s.memberTaken { n with role := .owner } = false :=
        memberTaken_of_seated hs hn.1 hn.2 rfl
      unfold SeatPlan.write
      rw [run_write (exec_saveMember hfree), run_depart]
      rfl
  | remove t => exact run_depart t
  | assign t role =>
    obtain ⟨_, ht, _⟩ := h
    obtain ⟨hmem, _, hleft⟩ := Db.mem_seats.mp ht
    unfold SeatPlan.write
    rw [run_perform]
    exact exec_saveMember (memberTaken_of_seated hs hmem hleft rfl)

theorem SeatOp.run_reply (c : ConversationId) (op : SeatOp) (s : Db) :
    (run exec (op.reply c) s).2 = s := by
  have hget : ∀ u, (run exec (Response.conversation <$> getConversation c u) s).2 = s := by
    intro u
    rw [run_map]
    unfold getConversation
    rw [run_bind, run_requireMembership]
    cases s.membership c u with
    | error e => rfl
    | ok cv =>
      change (run exec (viewConversation cv u) s).2 = s
      rw [run_viewConversation]
  cases op with
  | leave u => rfl
  | removeMember u v => exact hget u
  | setMemberRole u v role => exact hget u

/-- Served alone, a request is rejected, or writes what it has decided and then replies. -/
theorem SeatOp.run_decided (hs : SeatedOnce s) (c : ConversationId) (op : SeatOp) :
    (∃ e, (op.op c).run s = (.error e, s)) ∨
      ∃ plan : SeatPlan, op.plan (s.load c) = some plan ∧
        (op.op c).run s = run exec (op.reply c) (plan.apply s) := by
  obtain ⟨k, hk, hdecides⟩ := op.program_eq c
  have hload : exec (.findConversation c) s = (.ok (s.load c), s) := rfl
  have hdecided := hdecides (s.load c)
  unfold Op.run
  rw [hk, run_read hload]
  cases hplan : op.plan (s.load c) with
  | none =>
    rw [hplan] at hdecided
    obtain ⟨e, he⟩ := hdecided
    rw [he]
    exact .inl ⟨_, rfl⟩
  | some plan =>
    rw [hplan] at hdecided
    rw [show k (s.load c) = plan.write >>= fun _ => op.reply c from hdecided]
    rw [run_bind_ok exec (plan.run_saves hs (op.plan_fits hplan))]
    exact .inr ⟨plan, rfl, rfl⟩

/-- Served alone, a request leaves what its plan applies to the rows it has loaded. -/
theorem SeatOp.run_store (hs : SeatedOnce s) (c : ConversationId) (op : SeatOp) :
    ((op.op c).run s).2 = s ∨
      ∃ plan : SeatPlan, plan.Fits s c op ∧ ((op.op c).run s).2 = plan.apply s := by
  rcases op.run_decided hs c with ⟨e, he⟩ | ⟨plan, hplan, hrun⟩
  · exact .inl (congrArg Prod.snd he)
  · exact .inr ⟨plan, op.plan_fits hplan, by rw [hrun, op.run_reply c]⟩

end Relay.Chat
