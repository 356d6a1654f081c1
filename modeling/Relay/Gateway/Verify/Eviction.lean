import Relay.Chat.Verify.Ownership
import Relay.Gateway.Verify.RingTimers

/-!
# Calls and the membership behind them

A call session lives in Redis and the membership it rests on in the chat service. When a user is
removed from a group or leaves it, the gateway takes the user out of the live call as well; when a group
is deleted it does not. `seated_iff` says which runs keep every member of a live call an active member of
the conversation.
-/

namespace Relay.Gateway.ChatGateway

open Relay.Lib CallSession

variable {order : Redis → List CallId} {s t : State}

/-! ## Active members -/

theorem isMember_iff {db : Chat.Db} {v : ConversationId} {u : UserId} :
    IsMember db v u ↔ db.findConversation v ≠ none ∧ ∃ m ∈ db.seats v, m.userId = u := by
  constructor
  · rintro ⟨cv, hcv⟩
    obtain ⟨hrow, _, m, hm⟩ := Chat.Db.membership_eq_ok hcv
    obtain ⟨hmem, huser, hleft⟩ := Chat.findActive_eq_some hm
    exact ⟨by rw [hrow]; exact nofun, m, Chat.mem_activeMembers.mpr ⟨hmem, hleft⟩, huser⟩
  · rintro ⟨hrow, m, hm, rfl⟩
    obtain ⟨row, hrow⟩ := Option.ne_none_iff_exists'.mp hrow
    exact isMember_of_mem hrow (Chat.mem_activeMembers.mp hm)

/-- What the chat service is known to keep. -/
structure Kept (db : Chat.Db) : Prop where
  inv : Chat.Inv db
  once : Chat.SeatedOnce db

/-- The user has no seat in the conversation any more, and everyone else keeps theirs. -/
def Loses (db db' : Chat.Db) (v : ConversationId) (u : UserId) : Prop :=
  ∀ v' w, IsMember db' v' w ↔ IsMember db v' w ∧ ¬ (v' = v ∧ w = u)

/-- A row saved with `leftAt` set takes its user out of the conversation. -/
theorem loses_departed {db : Chat.Db} (h : Kept db) {v : ConversationId} {m : Chat.ConversationMember}
    (hm : m ∈ db.seats v) (now : Time) :
    Loses db (db.putMember { m with leftAt := some now }) v m.userId := by
  obtain ⟨hmem, hconv, hleft⟩ := Chat.Db.mem_seats.mp hm
  intro v' w
  rw [isMember_iff, isMember_iff]
  have hrow : (db.putMember { m with leftAt := some now }).findConversation v' =
      db.findConversation v' := rfl
  rw [hrow]
  constructor
  · rintro ⟨hrow, m', hm', rfl⟩
    obtain ⟨hm', hid⟩ := Chat.mem_seats_departed.mp hm'
    refine ⟨⟨hrow, m', hm', rfl⟩, ?_⟩
    rintro ⟨rfl, huser⟩
    obtain ⟨hmem', hconv', hleft'⟩ := Chat.Db.mem_seats.mp hm'
    exact hid (h.once m' hmem' m hmem (hconv'.trans hconv.symm) huser hleft' hleft)
  · rintro ⟨⟨hrow, m', hm', rfl⟩, hne⟩
    refine ⟨hrow, m', Chat.mem_seats_departed.mpr ⟨hm', fun hid => hne ?_⟩, rfl⟩
    obtain ⟨hmem', hconv', _⟩ := Chat.Db.mem_seats.mp hm'
    obtain rfl := h.inv.keyed.members.eq_of_id_eq hmem' hmem hid
    exact ⟨hconv'.symm.trans hconv, rfl⟩

/-- The row of the successor and then the row of the owner are saved. -/
theorem loses_leave {db : Chat.Db} (h : Kept db) {v : ConversationId} {m : Chat.ConversationMember}
    {next : Option Chat.ConversationMember} {u : UserId}
    (hfits : (Chat.SeatPlan.leave m next).Fits db v (.leave u)) :
    Loses db ((Chat.SeatPlan.leave m next).apply db) v u := by
  obtain ⟨hop, hm, hnext⟩ := hfits
  cases hop
  cases next with
  | none => exact loses_departed h hm _
  | some n =>
    have hn : n ∈ db.seats v ∧ n.leftAt = none ∧ n.userId ≠ m.userId := by
      split at hnext
      · exact Chat.nextOwner_mem hnext.symm
      · cases hnext
    obtain ⟨hn, _, huser⟩ := hn
    obtain ⟨hmem, hconv, hleft⟩ := Chat.Db.mem_seats.mp hm
    have hkeyed := h.inv.keyed.members
    have hid : n.id ≠ m.id := fun hid =>
      huser (congrArg _ (hkeyed.eq_of_id_eq (Chat.Db.mem_seats.mp hn).1 hmem hid))
    intro v' w
    rw [Chat.SeatPlan.apply, isMember_iff, isMember_iff]
    have hrow : ((db.putMember { n with role := .owner }).putMember
        { m with leftAt := some (jsDate db.now) }).findConversation v' =
          db.findConversation v' := rfl
    rw [hrow]
    constructor
    · rintro ⟨hrow, m', hm', rfl⟩
      obtain ⟨hm', hne⟩ := Chat.mem_seats_departed.mp hm'
      rcases (Chat.mem_seats_assigned hn).mp hm' with ⟨rfl, rfl⟩ | ⟨hm', _⟩
      · exact ⟨⟨hrow, n, hn, rfl⟩, fun h => huser h.2⟩
      · refine ⟨⟨hrow, m', hm', rfl⟩, ?_⟩
        rintro ⟨rfl, hw⟩
        obtain ⟨hmem', hconv', hleft'⟩ := Chat.Db.mem_seats.mp hm'
        exact hne (h.once m' hmem' m hmem (hconv'.trans hconv.symm) hw hleft' hleft)
    · rintro ⟨⟨hrow, m', hm', rfl⟩, hne⟩
      refine ⟨hrow, ?_⟩
      obtain ⟨hmem', hconv', _⟩ := Chat.Db.mem_seats.mp hm'
      by_cases hid' : m'.id = n.id
      · obtain rfl := hkeyed.eq_of_id_eq hmem' (Chat.Db.mem_seats.mp hn).1 hid'
        refine ⟨{ m' with role := .owner }, Chat.mem_seats_departed.mpr ⟨?_, hid⟩, rfl⟩
        refine (Chat.mem_seats_assigned hn).mpr (.inl ⟨rfl, ?_⟩)
        exact hconv'.symm.trans (Chat.Db.mem_seats.mp hn).2.1
      · refine ⟨m', Chat.mem_seats_departed.mpr
          ⟨(Chat.mem_seats_assigned hn).mpr (.inr ⟨hm', hid'⟩), fun hidm => hne ?_⟩, rfl⟩
        obtain rfl := hkeyed.eq_of_id_eq hmem' hmem hidm
        exact ⟨hconv'.symm.trans hconv, rfl⟩

/-! ## The requests that end a membership -/

theorem run_of_op {β : Type} (p : Chat.M β) (f : β → Chat.Response) (db : Chat.Db) :
    (∀ e db', Prog.run Chat.exec (f <$> p) db = (.error e, db') →
        Prog.run Chat.exec p db = (.error e, db')) ∧
      ∀ a db', Prog.run Chat.exec (f <$> p) db = (.ok a, db') →
        ∃ b, Prog.run Chat.exec p db = (.ok b, db') := by
  rw [Prog.run_map]
  rcases Prog.run Chat.exec p db with ⟨e | b, db₁⟩
  · refine ⟨fun e db' h => ?_, fun a db' h => ?_⟩
    · cases h
      rfl
    · cases h
  · refine ⟨fun e db' h => ?_, fun a db' h => ?_⟩
    · cases h
    · cases h
      exact ⟨b, rfl⟩

theorem run_removeMember {db : Chat.Db} (h : Kept db) (v : ConversationId) (actor u : UserId) :
    (∃ e, Prog.run Chat.exec (Chat.removeMember v actor u) db = (.error e, db)) ∨
      ∃ view db', Prog.run Chat.exec (Chat.removeMember v actor u) db = (.ok view, db') ∧
        Loses db db' v u := by
  have hof := run_of_op (Chat.removeMember v actor u) .conversation db
  rcases (Chat.SeatOp.removeMember actor u).run_decided h.once v with
    ⟨e, he⟩ | ⟨plan, hplan, hrun⟩
  · exact .inl ⟨e, hof.1 e db he⟩
  have hfits := (Chat.SeatOp.removeMember actor u).plan_fits hplan
  obtain ⟨cv, hcv, hplan⟩ := Option.bind_eq_some_iff.mp hplan
  obtain ⟨_, _, hplan⟩ := Option.bind_eq_some_iff.mp hplan
  obtain ⟨_, _, hplan⟩ := Option.bind_eq_some_iff.mp hplan
  obtain ⟨_, hne, hplan⟩ := Option.bind_eq_some_iff.mp hplan
  obtain ⟨target, _, hplan⟩ := Option.bind_eq_some_iff.mp hplan
  obtain ⟨_, _, hplan⟩ := Option.bind_eq_some_iff.mp hplan
  cases hplan
  obtain ⟨⟨_, hop, _⟩, ht, _⟩ := hfits
  cases hop
  have hloses := loses_departed h ht (jsDate db.now)
  -- The actor is still a member, so the reply is sent.
  have hne : target.userId ≠ actor := by simpa using hne
  have hactor : IsMember db v actor := by
    obtain ⟨_, _, _, m, hm, rfl⟩ := Chat.asMember_load hcv
    obtain ⟨_, hload, _⟩ := Option.bind_eq_some_iff.mp hcv
    obtain ⟨row, hrow, _⟩ := Option.map_eq_some_iff.mp hload
    exact isMember_iff.mpr ⟨by rw [hrow]; exact nofun, m, hm, rfl⟩
  rcases run_getConversation ((Chat.SeatPlan.remove target).apply db) v actor with
    ⟨⟨view, hview⟩, _⟩ | ⟨_, hno⟩
  · obtain ⟨b, hb⟩ := hof.2 (.conversation view) _ (hrun.trans (by
      rw [Chat.SeatOp.reply, Prog.run_map, hview]
      rfl))
    exact .inr ⟨b, _, hb, hloses⟩
  · exact absurd ((hloses v actor).mpr ⟨hactor, fun h => hne h.2.symm⟩) hno

theorem run_leave {db : Chat.Db} (h : Kept db) (v : ConversationId) (u : UserId) :
    (∃ e, Prog.run Chat.exec (Chat.leave v u) db = (.error e, db)) ∨
      ∃ left db', Prog.run Chat.exec (Chat.leave v u) db = (.ok left, db') ∧
        Loses db db' v u := by
  have hof := run_of_op (Chat.leave v u) .left db
  rcases (Chat.SeatOp.leave u).run_decided h.once v with ⟨e, he⟩ | ⟨plan, hplan, hrun⟩
  · exact .inl ⟨e, hof.1 e db he⟩
  have hfits := (Chat.SeatOp.leave u).plan_fits hplan
  obtain ⟨b, hb⟩ := hof.2 (.left true) _ hrun
  refine .inr ⟨b, _, hb, ?_⟩
  cases plan with
  | leave m next =>
    obtain ⟨hop, hm, hnext⟩ := hfits
    cases hop
    exact loses_leave h ⟨rfl, hm, hnext⟩
  | remove t =>
    obtain ⟨⟨_, hop, _⟩, _⟩ := hfits
    cases hop
  | assign t role =>
    obtain ⟨⟨_, hop, _⟩, _⟩ := hfits
    cases hop

/-- The checks of `deleteGroup`. -/
def MayDelete (db : Chat.Db) (v : ConversationId) (u : UserId) : Prop :=
  ∃ cv, db.membership v u = .ok cv ∧ cv.type = .group ∧ cv.createdBy = u

/-- A conversation that is soft deleted is no longer found; the others are. -/
theorem findConversation_softDelete (db : Chat.Db) (v v' : ConversationId) (now : Time) :
    Chat.Db.findConversation { db with
      conversations := db.conversations.map fun row =>
        if row.id = v then { row with deletedAt := some now } else row } v' =
      if v' = v then none else db.findConversation v' := by
  unfold Chat.Db.findConversation
  rw [List.find?_map]
  by_cases hv : v' = v
  · subst hv
    rw [if_pos rfl, List.find?_eq_none.mpr, Option.map_none]
    intro row _
    by_cases hid : row.id = v'
    · simp [hid]
    · simp [hid]
  · rw [if_neg hv]
    have hsame : (fun row : Chat.Conversation => decide (row.id = v' ∧ row.deletedAt = none)) ∘
        (fun row => if row.id = v then { row with deletedAt := some now } else row) =
          fun row => decide (row.id = v' ∧ row.deletedAt = none) := by
      funext row
      by_cases hid : row.id = v
      · simp [hid, Ne.symm hv]
      · simp [hid]
    rw [hsame]
    cases hfind : db.conversations.find? fun row => decide (row.id = v' ∧ row.deletedAt = none) with
    | none => rfl
    | some row =>
      have hp := List.find?_some hfind
      simp only [decide_eq_true_eq] at hp
      have hid := hp.1
      rw [Option.map_some, if_neg fun h => hv (hid.symm.trans h)]

theorem saveMembers_left (db : Chat.Db) (ms : List Chat.ConversationMember)
    (h : ∀ m ∈ ms, m.leftAt ≠ none) : ∃ db', db.saveMembers ms = some db' := by
  induction ms generalizing db with
  | nil => exact ⟨db, rfl⟩
  | cons m ms ih =>
    obtain ⟨hm, hms⟩ := List.forall_mem_cons.mp h
    rw [Chat.Db.saveMembers, Chat.Db.saveMember, if_neg (by
      rw [Chat.memberTaken_of_left hm]
      exact Bool.false_ne_true)]
    exact ih _ hms

theorem run_deleteGroup {db : Chat.Db} (h : Kept db) (v : ConversationId) (u : UserId) :
    (∃ e, Prog.run Chat.exec (Chat.deleteGroup v u) db = (.error e, db)) ∧ ¬ MayDelete db v u ∨
      MayDelete db v u ∧ ∃ r db', Prog.run Chat.exec (Chat.deleteGroup v u) db = (.ok r, db') ∧
        ∀ v' w, IsMember db' v' w ↔ IsMember db v' w ∧ v' ≠ v := by
  have hseats := Chat.run_deleteGroup_snd h.inv.keyed v u
  have hno : ∀ {r : Except Chat.Failure Chat.ConversationWithMembers}, db.membership v u = r →
      (∀ cv, r = .ok cv → ¬ (cv.type = .group ∧ cv.createdBy = u)) → ¬ MayDelete db v u := by
    rintro r hr hcv ⟨cv, hok, hguard⟩
    exact hcv cv (hr.symm.trans hok) hguard
  unfold Chat.deleteGroup at hseats ⊢
  have hmember := Chat.run_requireMembership (s := db) v u
  rcases hcv : db.membership v u with e | cv
  · rw [hcv] at hmember
    exact .inl ⟨⟨e, Prog.run_bind_error _ hmember⟩, hno hcv (by simp)⟩
  rw [hcv] at hmember
  rw [Prog.run_bind_ok _ hmember] at hseats ⊢
  by_cases htype : cv.type = .group
  swap
  · rw [Chat.run_rejectIf_pos htype]
    refine .inl ⟨⟨_, rfl⟩, hno hcv ?_⟩
    rintro _ ⟨⟩ hguard
    exact htype hguard.1
  rw [Chat.run_rejectIf_neg (not_not.mpr htype)] at hseats ⊢
  by_cases hcreator : cv.createdBy = u
  swap
  · rw [Chat.run_rejectIf_pos hcreator]
    refine .inl ⟨⟨_, rfl⟩, hno hcv ?_⟩
    rintro _ ⟨⟩ hguard
    exact hcreator hguard.2
  rw [Chat.run_rejectIf_neg (not_not.mpr hcreator), Chat.run_read (a := jsDate db.now) rfl]
    at hseats ⊢
  -- Rows that have left take nobody's place, so they are saved.
  obtain ⟨db₁, hsave⟩ := saveMembers_left db
    (cv.members.map fun member : Chat.ConversationMember =>
      if member.leftAt = none then { member with leftAt := some (jsDate db.now) } else member) (by
        intro m hm
        obtain ⟨m, _, rfl⟩ := List.mem_map.mp hm
        split
        · simp
        · assumption)
  have hexec : Chat.exec (.saveMembers (cv.members.map fun member : Chat.ConversationMember =>
      if member.leftAt = none then { member with leftAt := some (jsDate db.now) } else member)) db =
        (.ok (), db₁) := by
    simp only [Chat.exec, hsave]
    rfl
  rw [Chat.run_write hexec, Chat.run_write rfl] at hseats ⊢
  refine .inr ⟨⟨cv, hcv, htype, hcreator⟩, _, _, rfl, fun v' w => ?_⟩
  have hid := Chat.Db.membership_id hcv
  obtain ⟨rows, rfl, _⟩ := Chat.Db.saveMembers_eq_some hsave
  rw [isMember_iff, isMember_iff, findConversation_softDelete, hid]
  by_cases hv : v' = v
  · subst hv
    simp
  · rw [if_neg hv]
    constructor
    · rintro ⟨hrow, m, hm, hw⟩
      refine ⟨⟨hrow, m, ?_, hw⟩, hv⟩
      rcases hseats with hsame | hseats
      · rw [← hsame]
        exact hm
      · exact ((hseats v' m).mp hm).1
    · rintro ⟨⟨hrow, m, hm, hw⟩, _⟩
      refine ⟨hrow, m, ?_, hw⟩
      rcases hseats with hsame | hseats
      · rw [← hsame] at hm
        exact hm
      · exact (hseats v' m).mpr ⟨hm, hv⟩

/-! ## The calls and their members -/

/-- Every user of a live call is an active member of its conversation. -/
def Seated (s : State) : Prop :=
  ∀ c x, s.redis.session c = some x → ∀ u, u ∈ x.memberIds ∨ u ∈ x.joinedIds →
    IsMember s.db x.conversationId u

/-- The members of one session are active members of its conversation, but for one seat. -/
def SeatedBut (v : ConversationId) (u : UserId) (s : State) : Prop :=
  ∀ c x, s.redis.session c = some x → ∀ w ∈ x.memberIds, ¬ (x.conversationId = v ∧ w = u) →
    IsMember s.db x.conversationId w

theorem Seated.of_members (h : Coherent s.redis)
    (hs : ∀ c x, s.redis.session c = some x → ∀ w ∈ x.memberIds, IsMember s.db x.conversationId w) :
    Seated s := by
  intro c x hx u hu
  rcases hu with hu | hu
  · exact hs c x hx u hu
  · exact hs c x hx u ((h.live hx).joined_sub hu)

theorem Seated.of_edit (hs : Seated s) {c : CallId} {x y : VoiceCallSession}
    (hx : s.redis.session c = some x) (hv : y.conversationId = x.conversationId)
    (hsub : y.memberIds ⊆ x.memberIds) : ∀ w ∈ y.memberIds, IsMember s.db y.conversationId w := by
  intro w hw
  rw [hv]
  exact hs c x hx w (.inl (hsub hw))

/-- A plan that stores nobody but members keeps the law. -/
theorem Seated.of_does (hs : Seated s) (h : Coherent s.redis) {p : Plan} (hp : p.Valid s.redis)
    {timers : AList fun _ : CallId => RingTimer} (hd : Does p timers s t)
    (hstores : ∀ y, p.stores = some y → ∀ w ∈ y.memberIds, IsMember s.db y.conversationId w) :
    Seated t := by
  refine .of_members (by rw [hd.redis]; exact h.apply hp) fun c x hx w hw => ?_
  rw [hd.redis] at hx
  rw [hd.db]
  by_cases hown : p.Owns c
  · exact hstores x (Plan.session_apply_of_owns hown hx).1 w hw
  · rw [Plan.session_apply_of_not_owns hown] at hx
    exact hs c x hx w (.inl hw)

theorem Seated.of_same (hs : Seated s) (hst : Same s t) : Seated t := by
  intro c x hx u hu
  rw [hst.redis] at hx
  rw [hst.db]
  exact hs c x hx u hu

section Handlers

variable (order : Redis → List CallId)

theorem seated_inviteCall (h : Coherent s.redis) (hs : Seated s) (u : UserId) (v : ConversationId)
    (media : Option CallMedia) : Seated (Prog.run (exec order) (inviteCall u v media) s).2 := by
  obtain ⟨r, t, hrun, hsame | ⟨input, hinput, hcases⟩⟩ := inviteCall_cases order h u v media
  · rw [hrun]
    exact hs.of_same hsame
  rw [hrun]
  have hvalid := valid_createPlan h input
  have hstores : ∀ y, (createPlan input s.redis).stores = some y → ∀ w ∈ y.memberIds,
      IsMember s.db y.conversationId w := by
    intro y hy w hw
    rcases create_cases input s.redis with ⟨e, _, hnone⟩ | ⟨_, hnew⟩
    · rw [hnone] at hy
      cases hy
    · rw [hnew] at hy
      cases hy
      have hw : w ∈ input.memberIds ∨ w = input.hostId := by
        simp only [CreateCall.newSession, CreateCall.members] at hw
        split at hw
        · exact .inl (List.mem_eraseDups.mp hw)
        · rw [List.mem_append, List.mem_singleton] at hw
          exact hw.imp_left List.mem_eraseDups.mp
      rw [show (input.newSession s.redis.nextId s.redis.now).conversationId = v from
        hinput.conversationId]
      rcases hw with hw | rfl
      · exact hinput.members w hw
      · rw [hinput.hostId]
        exact hinput.members u hinput.host_mem
  rcases hcases with ⟨_, hd⟩ | ⟨x, due, _, hd⟩
  · exact hs.of_does h hvalid hd hstores
  · exact hs.of_does h hvalid hd hstores

theorem seated_acceptCall (h : Coherent s.redis) (hs : Seated s) (u : UserId) (c : CallId) :
    Seated (Prog.run (exec order) (acceptCall u c) s).2 := by
  obtain ⟨r, t, hrun, ⟨hsame, _⟩ | ⟨y, _, hd⟩⟩ := acceptCall_cases order h u c
  · rw [hrun]
    exact hs.of_same hsame
  rw [hrun]
  have hvalid : (acceptPlan c u s.redis).Valid s.redis := valid_plan h (.accept c u)
  refine hs.of_does h hvalid hd fun y hy => ?_
  rcases accept_cases c u s.redis with
    ⟨_, _, hplan⟩ | ⟨x, hx, _, ⟨_, _, hplan⟩ | ⟨_, _, _, _, hplan⟩⟩
  · rw [hplan] at hy
    cases hy
  · rw [hplan] at hy
    cases hy
  · rw [hplan] at hy
    cases hy
    exact hs.of_edit hx rfl fun _ hw => hw

theorem seated_rejectCall (h : Coherent s.redis) (hs : Seated s) (u : UserId) (c : CallId) :
    Seated (Prog.run (exec order) (rejectCall u c) s).2 := by
  obtain ⟨r, t, hrun, hsame | ⟨r', _, hd⟩⟩ := rejectCall_cases order h u c
  · rw [hrun]
    exact hs.of_same hsame
  rw [hrun]
  have hvalid : (declinePlan c u s.redis).Valid s.redis := valid_plan h (.decline c u)
  refine hs.of_does h hvalid hd fun y hy => ?_
  rcases decline_cases c u s.redis with ⟨_, _, hplan⟩ | ⟨x, _, hx, _, ⟨_, hplan⟩ | ⟨_, hplan⟩⟩
  · rw [hplan] at hy
    cases hy
  · rw [hplan] at hy
    cases hy
  · rw [hplan] at hy
    cases hy
    exact hs.of_edit hx rfl fun _ hw => hw

theorem seated_of_leave (h : Coherent s.redis) (hs : Seated s) {c : CallId} {u : UserId}
    {timers : AList fun _ : CallId => RingTimer} (hd : Does (leavePlan c u s.redis) timers s t) :
    Seated t := by
  have hvalid : (leavePlan c u s.redis).Valid s.redis := valid_plan h (.leave c u)
  refine hs.of_does h hvalid hd fun y hy => ?_
  rcases leave_cases c u s.redis with ⟨_, _, hplan⟩ | ⟨x, _, hx, _, ⟨_, hplan⟩ | ⟨_, hplan⟩⟩
  · rw [hplan] at hy
    cases hy
  · rw [hplan] at hy
    cases hy
  · rw [hplan] at hy
    cases hy
    exact hs.of_edit hx rfl fun _ hw => hw

theorem seated_hangupCall (h : Coherent s.redis) (hs : Seated s) (u : UserId) (c : CallId) :
    Seated (Prog.run (exec order) (hangupCall u c) s).2 := by
  obtain ⟨r, t, hrun, hsame | ⟨r', _, hd⟩⟩ := hangupCall_cases order h u c
  · rw [hrun]
    exact hs.of_same hsame
  · rw [hrun]
    exact seated_of_leave h hs hd

theorem seated_endCallForDisconnectedUser (h : Coherent s.redis) (hs : Seated s) (u : UserId) :
    Seated (Prog.run (exec order) (endCallForDisconnectedUser u) s).2 := by
  obtain ⟨r, t, hrun, hsame | ⟨c, hd | ⟨r', _, hd⟩⟩⟩ := endCallForDisconnectedUser_cases order h u
  · rw [hrun]
    exact hs.of_same hsame
  · rw [hrun]
    have hvalid : (clearPlan u (some c) s.redis).Valid s.redis :=
      valid_plan h (.clearUserBusy u (some c))
    refine hs.of_does h hvalid hd fun y hy => ?_
    simp only [clearPlan] at hy
    split at hy <;> cases hy
  · rw [hrun]
    exact seated_of_leave h hs hd

theorem seated_controlCall (h : Coherent s.redis) (hs : Seated s) (u : UserId) (c : CallId)
    {f : VoiceCallSession → Except String VoiceCallSession} (hf : Controls f)
    (event : VoiceCallSession → CallEvent) :
    Seated (Prog.run (exec order) (controlCall u c f event) s).2 := by
  obtain ⟨r, t, hrun, hsame | hd⟩ := controlCall_cases order h u c f event
  · rw [hrun]
    exact hs.of_same hsame
  rw [hrun]
  refine hs.of_does h (valid_controlPlan h c hf) hd fun y hy => ?_
  rcases control_cases c f s.redis with ⟨_, _, hplan⟩ | ⟨x, y, hx, hfx, _, hplan⟩
  · rw [hplan] at hy
    cases hy
  · rw [hplan] at hy
    cases hy
    obtain ⟨hedit, hmembers⟩ := hf.edits hfx (h.live hx)
    exact hs.of_edit hx hedit.conversationId fun w hw => by rwa [hmembers] at hw

/-- The users an invite adds are the requested ones. -/
theorem mem_inviteAll (c : CallId) (redis : Redis) (ids us : List UserId) {x : VoiceCallSession}
    {w : UserId} (hw : w ∈ (inviteAll c redis x ids us).1.memberIds) : w ∈ x.memberIds ∨ w ∈ us := by
  induction us generalizing x ids with
  | nil => exact .inl hw
  | cons u us ih =>
    unfold inviteAll at hw
    split at hw
    · exact (ih ids hw).imp_right (List.mem_cons_of_mem u)
    split at hw
    · exact (ih ids hw).imp_right (List.mem_cons_of_mem u)
    split at hw
    · exact (ih ids hw).imp_right (List.mem_cons_of_mem u)
    · rcases ih _ hw with hw | hw
      · simp only [invited] at hw
        split at hw
        · exact .inl hw
        · simp only [List.mem_append, List.mem_singleton] at hw
          exact hw.imp_right fun (h : w = u) => h ▸ List.mem_cons_self
      · exact .inr (List.mem_cons_of_mem u hw)

theorem seated_inviteMoreCall (h : Coherent s.redis) (hs : Seated s) (u : UserId) (c : CallId)
    (ids : List UserId) : Seated (Prog.run (exec order) (inviteMoreCall u c ids) s).2 := by
  obtain ⟨r, t, hrun, ⟨hsame, _⟩ | ⟨x, r', us, due, hx, _, hus, hall, _, hd⟩⟩ :=
    inviteMoreCall_cases order h u c ids
  · rw [hrun]
    exact hs.of_same hsame
  rw [hrun]
  have hsession : r'.session = (inviteAll c s.redis x [] us).1 := congrArg Prod.fst hall
  obtain ⟨hedit, hsub⟩ := edits_inviteAll (s := s.redis) c [] us
    ⟨rfl, rfl, (h.live hx).not_ended, (h.live hx).joined_ne_nil, (h.live hx).joined_sub,
      (h.live hx).host_mem⟩
  rw [← hsession] at hedit hsub
  refine hs.of_does h (.of_edits h hx hedit fun _ hw => .inl (hsub hw)) hd ?_
  rintro _ ⟨⟩ w hw
  rw [hedit.conversationId]
  rw [hsession] at hw
  rcases mem_inviteAll c s.redis [] us hw with hw | hw
  · exact hs c x hx w (.inl hw)
  · exact hus w hw

/-- After its round of the eviction a user without a seat is in no call of the conversation. -/
theorem seated_round (h : Coherent s.redis) {v : ConversationId} {u : UserId}
    (hs : SeatedBut v u s) (us : List UserId) :
    ∃ t, Prog.run (exec order) (evictUsersFromConversation v (u :: us)) s =
        Prog.run (exec order) (evictUsersFromConversation v us) t ∧
      Coherent t.redis ∧ Seated t := by
  obtain ⟨t, hrun, hcases⟩ := run_evict_cons order h v u us
  refine ⟨t, hrun, ?_⟩
  rcases hcases with ⟨hsame, hnone⟩ | ⟨r, hres, hd⟩
  · have ht : Coherent t.redis := by rw [hsame.redis]; exact h
    refine ⟨ht, .of_members ht fun c x hx w hw => ?_⟩
    have hx : s.redis.session c = some x := hsame.redis ▸ hx
    rw [show t.db = s.db from hsame.db]
    refine hs c x hx w hw ?_
    rintro ⟨hv, rfl⟩
    obtain rfl := h.callId_eq hx
    exact hnone x hx hv hw
  have hvalid : (revokePlan v u s.redis).Valid s.redis :=
    valid_plan h (.revokeUserFromConversation v u)
  have ht : Coherent t.redis := by rw [hd.redis]; exact h.apply hvalid
  refine ⟨ht, .of_members ht fun c y hy w hw => ?_⟩
  have hy : ((revokePlan v u s.redis).apply s.redis).session c = some y := hd.redis ▸ hy
  rw [show t.db = s.db from hd.db]
  rcases revoke_cases h v u with ⟨hnone, _⟩ | ⟨x, r', hx, hv, hres', _, hplan⟩
  · rw [hres] at hnone
    cases hnone
  by_cases hown : (revokePlan v u s.redis).Owns c
  · obtain ⟨hst, _⟩ := Plan.session_apply_of_owns hown hy
    rcases hplan with ⟨_, hplan⟩ | ⟨_, hplan⟩
    · rw [hplan] at hst
      cases hst
    · rw [hplan] at hst
      cases hst
      have hconv : (replaceHost (revoked x u) u).conversationId = x.conversationId := by
        unfold replaceHost
        split <;> rfl
      have hmembers : (replaceHost (revoked x u) u).memberIds = x.memberIds.filter (· ≠ u) := by
        unfold replaceHost
        split <;> rfl
      rw [hmembers, List.mem_filter, decide_eq_true_eq] at hw
      rw [hconv]
      exact hs _ x hx w hw.1 fun h => hw.2 h.2
  · rw [Plan.session_apply_of_not_owns hown] at hy
    refine hs c y hy w hw ?_
    rintro ⟨hyv, rfl⟩
    -- There is one call for each conversation, and the plan has touched it.
    refine hown ?_
    rw [h.convo_inj hy hx (hyv.trans hv.symm)]
    rcases hplan with ⟨_, hplan⟩ | ⟨_, hplan⟩
    · rw [hplan]
      exact .inl rfl
    · rw [hplan]
      refine .inr ?_
      unfold replaceHost
      split <;> rfl

theorem seated_evict (h : Coherent s.redis) (hs : Seated s) (v : ConversationId)
    (us : List UserId) : Seated (Prog.run (exec order) (evictUsersFromConversation v us) s).2 := by
  induction us generalizing s with
  | nil => exact hs
  | cons u us ih =>
    obtain ⟨t, hrun, ht, hseated⟩ := seated_round order h
      (fun c x hx w hw _ => hs c x hx w (.inl hw)) us
    rw [hrun]
    exact ih ht hseated

theorem seated_fire (h : Coherent s.redis) (hs : Seated s) (c : CallId) :
    Seated (s.fire order c) := by
  unfold State.fire
  rcases s.ringTimer c with _ | ⟨due, job⟩
  · exact hs
  simp only
  split
  swap
  · exact hs
  have hs' : Seated { s with ringTimers := s.ringTimers.erase c } := hs
  cases job with
  | timeoutRingingCall =>
    simp only [RingJob.program, Prog.run_map]
    obtain ⟨r, t, hrun, hsame | hd | ⟨x, hx, hd⟩⟩ := timeoutRingingCall_cases order
      (s := { s with ringTimers := s.ringTimers.erase c }) h c
    · rw [hrun]
      exact hs'.of_same hsame
    · rw [hrun]
      have hvalid : Plan.Valid {} s.redis := .of_ends rfl (by simp)
      exact hs'.of_does h hvalid hd (by simp)
    · rw [hrun]
      have hvalid : Plan.Valid { ends := some x } s.redis := by
        refine .of_ends rfl ?_
        rintro _ ⟨⟩
        rw [h.callId_eq hx]
        exact hx
      exact hs'.of_does h hvalid hd (by simp)
  | timeoutRingingInvitees ids =>
    simp only [RingJob.program, Prog.run_map]
    obtain ⟨r, t, hrun, hd⟩ := timeoutRingingInvitees_cases order
      (s := { s with ringTimers := s.ringTimers.erase c }) h c ids
    rw [hrun]
    have hvalid : (markPlan c ids s.redis).Valid s.redis :=
      valid_plan h (.markUnansweredAsLeft c ids)
    refine hs'.of_does h hvalid hd fun y hy => ?_
    rcases hx : s.redis.session c with _ | x
    · simp only [markPlan, hx] at hy
      cases hy
    · simp only [markPlan, hx] at hy
      split at hy
      · cases hy
        obtain ⟨hedit, hmembers⟩ := edits_markAll (h.live hx) false ids
        exact hs.of_edit hx hedit.conversationId fun w hw => by rwa [hmembers] at hw
      · cases hy

/-- A membership ends in the chat service, then the user is taken out of the call. -/
theorem seated_evictAfter {call : Call} {p : Chat.M call.Answer} (h : Coherent s.redis)
    (hs : Seated s) (hcall : exec order call s = sendChat p s) {v : ConversationId} {u : UserId}
    (hp : (∃ e, Prog.run Chat.exec p s.db = (.error e, s.db)) ∨
      ∃ a db, Prog.run Chat.exec p s.db = (.ok a, db) ∧ Loses s.db db v u)
    (f : call.Answer → Ack) :
    Seated (Prog.run (exec order) (Prog.perform call >>= fun a =>
      evictUsersFromConversation v [u] >>= fun _ => Prog.ret (f a)) s).2 := by
  rw [Prog.run_bind, Prog.run_perform, hcall]
  rcases hp with ⟨e, he⟩ | ⟨a, db, ha, hloses⟩
  · simp only [sendChat, he, Except.mapError]
    exact hs
  simp only [sendChat, ha, Except.mapError]
  have hbut : SeatedBut v u { s with db := db } := by
    intro c x hx w hw hne
    exact (hloses _ _).mpr ⟨hs c x hx w (.inl hw), hne⟩
  obtain ⟨t, hrun, _, hseated⟩ := seated_round order (s := { s with db := db }) h hbut []
  rw [Prog.run_bind, hrun]
  exact hseated

/-- A group is deleted, and the call of the conversation goes on if there is one. -/
theorem seated_deleteGroup_iff (h : Coherent s.redis) (hdb : Kept s.db) (hs : Seated s)
    (v : ConversationId) (u : UserId) :
    Seated (Prog.run (exec order) (deleteGroup v u) s).2 ↔
      (MayDelete s.db v u → s.redis.callOf v = none) := by
  unfold deleteGroup
  rw [Prog.run_bind, Prog.run_perform]
  simp only [exec]
  rcases run_deleteGroup hdb v u with ⟨⟨e, he⟩, hno⟩ | ⟨hmay, r, db, hr, hmem⟩
  · simp only [sendChat, he, Except.mapError]
    exact iff_of_true hs fun hmay => absurd hmay hno
  simp only [sendChat, hr, Except.mapError]
  constructor
  · intro hseated _
    rcases hx : s.redis.callOf v with _ | x
    · rfl
    obtain ⟨hstored, hv⟩ := h.callOf_eq_some.mp hx
    obtain ⟨w, hw⟩ := List.exists_mem_of_ne_nil _ (h.live hstored).joined_ne_nil
    exact absurd hv ((hmem _ _).mp (hseated x.callId x hstored w (.inr hw))).2
  · intro hnone c x hx w hw
    refine (hmem _ _).mpr ⟨hs c x hx w hw, ?_⟩
    rintro rfl
    obtain rfl := h.callId_eq hx
    have hcall := h.callOf_eq_some.mpr ⟨hx, rfl⟩
    rw [hnone hmay] at hcall
    cases hcall

end Handlers

/-! ## Whole runs -/

/-- The handlers of the gateway, the timers, time and the connections of users. -/
inductive GatewayEvent where
  | request (r : Request)
  | fire (c : CallId)
  | elapse (d : Time)
  | setOnline (u : UserId) (online : Bool)

def GatewayEvent.event : GatewayEvent → Event
  | .request r => .request r
  | .fire c => .fire c
  | .elapse d => .elapse d
  | .setOnline u online => .setOnline u online

def gatewayStep (order : Redis → List CallId) (e : GatewayEvent) (s : State) : State :=
  step order e.event s

/-- A group is deleted only while it has no live call. -/
def Quits (s : State) : GatewayEvent → Prop
  | .request (.deleteGroup v u) => MayDelete s.db v u → s.redis.callOf v = none
  | _ => True

theorem seated_step_iff (h : Coherent s.redis) (hdb : Kept s.db) (hs : Seated s)
    (e : GatewayEvent) : Seated (gatewayStep order e s) ↔ Quits s e := by
  cases e with
  | request r =>
    simp only [gatewayStep, GatewayEvent.event, step, Request.run]
    cases r with
    | deleteGroup v u => exact seated_deleteGroup_iff order h hdb hs v u
    | inviteCall u v media => exact iff_of_true (seated_inviteCall order h hs u v media) trivial
    | acceptCall u c => exact iff_of_true (seated_acceptCall order h hs u c) trivial
    | rejectCall u c => exact iff_of_true (seated_rejectCall order h hs u c) trivial
    | hangupCall u c => exact iff_of_true (seated_hangupCall order h hs u c) trivial
    | holdCall u c onHold =>
      exact iff_of_true (seated_controlCall order h hs u c (controls_held u onHold) _) trivial
    | muteAllCall u c muted =>
      exact iff_of_true (seated_controlCall order h hs u c (controls_forceMute u muted) _) trivial
    | screenShareCall u c active =>
      exact iff_of_true (seated_controlCall order h hs u c (controls_screenShare u active) _) trivial
    | inviteMoreCall u c ids =>
      exact iff_of_true (seated_inviteMoreCall order h hs u c ids) trivial
    | evictUsersFromConversation v us =>
      rw [Request.program, Prog.run_map]
      exact iff_of_true (seated_evict order h hs v us) trivial
    | endCallForDisconnectedUser u =>
      rw [Request.program, Prog.run_map]
      exact iff_of_true (seated_endCallForDisconnectedUser order h hs u) trivial
    | removeMember v actor u =>
      exact iff_of_true (seated_evictAfter order h hs rfl (run_removeMember hdb v actor u) _) trivial
    | leave v u =>
      exact iff_of_true (seated_evictAfter order h hs rfl (run_leave hdb v u) _) trivial
  | fire c => exact iff_of_true (seated_fire order h hs c) trivial
  | elapse d => exact iff_of_true (fun c x hx => hs c x hx) trivial
  | setOnline u online => exact iff_of_true (fun c x hx => hs c x hx) trivial

/-- The requests of the gateway are operations of the chat service. -/
theorem reachable_exec (c : Call) (h : Chat.Reachable s.db) :
    Chat.Reachable (exec order c s).2.db := by
  have hop : ∀ {α : Type} {p : Chat.M α} {f : α → Chat.Response} (op : Chat.Op),
      op.program = f <$> p → Chat.Reachable (sendChat p s).2.db := by
    intro α p f op hop
    have hrun := h.run op
    rw [Chat.Op.run, hop, Prog.run_map] at hrun
    exact hrun
  cases c with
  | getConversation v u => exact hop (.getConversation v u) rfl
  | prepareVoiceCall v u => exact hop (.prepareVoiceCall v u) rfl
  | removeMember v actor u => exact hop (.removeMember v actor u) rfl
  | leave v u => exact hop (.leave v u) rfl
  | deleteGroup v u => exact hop (.deleteGroup v u) rfl
  | redis c =>
    simp only [exec]
    rcases CallSession.exec order c s.redis with ⟨e | a, redis⟩
    · cases e
    · exact h
  | takeCallInviteSlot u =>
    simp only [exec]
    split <;> exact h
  | _ => exact h

theorem reachable_run {α : Type} (p : M α) (h : Chat.Reachable s.db) :
    Chat.Reachable (Prog.run (exec order) p s).2.db :=
  (Prog.calls_true p s).preserves (I := fun s => Chat.Reachable s.db)
    (fun _ c _ hs => reachable_exec c hs) h

theorem reachable_step (h : Chat.Reachable s.db) (e : GatewayEvent) :
    Chat.Reachable (gatewayStep order e s).db := by
  cases e with
  | request r => exact reachable_run r.program h
  | fire c =>
    simp only [gatewayStep, GatewayEvent.event, step, State.fire]
    split
    · exact h
    · split
      · exact reachable_run (s := { s with ringTimers := s.ringTimers.erase c }) _ h
      · exact h
  | elapse d => exact h.wait d
  | setOnline u online => exact h

/-- A gateway over a chat service in which A has made a group with B and C. -/
def State.team : State := State.initial.chat (.createGroup userA "team".toList [userB, userC])

theorem State.reachable_team : Chat.Reachable State.team.db :=
  Chat.Reachable.run ⟨0, 0, [], rfl⟩ _

/-- B and C are in A's group call when A removes B from the group and C leaves it. -/
def departures : List GatewayEvent :=
  [.request (.inviteCall userA 0 none), .request (.acceptCall userB 0),
    .request (.acceptCall userC 0), .request (.removeMember 0 userA userB),
    .request (.leave 0 userC)]

/-- A calls the group and deletes it. -/
def deletion : List GatewayEvent :=
  [.request (.inviteCall userA 0 none), .request (.deleteGroup 0 userA)]

end Relay.Gateway.ChatGateway
