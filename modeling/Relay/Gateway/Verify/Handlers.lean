import Relay.Chat.Verify.Reads
import Relay.Chat.Verify.Footprint
import Relay.Gateway.ChatGateway
import Relay.Gateway.Verify.CallRefine

/-!
# What a handler does when it runs alone

In a coherent call store every handler either changes nothing but the recent invites of a user, or does
what one operation of the call service does and adjusts the ring timer of that call. There is one
inversion lemma for each handler; the guards it names are read off the state before.
-/

namespace Relay.Gateway.ChatGateway

open Relay.Lib CallSession

variable {order : Redis → List CallId} {s : State} {α β : Type}

/-! ## Calls -/

theorem run_calls {p : CallSession.M α} {a : α} {redis : Redis}
    (h : Prog.run (CallSession.exec order) p s.redis = (.ok a, redis)) :
    Prog.run (exec order) (calls p) s = (.ok a, { s with redis := redis }) := by
  induction p generalizing s with
  | ret b =>
    cases h
    rfl
  | fail e => exact nomatch e
  | call c k ih =>
    rw [Prog.run_call] at h
    rw [calls, Prog.run_call]
    simp only [exec]
    rcases hc : CallSession.exec order c s.redis with ⟨e | b, t⟩
    · exact nomatch e
    · rw [hc] at h
      simp only
      rw [ih (.ok b) h]

theorem run_calls_same {p : CallSession.M α} {a : α}
    (h : Prog.run (CallSession.exec order) p s.redis = (.ok a, s.redis)) :
    Prog.run (exec order) (calls p) s = (.ok a, s) := run_calls h

theorem run_emitCallEvent (userIds : List UserId) (event : CallEvent) :
    Prog.run (exec order) (emitCallEvent userIds event) s = (.ok (), s) := rfl

theorem run_emitCallLobby (x : VoiceCallSession) :
    Prog.run (exec order) (emitCallLobby x) s = (.ok (), s) := by
  unfold emitCallLobby
  split <;> rfl

theorem run_emitCallRoster (x : VoiceCallSession) :
    Prog.run (exec order) (emitCallRoster x) s = (.ok (), s) := rfl

theorem run_clearRingTimer (c : CallId) :
    Prog.run (exec order) (clearRingTimer c) s =
      (.ok (), { s with ringTimers := s.ringTimers.erase c }) := rfl

theorem run_setRingTimer (c : CallId) (job : RingJob) :
    Prog.run (exec order) (setRingTimer c job) s =
      (.ok (), { s with
        ringTimers := s.ringTimers.insert c ⟨s.redis.now + ms RING_TIMEOUT_MS, job⟩ }) := rfl

/-- The lobby and the roster are sent last and change nothing. -/
theorem run_announce (x : VoiceCallSession) (f : M β) :
    Prog.run (exec order) (emitCallLobby x >>= fun _ => emitCallRoster x >>= fun _ => f) s =
      Prog.run (exec order) f s := by
  rw [Prog.run_bind_ok _ (run_emitCallLobby x), Prog.run_bind_ok _ (run_emitCallRoster x)]

/-! ## What the chat service answers -/

/-- The user is an active member of the conversation, which is not deleted. -/
def IsMember (db : Chat.Db) (v : ConversationId) (u : UserId) : Prop :=
  ∃ cv, db.membership v u = .ok cv

theorem isMember_of_mem {db : Chat.Db} {v : ConversationId} {row : Chat.Conversation}
    (hrow : db.findConversation v = some row) {m : Chat.ConversationMember}
    (hm : m ∈ db.membersOf v ∧ m.leftAt = none) : IsMember db v m.userId := by
  unfold IsMember Chat.Db.membership
  rw [hrow]
  cases hfind : Chat.findActive (db.membersOf v) m.userId with
  | none =>
    have hnone := List.find?_eq_none.mp hfind m hm.1
    exact absurd (by simp [hm.2]) hnone
  | some m' => exact ⟨_, rfl⟩

theorem sendChat_read {p : Chat.M α} (h : Chat.Uses Chat.ReadCall p) :
    (sendChat p s).2 = s := by
  unfold sendChat
  rw [Prog.Sat.preserves (I := fun db => db = s.db)
    (fun db c hc hdb => (hc.exec db).trans hdb) h rfl]

theorem run_getConversation (db : Chat.Db) (v : ConversationId) (u : UserId) :
    (∃ view, Prog.run Chat.exec (Chat.getConversation v u) db = (.ok view, db)) ∧ IsMember db v u ∨
      (∃ e, Prog.run Chat.exec (Chat.getConversation v u) db = (.error e, db)) ∧
        ¬ IsMember db v u := by
  unfold Chat.getConversation IsMember
  have hm := Chat.run_requireMembership (s := db) v u
  rcases hcv : db.membership v u with e | cv
  · rw [hcv] at hm
    exact .inr ⟨⟨e, Prog.run_bind_error _ hm⟩, fun ⟨_, h⟩ => nomatch h⟩
  · rw [hcv] at hm
    exact .inl ⟨⟨_, (Prog.run_bind_ok _ hm).trans (Chat.run_viewConversation cv u)⟩, cv, rfl⟩

variable (order)

theorem run_assertLiveConversationMember (u : UserId) (v : ConversationId) :
    IsMember s.db v u ∧
        Prog.run (exec order) (assertLiveConversationMember u v) s = (.ok (), s) ∨
      ¬ IsMember s.db v u ∧ Prog.run (exec order) (assertLiveConversationMember u v) s =
        (.error (.ws "You are no longer a member of this conversation"), s) := by
  unfold assertLiveConversationMember
  have hexec : Prog.run (exec order)
      (Prog.perform (Call.getConversation v u) : M Chat.ConversationView).attempt s =
      (.ok (sendChat (Chat.getConversation v u) s).1, (sendChat (Chat.getConversation v u) s).2) := by
    rw [Prog.run_attempt, Prog.run_perform]
    rfl
  rw [Prog.run_bind_ok _ hexec]
  rcases run_getConversation s.db v u with ⟨⟨view, hview⟩, hmem⟩ | ⟨⟨e, he⟩, hmem⟩
  · exact .inl ⟨hmem, by simp only [sendChat, hview]; rfl⟩
  · exact .inr ⟨hmem, by simp only [sendChat, he]; rfl⟩

/-- What `prepareVoiceCall` returns is the active membership, the caller among it. -/
theorem run_prepareVoiceCall (u : UserId) (v : ConversationId) :
    (∃ e, Prog.run (exec order) (prepareVoiceCall v u) s = (.error e, s)) ∨
      ∃ prepared, Prog.run (exec order) (prepareVoiceCall v u) s = (.ok prepared, s) ∧
        prepared.conversationId = v ∧ u ∈ prepared.memberIds ∧
        ∀ w ∈ prepared.memberIds, IsMember s.db v w := by
  have hrun : Prog.run (exec order) (prepareVoiceCall v u) s =
      sendChat (Chat.prepareVoiceCall v u) s := Prog.run_perform _ _ s
  have hstate : (sendChat (Chat.prepareVoiceCall v u) s).2 = s :=
    sendChat_read (Chat.uses_prepareVoiceCall (fun _ h => h) v u)
  rw [hrun]
  rcases hres : sendChat (Chat.prepareVoiceCall v u) s with ⟨e | prepared, t⟩
  · rw [hres] at hstate
    exact .inl ⟨e, by rw [show t = s from hstate]⟩
  rw [hres] at hstate
  refine .inr ⟨prepared, by rw [show t = s from hstate], ?_⟩
  have hok : (Prog.run Chat.exec (Chat.prepareVoiceCall v u) s.db).1 = .ok prepared := by
    have h := congrArg Prod.fst hres
    simp only [sendChat] at h
    rcases hr : (Prog.run Chat.exec (Chat.prepareVoiceCall v u) s.db).1 with e | a
    · rw [hr] at h
      cases h
    · rw [hr] at h
      cases h
      rfl
  obtain ⟨db, hok⟩ : ∃ db, Prog.run Chat.exec (Chat.prepareVoiceCall v u) s.db =
    (.ok prepared, db) := ⟨_, Prod.ext hok rfl⟩
  unfold Chat.prepareVoiceCall at hok
  obtain ⟨cv, db, hmember, hok⟩ := Prog.run_bind_inv _ hok
  obtain ⟨hcv, rfl⟩ := Prod.mk.inj ((Chat.run_requireMembership v u).symm.trans hmember)
  obtain ⟨_, hok⟩ := Chat.run_rejectIf_ok hok
  obtain ⟨_, hok⟩ := Chat.run_rejectIf_ok hok
  obtain ⟨peerIds, db, _, hok⟩ := Prog.run_bind_inv _ hok
  obtain ⟨_, hok⟩ := Chat.run_rejectIf_ok hok
  cases (Prod.mk.inj hok).1
  obtain ⟨hconv, hmembers, m, hm⟩ := Chat.Db.membership_eq_ok hcv
  obtain ⟨hmem, rfl, hleft⟩ := Chat.findActive_eq_some hm
  refine ⟨Chat.Db.membership_id hcv, ?_, fun w hw => ?_⟩
  · refine List.mem_map.mpr ⟨m, ?_, rfl⟩
    rw [hmembers, Chat.activeMembers_activeMembers]
    exact Chat.mem_activeMembers.mpr ⟨hmem, hleft⟩
  · obtain ⟨m', hm', rfl⟩ := List.mem_map.mp hw
    rw [hmembers, Chat.activeMembers_activeMembers] at hm'
    exact isMember_of_mem hconv (Chat.mem_activeMembers.mp hm')

/-! ## The handlers -/

theorem run_takeCallInviteSlot (u : UserId) : ∃ r rates,
    Prog.run (exec order) (takeCallInviteSlot u) s =
      (.ok r, { s with inviteRateByUser := rates }) := by
  unfold takeCallInviteSlot
  rw [Prog.run_perform]
  simp only [exec]
  split
  · exact ⟨_, s.inviteRateByUser, rfl⟩
  · exact ⟨_, _, rfl⟩

/-- The parts of the state that the call handlers share. -/
structure Same (s t : State) : Prop where
  redis : t.redis = s.redis
  db : t.db = s.db
  ringTimers : t.ringTimers = s.ringTimers

theorem Same.refl (s : State) : Same s s := ⟨rfl, rfl, rfl⟩

/-- The call store changed as the plan of an operation says, and the ring timers. -/
structure Does (p : Plan) (timers : AList fun _ : CallId => RingTimer) (s t : State) : Prop where
  redis : t.redis = p.apply s.redis
  db : t.db = s.db
  ringTimers : t.ringTimers = timers

theorem Same.does {t : State} (h : Same s t) : Does {} s.ringTimers s t :=
  ⟨h.redis, h.db, h.ringTimers⟩

/-- The call that an invite asks for, as the chat service prepared it. -/
structure Prepared (db : Chat.Db) (v : ConversationId) (u : UserId) (input : CreateCall) : Prop where
  conversationId : input.conversationId = v
  hostId : input.hostId = u
  host_mem : u ∈ input.memberIds
  members : ∀ w ∈ input.memberIds, IsMember db v w

theorem inviteCall_cases (h : Coherent s.redis) (u : UserId) (v : ConversationId)
    (media : Option CallMedia) :
    ∃ r t, Prog.run (exec order) (inviteCall u v media) s = (r, t) ∧
      (Same s t ∨ ∃ input, Prepared s.db v u input ∧
        ((∃ e, createResult input s.redis = .error e) ∧
            Does (createPlan input s.redis) s.ringTimers s t ∨
          ∃ x due, createResult input s.redis = .ok x ∧
            Does (createPlan input s.redis)
              ((s.ringTimers.erase x.callId).insert x.callId ⟨due, .timeoutRingingCall⟩) s t)) := by
  unfold inviteCall
  obtain ⟨slot, rates, hslot⟩ := run_takeCallInviteSlot order (s := s) u
  rw [Prog.run_bind_ok _ hslot]
  cases slot with
  | some message => exact ⟨_, _, rfl, .inl ⟨rfl, rfl, rfl⟩⟩
  | none =>
  simp only
  rcases run_prepareVoiceCall order (s := { s with inviteRateByUser := rates }) u v with
    ⟨e, he⟩ | ⟨prepared, hprepared, hconv, hhost, hmembers⟩
  · exact ⟨_, _, Prog.run_bind_error _ he, .inl ⟨rfl, rfl, rfl⟩⟩
  rw [Prog.run_bind_ok _ hprepared]
  have hinput : Prepared s.db v u
      ⟨prepared.conversationId, callKind prepared.kind, u, prepared.memberIds, media⟩ :=
    ⟨hconv, rfl, hhost, hmembers⟩
  rw [Prog.run_bind_ok _ (run_calls (s := { s with inviteRateByUser := rates }) (run_createCall h
    ⟨prepared.conversationId, callKind prepared.kind, u, prepared.memberIds, media⟩))]
  rcases hres : createResult
      ⟨prepared.conversationId, callKind prepared.kind, u, prepared.memberIds, media⟩ s.redis
    with e | x
  · exact ⟨_, _, rfl, .inr ⟨_, hinput, .inl ⟨⟨e, hres⟩, rfl, rfl, rfl⟩⟩⟩
  · simp only
    rw [Prog.run_bind_ok _ (run_emitCallEvent _ _), run_announce,
      Prog.run_bind_ok _ (run_clearRingTimer _), Prog.run_bind_ok _ (run_setRingTimer _ _)]
    exact ⟨_, _, rfl, .inr ⟨_, hinput, .inr ⟨x, _, hres, rfl, rfl, rfl⟩⟩⟩

/-- The user may accept the call, and `y` is the session then. -/
def Joins (s : State) (u : UserId) (c : CallId) (y : VoiceCallSession) : Prop :=
  ∃ x, s.redis.session c = some x ∧ IsMember s.db x.conversationId u ∧
    acceptResult c u s.redis = .ok y

theorem acceptCall_cases (h : Coherent s.redis) (u : UserId) (c : CallId) :
    ∃ r t, Prog.run (exec order) (acceptCall u c) s = (r, t) ∧
      (Same s t ∧ (∀ y, ¬ Joins s u c y) ∨ ∃ y, Joins s u c y ∧
        Does (acceptPlan c u s.redis)
          (if y.kind = .priv ∨ 1 < y.joinedIds.length then s.ringTimers.erase c
            else s.ringTimers) s t) := by
  unfold acceptCall
  rw [Prog.run_bind_ok _ (run_calls_same (run_get h c))]
  rcases hx : s.redis.session c with _ | x
  · refine ⟨_, _, rfl, .inl ⟨.refl s, ?_⟩⟩
    rintro y ⟨x, hx', _⟩
    rw [hx] at hx'
    cases hx'
  simp only [(h.live hx).not_ended, if_false]
  rcases run_assertLiveConversationMember order (s := s) u x.conversationId with
    ⟨hmem, hlive⟩ | ⟨hmem, hlive⟩
  swap
  · refine ⟨_, _, Prog.run_bind_error _ hlive, .inl ⟨.refl s, ?_⟩⟩
    rintro y ⟨x', hx', hmem', _⟩
    rw [hx] at hx'
    cases hx'
    exact hmem hmem'
  rw [Prog.run_bind_ok _ hlive, Prog.run_bind_ok _ (run_calls (run_accept h c u))]
  rcases hres : acceptResult c u s.redis with e | y
  · refine ⟨_, _, rfl, .inl ⟨?_, ?_⟩⟩
    · rcases accept_cases c u s.redis with ⟨_, _, hplan⟩ | ⟨_, _, _, ⟨_, hok, _⟩ | ⟨_, _, _, hok, _⟩⟩
      · rw [hplan]
        exact .refl s
      · rw [hres] at hok
        cases hok
      · rw [hres] at hok
        cases hok
    · rintro y ⟨_, _, _, hy⟩
      rw [hres] at hy
      cases hy
  · simp only
    by_cases hstop : y.kind = .priv ∨ 1 < y.joinedIds.length
    · rw [if_pos hstop, Prog.run_bind_ok _ (run_clearRingTimer c)]
      refine ⟨_, _, run_announce y _, .inr ⟨y, ⟨x, hx, hmem, hres⟩, ?_⟩⟩
      rw [if_pos hstop]
      exact ⟨rfl, rfl, rfl⟩
    · rw [if_neg hstop]
      refine ⟨_, _, run_announce y _, .inr ⟨y, ⟨x, hx, hmem, hres⟩, ?_⟩⟩
      rw [if_neg hstop]
      exact ⟨rfl, rfl, rfl⟩

/-- A call that has ended loses its ring timer. -/
def clearedIf (ended : Bool) (c : CallId) (s : State) : AList fun _ : CallId => RingTimer :=
  if ended then s.ringTimers.erase c else s.ringTimers

theorem rejectCall_cases (h : Coherent s.redis) (u : UserId) (c : CallId) :
    ∃ r t, Prog.run (exec order) (rejectCall u c) s = (r, t) ∧
      (Same s t ∨ ∃ r, declineResult c u s.redis = .ok r ∧
        Does (declinePlan c u s.redis) (clearedIf r.ended c s) s t) := by
  unfold rejectCall
  rw [Prog.run_bind_ok _ (run_calls (run_decline h c u))]
  rcases decline_cases c u s.redis with ⟨e, hres, hplan⟩ | ⟨x, r, _, hres, hcases⟩
  · rw [hres, hplan]
    exact ⟨_, _, rfl, .inl (.refl s)⟩
  rw [hres]
  simp only
  cases hend : r.ended with
  | true => exact ⟨_, _, rfl, .inr ⟨r, rfl, by rw [hend]; exact ⟨rfl, rfl, rfl⟩⟩⟩
  | false =>
    simp only [Bool.false_eq_true, if_false]
    rw [Prog.run_bind_ok _ (run_emitCallEvent _ _), run_announce]
    exact ⟨_, _, rfl, .inr ⟨r, rfl, by rw [hend]; exact ⟨rfl, rfl, rfl⟩⟩⟩

/-- The end of `hangupCall` and of the disconnect handling. -/
theorem run_afterLeave (c : CallId) (u : UserId) (reason : CallEndReason) (r : Left) (a b : α)
    (t : State) :
    ∃ a' t', Prog.run (exec order) (if r.ended then do
          clearRingTimer c
          emitCallEnded r.session u reason
          return a
        else do
          emitCallEvent r.session.memberIds
            (.participantLeft c r.session.conversationId u r.remainingIds)
          emitCallLobby r.session
          emitCallRoster r.session
          return b) t = (.ok a', t') ∧ t'.redis = t.redis ∧ t'.db = t.db ∧
      t'.ringTimers = clearedIf r.ended c t := by
  cases hend : r.ended with
  | true => exact ⟨_, _, rfl, rfl, rfl, rfl⟩
  | false =>
    simp only [Bool.false_eq_true, if_false]
    rw [Prog.run_bind_ok _ (run_emitCallEvent _ _), run_announce]
    exact ⟨_, _, rfl, rfl, rfl, rfl⟩

theorem hangupCall_cases (h : Coherent s.redis) (u : UserId) (c : CallId) :
    ∃ r t, Prog.run (exec order) (hangupCall u c) s = (r, t) ∧
      (Same s t ∨ ∃ r, leaveResult c u s.redis = .ok r ∧
        Does (leavePlan c u s.redis) (clearedIf r.ended c s) s t) := by
  unfold hangupCall
  rw [Prog.run_bind_ok _ (run_calls_same (run_get h c))]
  rcases s.redis.session c with _ | x
  · exact ⟨_, _, rfl, .inl (.refl s)⟩
  simp only
  split
  · exact ⟨_, _, rfl, .inl (.refl s)⟩
  rw [Prog.run_bind_ok _ (run_calls (run_leave h c u))]
  rcases leave_cases c u s.redis with ⟨e, hres, hplan⟩ | ⟨x, r, _, hres, hcases⟩
  · rw [hres, hplan]
    exact ⟨_, _, rfl, .inl (.refl s)⟩
  rw [hres]
  obtain ⟨a, t, hrun, hredis, hdb, htimers⟩ := run_afterLeave order c u .hangup r
    (Ack.left true none) (.left false (some (toLobby r.session true)))
    { s with redis := (leavePlan c u s.redis).apply s.redis }
  exact ⟨_, _, hrun, .inr ⟨r, rfl, hredis, hdb, htimers⟩⟩

theorem controlCall_cases (h : Coherent s.redis) (u : UserId) (c : CallId)
    (f : VoiceCallSession → Except String VoiceCallSession) (event : VoiceCallSession → CallEvent) :
    ∃ r t, Prog.run (exec order) (controlCall u c f event) s = (r, t) ∧
      (Same s t ∨ Does (controlPlan c f s.redis) s.ringTimers s t) := by
  unfold controlCall
  rw [Prog.run_bind_ok _ (run_calls_same (run_get h c))]
  rcases hx : s.redis.session c with _ | x
  · exact ⟨_, _, rfl, .inl (.refl s)⟩
  simp only [(h.live hx).not_ended, if_false]
  rcases run_assertLiveConversationMember order (s := s) u x.conversationId with
    ⟨_, hlive⟩ | ⟨_, hlive⟩
  swap
  · exact ⟨_, _, Prog.run_bind_error _ hlive, .inl (.refl s)⟩
  rw [Prog.run_bind_ok _ hlive, Prog.run_bind_ok _ (run_calls (run_control h c f))]
  rcases controlResult c f s.redis with e | y
  · exact ⟨_, _, rfl, .inr ⟨rfl, rfl, rfl⟩⟩
  · simp only
    rw [Prog.run_bind_ok _ (run_emitCallEvent _ _), run_announce]
    exact ⟨_, _, rfl, .inr ⟨rfl, rfl, rfl⟩⟩

/-- The invited ids an acknowledgement returns. -/
def Ack.invitedIds : Except Exception Ack → List UserId
  | .ok (.invited _ ids) => ids
  | _ => []

theorem inviteMoreCall_cases (h : Coherent s.redis) (u : UserId) (c : CallId)
    (userIds : List UserId) :
    ∃ r t, Prog.run (exec order) (inviteMoreCall u c userIds) s = (r, t) ∧
      (Same s t ∧ Ack.invitedIds r = [] ∨ ∃ x, ∃ r' : Invited, ∃ us due,
        s.redis.session c = some x ∧ x.kind = .group ∧ (∀ w ∈ us, IsMember s.db x.conversationId w) ∧
        (r'.session, r'.invitedIds) = inviteAll c s.redis x [] us ∧
        Ack.invitedIds r = r'.invitedIds ∧
        Does { stores := some r'.session }
          ((s.ringTimers.erase c).insert c ⟨due, .timeoutRingingInvitees r'.invitedIds⟩) s t) := by
  unfold inviteMoreCall
  obtain ⟨slot, rates, hslot⟩ := run_takeCallInviteSlot order (s := s) u
  rw [Prog.run_bind_ok _ hslot]
  have hsame : Same s { s with inviteRateByUser := rates } := ⟨rfl, rfl, rfl⟩
  cases slot with
  | some message => exact ⟨_, _, rfl, .inl ⟨hsame, rfl⟩⟩
  | none =>
  simp only
  split
  · exact ⟨_, _, rfl, .inl ⟨hsame, rfl⟩⟩
  rw [Prog.run_bind_ok _ (run_calls_same (s := { s with inviteRateByUser := rates }) (run_get h c))]
  rcases hx : s.redis.session c with _ | x
  · exact ⟨_, _, rfl, .inl ⟨hsame, rfl⟩⟩
  simp only [(h.live hx).not_ended, if_false]
  rcases run_assertLiveConversationMember order
    (s := { s with inviteRateByUser := rates }) u x.conversationId with ⟨_, hlive⟩ | ⟨_, hlive⟩
  swap
  · exact ⟨_, _, Prog.run_bind_error _ hlive, .inl ⟨hsame, rfl⟩⟩
  rw [Prog.run_bind_ok _ hlive]
  rcases run_prepareVoiceCall order (s := { s with inviteRateByUser := rates }) u
    x.conversationId with ⟨e, he⟩ | ⟨prepared, hprepared, _, _, hmembers⟩
  · exact ⟨_, _, Prog.run_bind_error _ he, .inl ⟨hsame, rfl⟩⟩
  rw [Prog.run_bind_ok _ hprepared, Prog.run_bind_ok _ (run_calls
    (s := { s with inviteRateByUser := rates })
    (run_inviteMore h c u userIds prepared.memberIds))]
  rcases invite_cases c u userIds prepared.memberIds s.redis with
    ⟨e, hres, hplan⟩ | ⟨x', r, us, hx', hk, hus, hall, hres, hplan⟩
  · rw [hres, hplan]
    exact ⟨_, _, rfl, .inl ⟨hsame, rfl⟩⟩
  rw [hx] at hx'
  cases hx'
  rw [hres, hplan]
  simp only
  rw [Prog.run_bind_ok _ (run_emitCallEvent _ _), Prog.run_bind_ok _ (run_clearRingTimer _),
    Prog.run_bind_ok _ (run_setRingTimer _ _), run_announce]
  exact ⟨_, _, rfl, .inr ⟨x, r, us, _, rfl, hk, fun w hw => hmembers w (hus hw), hall, rfl,
    rfl, rfl, rfl⟩⟩

/-- One round of the eviction. -/
theorem run_evict_cons (h : Coherent s.redis) (v : ConversationId) (u : UserId)
    (us : List UserId) :
    ∃ t, Prog.run (exec order) (evictUsersFromConversation v (u :: us)) s =
        Prog.run (exec order) (evictUsersFromConversation v us) t ∧
      (Same s t ∧ (∀ x, s.redis.session x.callId = some x → x.conversationId = v →
          u ∉ x.memberIds) ∨
        ∃ r, revokeResult v u s.redis = some r ∧
          Does (revokePlan v u s.redis) (clearedIf r.ended r.callId s) s t) := by
  rw [evictUsersFromConversation, Prog.run_bind_ok _ (run_calls (run_revoke h v u))]
  rcases revoke_cases h v u with ⟨hres, hplan, hnone⟩ | ⟨x, r, _, _, hres, _, _⟩
  · rw [hres, hplan]
    exact ⟨s, rfl, .inl ⟨.refl s, hnone⟩⟩
  rw [hres]
  simp only
  cases hend : r.ended with
  | true => exact ⟨_, rfl, .inr ⟨r, rfl, by rw [hend]; exact ⟨rfl, rfl, rfl⟩⟩⟩
  | false =>
    refine ⟨{ s with redis := (revokePlan v u s.redis).apply s.redis }, ?_,
      .inr ⟨r, rfl, by rw [hend]; exact ⟨rfl, rfl, rfl⟩⟩⟩
    simp only [Bool.false_eq_true, if_false]
    rw [Prog.run_bind_ok _ (run_emitCallEvent _ _), Prog.run_bind_ok _ (run_emitCallEvent _ _),
      run_announce]

theorem timeoutRingingCall_cases (h : Coherent s.redis) (c : CallId) :
    ∃ r t, Prog.run (exec order) (timeoutRingingCall c) s = (r, t) ∧
      (Same s t ∨ Does {} (s.ringTimers.erase c) s t ∨ ∃ x, s.redis.session c = some x ∧
        Does { ends := some x } (s.ringTimers.erase c) s t) := by
  unfold timeoutRingingCall
  rw [Prog.run_bind_ok _ (run_calls_same (run_get h c))]
  rcases hx : s.redis.session c with _ | x
  · exact ⟨_, _, rfl, .inl (.refl s)⟩
  simp only
  split
  · exact ⟨_, _, rfl, .inr (.inl ⟨rfl, rfl, rfl⟩)⟩
  split
  · have hend := @run_end order _ h c
    rw [hx] at hend
    simp only [finishCall]
    rw [Prog.run_bind_ok _ (run_calls hend), Prog.run_bind_ok _ (run_clearRingTimer c)]
    refine ⟨_, _, rfl, .inr (.inr ⟨x, rfl, ?_, rfl, rfl⟩)⟩
    rw [← h.callId_eq hx]
    rfl
  · exact ⟨_, _, rfl, .inl (.refl s)⟩

theorem timeoutRingingInvitees_cases (h : Coherent s.redis) (c : CallId) (ids : List UserId) :
    ∃ r t, Prog.run (exec order) (timeoutRingingInvitees c ids) s = (r, t) ∧
      Does (markPlan c ids s.redis) (s.ringTimers.erase c) s t := by
  unfold timeoutRingingInvitees
  rw [Prog.run_bind_ok _ (run_clearRingTimer c), Prog.run_bind_ok _ (run_calls
    (s := { s with ringTimers := s.ringTimers.erase c }) (run_markUnansweredAsLeft h c ids))]
  rcases markResult c ids s.redis with _ | x
  · exact ⟨_, _, rfl, rfl, rfl, rfl⟩
  · simp only
    rw [Prog.run_bind_ok _ (run_emitCallLobby x)]
    exact ⟨_, _, rfl, rfl, rfl, rfl⟩

theorem endCallForDisconnectedUser_cases (h : Coherent s.redis) (u : UserId) :
    ∃ r t, Prog.run (exec order) (endCallForDisconnectedUser u) s = (r, t) ∧
      (Same s t ∨ ∃ c, Does (clearPlan u (some c) s.redis) s.ringTimers s t ∨
        ∃ r, leaveResult c u s.redis = .ok r ∧
          Does (leavePlan c u s.redis) (clearedIf r.ended c s) s t) := by
  unfold endCallForDisconnectedUser
  rw [Prog.run_bind_ok _ (run_calls_same (run_getActiveCallIdForUser u))]
  rcases s.redis.busy u with _ | c
  · exact ⟨_, _, rfl, .inl (.refl s)⟩
  simp only
  rw [Prog.run_bind_ok _ (run_calls_same (run_get h c))]
  have hclear : Prog.run (exec order) (calls (clearUserBusy u (some c))) s = _ :=
    run_calls (run_clearUserBusy u (some c))
  rcases s.redis.session c with _ | x
  · exact ⟨_, _, hclear, .inr ⟨c, .inl ⟨rfl, rfl, rfl⟩⟩⟩
  simp only
  split
  · exact ⟨_, _, hclear, .inr ⟨c, .inl ⟨rfl, rfl, rfl⟩⟩⟩
  rw [Prog.run_bind_ok _ (show Prog.run (exec order) (Prog.perform (Call.getPresence u)) s =
    (.ok (s.online.contains u), s) from rfl)]
  split
  · exact ⟨_, _, rfl, .inl (.refl s)⟩
  rw [Prog.run_bind_ok _ (run_calls_same (run_get h c))]
  rcases s.redis.session c with _ | latest
  · exact ⟨_, _, rfl, .inl (.refl s)⟩
  simp only
  split
  · exact ⟨_, _, rfl, .inl (.refl s)⟩
  rw [Prog.run_bind_ok _ (run_calls (run_leave h c u))]
  rcases leave_cases c u s.redis with ⟨e, hres, hplan⟩ | ⟨x, r, _, hres, _⟩
  · rw [hres, hplan]
    exact ⟨_, _, rfl, .inl (.refl s)⟩
  rw [hres]
  simp only
  cases hend : r.ended with
  | true =>
    exact ⟨_, _, rfl, .inr ⟨c, .inr ⟨r, hres, by rw [hend]; exact ⟨rfl, rfl, rfl⟩⟩⟩⟩
  | false =>
    simp only [Bool.false_eq_true, if_false]
    rw [Prog.run_bind_ok _ (run_emitCallEvent _ _), Prog.run_bind_ok _ (run_emitCallLobby _)]
    exact ⟨_, _, rfl, .inr ⟨c, .inr ⟨r, hres, by rw [hend]; exact ⟨rfl, rfl, rfl⟩⟩⟩⟩

end Relay.Gateway.ChatGateway
