import Relay.Gateway.Verify.Unanswered

/-!
# Who is called

`prepareVoiceCall` returns the peers nobody has blocked and, beside them, all active members.
`inviteCall` rings the peers; `inviteMoreCall` takes the members for the users that may be invited.
`quiet_iff` says when a ring reaches somebody who has blocked the caller or is blocked by them.
-/

namespace Relay.Chat

open Relay.Lib Relay.Lib.Prog

variable {s : Db}

/-- One of the two has blocked the other. -/
def Db.BlockedEitherWay (db : Db) (a b : UserId) : Prop :=
  db.hasBlock a b = true ∨ db.hasBlock b a = true

instance (db : Db) (a b : UserId) : Decidable (db.BlockedEitherWay a b) :=
  inferInstanceAs (Decidable (_ ∨ _))

theorem run_isBlockedEitherWay (a b : UserId) :
    run exec (isBlockedEitherWay a b) s = (.ok (decide (s.BlockedEitherWay a b)), s) := by
  have hiff : (0 < (s.userBlocks.filter fun row =>
      (row.blockerId = a.canon ∧ row.blockedId = b.canon) ∨
        (row.blockerId = b.canon ∧ row.blockedId = a.canon)).length) ↔ s.BlockedEitherWay a b := by
    simp only [Db.BlockedEitherWay, Db.hasBlock, Db.blocks, List.length_pos_iff_exists_mem,
      List.mem_filter, decide_eq_true_eq]
    constructor
    · rintro ⟨row, hrow, hab | hba⟩
      · exact .inl ⟨row, hrow, hab⟩
      · exact .inr ⟨row, hrow, hba⟩
    · rintro (⟨row, hrow, hab⟩ | ⟨row, hrow, hba⟩)
      · exact ⟨row, hrow, .inl hab⟩
      · exact ⟨row, hrow, .inr hba⟩
  unfold isBlockedEitherWay
  rw [run_read (a := _) rfl]
  exact congrArg (fun p => (Except.ok p, s)) (decide_eq_decide.mpr hiff)

/-- The member may be called: somebody else, with no block between the two. -/
def Callable (db : Db) (a : UserId) (m : ConversationMember) : Prop :=
  m.userId ≠ a ∧ ¬ db.BlockedEitherWay a m.userId

instance (db : Db) (a : UserId) (m : ConversationMember) : Decidable (Callable db a m) :=
  inferInstanceAs (Decidable (_ ∧ _))

/-- A block that forbids the call of a private chat. -/
def Forbids (db : Db) (cv : ConversationWithMembers) (a : UserId) (ms : List ConversationMember) :
    Prop :=
  cv.type = .priv ∧ ∃ m ∈ ms, m.userId ≠ a ∧ db.BlockedEitherWay a m.userId

/-- One round of the loop over the members. -/
theorem run_callPeer (cv : ConversationWithMembers) (a : UserId) (m : ConversationMember) :
    run exec (callPeer cv a m) s =
      if cv.type = .priv ∧ m.userId ≠ a ∧ s.BlockedEitherWay a m.userId then
        (.error (.rpc (RpcErrors.forbidden "You cannot call this user")), s)
      else (.ok (if Callable s a m then some m.userId else none), s) := by
  unfold callPeer
  by_cases hbad : cv.type = .priv ∧ m.userId ≠ a ∧ s.BlockedEitherWay a m.userId
  · rw [if_pos hbad, if_neg hbad.2.1, run_bind_ok _ (run_isBlockedEitherWay a m.userId),
      run_rejectIf_pos ⟨decide_eq_true hbad.2.2, hbad.1⟩]
  rw [if_neg hbad]
  by_cases hself : m.userId = a
  · have hc : ¬ Callable s a m := fun h => h.1 hself
    rw [if_pos hself, if_neg hc]
    rfl
  rw [if_neg hself, run_bind_ok _ (run_isBlockedEitherWay a m.userId),
    run_rejectIf_neg fun h => hbad ⟨h.2, hself, of_decide_eq_true h.1⟩]
  by_cases hb : s.BlockedEitherWay a m.userId
  · have hc : ¬ Callable s a m := fun h => h.2 hb
    simp [hb, hc]
  · have hc : Callable s a m := ⟨hself, hb⟩
    simp [hb, hc]

theorem run_callPeers (cv : ConversationWithMembers) (a : UserId) (ms : List ConversationMember) :
    Forbids s cv a ms ∧ (∃ e, run exec (collect (callPeer cv a) ms) s = (.error e, s)) ∨
      ¬ Forbids s cv a ms ∧ run exec (collect (callPeer cv a) ms) s =
        (.ok ((ms.filter fun m => Callable s a m).map ConversationMember.userId), s) := by
  induction ms with
  | nil =>
    refine .inr ⟨?_, rfl⟩
    rintro ⟨_, m, hm, _⟩
    cases hm
  | cons m ms ih =>
    have hround := run_callPeer (s := s) cv a m
    unfold collect
    by_cases hm : cv.type = .priv ∧ m.userId ≠ a ∧ s.BlockedEitherWay a m.userId
    · rw [if_pos hm] at hround
      exact .inl ⟨⟨hm.1, m, List.mem_cons_self, hm.2⟩, _, run_bind_error _ hround⟩
    rw [if_neg hm] at hround
    rw [run_bind_ok _ hround]
    have hcons : Forbids s cv a (m :: ms) ↔ Forbids s cv a ms := by
      constructor
      · rintro ⟨hpriv, m', hm', h⟩
        rcases List.mem_cons.mp hm' with rfl | hm'
        · exact absurd ⟨hpriv, h⟩ hm
        · exact ⟨hpriv, m', hm', h⟩
      · rintro ⟨hpriv, m', hm', h⟩
        exact ⟨hpriv, m', List.mem_cons_of_mem _ hm', h⟩
    rw [hcons]
    rcases ih with ⟨hforbids, e, he⟩ | ⟨hallows, hrun⟩
    · exact .inl ⟨hforbids, e, run_bind_error _ he⟩
    · refine .inr ⟨hallows, ?_⟩
      rw [run_bind_ok _ hrun, List.filter_cons]
      by_cases hc : Callable s a m
      · simp [hc]
      · simp [hc]

/-- The chat service prepares a call of the user in the conversation as it was loaded. -/
structure Prepares (db : Db) (cv : ConversationWithMembers) (a : UserId) : Prop where
  enough : 2 ≤ cv.members.length
  few : cv.type = .group → cv.members.length ≤ MAX_GROUP_CALL
  allowed : ¬ Forbids db cv a cv.members
  peer : ∃ m ∈ cv.members, Callable db a m

/-- The peers and the members of a prepared call. -/
theorem run_prepareVoiceCall (v : ConversationId) (a : UserId) :
    (∃ cv, s.membership v a = .ok cv ∧ Prepares s cv a ∧
        run exec (prepareVoiceCall v a) s =
          (.ok ⟨cv.id, cv.type,
            (cv.members.filter fun m => Callable s a m).map ConversationMember.userId,
            cv.members.map ConversationMember.userId⟩, s)) ∨
      (∀ cv, s.membership v a = .ok cv → ¬ Prepares s cv a) ∧
        ∃ e, run exec (prepareVoiceCall v a) s = (.error e, s) := by
  have hmembership := run_requireMembership (s := s) v a
  unfold prepareVoiceCall
  rcases hcv : s.membership v a with e | cv
  · rw [hcv] at hmembership
    exact .inr ⟨nofun, e, run_bind_error _ hmembership⟩
  rw [hcv] at hmembership
  rw [run_bind_ok _ hmembership]
  have hactive : activeMembers cv.members = cv.members := by
    rw [(Db.membership_eq_ok hcv).2.1, activeMembers_activeMembers]
  simp only [hactive]
  have hrefuse : ¬ Prepares s cv a → ∀ cv' : ConversationWithMembers,
      (Except.ok cv : Except Failure _) = .ok cv' → ¬ Prepares s cv' a := by
    rintro hnot _ ⟨⟩
    exact hnot
  by_cases hfew : cv.members.length < 2
  · rw [run_rejectIf_pos hfew]
    exact .inr ⟨hrefuse fun h => Nat.not_le_of_lt hfew h.enough, _, rfl⟩
  rw [run_rejectIf_neg hfew]
  by_cases hmany : cv.type = .group ∧ MAX_GROUP_CALL < cv.members.length
  · rw [run_rejectIf_pos hmany]
    exact .inr ⟨hrefuse fun h => Nat.not_le_of_lt hmany.2 (h.few hmany.1), _, rfl⟩
  rw [run_rejectIf_neg hmany]
  rcases run_callPeers (s := s) cv a cv.members with ⟨hforbids, e, he⟩ | ⟨hallows, hpeers⟩
  · exact .inr ⟨hrefuse fun h => h.allowed hforbids, e, run_bind_error _ he⟩
  rw [run_bind_ok _ hpeers]
  by_cases hnone : ∃ m ∈ cv.members, Callable s a m
  · obtain ⟨m, hm, hc⟩ := hnone
    rw [run_rejectIf_neg]
    · refine .inl ⟨cv, rfl, ⟨Nat.le_of_not_lt hfew, fun hg => Nat.le_of_not_lt fun h => hmany ⟨hg, h⟩,
        hallows, m, hm, hc⟩, rfl⟩
    · rw [List.length_map]
      exact Nat.ne_of_gt (List.length_pos_of_mem (List.mem_filter.mpr ⟨hm, decide_eq_true hc⟩))
  · rw [run_rejectIf_pos]
    · exact .inr ⟨hrefuse fun h => hnone h.peer, _, rfl⟩
    · rw [List.length_map, List.length_eq_zero_iff, List.filter_eq_nil_iff]
      exact fun m hm hc => hnone ⟨m, hm, of_decide_eq_true hc⟩

end Relay.Chat

namespace Relay.Gateway.CallSession

open Relay.Lib

variable {s : Redis} {c : CallId} {x : VoiceCallSession}

/-! ## Whom `inviteMore` rings -/

/-- The user is busy with another call. -/
def BusyElsewhere (s : Redis) (c : CallId) (u : UserId) : Prop := s.busy u ≠ none ∧ s.busy u ≠ some c

instance (s : Redis) (c : CallId) (u : UserId) : Decidable (BusyElsewhere s c u) :=
  inferInstanceAs (Decidable (_ ∧ _))

/-- The user could join the call and is no member of it yet. -/
def Newcomer (s : Redis) (c : CallId) (x : VoiceCallSession) (u : UserId) : Prop :=
  u ∉ x.joinedIds ∧ ¬ BusyElsewhere s c u ∧ u ∉ x.memberIds

instance (s : Redis) (c : CallId) (x : VoiceCallSession) (u : UserId) : Decidable (Newcomer s c x u) :=
  inferInstanceAs (Decidable (_ ∧ _))

/-- The user is one of those asked for, not connected, not busy with another call, and a member of the
call or one of the newcomers it has room for. -/
def Invitable (s : Redis) (c : CallId) (x : VoiceCallSession) (us : List UserId) (u : UserId) : Prop :=
  u ∈ us ∧ u ∉ x.joinedIds ∧ ¬ BusyElsewhere s c u ∧
    (u ∈ x.memberIds ∨
      u ∈ (us.filter fun w => Newcomer s c x w).take (MAX_GROUP_CALL - x.memberIds.length))

theorem mem_inviteAll {ids us : List UserId} (hus : us.Nodup) {u : UserId} :
    u ∈ (inviteAll c s x ids us).2 ↔ u ∈ ids ∨ Invitable s c x us u := by
  induction us generalizing x ids with
  | nil =>
    refine (or_iff_left ?_).symm
    rintro ⟨hu, _⟩
    cases hu
  | cons w us ih =>
    obtain ⟨hw, hus⟩ := List.nodup_cons.mp hus
    -- A user who is skipped changes nothing for the others.
    have hskip : (∀ h : Invitable s c x (w :: us) u, u ≠ w) → ¬ Newcomer s c x w →
        (Invitable s c x (w :: us) u ↔ Invitable s c x us u) := by
      intro hne hold
      have hfilter : (w :: us).filter (fun w => Newcomer s c x w) =
          us.filter fun w => Newcomer s c x w := List.filter_cons_of_neg (by simpa using hold)
      unfold Invitable at hne ⊢
      rw [hfilter] at hne ⊢
      constructor
      · intro h
        exact ⟨(List.mem_cons.mp h.1).resolve_left (hne h), h.2⟩
      · rintro ⟨hu, h⟩
        exact ⟨List.mem_cons_of_mem _ hu, h⟩
    unfold inviteAll
    split
    · next hjoined =>
      have hjoined : w ∈ x.joinedIds := List.contains_iff_mem.mp hjoined
      rw [ih hus, hskip (fun h heq => h.2.1 (heq ▸ hjoined)) fun h => h.1 hjoined]
    split
    · next hbusy => rw [ih hus, hskip (fun h heq => h.2.2.1 (heq ▸ hbusy)) fun h => h.2.1 hbusy]
    next hjoined hbusy =>
    have hjoined : w ∉ x.joinedIds := fun h => hjoined (List.contains_iff_mem.mpr h)
    split
    · next hfull =>
      -- No newcomer finds room any more.
      rw [ih hus]
      have hnone : MAX_GROUP_CALL - x.memberIds.length = 0 := Nat.sub_eq_zero_of_le hfull.2
      unfold Invitable
      rw [hnone, List.take_zero, List.take_zero]
      refine or_congr_right ⟨fun h => ⟨List.mem_cons_of_mem _ h.1, h.2⟩, fun h => ⟨?_, h.2⟩⟩
      refine (List.mem_cons.mp h.1).resolve_left ?_
      rintro rfl
      exact h.2.2.2.elim hfull.1 List.not_mem_nil
    next hroom =>
    rw [ih hus, List.mem_append, List.mem_singleton, or_assoc]
    refine or_congr_right ?_
    have hmembers : ∀ v ∈ us, v ∈ (invited x w).memberIds ↔ v ∈ x.memberIds := by
      intro v hv
      unfold invited
      simp only
      split
      · exact Iff.rfl
      · rw [List.mem_append, List.mem_singleton]
        refine or_iff_left ?_
        rintro rfl
        exact hw hv
    have hrest : us.filter (fun v => Newcomer s c (invited x w) v) =
        us.filter fun v => Newcomer s c x v :=
      List.filter_congr fun v hv => decide_eq_decide.mpr
        (and_congr_right fun _ => and_congr_right fun _ => not_congr (hmembers v hv))
    unfold Invitable
    rw [hrest]
    change u = w ∨ u ∈ us ∧ u ∉ x.joinedIds ∧ ¬ BusyElsewhere s c u ∧
      (u ∈ (invited x w).memberIds ∨ u ∈ (us.filter fun v => Newcomer s c x v).take
        (MAX_GROUP_CALL - (invited x w).memberIds.length)) ↔ _
    by_cases hmem : w ∈ x.memberIds
    · -- A member rings again.
      have hsame : (invited x w).memberIds = x.memberIds := if_pos hmem
      have hfilter : (w :: us).filter (fun v => Newcomer s c x v) =
          us.filter fun v => Newcomer s c x v :=
        List.filter_cons_of_neg (by simp [Newcomer, hmem])
      rw [hsame, hfilter]
      constructor
      · rintro (rfl | ⟨hu, h⟩)
        · exact ⟨List.mem_cons_self, hjoined, hbusy, .inl hmem⟩
        · exact ⟨List.mem_cons_of_mem _ hu, h⟩
      · rintro ⟨hu, h⟩
        exact (List.mem_cons.mp hu).imp_right fun hu => ⟨hu, h⟩
    · -- A newcomer takes a place.
      have hadd : (invited x w).memberIds = x.memberIds ++ [w] := if_neg hmem
      have hnew : Newcomer s c x w := ⟨hjoined, hbusy, hmem⟩
      have hfilter : (w :: us).filter (fun v => Newcomer s c x v) =
          w :: us.filter fun v => Newcomer s c x v :=
        List.filter_cons_of_pos (decide_eq_true hnew)
      have hfew : x.memberIds.length < MAX_GROUP_CALL :=
        Nat.lt_of_not_le fun hfull => hroom ⟨hmem, hfull⟩
      have hplaces : MAX_GROUP_CALL - x.memberIds.length =
          MAX_GROUP_CALL - (x.memberIds ++ [w]).length + 1 := by
        rw [List.length_append, List.length_singleton]
        omega
      rw [hadd, hfilter, hplaces, List.take_succ_cons]
      constructor
      · rintro (rfl | ⟨hu, hout, hfree, hin⟩)
        · exact ⟨List.mem_cons_self, hjoined, hbusy, .inr List.mem_cons_self⟩
        · refine ⟨List.mem_cons_of_mem _ hu, hout, hfree, ?_⟩
          rcases hin with hin | hin
          · exact .inl ((hmembers u hu).mp (hadd ▸ hin))
          · exact .inr (List.mem_cons_of_mem _ hin)
      · rintro ⟨hu, hout, hfree, hin⟩
        by_cases huw : u = w
        · exact .inl huw
        refine .inr ⟨(List.mem_cons.mp hu).resolve_left huw, hout, hfree, ?_⟩
        rcases hin with hin | hin
        · exact .inl (List.mem_append_left _ hin)
        · exact .inr ((List.mem_cons.mp hin).resolve_left huw)

/-- Whom `inviteMore` answers to have invited. -/
theorem inviteResult_cases (hx : s.session c = some x) (actor : UserId) (userIds allowed : List UserId) :
    (∃ e, inviteResult c actor userIds allowed s = .error e) ∧
        (x.kind = .group → actor ∈ x.joinedIds → ∀ u, ¬ Invitable s c x
          (userIds.eraseDups.filter fun u => u ∈ allowed ∧ u ≠ actor) u) ∨
      ∃ r, inviteResult c actor userIds allowed s = .ok r ∧ x.kind = .group ∧ actor ∈ x.joinedIds ∧
        ∀ u, u ∈ r.invitedIds ↔ Invitable s c x
          (userIds.eraseDups.filter fun u => u ∈ allowed ∧ u ≠ actor) u := by
  have hids : ∀ u, u ∈ (inviteAll c s x [] (userIds.eraseDups.filter fun u => u ∈ allowed ∧
      u ≠ actor)).2 ↔ Invitable s c x (userIds.eraseDups.filter fun u => u ∈ allowed ∧ u ≠ actor) u :=
    fun u => (mem_inviteAll ((Js.nodup_eraseDups userIds).filter _)).trans
      (or_iff_right List.not_mem_nil)
  unfold inviteResult
  rw [hx]
  simp only
  by_cases hk : x.kind ≠ .group
  · rw [if_pos hk]
    exact .inl ⟨⟨_, rfl⟩, fun h => absurd h hk⟩
  rw [if_neg hk]
  by_cases hj : (!isJoined x actor) = true
  · rw [if_pos hj]
    refine .inl ⟨⟨_, rfl⟩, fun _ h => ?_⟩
    simp [isJoined, h] at hj
  rw [if_neg hj]
  have hin : actor ∈ x.joinedIds := by simpa [isJoined] using hj
  by_cases hlen : (userIds.eraseDups.filter fun u => u ∈ allowed ∧ u ≠ actor).length = 0
  · rw [if_pos hlen]
    refine .inl ⟨⟨_, rfl⟩, fun _ _ u h => ?_⟩
    have hu := h.1
    rw [List.length_eq_zero_iff.mp hlen] at hu
    cases hu
  rw [if_neg hlen]
  by_cases hnone : (inviteAll c s x [] (userIds.eraseDups.filter fun u => u ∈ allowed ∧
      u ≠ actor)).2 = []
  · rw [if_pos hnone]
    refine .inl ⟨⟨_, rfl⟩, fun _ _ u h => ?_⟩
    have hu := (hids u).mpr h
    rw [hnone] at hu
    cases hu
  · rw [if_neg hnone]
    exact .inr ⟨_, rfl, not_not.mp hk, hin, hids⟩

end Relay.Gateway.CallSession

namespace Relay.Gateway.ChatGateway

open Relay.Lib CallSession

variable {order : Redis → List CallId} {s : State} {a : UserId} {α : Type}

/-! ## The rings of the handlers -/

/-- A ring from the caller is sent to nobody with a block between the two. -/
def Quiet (a : UserId) (s : State) : Call → Prop
  | .emitCallEvent userIds (.incoming _ fromUserId) =>
    fromUserId = a → ∀ b ∈ userIds, ¬ s.db.BlockedEitherWay a b
  | _ => True

/-- Calls that ring nobody. -/
def Silent : Call → Prop
  | .emitCallEvent _ (.incoming _ _) => False
  | _ => True

theorem Silent.quiet {c : Call} (h : Silent c) (s : State) : Quiet a s c := by
  unfold Quiet
  split
  · exact h.elim
  · trivial

theorem quiet_of_silent {p : M α} (h : Prog.Sat (fun _ _ => True) Silent p) (s : State) :
    Prog.Calls (exec order) (Quiet a) p s :=
  Prog.Calls.mono (fun s _ h => h.2.quiet s) (Prog.Calls.and_sat (Prog.calls_true p s) h)

theorem silent_calls (p : CallSession.M α) : Prog.Sat (fun _ _ => True) Silent (calls p) := by
  induction p with
  | ret a => trivial
  | fail e => exact nomatch e
  | call c k ih =>
    rw [calls]
    refine ⟨trivial, fun r _ => ?_⟩
    cases r with
    | ok b => exact ih (.ok b)
    | error e => trivial

theorem silent_takeCallInviteSlot (u : UserId) :
    Prog.Sat (fun _ _ => True) Silent (takeCallInviteSlot u) :=
  Prog.sat_perform (c := Call.takeCallInviteSlot u) trivial

theorem silent_prepareVoiceCall (v : ConversationId) (u : UserId) :
    Prog.Sat (fun _ _ => True) Silent (prepareVoiceCall v u) :=
  Prog.sat_perform (c := Call.prepareVoiceCall v u) trivial

theorem silent_announce (x : VoiceCallSession) {f : M α} (hf : Prog.Sat (fun _ _ => True) Silent f) :
    Prog.Sat (fun _ _ => True) Silent
      (emitCallLobby x >>= fun _ => emitCallRoster x >>= fun _ => f) := by
  refine Prog.sat_bind ?_ fun _ => Prog.sat_bind (Prog.sat_perform trivial) fun _ => hf
  unfold emitCallLobby
  split
  · exact Prog.sat_perform trivial
  · trivial

theorem silent_assertLiveConversationMember (u : UserId) (v : ConversationId) :
    Prog.Sat (fun _ _ => True) Silent (assertLiveConversationMember u v) := by
  refine Prog.sat_bind (Prog.sat_attempt (Prog.sat_perform trivial)) fun r => ?_
  cases r <;> trivial

variable (order s) in
theorem takeCallInviteSlot_cases (u : UserId) :
    CALL_INVITE_MAX_PER_WINDOW ≤ (s.windowInvites u).length ∧
        (∃ message, Prog.run (exec order) (takeCallInviteSlot u) s = (.ok (some message), s)) ∨
      (s.windowInvites u).length < CALL_INVITE_MAX_PER_WINDOW ∧ ∃ rates,
        Prog.run (exec order) (takeCallInviteSlot u) s =
          (.ok none, { s with inviteRateByUser := rates }) := by
  unfold takeCallInviteSlot
  rw [Prog.run_perform]
  simp only [exec]
  split
  · next hfull => exact .inl ⟨hfull, _, rfl⟩
  · next hfree => exact .inr ⟨Nat.lt_of_not_le hfree, _, rfl⟩

variable (order s) in
theorem prepareVoiceCall_cases (v : ConversationId) (u : UserId) :
    (∃ cv, s.db.membership v u = .ok cv ∧ Chat.Prepares s.db cv u ∧
        Prog.run (exec order) (prepareVoiceCall v u) s =
          (.ok ⟨cv.id, cv.type,
            (cv.members.filter fun m => Chat.Callable s.db u m).map Chat.ConversationMember.userId,
            cv.members.map Chat.ConversationMember.userId⟩, s)) ∨
      (∀ cv, s.db.membership v u = .ok cv → ¬ Chat.Prepares s.db cv u) ∧
        ∃ e, Prog.run (exec order) (prepareVoiceCall v u) s = (.error e, s) := by
  have hrun : Prog.run (exec order) (prepareVoiceCall v u) s =
      sendChat (Chat.prepareVoiceCall v u) s := Prog.run_perform _ _ s
  rw [hrun]
  unfold sendChat
  rcases Chat.run_prepareVoiceCall (s := s.db) v u with ⟨cv, hcv, hprep, h⟩ | ⟨hnot, e, h⟩
  · rw [h]
    exact .inl ⟨cv, hcv, hprep, rfl⟩
  · rw [h]
    exact .inr ⟨hnot, _, rfl⟩

/-- The peers of a prepared call have no block with the caller. -/
theorem quiet_inviteCall (hs : Coherent s.redis) (v : ConversationId) (media : Option CallMedia) :
    Prog.Calls (exec order) (Quiet a) (inviteCall a v media) s := by
  have hslot : Prog.Calls (exec order) (Quiet a) (takeCallInviteSlot a) s :=
    quiet_of_silent (silent_takeCallInviteSlot a) s
  unfold inviteCall
  rcases takeCallInviteSlot_cases order s a with
    ⟨_, message, hrun⟩ | ⟨_, rates, hrun⟩
  · rw [Prog.calls_bind_ok hslot hrun]
    trivial
  rw [Prog.calls_bind_ok hslot hrun]
  simp only
  have hprepare : Prog.Calls (exec order) (Quiet a) (prepareVoiceCall v a)
      { s with inviteRateByUser := rates } := quiet_of_silent (silent_prepareVoiceCall _ a) _
  rcases prepareVoiceCall_cases order { s with inviteRateByUser := rates } v a with
    ⟨cv, _, _, hrun⟩ | ⟨_, e, hrun⟩
  swap
  · exact Prog.calls_bind_error hprepare hrun
  rw [Prog.calls_bind_ok hprepare hrun, Prog.calls_bind_ok (quiet_of_silent (silent_calls _) _)
    (run_calls (s := { s with inviteRateByUser := rates }) (run_createCall hs _))]
  rcases createResult _ s.redis with e | x
  · trivial
  simp only
  refine Prog.calls_bind (Prog.calls_perform fun _ b hb => ?_) fun _ t _ => quiet_of_silent ?_ t
  · obtain ⟨m, hm, rfl⟩ := List.mem_map.mp hb
    exact (of_decide_eq_true (List.mem_filter.mp hm).2).2
  · exact silent_announce x (Prog.sat_bind (Prog.sat_perform trivial) fun _ =>
      Prog.sat_bind (Prog.sat_perform trivial) fun _ => trivial)

/-- `inviteMoreCall` gets as far as to ring `b`. -/
def RingsMore (s : State) (a : UserId) (c : CallId) (userIds : List UserId) (b : UserId) : Prop :=
  (s.windowInvites a).length < CALL_INVITE_MAX_PER_WINDOW ∧ ∃ x cv, s.redis.session c = some x ∧
    x.kind = .group ∧ a ∈ x.joinedIds ∧ s.db.membership x.conversationId a = .ok cv ∧
    Chat.Prepares s.db cv a ∧
    Invitable s.redis c x (userIds.eraseDups.filter fun u =>
      u ∈ cv.members.map Chat.ConversationMember.userId ∧ u ≠ a) b

theorem quiet_inviteMoreCall_iff (hs : Coherent s.redis) (c : CallId) (userIds : List UserId) :
    Prog.Calls (exec order) (Quiet a) (inviteMoreCall a c userIds) s ↔
      ∀ b, RingsMore s a c userIds b → ¬ s.db.BlockedEitherWay a b := by
  have hslot : Prog.Calls (exec order) (Quiet a) (takeCallInviteSlot a) s :=
    quiet_of_silent (silent_takeCallInviteSlot a) s
  unfold inviteMoreCall
  rcases takeCallInviteSlot_cases order s a with
    ⟨hfull, message, hrun⟩ | ⟨hfree, rates, hrun⟩
  · rw [Prog.calls_bind_ok hslot hrun]
    exact iff_of_true trivial fun b h => absurd hfull (Nat.not_le_of_lt h.1)
  rw [Prog.calls_bind_ok hslot hrun]
  simp only
  by_cases hempty : userIds.length = 0
  · rw [if_pos hempty]
    refine iff_of_true trivial fun b ⟨_, _, _, _, _, _, _, _, hinvite⟩ => ?_
    have hb := (List.mem_filter.mp hinvite.1).1
    rw [List.length_eq_zero_iff.mp hempty] at hb
    cases hb
  rw [if_neg hempty, Prog.calls_bind_ok (quiet_of_silent (silent_calls _) _)
    (run_calls_same (s := { s with inviteRateByUser := rates }) (run_get hs c))]
  rcases hx : s.redis.session c with _ | x
  · refine iff_of_true trivial fun b ⟨_, x, _, hx', _⟩ => ?_
    rw [hx] at hx'
    cases hx'
  simp only [(hs.live hx).not_ended, if_false]
  have hlive : Prog.Calls (exec order) (Quiet a) (assertLiveConversationMember a x.conversationId)
      { s with inviteRateByUser := rates } := quiet_of_silent (silent_assertLiveConversationMember _ _) _
  rcases run_assertLiveConversationMember order (s := { s with inviteRateByUser := rates }) a
    x.conversationId with ⟨_, hrun⟩ | ⟨hout, hrun⟩
  swap
  · refine iff_of_true (Prog.calls_bind_error hlive hrun) fun b ⟨_, x', cv, hx', _, _, hcv, _⟩ => ?_
    rw [hx] at hx'
    cases hx'
    exact absurd ⟨cv, hcv⟩ hout
  rw [Prog.calls_bind_ok hlive hrun]
  have hprepare : Prog.Calls (exec order) (Quiet a) (prepareVoiceCall x.conversationId a)
      { s with inviteRateByUser := rates } := quiet_of_silent (silent_prepareVoiceCall _ a) _
  rcases prepareVoiceCall_cases order { s with inviteRateByUser := rates } x.conversationId a with ⟨cv, hcv, hprep, hrun⟩ | ⟨hnot, e, hrun⟩
  swap
  · refine iff_of_true (Prog.calls_bind_error hprepare hrun) fun b ⟨_, x', cv, hx', _, _, hcv, hprep, _⟩ => ?_
    rw [hx] at hx'
    cases hx'
    exact absurd hprep (hnot cv hcv)
  rw [Prog.calls_bind_ok hprepare hrun, Prog.calls_bind_ok (quiet_of_silent (silent_calls _) _)
    (run_calls (s := { s with inviteRateByUser := rates }) (run_inviteMore hs c a userIds _))]
  have hrings : ∀ b, RingsMore s a c userIds b ↔ x.kind = .group ∧ a ∈ x.joinedIds ∧
      Invitable s.redis c x (userIds.eraseDups.filter fun u =>
        u ∈ cv.members.map Chat.ConversationMember.userId ∧ u ≠ a) b := by
    intro b
    constructor
    · rintro ⟨_, x', cv', hx', hk, hj, hcv', _, hinvite⟩
      rw [hx] at hx'
      cases hx'
      cases hcv.symm.trans hcv'
      exact ⟨hk, hj, hinvite⟩
    · rintro ⟨hk, hj, hinvite⟩
      exact ⟨hfree, x, cv, hx, hk, hj, hcv, hprep, hinvite⟩
  simp only [hrings]
  rcases inviteResult_cases hx a userIds (cv.members.map Chat.ConversationMember.userId) with
    ⟨⟨e, he⟩, hnone⟩ | ⟨r, hr, hk, hj, hids⟩
  · rw [he]
    exact iff_of_true trivial fun b ⟨hk, hj, hinvite⟩ => absurd hinvite (hnone hk hj b)
  rw [hr]
  simp only
  constructor
  · intro h b ⟨_, _, hinvite⟩
    exact h.1 rfl b ((hids b).mpr hinvite)
  · intro h
    refine Prog.calls_bind (Prog.calls_perform fun _ b hb => h b ⟨hk, hj, (hids b).mp hb⟩)
      fun _ t _ => quiet_of_silent ?_ t
    exact Prog.sat_bind (Prog.sat_perform trivial) fun _ => Prog.sat_bind (Prog.sat_perform trivial)
      fun _ => silent_announce r.session trivial

/-- The two handlers that ring. -/
inductive Invite where
  | call (v : ConversationId) (media : Option CallMedia)
  | more (c : CallId) (userIds : List UserId)

def Invite.program (a : UserId) : Invite → M Ack
  | .call v media => inviteCall a v media
  | .more c userIds => inviteMoreCall a c userIds

/-- The invite rings somebody with a block between them and the caller. -/
def Invite.RingsBlocked (a : UserId) (s : State) : Invite → Prop
  | .call _ _ => False
  | .more c userIds => ∃ b, RingsMore s a c userIds b ∧ s.db.BlockedEitherWay a b

/-- Whatever the chat service stores, over a call store that a run reaches: no ring of the caller is sent
to a user with a block between the two, exactly when the handler is not `inviteMoreCall` inviting such a
user. -/
theorem quiet_iff (order : Redis → List CallId) (ops : List CallSession.Op) {s : State}
    (hs : s.redis = Runs.final (CallSession.step order) ops Redis.empty) (a : UserId) (i : Invite) :
    Prog.Calls (exec order) (Quiet a) (i.program a) s ↔ ¬ i.RingsBlocked a s := by
  have hcoherent : Coherent s.redis := hs ▸ coherent_final order ops
  cases i with
  | call v media => exact iff_of_true (quiet_inviteCall hcoherent v media) id
  | more c userIds =>
    refine (quiet_inviteMoreCall_iff hcoherent c userIds).trans ?_
    constructor
    · rintro h ⟨b, hb, hblocked⟩
      exact h b hb hblocked
    · intro h b hb hblocked
      exact h ⟨b, hb, hblocked⟩

/-- A group of A, B and C, in which C has blocked A. -/
def blockedGroup : Chat.Db :=
  Runs.final (fun (op : Chat.Op) db => (op.run db).2)
    [.createGroup userA "team".toList [userB, userC], .blockUser userC userA] (Chat.Db.empty 0 0)

/-- A has called the group, and B has joined. -/
def State.calling : State where
  redis := Runs.final (CallSession.step keyOrder)
    [.createCall ⟨0, .group, userA, [userA, userB, userC], none⟩, .accept 0 userB] Redis.empty
  db := blockedGroup
  ringTimers := ∅
  inviteRateByUser := ∅
  online := []
  histories := []

theorem quiet_iff_calling :
    Prog.Calls (exec keyOrder) (Quiet userA) ((Invite.more 0 [userC]).program userA) State.calling ↔
      ¬ (Invite.more 0 [userC]).RingsBlocked userA State.calling :=
  quiet_iff keyOrder _ rfl userA _

/-- A invites C again: C's devices ring. -/
theorem quiet_fails :
    ¬ ∀ (ops : List CallSession.Op) (s : State) (a : UserId) (i : Invite),
      s.redis = Runs.final (CallSession.step keyOrder) ops Redis.empty →
      Prog.Calls (exec keyOrder) (Quiet a) (i.program a) s := by
  intro h
  have hquiet := h _ State.calling userA (.more 0 [userC]) rfl
  have hs : Coherent State.calling.redis := coherent_final keyOrder _
  refine (quiet_inviteMoreCall_iff hs 0 [userC]).mp hquiet userC ?_ (by decide)
  obtain ⟨x, hx, hfacts⟩ : ∃ x, State.calling.redis.session 0 = some x ∧
      (x.kind, x.conversationId, x.joinedIds, x.memberIds) =
        (.group, 0, [userA, userB], [userA, userB, userC]) := ⟨_, rfl, by decide⟩
  simp only [Prod.mk.injEq] at hfacts
  obtain ⟨hkind, hconv, hjoined, hmembers⟩ := hfacts
  obtain ⟨cv, hcv, htype, hids⟩ : ∃ cv, blockedGroup.membership 0 userA = .ok cv ∧
      cv.type = .group ∧ cv.members.map Chat.ConversationMember.userId = [userA, userB, userC] :=
    ⟨_, rfl, by decide, by decide⟩
  have hlen : cv.members.length = 3 := by
    rw [← List.length_map, hids]
    rfl
  have hprepares : Chat.Prepares blockedGroup cv userA := by
    refine ⟨by rw [hlen]; decide, fun _ => by rw [hlen]; decide, fun h => ?_, ?_⟩
    · cases htype.symm.trans h.1
    · have hb : userB ∈ cv.members.map Chat.ConversationMember.userId := by
        rw [hids]
        decide
      obtain ⟨m, hm, heq⟩ := List.mem_map.mp hb
      have hcallable : userB ≠ userA ∧ ¬ blockedGroup.BlockedEitherWay userA userB := by decide
      refine ⟨m, hm, ?_⟩
      unfold Chat.Callable
      rw [heq]
      exact hcallable
  refine ⟨by decide, x, cv, hx, hkind, by rw [hjoined]; decide, hconv ▸ hcv, hprepares, ?_⟩
  refine ⟨List.mem_filter.mpr ⟨by decide, decide_eq_true ⟨by rw [hids]; decide, by decide⟩⟩, ?_,
    by decide, .inl ?_⟩
  · rw [hjoined]
    decide
  · rw [hmembers]
    decide

end Relay.Gateway.ChatGateway
