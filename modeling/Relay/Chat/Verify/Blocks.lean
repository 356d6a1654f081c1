import Relay.Chat.Verify.Checks

/-!
# What a block keeps out

In a private conversation a request of a blocked user may neither reach the user who blocked nor
change what that user reads. The sending operations ask for the block (`Db.delivery`), the operations
that change a message do not: the law holds of a request exactly when it is no edit, reaction or pin
that passes its checks (`undisturbed_iff`).
-/

namespace Relay.Chat

open Relay.Lib Relay.Lib.Rows Prog

variable {s : Db}

/-- A request of a member in a conversation. -/
inductive Request where
  | send (payload : SendMessage)
  | forward (source : ConversationId) (m : MessageId)
  | dispatch (row : ScheduledMessage)
  | edit (m : MessageId) (body : Text)
  | react (m : MessageId) (emoji : Text)
  | pin (m : MessageId) (pinned : Bool)

/-- The request of `a` in `c`; sends of the system are none of them. -/
def Request.program (a : UserId) (c : ConversationId) : Request → M (Option SendMessageResult)
  | .send payload =>
    some <$> sendMessage { payload with actorId := a, conversationId := c, systemCall := false }
  | .forward source m => some <$> forwardMessage a source c m
  | .dispatch row => dispatchScheduled { row with senderId := a, conversationId := c }
  | .edit m body => some <$> editMessage c m a body
  | .react m emoji => some <$> reactMessage c m a emoji
  | .pin m pinned => some <$> pinMessage c m a pinned

/-- The request changes a message: it is an edit, a reaction or a pin that passes its checks. -/
def Request.changes (s : Db) (a : UserId) (c : ConversationId) : Request → Bool
  | .edit m body => (s.acceptEdit c m a body).isSome
  | .react m emoji => (s.acceptReact c m a emoji).isSome
  | .pin m pinned => (s.acceptPin c m a pinned).isSome
  | _ => false

/-- The conversation is a private one of `a` and `b`. -/
def Db.Private (db : Db) (c : ConversationId) (a b : UserId) : Prop :=
  a.canon ≠ b.canon ∧ ∃ row ∈ db.conversations, row.id = c ∧ row.type = .priv ∧
    (∃ m ∈ db.membersOf c, m.userId = a.canon) ∧ ∃ m ∈ db.membersOf c, m.userId = b.canon

/-- The request does not reach `b` and changes no page of what `b` reads in `c`. -/
def Undisturbed (s : Db) (a b : UserId) (c : ConversationId) (r : Request) : Prop :=
  (∀ result, (run exec (r.program a c) s).1 = .ok (some result) → b.canon ∉ result.recipientIds) ∧
    ∀ page, (run exec (listMessages c b page) (run exec (r.program a c) s).2).1 =
      (run exec (listMessages c b page) s).1

/-! ## The two members -/

/-- The actor of a private conversation has loaded it with its two members. -/
theorem private_loaded (h : Inv s) {c : ConversationId} {a b : UserId} (hpriv : s.Private c a b)
    {cv : ConversationWithMembers} (hcv : s.membership c a = .ok cv) :
    cv.type = .priv ∧ b.canon ∈ recipientIds cv ∧
      ∃ other, findOther cv.members a = some other ∧ other.userId = b.canon := by
  obtain ⟨hne, row, hrow, hid, htype, ⟨ma, hma, hmau⟩, ⟨mb, hmb, hmbu⟩⟩ := hpriv
  obtain ⟨hfind, hmembers, m, hm⟩ := Db.membership_eq_ok hcv
  obtain ⟨hcvrow, hcvid, _⟩ := Db.findConversation_eq_some hfind
  obtain rfl := h.keyed.conversations.eq_of_id_eq hcvrow hrow (hcvid.trans hid.symm)
  obtain ⟨_, x, y, _, _, hpair⟩ := h.pairs _ hrow htype
  rw [hid] at hpair
  have hactive : ∀ m ∈ s.membersOf c, m.leftAt = none ∧ (m.userId = a.canon ∨ m.userId = b.canon) := by
    intro m hm
    have hpairs : ∀ p ∈ (s.membersOf c).map fun m => (m.userId, m.leftAt),
        p.2 = none ∧ (p.1 = x.canon ∨ p.1 = y.canon) := by
      rw [hpair]
      simp
    have ha := hpairs _ (List.mem_map_of_mem hma)
    have hb := hpairs _ (List.mem_map_of_mem hmb)
    have hthis := hpairs _ (List.mem_map_of_mem hm)
    refine ⟨hthis.1, ?_⟩
    simp only [hmau, hmbu] at ha hb
    rcases ha.2 with ha | ha <;> rcases hb.2 with hb | hb <;> rcases hthis.2 with hm | hm <;>
      simp_all
  have hall : cv.members = s.membersOf c := by
    rw [hmembers]
    exact List.filter_eq_self.mpr fun m hm => decide_eq_true (hactive m hm).1
  have hactor : a = a.canon := by
    obtain ⟨hmem, huser, _⟩ := findActive_eq_some hm
    rw [← huser, h.canon m (Db.mem_membersOf.mp hmem).1]
  refine ⟨htype, ?_, ?_⟩
  · refine List.mem_map.mpr ⟨mb, mem_activeMembers.mpr ⟨hall ▸ hmb, (hactive mb hmb).1⟩, hmbu⟩
  · cases hother : findOther cv.members a with
    | none =>
      have hnone := List.find?_eq_none.mp hother mb (hall ▸ hmb)
      simp only [decide_eq_true_eq, hmbu, (hactive mb hmb).1, and_true, not_not] at hnone
      exact absurd (hactor.symm.trans hnone.symm) hne
    | some other =>
      obtain ⟨hmem, hother', _⟩ := findOther_eq_some hother
      rw [hall] at hmem
      rcases (hactive other hmem).2 with hu | hu
      · exact absurd (hu.trans hactor.symm) hother'
      · exact ⟨other, rfl, hu⟩

theorem hasBlock_canon (a b : UserId) : s.hasBlock a.canon b = s.hasBlock a b := by
  unfold Db.hasBlock Db.blocks
  rw [UserId.canon_canon]

/-- A blocked user has no delivery. -/
theorem private_forbidden (h : Inv s) {c : ConversationId} {a b : UserId}
    (hpriv : s.Private c a b) (hblock : s.hasBlock b a = true) {cv : ConversationWithMembers}
    (hcv : s.membership c a = .ok cv) : (s.delivery cv a).forbidden = true := by
  obtain ⟨htype, _, other, hother, hu⟩ := private_loaded h hpriv hcv
  unfold Db.delivery
  rw [if_neg (not_not.mpr htype), hother]
  dsimp only
  rw [hu, hasBlock_canon, hblock]
  rfl

/-! ## Requests -/

/-- A request that is rejected disturbs nobody. -/
theorem undisturbed_of_rejected {a b : UserId} {c : ConversationId} {r : Request} {e : Failure}
    (h : run exec (r.program a c) s = (.error e, s)) : Undisturbed s a b c r := by
  unfold Undisturbed
  rw [h]
  exact ⟨fun _ hr => (nomatch hr), fun _ => rfl⟩

theorem undisturbed_of_accepts {α : Type} {p : M α} {f : α → Option SendMessageResult}
    {a b : UserId} {c : ConversationId} {r : Request} (hr : r.program a c = f <$> p)
    (h : Accepts p s none) : Undisturbed s a b c r := by
  obtain ⟨e, he⟩ := h
  refine undisturbed_of_rejected (e := .rpc e) ?_
  rw [hr, run_map, he]
  rfl

/-- A change that is accepted goes to both members. -/
theorem disturbed_of_change (h : Inv s) {a b : UserId} {c : ConversationId}
    (hpriv : s.Private c a b) {p : M SendMessageResult} {r : Request}
    (hr : r.program a c = some <$> p) {change : Change} (hp : run exec p s = run exec (change.apply a) s)
    (hcv : s.membership c a = .ok change.conversation)
    (hwrite : ∃ s', run exec change.write s = (.ok (), s')) : ¬ Undisturbed s a b c r := by
  rintro ⟨hreach, _⟩
  obtain ⟨s', hs'⟩ := hwrite
  have hrun : (run exec (r.program a c) s).1 = .ok (some
      ⟨s'.viewOf change.message change.conversation.members a,
        recipientIds change.conversation⟩) := by
    rw [hr, run_map, hp, run_apply hs']
    rfl
  exact hreach _ hrun (private_loaded h hpriv hcv).2.1

/-- A scheduled message that cannot be sent is only marked. -/
theorem undisturbed_dispatch {a b : UserId} {c : ConversationId}
    (hsend : ∀ payload : SendMessage, ∀ s' : Db, s'.conversations = s.conversations →
      s'.members = s.members → s'.userBlocks = s.userBlocks →
      Accepts (sendMessage { payload with actorId := a, conversationId := c, systemCall := false })
        s' none) (row : ScheduledMessage) : Undisturbed s a b c (.dispatch row) := by
  let row' : ScheduledMessage := { row with senderId := a, conversationId := c }
  obtain ⟨n, rows, hclaim⟩ : ∃ n rows, exec (.claimScheduled row'.id) s =
      (.ok n, { s with scheduledMessages := rows }) := ⟨_, _, rfl⟩
  have hrun : ∃ rows', run exec (dispatchScheduled row') s =
      (.ok none, { s with scheduledMessages := rows' }) := by
    unfold dispatchScheduled
    rw [run_bind_ok exec ((run_perform exec _ s).trans hclaim)]
    split
    · exact ⟨rows, rfl⟩
    · obtain ⟨e, he⟩ := hsend row'.toPayload { s with scheduledMessages := rows } rfl rfl rfl
      have hattempt : run exec (sendMessage row'.toPayload).attempt
          { s with scheduledMessages := rows } =
            (.ok (.error (.rpc e)), { s with scheduledMessages := rows }) := by
        have he : run exec (sendMessage row'.toPayload) { s with scheduledMessages := rows } =
          (.error (.rpc e), { s with scheduledMessages := rows }) := he
        rw [run_attempt, he]
      rw [run_bind_ok exec hattempt]
      exact ⟨_, rfl⟩
  obtain ⟨rows', hrun⟩ := hrun
  unfold Undisturbed
  change (∀ result, (run exec (dispatchScheduled row') s).1 = .ok (some result) → _) ∧
    ∀ page, (run exec (listMessages c b page) (run exec (dispatchScheduled row') s).2).1 = _
  rw [hrun]
  refine ⟨fun _ hr => (nomatch hr), fun page => ?_⟩
  rw [run_listMessages, run_listMessages]
  rfl

/-- A request of a blocked user reaches and changes nothing, if and only if it is no edit, reaction
or pin that passes its own checks. -/
theorem undisturbed_iff (hs : Reachable s) {a b : UserId} {c : ConversationId}
    (hpriv : s.Private c a b) (hblock : s.hasBlock b a = true) (r : Request) :
    Undisturbed s a b c r ↔ r.changes s a c = false := by
  have h := hs.inv
  have hforbidden : ∀ s' : Db, s'.conversations = s.conversations → s'.members = s.members →
      s'.userBlocks = s.userBlocks → ∀ cv, s'.membership c a = .ok cv →
        (s'.delivery cv a).forbidden = true := by
    intro s' hconv hmembers hblocks cv hcv
    have hmembership : s'.membership c a = s.membership c a := by
      unfold Db.membership Db.findConversation Db.membersOf
      rw [hconv, hmembers]
    have hdelivery : s'.delivery cv a = s.delivery cv a := by
      unfold Db.delivery Db.hasBlock Db.blocks
      rw [hblocks]
    rw [hdelivery]
    exact private_forbidden h hpriv hblock (hmembership ▸ hcv)
  have hsend : ∀ payload : SendMessage, ∀ s' : Db, s'.conversations = s.conversations →
      s'.members = s.members → s'.userBlocks = s.userBlocks →
      Accepts (sendMessage { payload with actorId := a, conversationId := c, systemCall := false })
        s' none := by
    intro payload s' hconv hmembers hblocks
    have haccepts := accepts_sendMessage (s := s')
      { payload with actorId := a, conversationId := c, systemCall := false }
    cases ho : s'.acceptSend
        { payload with actorId := a, conversationId := c, systemCall := false } with
    | none =>
      rw [ho] at haccepts
      exact haccepts
    | some o =>
      exfalso
      unfold Db.acceptSend at ho
      obtain ⟨_, _, ho⟩ := Option.bind_eq_some_iff.mp ho
      obtain ⟨type, _, ho⟩ := Option.bind_eq_some_iff.mp ho
      split at ho
      · cases ho
      · obtain ⟨cv, hcv, ho⟩ := Option.bind_eq_some_iff.mp ho
        obtain ⟨_, hopen, _⟩ := Option.bind_eq_some_iff.mp ho
        have hopen : (s'.delivery cv a).forbidden = false := by simpa using hopen
        rw [hforbidden s' hconv hmembers hblocks cv (membership_of_toOption hcv)] at hopen
        cases hopen
  cases r with
  | send payload =>
    exact iff_of_true (undisturbed_of_accepts rfl (hsend payload s rfl rfl rfl)) rfl
  | forward source m =>
    refine iff_of_true (undisturbed_of_accepts rfl ?_) rfl
    have haccepts := accepts_forwardMessage (s := s) a source c m
    cases ho : s.acceptForward a source c m with
    | none =>
      rw [ho] at haccepts
      exact haccepts
    | some o =>
      exfalso
      unfold Db.acceptForward at ho
      obtain ⟨_, _, ho⟩ := Option.bind_eq_some_iff.mp ho
      obtain ⟨cv, hcv, ho⟩ := Option.bind_eq_some_iff.mp ho
      obtain ⟨_, _, ho⟩ := Option.bind_eq_some_iff.mp ho
      obtain ⟨_, _, ho⟩ := Option.bind_eq_some_iff.mp ho
      obtain ⟨_, hopen, _⟩ := Option.bind_eq_some_iff.mp ho
      have hopen : (s.delivery cv a).forbidden = false := by simpa using hopen
      rw [hforbidden s rfl rfl rfl cv (membership_of_toOption hcv)] at hopen
      cases hopen
  | dispatch row => exact iff_of_true (undisturbed_dispatch hsend row) rfl
  | edit m body =>
    have haccepts := accepts_editMessage (s := s) c m a body
    simp only [Request.changes]
    cases hchange : s.acceptEdit c m a body with
    | none =>
      rw [hchange] at haccepts
      exact iff_of_true (undisturbed_of_accepts rfl haccepts) rfl
    | some change =>
      rw [hchange] at haccepts
      obtain ⟨hcv, x, _, _, _, _, _, _, hwrite⟩ := acceptEdit_eq_some hchange
      refine iff_of_false (disturbed_of_change h hpriv rfl haccepts hcv ?_) (by simp)
      exact ⟨_, by rw [hwrite]; exact run_perform exec _ s⟩
  | react m emoji =>
    have haccepts := accepts_reactMessage (s := s) c m a emoji
    simp only [Request.changes]
    cases hchange : s.acceptReact c m a emoji with
    | none =>
      rw [hchange] at haccepts
      exact iff_of_true (undisturbed_of_accepts rfl haccepts) rfl
    | some change =>
      rw [hchange] at haccepts
      obtain ⟨hcv, _, _, _, _, hwrite⟩ := acceptReact_eq_some hchange
      refine iff_of_false (disturbed_of_change h hpriv rfl haccepts hcv ?_) (by simp)
      obtain ⟨reactions, nextId, hrun⟩ := run_toggleReaction (s := s) change.message.id a emoji
      exact ⟨_, by rw [hwrite]; exact hrun⟩
  | pin m pinned =>
    have haccepts := accepts_pinMessage (s := s) c m a pinned
    simp only [Request.changes]
    cases hchange : s.acceptPin c m a pinned with
    | none =>
      rw [hchange] at haccepts
      exact iff_of_true (undisturbed_of_accepts rfl haccepts) rfl
    | some change =>
      rw [hchange] at haccepts
      obtain ⟨hcv, x, _, _, _, _, _, hwrite⟩ := acceptPin_eq_some hchange
      refine iff_of_false (disturbed_of_change h hpriv rfl haccepts hcv ?_) (by simp)
      rcases hwrite with hwrite | ⟨_, hwrite⟩
      · exact ⟨_, by rw [hwrite]; exact run_perform exec _ s⟩
      · exact ⟨s, by rw [hwrite]; rfl⟩

/-- The private chat of A and B, where A has written to B and B has then blocked A. -/
def blockedChat : Db := (Db.empty 0 0).serve
  [.createPrivate userA userB, .sendMessage (textMessage userA 0 ['h', 'i']), .blockUser userB userA]

theorem blockedChat_private : blockedChat.Private 0 userA userB := by
  unfold Db.Private
  decide

theorem undisturbed_iff_blockedChat :
    Undisturbed blockedChat userA userB 0 (.send (textMessage userA 0 ['x'])) ↔
      (Request.send (textMessage userA 0 ['x'])).changes blockedChat userA 0 = false :=
  undisturbed_iff ((reachable_empty 0 0).serve _) blockedChat_private (by decide) _

/-- A, blocked by B, edits the earlier message, and the edit goes to B. -/
theorem undisturbed_fails :
    ¬ ∀ (s : Db) (a b : UserId) (c : ConversationId) (r : Request), Reachable s →
      s.Private c a b → s.hasBlock b a = true → Undisturbed s a b c r := by
  intro h
  obtain ⟨hreach, _⟩ := h blockedChat userA userB 0 (.edit 3 ['x'])
    ((reachable_empty 0 0).serve _) blockedChat_private (by decide)
  have hsome : ((run exec ((Request.edit 3 ['x']).program userA 0) blockedChat).1.map
      fun r => r.map SendMessageResult.recipientIds) = .ok (some [userA, userB]) := by decide
  cases hr : (run exec ((Request.edit 3 ['x']).program userA 0) blockedChat).1 with
  | error e =>
    rw [hr] at hsome
    cases hsome
  | ok result =>
    rw [hr] at hsome
    cases result with
    | none => cases hsome
    | some result =>
      have hids : result.recipientIds = [userA, userB] :=
        Option.some.inj (Except.ok.inj hsome)
      refine hreach result hr ?_
      rw [hids]
      decide

end Relay.Chat
