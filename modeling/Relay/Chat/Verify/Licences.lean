import Relay.Chat.Verify.Rejections

/-!
# What a request may write

A request writes in the name of one user, its actor. `Licensed s u` are the calls a request of `u`
may make that was checked in `s`: it stores messages, reactions, hides, blocks and audit events of
`u` only, changes messages and rows of conversations `u` is active in, and changes the rows of
others only where `u` manages the group. Every request with an actor keeps to its licence
(`Op.acts`): its checks come before its first write, and what it writes is what they have loaded.
-/

namespace Relay.Chat

open Relay.Lib Relay.Lib.Rows Prog

variable {α β : Type} {s : Db}

/-! ## Licences -/

/-- The user is an active owner or administrator of the group. -/
def Db.Manages (db : Db) (c : ConversationId) (u : UserId) : Prop :=
  db.IsGroup c ∧ ∃ m ∈ db.seats c, m.userId = u ∧ isGroupAdmin m.role = true

/-- The user has created the group. -/
def Db.Founded (db : Db) (c : ConversationId) (u : UserId) : Prop :=
  ∃ row ∈ db.conversations, row.id = c ∧ row.type = .group ∧ row.createdBy = u

/-- The user may end memberships of others in the group. -/
def Db.Unseats (db : Db) (c : ConversationId) (u : UserId) : Prop := db.Manages c u ∨ db.Founded c u

/-- A new version of a stored conversation. -/
def Db.Retouches (db : Db) (u : UserId) (row : Conversation) : Prop :=
  ∃ old, db.findConversation row.id = some old ∧
    ((∃ at', row = { old with lastMessageAt := at' }) ∨
      ((old.type = .group → db.Manages row.id u) ∧
        ∃ n, row = { old with disappearingDurationSeconds := n }) ∨
      (db.Manages row.id u ∧ ∃ name, row = { old with name := name }))

/-- A new version of a stored member row. The row of another user keeps the marks of that user. -/
def Db.Reseats (db : Db) (u : UserId) (m : ConversationMember) : Prop :=
  ∃ old ∈ db.members, old.origin = m.origin ∧ db.Sits old.conversationId u ∧
    (old.userId = u ∧ old.leftAt = none ∧ m.role = old.role ∨
      old.userId ≠ u ∧ db.Unseats old.conversationId u ∧
        m = { old with role := m.role, leftAt := m.leftAt })

/-- A message in a conversation the user is active in. -/
def Db.Reads (db : Db) (u : UserId) (x : Message) : Prop :=
  x ∈ db.messages ∧ db.Sits x.conversationId u

/-- A new version of a stored message: another one by its sender, or the message pinned or not. -/
def Rewrites (u : UserId) (x m : Message) : Prop :=
  m.origin = x.origin ∧ m.createdAt = x.createdAt ∧
    (x.senderId = u ∨ ∃ at' by', m = { x with pinnedAt := at', pinnedByUserId := by' })

/-- What a request of `u` may write. -/
def Licensed (db : Db) (u : UserId) : Call → Prop
  | .createPrivateTx a _ _ | .createGroupTx a _ _ | .insertBlock a _ | .deleteBlock a _
  | .insertAudit a _ _ _ _ => a = u
  | .saveConversation cv => db.Sits cv.id u ∧ db.Retouches u cv.toConversation
  | .softDeleteConversation c => db.Sits c u ∧ db.Founded c u
  | .saveMember m => db.Reseats u m
  | .saveMembers ms => ∀ m ∈ ms, db.Reseats u m
  | .insertMember c _ role => db.Sits c u ∧ db.Manages c u ∧ role = .member
  | .insertMessage d => db.Sits d.conversationId u ∧ d.senderId = u
  | .saveMessage m => ∃ x, db.Reads u x ∧ Rewrites u x m
  | .insertHide m v => v = u ∧ ∃ x, db.Reads u x ∧ x.id = m
  | .insertReaction m v _ => v = u ∧ ∃ x, db.Reads u x ∧ x.id = m
  | .removeReaction r =>
    r ∈ db.messageReactions ∧ r.userId = u.canon ∧ ∃ x, db.Reads u x ∧ x.id = r.messageId
  | .insertScheduled d => db.Sits d.conversationId u ∧ d.senderId = u
  | .saveScheduled row => ∃ old ∈ db.scheduledMessages, old.senderId = u.canon ∧
      db.Sits old.conversationId u ∧ row.id = old.id ∧ row.conversationId = old.conversationId ∧
      row.senderId = old.senderId
  | .claimScheduled _ => False
  | _ => True

theorem ReadCall.licensed {c : Call} (h : ReadCall c) (s : Db) (u : UserId) : Licensed s u c := by
  cases c <;> first | exact trivial | exact h.elim

/-! ## Programs that keep to the licence -/

/-- Run alone in `s`, the program makes calls only that a request of `u` checked in `s` may make. -/
abbrev Acts (u : UserId) (p : M α) (s : Db) : Prop := Calls exec (fun _ c => Licensed s u c) p s

section Acts

variable {u : UserId}

/-- What is written after the checks does not depend on what is read then. -/
theorem calls_of_uses {p : M α} (h : Uses (Licensed s u) p) (t : Db) :
    Calls exec (fun _ c => Licensed s u c) p t := ((calls_true p t).and_sat h).mono fun _ _ hc => hc.2

theorem acts_of_uses {p : M α} (h : Uses (Licensed s u) p) : Acts u p s := calls_of_uses h s

theorem acts_rejectIf {P : Prop} [Decidable P] {e : RpcError} {f : Unit → M β}
    (h : ¬ P → Acts u (f ()) s) : Acts u (rejectIf P e >>= f) s := by
  unfold rejectIf
  split
  · trivial
  · next hP => exact h hP

theorem acts_require {a : Option α} {e : RpcError} {f : α → M β}
    (h : ∀ x, a = some x → Acts u (f x) s) : Acts u (require a e >>= f) s := by
  cases a with
  | none => trivial
  | some x => exact h x rfl

/-- A call that leaves the database as it is. -/
theorem acts_read {c : Call} {a : c.Answer} {f : c.Answer → M β} (hlicensed : Licensed s u c)
    (hc : exec c s = (.ok a, s)) (h : Acts u (f a) s) : Acts u (perform c >>= f) s := by
  refine calls_bind (calls_perform hlicensed) fun b t hb => ?_
  rw [run_perform, hc] at hb
  cases hb
  exact h

/-- A part that only reads. -/
theorem acts_reading {p : M α} {f : α → M β} (hp : Uses (Licensed s u) p) (hs : (run exec p s).2 = s)
    (h : ∀ a, (run exec p s).1 = .ok a → Acts u (f a) s) : Acts u (p >>= f) s := by
  refine calls_bind (acts_of_uses hp) fun a t hrun => ?_
  obtain rfl : t = s := by rw [← hs, hrun]
  exact h a (by rw [hrun])

theorem acts_requireMembership {c : ConversationId} {f : ConversationWithMembers → M β}
    (h : ∀ cv, s.membership c u = .ok cv → Acts u (f cv) s) :
    Acts u (requireMembership c u >>= f) s := by
  refine acts_reading (uses_requireMembership (fun _ h => h.licensed s u) c u)
    (by rw [run_requireMembership]) fun cv hcv => h cv ?_
  rwa [run_requireMembership] at hcv

theorem acts_findMessage {m : MessageId} {c : ConversationId} {e : RpcError} {f : Message → M β}
    (h : ∀ x ∈ s.messages, x.conversationId = c → Acts u (f x) s) :
    Acts u (perform (.findMessage m c) >>= fun found => require found e >>= f) s := by
  refine acts_read trivial rfl <| acts_require fun x hx => ?_
  have hp := List.find?_some hx
  simp only [decide_eq_true_eq] at hp
  exact h x (List.mem_of_find?_eq_some hx) hp.2

theorem acts_assertGroupAdmin {c : ConversationId} {cv : ConversationWithMembers}
    (hcv : s.membership c u = .ok cv) {f : Unit → M β} (h : s.Manages c u → Acts u (f ()) s) :
    Acts u (assertGroupAdmin cv u >>= f) s := by
  unfold assertGroupAdmin
  rw [Prog.bind_assoc']
  refine acts_rejectIf fun htype => acts_rejectIf fun hadmin => h ?_
  obtain ⟨hrow, hmembers, _⟩ := Db.membership_eq_ok hcv
  obtain ⟨hstored, hid, _⟩ := Db.findConversation_eq_some hrow
  obtain ⟨m, hm, hrole⟩ := Option.any_eq_true _ _ |>.mp (Bool.eq_true_of_not_eq_false hadmin)
  have hp := List.find?_some hm
  simp only [decide_eq_true_eq] at hp
  have hmem := List.mem_of_find?_eq_some hm
  rw [hmembers] at hmem
  exact ⟨⟨_, hstored, hid, not_not.mp htype⟩, m, hmem, hp, hrole⟩

end Acts

/-! ## Sending and changing messages -/

section Operations

variable (u : UserId) (s)

theorem uses_touch {c : ConversationId} {cv : ConversationWithMembers} (hcv : s.membership c u = .ok cv)
    (saved : Message) : Uses (Licensed s u) (touchConversation cv saved) := by
  obtain rfl := Db.membership_id hcv
  obtain ⟨hrow, -, -⟩ := Db.membership_eq_ok hcv
  exact uses_perform ⟨Db.Sits.of_membership hcv, _, hrow, .inl ⟨_, rfl⟩⟩

theorem acts_insert {c : ConversationId} {cv : ConversationWithMembers} (hcv : s.membership c u = .ok cv)
    {d : MessageDraft} (hd : d.conversationId = cv.id) (hsender : d.senderId = u) {f : Message → M β}
    (hf : ∀ x, Uses (Licensed s u) (f x)) :
    Acts u (perform (.insertMessage d) >>= fun saved => touchConversation cv saved >>= fun _ => f saved) s := by
  refine acts_of_uses (uses_bind (uses_perform ⟨?_, hsender⟩) fun saved =>
    uses_bind (uses_touch s u hcv saved) fun _ => hf saved)
  rw [hd, Db.membership_id hcv]
  exact Db.Sits.of_membership hcv

theorem acts_sendMessage (payload : SendMessage) : Acts payload.actorId (sendMessage payload) s := by
  refine acts_rejectIf fun _ => acts_require fun type _ => ?_
  split
  · refine acts_rejectIf fun _ => acts_rejectIf fun _ => acts_requireMembership fun cv hcv => ?_
    exact acts_insert s _ hcv rfl rfl fun _ => trivial
  · refine acts_requireMembership fun cv hcv => ?_
    refine acts_reading (uses_resolvePrivateDelivery (fun _ h => h.licensed s _) cv _)
      (by rw [run_resolvePrivateDelivery]) fun delivery _ => acts_rejectIf fun _ => ?_
    refine acts_reading (uses_replyTarget (fun _ _ => trivial) cv _) (by rw [run_replyTarget]) fun target _ => ?_
    refine acts_read trivial rfl <| acts_insert s _ hcv rfl rfl fun saved => ?_
    exact uses_bind (uses_bind (uses_perform rfl) fun _ => trivial) fun _ => trivial

theorem acts_forwardMessage (source target : ConversationId) (m : MessageId) :
    Acts u (forwardMessage u source target m) s := by
  refine acts_requireMembership fun src _ => acts_requireMembership fun cv hcv =>
    acts_findMessage fun x _ _ => acts_rejectIf fun _ => ?_
  refine acts_reading (uses_resolvePrivateDelivery (fun _ h => h.licensed s _) cv _)
    (by rw [run_resolvePrivateDelivery]) fun delivery _ => acts_rejectIf fun _ => ?_
  exact acts_read trivial rfl <| acts_insert s _ hcv rfl rfl fun _ => trivial

/-- A stored message of a conversation the user has loaded. -/
theorem Db.Reads.of_membership {c : ConversationId} {cv : ConversationWithMembers}
    (hcv : s.membership c u = .ok cv) {x : Message} (hx : x ∈ s.messages) (hconv : x.conversationId = cv.id) :
    s.Reads u x := by
  refine ⟨hx, ?_⟩
  rw [hconv, Db.membership_id hcv]
  exact .of_membership hcv

theorem uses_view (m : Message) (cv : ConversationWithMembers) {f : MessageView → M β}
    (hf : ∀ view, Uses (Licensed s u) (f view)) : Uses (Licensed s u) (viewOne m cv u >>= f) :=
  uses_bind (uses_viewOne (fun _ h => h.licensed s u) m cv u) hf

/-- The answer to a change of a message. -/
theorem calls_changed (m : Message) (cv : ConversationWithMembers) (t : Db) :
    Calls exec (fun _ c => Licensed s u c)
      (viewOne m cv u >>= fun view => (return ⟨view, recipientIds cv⟩ : M SendMessageResult)) t := by
  refine calls_of_uses ?_ t
  exact uses_view s u m cv fun _ => trivial

theorem acts_editMessage (c : ConversationId) (m : MessageId) (body : Text) :
    Acts u (editMessage c m u body) s := by
  refine acts_requireMembership fun cv hcv => acts_findMessage fun x hx hconv => acts_rejectIf fun hsender =>
    acts_rejectIf fun _ => acts_read trivial rfl <| acts_rejectIf fun _ => acts_rejectIf fun _ =>
      acts_read trivial rfl <| acts_of_uses <| uses_bind (uses_perform ?_) fun _ => uses_view s u _ _ fun _ => trivial
  exact ⟨x, .of_membership s u hcv hx hconv, rfl, rfl, .inl (not_not.mp hsender)⟩

theorem acts_reactMessage (c : ConversationId) (m : MessageId) (emoji : Text) :
    Acts u (reactMessage c m u emoji) s := by
  refine acts_requireMembership fun cv hcv => acts_rejectIf fun _ => acts_findMessage fun x hx hconv =>
    acts_rejectIf fun _ => ?_
  have hreads := Db.Reads.of_membership s u hcv hx hconv
  refine calls_bind ?_ fun _ t _ => calls_changed s u x cv t
  unfold toggleReaction
  refine acts_read trivial rfl ?_
  cases hfind : s.messageReactions.find? fun r =>
      r.messageId = x.id ∧ r.userId = u.canon ∧ r.emoji = emoji with
  | none => exact acts_of_uses (uses_perform ⟨rfl, x, hreads, rfl⟩)
  | some r =>
    have hp := List.find?_some hfind
    simp only [decide_eq_true_eq] at hp
    exact acts_of_uses (uses_perform ⟨List.mem_of_find?_eq_some hfind, hp.2.1, x, hreads, hp.1.symm⟩)

theorem acts_pinMessage (c : ConversationId) (m : MessageId) (pinned : Bool) :
    Acts u (pinMessage c m u pinned) s := by
  refine acts_requireMembership fun cv hcv => acts_findMessage fun x hx hconv => acts_rejectIf fun _ =>
    acts_rejectIf fun _ => ?_
  have hreads := Db.Reads.of_membership s u hcv hx hconv
  refine calls_bind ?_ fun y t _ => calls_changed s u y cv t
  unfold setPinned
  split
  · split
    · refine acts_read trivial rfl <| acts_rejectIf fun _ => acts_read trivial rfl <| acts_of_uses ?_
      exact uses_bind (uses_perform ⟨x, hreads, rfl, rfl, .inr ⟨_, _, rfl⟩⟩) fun _ => trivial
    · trivial
  · split
    · exact acts_of_uses (uses_bind (uses_perform ⟨x, hreads, rfl, rfl, .inr ⟨_, _, rfl⟩⟩) fun _ => trivial)
    · trivial

theorem acts_deleteMessage (c : ConversationId) (m : MessageId) (forEveryone : Bool) :
    Acts u (deleteMessage c m u forEveryone) s := by
  refine acts_requireMembership fun cv hcv => acts_findMessage fun x hx hconv => ?_
  have hreads := Db.Reads.of_membership s u hcv hx hconv
  cases forEveryone with
  | true =>
    refine acts_rejectIf fun hsender => ?_
    split
    · exact acts_of_uses (uses_view s u x cv fun _ => trivial)
    · refine acts_read trivial rfl <| acts_rejectIf fun _ => acts_read trivial rfl <| acts_of_uses ?_
      exact uses_bind (uses_perform ⟨x, hreads, rfl, rfl, .inl (not_not.mp hsender)⟩) fun _ =>
        uses_view s u _ cv fun _ => trivial
  | false =>
    refine acts_of_uses (uses_bind (uses_bind (uses_perform trivial) fun hide => ?_) fun _ =>
      uses_view s u x cv fun _ => trivial)
    exact uses_ite (fun _ => uses_perform ⟨rfl, x, hreads, rfl⟩) fun _ => trivial

/-! ## Scheduled messages -/

theorem acts_scheduleMessage (payload : ScheduleMessage) :
    Acts payload.actorId (scheduleMessage payload) s := by
  refine acts_rejectIf fun _ => acts_require fun type _ => acts_rejectIf fun _ => acts_require fun due _ =>
    acts_read trivial rfl <| acts_rejectIf fun _ => acts_rejectIf fun _ => acts_requireMembership fun cv hcv => ?_
  refine acts_reading (uses_resolvePrivateDelivery (fun _ h => h.licensed s _) cv _)
    (by rw [run_resolvePrivateDelivery]) fun delivery _ => acts_rejectIf fun _ => ?_
  refine acts_read trivial rfl <| acts_rejectIf fun _ => acts_of_uses ?_
  refine uses_bind (uses_checkScheduledReply (fun _ _ => trivial) cv _) fun _ =>
    uses_bind (uses_perform ⟨?_, rfl⟩) fun saved => ?_
  · rw [Db.membership_id hcv]
    exact .of_membership hcv
  · exact uses_bind (uses_bind (uses_perform rfl) fun _ => trivial) fun _ => trivial

theorem acts_cancelScheduledMessage (c : ConversationId) (id : Nat) :
    Acts u (cancelScheduledMessage c id u) s := by
  refine acts_requireMembership fun cv hcv => acts_read trivial rfl <| acts_require fun row hrow =>
    acts_rejectIf fun _ => acts_read trivial rfl <| acts_of_uses ?_
  have hp := List.find?_some hrow
  simp only [decide_eq_true_eq] at hp
  refine uses_bind (uses_perform ⟨row, List.mem_of_find?_eq_some hrow, hp.2.2, ?_, rfl, rfl, rfl⟩)
    fun _ => trivial
  rw [hp.2.1]
  exact .of_membership hcv

/-! ## Conversations and memberships -/

theorem acts_createPrivate (v : UserId) : Acts u (createPrivate u v) s := by
  refine acts_rejectIf fun _ => acts_read trivial rfl ?_
  split
  · exact acts_of_uses (uses_viewConversation (fun _ h => h.licensed s u) _ u)
  · refine acts_of_uses (uses_bind (uses_hasBlock (fun _ h => h.licensed s u) v u) fun _ =>
      uses_bind (uses_rejectIf _ _) fun _ => uses_bind (uses_perform rfl) fun saved => ?_)
    exact uses_bind (uses_blockFlagsForConversation (fun _ h => h.licensed s u) saved u) fun _ => trivial

theorem acts_createGroup (name : Text) (ids : List UserId) : Acts u (createGroup u name ids) s :=
  acts_rejectIf fun _ => acts_rejectIf fun _ => acts_rejectIf fun _ =>
    acts_of_uses (uses_bind (uses_perform rfl) fun _ => trivial)

theorem uses_viewAgain (c : ConversationId) : Uses (Licensed s u) (getConversation c u) :=
  uses_getConversation (fun _ h => h.licensed s u) c u

/-- A row of the loaded conversation. -/
theorem mem_loaded {c : ConversationId} {cv : ConversationWithMembers} (hcv : s.membership c u = .ok cv)
    {m : ConversationMember} (hm : m ∈ cv.members) :
    m ∈ s.members ∧ m.conversationId = c ∧ m.leftAt = none ∧ s.Sits m.conversationId u := by
  rw [(Db.membership_eq_ok hcv).2.1] at hm
  obtain ⟨hrow, hleft⟩ := mem_activeMembers.mp hm
  obtain ⟨hmem, rfl⟩ := Db.mem_membersOf.mp hrow
  exact ⟨hmem, rfl, hleft, .of_membership hcv⟩

/-- The row of the actor, with other marks. -/
theorem reseats_own {c : ConversationId} {cv : ConversationWithMembers} (hcv : s.membership c u = .ok cv)
    {old m : ConversationMember} (hold : findActive cv.members u = some old) (horigin : old.origin = m.origin)
    (hrole : m.role = old.role) : s.Reseats u m := by
  obtain ⟨hmem, huser, hleft⟩ := findActive_eq_some hold
  obtain ⟨hmem, _, _, hsits⟩ := mem_loaded s u hcv hmem
  exact ⟨old, hmem, horigin, hsits, .inl ⟨huser, hleft, hrole⟩⟩

theorem acts_updateMembership (c : ConversationId) (update : Time → ConversationMember → ConversationMember)
    (horigin : ∀ now m, m.origin = (update now m).origin) (hrole : ∀ now m, (update now m).role = m.role) :
    Acts u (updateMembership c u update) s := by
  refine acts_requireMembership fun cv hcv => acts_require fun old hold => acts_read trivial rfl <|
    acts_of_uses <| uses_bind (uses_perform ?_) fun _ => uses_viewAgain s u c
  exact reseats_own s u hcv hold (horigin _ _) (hrole _ _)

theorem acts_markSeen (c : ConversationId) (m : Option MessageId) : Acts u (markSeen c u m) s := by
  refine acts_requireMembership fun cv hcv => acts_require fun old hold => acts_read trivial rfl <|
    acts_of_uses <| uses_bind ?_ fun _ => uses_bind ?_ fun _ => trivial
  · unfold seenMessage
    split
    · trivial
    · exact uses_bind (uses_perform trivial) fun _ => uses_bind (uses_require _ _) fun _ => trivial
  · have hsave : ∀ t, Uses (Licensed s u) (perform (.saveMember { old with lastReadAt := t })) :=
      fun t => uses_perform (reseats_own s u hcv hold rfl rfl)
    unfold advanceReadAt
    split
    · exact uses_ite (fun _ => uses_bind (hsave _) fun _ => trivial) fun _ => trivial
    · exact uses_bind (hsave _) fun _ => trivial

/-- A version of the loaded conversation. -/
theorem retouches_of {c : ConversationId} {cv : ConversationWithMembers} (hcv : s.membership c u = .ok cv)
    {row : Conversation} (hid : row.id = cv.id)
    (h : (∃ at', row = { cv.toConversation with lastMessageAt := at' }) ∨
      ((cv.type = .group → s.Manages row.id u) ∧
        ∃ n, row = { cv.toConversation with disappearingDurationSeconds := n }) ∨
      (s.Manages row.id u ∧ ∃ name, row = { cv.toConversation with name := name })) :
    s.Sits row.id u ∧ s.Retouches u row := by
  rw [Db.membership_id hcv] at hid
  refine ⟨by rw [hid]; exact .of_membership hcv, cv.toConversation, ?_, h⟩
  rw [hid]
  exact (Db.membership_eq_ok hcv).1

theorem acts_setDisappearingMessages (c : ConversationId) (n : Nat) :
    Acts u (setDisappearingMessages c u n) s := by
  refine acts_requireMembership fun cv hcv => acts_rejectIf fun _ => acts_rejectIf fun hadmin => acts_of_uses ?_
  refine uses_bind (uses_perform (retouches_of s u hcv rfl (.inr (.inl ⟨fun htype => ?_, _, rfl⟩)))) fun _ =>
    uses_bind (uses_bind (uses_perform rfl) fun _ => trivial) fun _ => uses_viewAgain s u c
  have hany := Bool.eq_true_of_not_eq_false fun hany => hadmin ⟨htype, hany⟩
  obtain ⟨m, hm, hrole⟩ := (Option.any_eq_true _ _).mp hany
  obtain ⟨hmem, huser, _⟩ := findActive_eq_some hm
  obtain ⟨hrow, hmembers, _⟩ := Db.membership_eq_ok hcv
  obtain ⟨hstored, hid, _⟩ := Db.findConversation_eq_some hrow
  rw [hmembers] at hmem
  exact ⟨⟨_, hstored, rfl, htype⟩, m, by rwa [hid], huser, hrole⟩

theorem acts_updateGroup (c : ConversationId) (name : Text) : Acts u (updateGroup c u name) s := by
  refine acts_requireMembership fun cv hcv => acts_assertGroupAdmin hcv fun hmanages => acts_rejectIf fun _ =>
    acts_of_uses <| uses_bind (uses_perform ?_) fun _ => uses_viewAgain s u c
  exact retouches_of s u hcv rfl (.inr (.inr ⟨by rwa [Db.membership_id hcv], _, rfl⟩))

/-- The row of somebody else, who joins, leaves or takes another role. -/
theorem reseats_other {c : ConversationId} {cv : ConversationWithMembers} (hcv : s.membership c u = .ok cv)
    (hunseats : s.Unseats c u) {old : ConversationMember} (hold : old ∈ cv.members) (hother : old.userId ≠ u)
    (left : Option Time) (role : ConversationMemberRole) :
    s.Reseats u { old with leftAt := left, role := role } := by
  obtain ⟨hmem, hconv, _, hsits⟩ := mem_loaded s u hcv hold
  exact ⟨old, hmem, rfl, hsits, .inr ⟨hother, by rwa [hconv], rfl⟩⟩

theorem uses_addEach_of {c : ConversationId} {cv : ConversationWithMembers} (hcv : s.membership c u = .ok cv)
    (hmanages : s.Manages c u) {us : List UserId} (hus : u ∉ us) : Uses (Licensed s u) (addEach cv us) := by
  induction us with
  | nil => trivial
  | cons v us ih =>
    obtain ⟨hne, hrest⟩ := not_or.mp (fun h => hus (List.mem_cons.mpr h))
    refine uses_bind ?_ fun _ => ih hrest
    unfold addMember
    split
    · next old hfind =>
      have hp := List.find?_some hfind
      simp only [decide_eq_true_eq] at hp
      refine uses_ite (fun _ => trivial) fun _ => uses_perform ?_
      exact reseats_other s u hcv (.inl hmanages) (List.mem_of_find?_eq_some hfind)
        (fun h => hne (h.symm.trans hp)) _ _
    · refine uses_perform ⟨?_, ?_, rfl⟩
      · rw [Db.membership_id hcv]
        exact .of_membership hcv
      · rwa [Db.membership_id hcv]

theorem acts_addMembers (c : ConversationId) (ids : List UserId) : Acts u (addMembers c u ids) s := by
  refine acts_requireMembership fun cv hcv => acts_assertGroupAdmin hcv fun hmanages => acts_rejectIf fun _ =>
    acts_rejectIf fun _ => acts_of_uses <| uses_bind ?_ fun _ => uses_viewAgain s u c
  refine uses_addEach_of s u hcv hmanages fun hmem => ?_
  have hne := (List.mem_filter.mp (List.mem_eraseDups.mp hmem)).2
  simp at hne

theorem acts_removeMember (c : ConversationId) (v : UserId) : Acts u (removeMember c u v) s := by
  refine acts_requireMembership fun cv hcv => acts_assertGroupAdmin hcv fun hmanages => acts_rejectIf fun hne =>
    acts_require fun old hold => acts_rejectIf fun _ => acts_read trivial rfl <| acts_of_uses <|
      uses_bind (uses_perform ?_) fun _ => uses_viewAgain s u c
  obtain ⟨hmem, huser, _⟩ := findActive_eq_some hold
  exact reseats_other s u hcv (.inl hmanages) hmem (huser ▸ hne) _ _

/-- The actor, found among the active members with this role, manages the group. -/
theorem manages_of_role {c : ConversationId} {cv : ConversationWithMembers} (hcv : s.membership c u = .ok cv)
    (htype : cv.type = .group) {m : ConversationMember} (hm : findActive cv.members u = some m)
    (hrole : m.role = .owner) : s.Manages c u := by
  obtain ⟨hmem, huser, _⟩ := findActive_eq_some hm
  obtain ⟨hrow, hmembers, _⟩ := Db.membership_eq_ok hcv
  obtain ⟨hstored, hid, _⟩ := Db.findConversation_eq_some hrow
  rw [hmembers] at hmem
  exact ⟨⟨_, hstored, hid, htype⟩, m, hmem, huser, by rw [hrole]; rfl⟩

theorem acts_setMemberRole (c : ConversationId) (v : UserId) (role : Option ConversationMemberRole) :
    Acts u (setMemberRole c u v role) s := by
  refine acts_requireMembership fun cv hcv => acts_rejectIf fun htype => acts_rejectIf fun howner =>
    acts_require fun role _ => acts_require fun old hold => acts_rejectIf fun _ => acts_rejectIf fun hne =>
      acts_of_uses <| uses_bind (uses_perform ?_) fun _ => uses_viewAgain s u c
  obtain ⟨m, hm, hrole⟩ := (Option.any_eq_true _ _).mp (Bool.eq_true_of_not_eq_false howner)
  have hmanages := manages_of_role s u hcv (not_not.mp htype) hm (of_decide_eq_true hrole)
  obtain ⟨hmem, _, hleft⟩ := findActive_eq_some hold
  exact reseats_other s u hcv (.inl hmanages) hmem hne _ _

theorem acts_leave (c : ConversationId) : Acts u (leave c u) s := by
  refine acts_requireMembership fun cv hcv => acts_rejectIf fun htype => acts_require fun own hown =>
    acts_of_uses <| uses_bind ?_ fun _ => uses_bind (uses_perform trivial) fun _ =>
      uses_bind (uses_perform (reseats_own s u hcv hown rfl rfl)) fun _ => trivial
  refine uses_ite (fun hrole => ?_) fun _ => trivial
  split
  · trivial
  · next next hnext =>
    obtain ⟨hmem, hleft, hne⟩ := nextOwner_mem hnext
    have hmanages := manages_of_role s u hcv (eq_group_of_ne_priv htype) hown hrole
    exact uses_perform (reseats_other s u hcv (.inl hmanages) hmem hne _ _)

theorem acts_deleteGroup (c : ConversationId) : Acts u (deleteGroup c u) s := by
  refine acts_requireMembership fun cv hcv => acts_rejectIf fun htype => acts_rejectIf fun hcreated =>
    acts_read trivial rfl <| acts_of_uses ?_
  obtain ⟨hrow, _, _⟩ := Db.membership_eq_ok hcv
  obtain ⟨hstored, hid, _⟩ := Db.findConversation_eq_some hrow
  have hfounded : s.Founded c u := ⟨_, hstored, hid, not_not.mp htype, not_not.mp hcreated⟩
  refine uses_bind (uses_perform fun m hm => ?_) fun _ => uses_bind (uses_perform ⟨?_, ?_⟩) fun _ => trivial
  · obtain ⟨old, hold, rfl⟩ := List.mem_map.mp hm
    obtain ⟨hmem, hconv, hleft, hsits⟩ := mem_loaded s u hcv hold
    rw [if_pos hleft]
    by_cases huser : old.userId = u
    · exact ⟨old, hmem, rfl, hsits, .inl ⟨huser, hleft, rfl⟩⟩
    · exact reseats_other s u hcv (.inr hfounded) hold huser _ _
  · rw [Db.membership_id hcv]
    exact .of_membership hcv
  · rwa [Db.membership_id hcv]

theorem acts_blockUser (v : UserId) : Acts u (blockUser u v) s := by
  refine acts_of_uses (uses_bind (uses_rejectIf _ _) fun _ => uses_bind (uses_perform trivial) fun existing => ?_)
  cases existing with
  | some block => trivial
  | none => exact uses_bind (uses_perform rfl) fun _ => trivial

end Operations

/-! ## Every request -/

/-- A request keeps to the licence of its actor. -/
theorem Op.acts (op : Op) {u : UserId} (hu : op.actor = some u) (s : Db) : Acts u op.program s := by
  have hread : ∀ c, ReadCall c → Licensed s u c := fun _ h => h.licensed s u
  have map {α : Type} {v : UserId} {p : M α} (f : α → Response) (hv : some v = some u) (h : Acts v p s) :
      Acts u (f <$> p) s := by
    obtain rfl := Option.some.inj hv
    exact calls_bind h fun _ _ _ => trivial
  have uses {α : Type} {p : M α} (f : α → Response) (h : Uses (Licensed s u) p) : Acts u (f <$> p) s :=
    map f rfl (acts_of_uses h)
  cases op with
  | createPrivate a b => exact map _ hu (acts_createPrivate s a b)
  | createGroup a name ids => exact map _ hu (acts_createGroup s a name ids)
  | listConversations a page => exact uses _ (uses_listConversations hread a page)
  | getConversation c a => exact uses _ (uses_getConversation hread c a)
  | listMessages c a page => exact uses _ (uses_listMessages hread c a page)
  | searchMessages c a query page => exact uses _ (uses_searchMessages hread c a query page)
  | searchGlobal a query page => exact uses _ (uses_searchGlobal hread a query page)
  | listMedia c a kind page => exact uses _ (uses_listMedia hread c a kind page)
  | getMessage c m a => exact uses _ (uses_getMessage hread (fun _ _ => trivial) c m a)
  | listPinnedMessages c a => exact uses _ (uses_listPinnedMessages hread c a)
  | sendMessage payload => exact map _ hu (acts_sendMessage s payload)
  | forwardMessage a source target m => exact map _ hu (acts_forwardMessage s a source target m)
  | editMessage c m a body => exact map _ hu (acts_editMessage s a c m body)
  | reactMessage c m a emoji => exact map _ hu (acts_reactMessage s a c m emoji)
  | pinMessage c m a pinned => exact map _ hu (acts_pinMessage s a c m pinned)
  | deleteMessage c m a forEveryone => exact map _ hu (acts_deleteMessage s a c m forEveryone)
  | expireDueMessages => cases hu
  | scheduleMessage payload => exact map _ hu (acts_scheduleMessage s payload)
  | listScheduledMessages c a => exact uses _ (uses_listScheduledMessages hread c a)
  | cancelScheduledMessage c id a => exact map _ hu (acts_cancelScheduledMessage s a c id)
  | dispatchDueScheduled => cases hu
  | pinConversation c a pinned =>
    exact map _ hu (acts_updateMembership s a c _ (fun _ _ => rfl) fun _ _ => rfl)
  | muteConversation c a muted =>
    exact map _ hu (acts_updateMembership s a c _ (fun _ _ => rfl) fun _ _ => rfl)
  | markSeen c a m => exact map _ hu (acts_markSeen s a c m)
  | setDisappearingMessages c a n => exact map _ hu (acts_setDisappearingMessages s a c n)
  | addMembers c a ids => exact map _ hu (acts_addMembers s a c ids)
  | removeMember c a v => exact map _ hu (acts_removeMember s a c v)
  | setMemberRole c a v role => exact map _ hu (acts_setMemberRole s a c v role)
  | leave c a => exact map _ hu (acts_leave s a c)
  | updateGroup c a name => exact map _ hu (acts_updateGroup s a c name)
  | deleteGroup c a => exact map _ hu (acts_deleteGroup s a c)
  | blockUser a v => exact map _ hu (acts_blockUser s a v)
  | unblockUser a v => exact uses _ (uses_bind (uses_perform (Option.some.inj hu)) fun _ => trivial)
  | listBlocks a => exact uses _ (uses_bind (uses_perform trivial) fun _ => trivial)
  | prepareVoiceCall c a => exact uses _ (uses_prepareVoiceCall hread c a)
  | getAnalytics => cases hu
  | listAuditEvents page => cases hu
  | logAudit a action type id info =>
    exact uses _ (uses_bind (uses_perform (Option.some.inj hu)) fun _ => trivial)
  | getWorkspaceSettings => cases hu
  | updateWorkspaceSettings a n t p l =>
    refine uses _ (uses_bind (uses_perform trivial) fun _ => uses_bind (uses_perform trivial) fun _ => ?_)
    exact uses_bind (uses_bind (uses_perform (Option.some.inj hu)) fun _ => trivial) fun _ => trivial

end Relay.Chat
