import Relay.Chat.Verify.Viewers
import Relay.Gateway.Verify.LastSeen

/-!
# What the members are told and what they would ask for

A message or a conversation that changes is sent to every connected member in the view of the user who
changed it; after a member has left, in the view of the first one who remains. `agree_iff` says which
requests tell every member what the chat service would answer them.
-/

namespace Relay.Gateway.ChatController

open Relay.Lib Relay.Chat

variable {s : State} {db : Db} {v : ConversationId} {a u : UserId} {view shown : ConversationView}

/-! ## What a payload says -/

/-- A conversation without the presence of its members. -/
def withoutPresence (c : ConversationView) : ConversationView :=
  { c with
    members := c.members.map fun member => { member with status := .offline, lastSeenAt := none } }

theorem withoutPresence_withPresence (c : ConversationView) :
    withoutPresence (s.withPresence c) = withoutPresence c := by
  simp [withoutPresence, State.withPresence]

theorem withoutPresence_stripOne (c : ConversationView) :
    withoutPresence (s.stripOne c) = withoutPresence c := by
  simp only [withoutPresence, State.stripOne, stripLastSeen, List.map_map]
  congr 1
  refine List.map_congr_left fun member _ => ?_
  rw [Function.comp_apply]
  split <;> rfl

/-- The chat service attaches no presence. -/
theorem withoutPresence_toConversationView (cv : ConversationWithMembers) (u : UserId) (n : Nat)
    (lastMessage : Option Message) (flags : BlockFlags) :
    withoutPresence (toConversationView cv u n lastMessage flags) =
      toConversationView cv u n lastMessage flags := by
  simp [withoutPresence, toConversationView]

/-- A message or a conversation that the user is sent is what the chat service answers the user. -/
def Payload.Agrees (db : Db) (u : UserId) : Payload → Prop
  | .chatMessage view =>
    (Prog.run Chat.exec (Chat.getMessage view.conversationId view.id u) db).1 = .ok view
  | .conversationUpdated view =>
    (Prog.run Chat.exec (Chat.getConversation view.id u) db).1.map withoutPresence =
      .ok (withoutPresence view)
  | _ => True

instance (db : Db) (u : UserId) (payload : Payload) : Decidable (payload.Agrees db u) := by
  unfold Payload.Agrees
  cases payload <;> infer_instance

/-- Everybody was sent what the chat service answers them. -/
def Agree (s : State) : Prop :=
  ∀ d ∈ s.sent, d.2.Agrees s.db d.1

instance (s : State) : Decidable (Agree s) := by
  unfold Agree
  infer_instance

/-- What the clients of some users are sent, each of them has to agree with. -/
theorem forall_told_iff {ids : List UserId} (hids : ids ≠ []) (payload : Payload) :
    (∀ d ∈ (s.listeners (roomsOf v ids)).map fun w => (w, payload), d.2.Agrees db d.1) ↔
      ∀ client ∈ s.clients, client.userId ∈ ids → payload.Agrees db client.userId := by
  rw [listeners_users v hids]
  simp only [List.forall_mem_map, List.mem_filter, decide_eq_true_eq]
  constructor
  · intro h client hclient hmem
    exact h client.userId ⟨List.mem_map_of_mem hclient, hmem⟩
  · intro h w hw
    obtain ⟨client, hclient, rfl⟩ := List.mem_map.mp hw.1
    exact h client hclient hw.2

theorem agrees_removedFromGroup (rooms : List Room) (v : ConversationId) (db : Db) :
    ∀ d ∈ (s.listeners rooms).map fun w => (w, Payload.removedFromGroup v), d.2.Agrees db d.1 := by
  intro d hd
  obtain ⟨w, _, rfl⟩ := List.mem_map.mp hd
  trivial

/-! ## Conversations -/

/-- The members in a view are those who have a seat. -/
theorem mem_viewMemberIds (h : db.ShowsConversation v a view) :
    u ∈ viewMemberIds view ↔ db.seat v u ≠ none := by
  obtain ⟨cv, hcv, rfl⟩ := h
  rw [← mem_recipientIds hcv]
  simp [viewMemberIds, toConversationView, recipientIds]

theorem showsConversation_id (h : db.ShowsConversation v a view) : view.id = v := by
  obtain ⟨cv, hcv, rfl⟩ := h
  exact Db.membership_id hcv

theorem showsConversation_actor (h : db.ShowsConversation v a view) : a ∈ viewMemberIds view := by
  rw [mem_viewMemberIds h]
  obtain ⟨cv, hcv, _⟩ := h
  exact (Db.membership_iff hcv).mp hcv

/-- A member who is told what the actor sees. -/
theorem agrees_conversationUpdated_iff (h : db.ShowsConversation v a view)
    (hshown : withoutPresence shown = withoutPresence view) (hu : db.seat v u ≠ none) :
    (Payload.conversationUpdated shown).Agrees db u ↔ SeesConversationAs db v a u := by
  have hid : shown.id = v := by
    have hsame : (withoutPresence shown).id = (withoutPresence view).id := by rw [hshown]
    rw [show shown.id = view.id from hsame]
    exact showsConversation_id h
  have hplain : withoutPresence view = view := by
    obtain ⟨cv, _, rfl⟩ := h
    exact withoutPresence_toConversationView cv a _ _ _
  rw [← getConversation_eq_iff h hu]
  unfold Payload.Agrees
  simp only
  rw [hshown, hplain, hid]
  obtain ⟨cv, hcv, _⟩ := h
  rw [run_getConversation ((Db.membership_iff hcv).mpr hu)]
  simp only [Except.map, withoutPresence_toConversationView]

/-- Every connected member sees the conversation as the actor does. -/
def ConversationSeenAlike (s : State) (v : ConversationId) (a : UserId) : Prop :=
  ∀ client ∈ s.clients, s.db.seat v client.userId ≠ none → SeesConversationAs s.db v a client.userId

theorem agree_toldUpdate_iff (h : s.db.ShowsConversation v a view)
    (hshown : withoutPresence shown = withoutPresence view)
    (hids : viewMemberIds shown = viewMemberIds view) :
    (∀ d ∈ s.toldUpdate shown, d.2.Agrees s.db d.1) ↔ ConversationSeenAlike s v a := by
  have hsome : viewMemberIds view ≠ [] := List.ne_nil_of_mem (showsConversation_actor h)
  unfold State.toldUpdate ConversationSeenAlike
  rw [hids, forall_told_iff hsome]
  refine forall₂_congr fun client _ => ?_
  rw [mem_viewMemberIds h]
  exact forall_congr' fun hseat => agrees_conversationUpdated_iff h hshown hseat

/-- The chat service rejects the request, or leaves a state in which every connected member sees the
conversation as the actor does. -/
def LeavesSeenAlike (s : State) (r : ConversationRequest) (v : ConversationId) (a : UserId) : Prop :=
  match Prog.run Chat.exec r.program s.db with
  | (.error _, _) => True
  | (.ok _, db) => ConversationSeenAlike { s with db := db } v a

/-- A log with one telling of the members, and what tells nobody anything of a conversation. -/
theorem agree_publish_iff {p : M Unit} {r : ConversationRequest}
    {log : State → ConversationView → List (UserId × Payload)} (shown : State → ConversationView → ConversationView)
    (hsends : s.Sends p r log) (hshows : Shows v a r.program)
    (hshown : ∀ t view, withoutPresence (shown t view) = withoutPresence view ∧
      viewMemberIds (shown t view) = viewMemberIds view)
    (hlog : ∀ t view, (∀ d ∈ log t view, d.2.Agrees t.db d.1) ↔
      ∀ d ∈ t.toldUpdate (shown t view), d.2.Agrees t.db d.1) :
    Agree (s.handle p) ↔ LeavesSeenAlike s r v a := by
  unfold Agree LeavesSeenAlike
  rcases hsends with ⟨e, db, hrun, _, hsent⟩ | ⟨view, db, hrun, hdb, hsent⟩
  · rw [hrun, hsent]
    exact iff_of_true (by simp) trivial
  · rw [hrun, hsent, hdb]
    obtain ⟨hplain, hids⟩ := hshown { s with db := db, sent := [] } view
    have hview : db.ShowsConversation v a view := hshows _ _ _ hrun
    exact (hlog { s with db := db, sent := [] } view).trans
      (agree_toldUpdate_iff (s := { s with db := db, sent := [] }) hview hplain hids)

/-- The response adds nothing. -/
theorem agrees_published_iff (t : State) (u : UserId) (c : ConversationView) :
    (∀ d ∈ t.toldUpdate c ++ [(u, Payload.conversation c)], d.2.Agrees t.db d.1) ↔
      ∀ d ∈ t.toldUpdate c, d.2.Agrees t.db d.1 := by
  rw [List.forall_mem_append]
  refine and_iff_left fun d hd => ?_
  rw [List.mem_singleton] at hd
  subst hd
  trivial

theorem shown_plain (t : State) (view : ConversationView) :
    withoutPresence (t.withPresence view) = withoutPresence view ∧
      viewMemberIds (t.withPresence view) = viewMemberIds view :=
  ⟨withoutPresence_withPresence view, viewMemberIds_withPresence view⟩

theorem shown_stripped (t : State) (view : ConversationView) :
    withoutPresence (t.stripOne (t.withPresence view)) = withoutPresence view ∧
      viewMemberIds (t.stripOne (t.withPresence view)) = viewMemberIds view :=
  ⟨(withoutPresence_stripOne _).trans (withoutPresence_withPresence view),
    (viewMemberIds_stripOne _).trans (viewMemberIds_withPresence view)⟩

/-! ## Messages -/

/-- Every connected member sees the message as the actor does. -/
def MessageSeenAlike (s : State) (v : ConversationId) (m : MessageId) (a : UserId) : Prop :=
  ∀ client ∈ s.clients, s.db.seat v client.userId ≠ none → SeesMessageAs s.db m a client.userId

/-- The chat service rejects the change, or leaves a state in which every connected member sees the message
as the actor does. -/
def LeavesMessageSeenAlike (s : State) (r : MessageRequest) (v : ConversationId) (m : MessageId)
    (a : UserId) : Prop :=
  match Prog.run Chat.exec r.program s.db with
  | (.error _, _) => True
  | (.ok _, db) => MessageSeenAlike { s with db := db } v m a

theorem agree_changeMessage_iff {m : MessageId} {r : MessageRequest}
    (hshows : ∀ db result t, Prog.run Chat.exec r.program db = (.ok result, t) → t.ShowsChange v m a result) :
    Agree (s.handle (changeMessage u v r)) ↔ LeavesMessageSeenAlike s r v m a := by
  unfold Agree LeavesMessageSeenAlike
  rcases handle_changeMessage (s := s) u v r with ⟨e, db, hrun, _, hsent⟩ | ⟨result, db, hrun, hdb, hsent⟩
  · rw [hrun, hsent]
    exact iff_of_true (by simp) trivial
  rw [hrun, hsent, hdb]
  obtain ⟨cv, x, hcv, hx, halive, rfl⟩ := hshows _ _ _ hrun
  have hactor : a ∈ recipientIds cv := (mem_recipientIds hcv).mpr ((Db.membership_iff hcv).mp hcv)
  have hfound := List.find?_some hx
  simp only [decide_eq_true_eq] at hfound
  obtain ⟨hid, hconv⟩ := hfound
  have hagrees : ∀ w, db.seat v w ≠ none →
      ((Payload.chatMessage (db.viewOf x cv.members a)).Agrees db w ↔ SeesMessageAs db m a w) := by
    intro w hw
    rw [← getMessage_eq_iff ((Db.membership_iff hcv).mpr hw) hx halive]
    subst hid hconv
    exact Iff.rfl
  rw [List.forall_mem_append, forall_told_iff (List.ne_nil_of_mem hactor)]
  refine (and_iff_left ?_).trans (forall₂_congr fun client _ => ?_)
  · intro d hd
    rw [List.mem_singleton] at hd
    subst hd
    trivial
  · rw [mem_recipientIds hcv]
    exact forall_congr' fun hseat => hagrees client.userId hseat

/-! ## Leaving a group -/

/-- The first of the remaining users is no member any more, or every connected one of them is, and sees the
conversation as the first does. -/
def RemainingSeeAlike (s : State) (v : ConversationId) : List UserId → Prop
  | [] => True
  | first :: rest =>
    match s.db.membership v first with
    | .error _ => True
    | .ok _ => ∀ client ∈ s.clients, client.userId ∈ first :: rest →
        s.db.seat v client.userId ≠ none ∧ SeesConversationAs s.db v first client.userId

/-- Nobody else is answered with a conversation. -/
theorem not_agrees_of_seat (hid : shown.id = v) (hu : db.seat v u = none) :
    ¬ (Payload.conversationUpdated shown).Agrees db u := by
  intro hagrees
  unfold Payload.Agrees at hagrees
  simp only [hid] at hagrees
  cases hcv : db.membership v u with
  | ok cv => exact (Db.membership_iff hcv).mp hcv hu
  | error e =>
    unfold Chat.getConversation at hagrees
    rw [Prog.run_bind_error _ (hcv ▸ run_requireMembership v u)] at hagrees
    cases hagrees

theorem agrees_toldRemaining_iff (ids : List UserId) :
    (∀ d ∈ s.toldRemaining v ids, d.2.Agrees s.db d.1) ↔ RemainingSeeAlike s v ids := by
  cases ids with
  | nil => exact iff_of_true (by simp [State.toldRemaining]) trivial
  | cons first rest =>
    unfold State.toldRemaining RemainingSeeAlike
    cases hcv : s.db.membership v first with
    | error e =>
      have hrun : (Prog.run Chat.exec (Chat.getConversation v first) s.db).1 = .error e := by
        unfold Chat.getConversation
        rw [Prog.run_bind_error _ (hcv ▸ run_requireMembership v first)]
      simp only [hrun, hcv]
      exact iff_of_true (by simp) trivial
    | ok cv =>
      obtain ⟨view, hrun⟩ : ∃ view, Prog.run Chat.exec (Chat.getConversation v first) s.db = (.ok view, s.db) :=
        ⟨_, run_getConversation hcv⟩
      have hview : s.db.ShowsConversation v first view := shows_getConversation v first _ _ _ hrun
      simp only [hrun, hcv]
      rw [forall_told_iff (List.cons_ne_nil first rest)]
      refine forall₂_congr fun client _ => forall_congr' fun _ => ?_
      by_cases hseat : s.db.seat v client.userId = none
      · have hid : (s.withPresence view).id = v := by
          rw [← showsConversation_id hview]
          rfl
        exact iff_of_false (not_agrees_of_seat hid hseat) fun h => h.1 hseat
      · rw [agrees_conversationUpdated_iff hview (withoutPresence_withPresence view) hseat]
        exact ⟨fun h => ⟨hseat, h⟩, And.right⟩

theorem agree_leave_iff (u : UserId) (v : ConversationId) :
    Agree (s.handle (leave u v)) ↔
      match s.previousIds u v, Prog.run Chat.exec (Chat.leave v u) s.db with
      | some ids, (.ok _, db) => RemainingSeeAlike { s with db := db } v (ids.filter (· ≠ u))
      | _, _ => True := by
  unfold Agree
  rcases handle_leave (s := s) u v with ⟨hsent, ⟨hnone, _⟩ | ⟨e, db, he, _⟩⟩ |
    ⟨ids, left, db, hsome, hok, hdb, hsent⟩
  · simp only [hnone, hsent]
    exact iff_of_true (by simp) trivial
  · simp only [he, hsent]
    refine iff_of_true (by simp) ?_
    split
    · next heq => cases heq
    · trivial
  simp only [hsome, hok]
  rw [hsent, hdb, List.forall_mem_append, List.forall_mem_append]
  refine (and_iff_left ?_).trans ((and_iff_right (agrees_removedFromGroup _ v db)).trans
    (agrees_toldRemaining_iff (s := { s with db := db }) _))
  intro d hd
  rw [List.mem_singleton] at hd
  subst hd
  trivial

/-! ## Every request -/

/-- The requests that tell several users of a changed message or conversation. -/
def Request.tellsMembers : Request → Bool
  | .editMessage .. | .reactMessage .. | .pinMessage .. | .addMembers .. | .removeMember .. | .leave ..
  | .setMemberRole .. | .updateGroup .. | .setDisappearing .. => true
  | _ => false

/-- The users who are told see what changed as the user does in whose view they are told: the user who
changed it, or the first who remains. -/
def SeenAlike (s : State) : Request → Prop
  | .editMessage u v m body => LeavesMessageSeenAlike s (.editMessage v m u body) v m u
  | .reactMessage u v m emoji => LeavesMessageSeenAlike s (.reactMessage v m u emoji) v m u
  | .pinMessage u v m pinned => LeavesMessageSeenAlike s (.pinMessage v m u pinned) v m u
  | .addMembers u v ids => LeavesSeenAlike s (.addMembers v u ids) v u
  | .removeMember u v b => LeavesSeenAlike s (.removeMember v u b) v u
  | .setMemberRole u v b role => LeavesSeenAlike s (.setMemberRole v u b role) v u
  | .updateGroup u v name => LeavesSeenAlike s (.updateGroup v u name) v u
  | .setDisappearing u v n => LeavesSeenAlike s (.setDisappearingMessages v u n) v u
  | .leave u v =>
    match s.previousIds u v, Prog.run Chat.exec (Chat.leave v u) s.db with
    | some ids, (.ok _, db) => RemainingSeeAlike { s with db := db } v (ids.filter (· ≠ u))
    | _, _ => True
  | _ => True

/-- A request that tells several users of a changed message or conversation tells each of them what the chat
service would answer them, exactly when they see it as the user does in whose view they are told. -/
theorem agree_iff {r : Request} (h : r.tellsMembers = true) (s : State) :
    Agree (s.handle r.program) ↔ SeenAlike s r := by
  cases r with
  | editMessage u v m body => exact agree_changeMessage_iff fun _ _ _ hrun => editMessage_shows hrun
  | reactMessage u v m emoji => exact agree_changeMessage_iff fun _ _ _ hrun => reactMessage_shows hrun
  | pinMessage u v m pinned => exact agree_changeMessage_iff fun _ _ _ hrun => pinMessage_shows hrun
  | addMembers u v ids =>
    exact agree_publish_iff _ (sends_addMembers u v ids) (shows_addMembers v u ids) shown_plain
      fun t view => agrees_published_iff t u _
  | updateGroup u v name =>
    exact agree_publish_iff _ (sends_updateGroup u v name) (shows_updateGroup v u name) shown_plain
      fun t view => agrees_published_iff t u _
  | setMemberRole u v b role =>
    exact agree_publish_iff _ (sends_setMemberRole u v b role) (shows_setMemberRole v u b role)
      shown_stripped fun t view => agrees_published_iff t u _
  | setDisappearing u v n =>
    exact agree_publish_iff _ (sends_setDisappearing u v n) (shows_setDisappearingMessages v u n)
      shown_stripped fun t view => agrees_published_iff t u _
  | removeMember u v b =>
    refine agree_publish_iff _ (sends_removeMember u v b) (shows_removeMember v u b) shown_plain
      fun t view => ?_
    rw [List.forall_mem_append, List.forall_mem_append]
    refine (and_iff_left ?_).trans (and_iff_left (agrees_removedFromGroup _ v _))
    intro d hd
    rw [List.mem_singleton] at hd
    subst hd
    trivial
  | leave u v => exact agree_leave_iff u v
  | createPrivate | createGroup | listConversations | getPresence | getConversation | muteConversation
  | pinConversation | connect | joinConversation | leaveConversationRoom | heartbeat => cases h

/-- A and B are connected and have a private chat with a message. -/
def chatting : List Event :=
  [.chat (.createPrivate userA userB), .chat (.sendMessage (textMessage userA 0 ['h', 'i'])),
    .request (.connect 0 userA), .request (.connect 1 userB)]

/-- Both see the edited message alike. -/
theorem agree_iff_edit :
    SeenAlike (Runs.final step chatting State.initial) (.editMessage userA 0 3 ['h', 'o']) :=
  (agree_iff (r := .editMessage userA 0 3 ['h', 'o']) rfl _).mp (by decide +kernel)

/-- A reacts to the message, and B is told that B has. -/
theorem agree_fails : ¬ ∀ (s : State) (r : Request), r.tellsMembers = true → Agree (s.handle r.program) := by
  intro h
  have hno : ¬ Agree ((Runs.final step chatting State.initial).handle
      (Request.reactMessage userA 0 3 "👍".toList).program) := by
    decide +kernel
  exact hno (h _ _ rfl)

end Relay.Gateway.ChatController
