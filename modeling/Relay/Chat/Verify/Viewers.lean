import Relay.Chat.Verify.Seats

/-!
# One message and one conversation as two members see them

`getMessage` and `getConversation` build their views for the user who asks. A message differs between two
members in who has reacted and in who has hidden it, a conversation in the row of the member, the unread
messages and the blocks (`getMessage_eq_iff`, `getConversation_eq_iff`).
-/

namespace Relay.Chat

open Relay.Lib Relay.Lib.Rows Prog

variable {s : Db} {c : ConversationId} {a u : UserId} {cv : ConversationWithMembers}

/-- The row of an active member. -/
def Db.seat (db : Db) (c : ConversationId) (u : UserId) : Option ConversationMember :=
  (db.seats c).find? fun member => member.userId = u

theorem findActive_eq (ms : List ConversationMember) (u : UserId) :
    findActive ms u = (activeMembers ms).find? fun member => member.userId = u := by
  unfold findActive activeMembers
  rw [List.find?_filter]
  congr 1
  funext member
  simp [and_comm]

/-- What one member loads, every other active member loads too. -/
theorem Db.membership_iff (h : s.membership c a = .ok cv) : s.membership c u = .ok cv ↔ s.seat c u ≠ none := by
  obtain ⟨hrow, hmembers, _⟩ := Db.membership_eq_ok h
  have hcv : cv = ⟨cv.toConversation, activeMembers (s.membersOf c)⟩ := by rw [← hmembers]
  unfold Db.membership Db.seat Db.seats
  rw [hrow, ← findActive_eq]
  simp only
  cases findActive (s.membersOf c) u with
  | none => simp
  | some member => simp [← hcv]

/-! ## Messages -/

/-- The two have reacted with the same emojis. -/
def ReactsAs (reactions : List MessageReaction) (a b : UserId) : Prop :=
  ∀ emoji, (∃ r ∈ reactions, r.emoji = emoji ∧ r.userId = a) ↔ ∃ r ∈ reactions, r.emoji = emoji ∧ r.userId = b

theorem buildReactionViews_eq_iff (reactions : List MessageReaction) (a b : UserId) :
    buildReactionViews reactions a = buildReactionViews reactions b ↔ ReactsAs reactions a b := by
  have hmine : ∀ (w : UserId) (emoji : Text),
      ((reactions.filter fun r => r.emoji = emoji).any fun r => r.userId = w) = true ↔
        ∃ r ∈ reactions, r.emoji = emoji ∧ r.userId = w := by
    intro w emoji
    simp
  unfold buildReactionViews ReactsAs
  simp only [List.map_inj_left, List.mem_eraseDups, List.mem_map, MessageReactionView.mk.injEq, true_and]
  constructor
  · intro h emoji
    by_cases hsome : ∃ r ∈ reactions, r.emoji = emoji
    · rw [← hmine, ← hmine, h emoji hsome]
    · exact iff_of_false (fun ⟨r, hr, he, _⟩ => hsome ⟨r, hr, he⟩) fun ⟨r, hr, he, _⟩ => hsome ⟨r, hr, he⟩
  · intro h emoji _
    rw [Bool.eq_iff_iff, hmine, hmine]
    exact h emoji

/-- The view of a message that is not deleted shows the reactions of the user who asks, and nothing else
depends on the user. -/
theorem viewOf_eq_iff {x : Message} (halive : x.deletedForEveryoneAt = none) (members : List ConversationMember)
    (a b : UserId) :
    s.viewOf x members a = s.viewOf x members b ↔ ReactsAs (s.reactionsTo x.id) a b := by
  rw [← buildReactionViews_eq_iff]
  simp [Db.viewOf, toMessageView, halive]

/-- What `getMessage` answers a member. -/
theorem run_getMessage (h : s.membership c u = .ok cv) {m : MessageId} {x : Message}
    (hx : (s.messages.find? fun row => row.id = m ∧ row.conversationId = c) = some x) :
    run exec (getMessage c m u) s =
      (if s.isHidden x.id u then .error (.rpc (RpcErrors.notFound "Message not found"))
        else .ok (s.viewOf x cv.members u), s) := by
  unfold getMessage
  rw [run_bind_ok exec (h ▸ run_requireMembership c u), run_read (a := some x) (by simp only [exec, hx]),
    run_require_some,
    run_read (a := s.messageHides.find? fun hide => hide.messageId = x.id ∧ hide.userId = u.canon) rfl]
  have hhidden : (s.messageHides.find? fun hide => hide.messageId = x.id ∧ hide.userId = u.canon) ≠ none ↔
      s.isHidden x.id u = true := by
    simp [Db.isHidden]
  by_cases hhide : s.isHidden x.id u
  · rw [run_rejectIf_pos (hhidden.mpr hhide), if_pos hhide]
  · rw [run_rejectIf_neg (fun hne => hhide (hhidden.mp hne)), if_neg hhide,
      run_bind_ok exec (run_loadReplyParents [x]), run_bind_ok exec (run_loadReactions _)]
    simp only [pure_def, run_ret]
    rw [replyOf_filter, reactionsOf_filter (List.mem_singleton_self _)]
    · rfl
    · intro r hr
      simp [hr]

/-- `u` sees the message as it is shown to `a`. -/
structure SeesMessageAs (db : Db) (m : MessageId) (a u : UserId) : Prop where
  visible : db.isHidden m u = false
  reacts : ReactsAs (db.reactionsTo m) a u

theorem mem_recipientIds (h : s.membership c a = .ok cv) : u ∈ recipientIds cv ↔ s.seat c u ≠ none := by
  obtain ⟨_, hmembers, _⟩ := Db.membership_eq_ok h
  unfold recipientIds Db.seat Db.seats
  rw [hmembers, activeMembers_activeMembers]
  simp

theorem getMessage_eq_iff (h : s.membership c u = .ok cv) {m : MessageId} {x : Message}
    (hx : (s.messages.find? fun row => row.id = m ∧ row.conversationId = c) = some x)
    (halive : x.deletedForEveryoneAt = none) :
    (run exec (getMessage c m u) s).1 = .ok (s.viewOf x cv.members a) ↔ SeesMessageAs s m a u := by
  have hid : x.id = m := by
    have hp := List.find?_some hx
    simp only [decide_eq_true_eq] at hp
    exact hp.1
  rw [run_getMessage h hx, hid]
  by_cases hhide : s.isHidden m u
  · rw [if_pos hhide]
    refine iff_of_false (by simp) fun hsees => ?_
    rw [hsees.visible] at hhide
    cases hhide
  · rw [if_neg hhide, Except.ok.injEq, eq_comm, viewOf_eq_iff halive, hid]
    exact ⟨fun hreacts => ⟨by simpa using hhide, hreacts⟩, SeesMessageAs.reacts⟩

/-! ## Conversations -/

/-- The unread messages that are counted for a user. -/
def Db.unread (db : Db) (c : ConversationId) (u : UserId) : Nat :=
  ((db.unreadRows u [c]).lookup c).getD 0

theorem run_getConversation (h : s.membership c u = .ok cv) :
    run exec (getConversation c u) s =
      (.ok (toConversationView cv u (s.unread c u) none (s.blockFlags cv u)), s) := by
  unfold getConversation
  rw [run_bind_ok exec (h ▸ run_requireMembership c u), run_viewConversation, Db.membership_id h]
  rfl

/-- The conversation as `getConversation` shows it to a member. -/
def Db.ShowsConversation (db : Db) (c : ConversationId) (a : UserId) (view : ConversationView) : Prop :=
  ∃ cv, db.membership c a = .ok cv ∧
    view = toConversationView cv a (db.unread c a) none (db.blockFlags cv a)

/-- `u` sees the conversation as it is shown to `a`. -/
structure SeesConversationAs (db : Db) (c : ConversationId) (a u : UserId) : Prop where
  lastReadAt : ((db.seat c a).bind ConversationMember.lastReadAt).map jsDate =
    ((db.seat c u).bind ConversationMember.lastReadAt).map jsDate
  muted : (db.seat c a).any (fun member => member.mutedAt ≠ none) =
    (db.seat c u).any fun member => member.mutedAt ≠ none
  pinned : (db.seat c a).any (fun member => member.pinnedAt ≠ none) =
    (db.seat c u).any fun member => member.pinnedAt ≠ none
  unread : db.unread c a = db.unread c u
  blocks : ∀ row, db.findConversation c = some row →
    db.blockFlags ⟨row, db.seats c⟩ a = db.blockFlags ⟨row, db.seats c⟩ u

theorem getConversation_eq_iff {view : ConversationView} (h : s.ShowsConversation c a view)
    (hu : s.seat c u ≠ none) :
    (run exec (getConversation c u) s).1 = .ok view ↔ SeesConversationAs s c a u := by
  obtain ⟨cv, hcv, rfl⟩ := h
  obtain ⟨hrow, hmembers, _⟩ := Db.membership_eq_ok hcv
  have hseats : cv.members = s.seats c := hmembers
  have hloaded : (⟨cv.toConversation, s.seats c⟩ : ConversationWithMembers) = cv := by rw [← hseats]
  have hactive : activeMembers cv.members = s.seats c := by
    rw [hmembers, activeMembers_activeMembers]
    rfl
  rw [run_getConversation ((Db.membership_iff hcv).mpr hu), Except.ok.injEq]
  simp only [toConversationView, hactive, ConversationView.mk.injEq, true_and, and_true, Option.map_none]
  constructor
  · rintro ⟨hread, hmuted, hpinned, hbyMe, hMe, hunread⟩
    refine ⟨hread.symm, hmuted.symm, hpinned.symm, hunread.symm, fun row hrow' => ?_⟩
    rw [hrow] at hrow'
    cases hrow'
    rw [hloaded]
    exact (congrArg₂ BlockFlags.mk hbyMe hMe).symm
  · intro hsees
    have hblocks := hsees.blocks _ hrow
    rw [hloaded] at hblocks
    exact ⟨hsees.lastReadAt.symm, hsees.muted.symm, hsees.pinned.symm, by rw [hblocks], by rw [hblocks],
      hsees.unread.symm⟩

/-! ## What the changes return -/

/-- A result shows the stored message as the actor sees it, and goes to all members. -/
def Db.ShowsChange (db : Db) (c : ConversationId) (m : MessageId) (a : UserId) (result : SendMessageResult) : Prop :=
  ∃ cv x, db.membership c a = .ok cv ∧
    (db.messages.find? fun row => row.id = m ∧ row.conversationId = c) = some x ∧
    x.deletedForEveryoneAt = none ∧ result = ⟨db.viewOf x cv.members a, recipientIds cv⟩

variable {m : MessageId} {result : SendMessageResult} {t : Db}

/-- The saved row is what is found under its id and its conversation. -/
theorem find?_saved {rows : List Message} {x x' : Message} (hx : x ∈ rows) (hid : x.id = x'.id) :
    ((replaceRow Message.id x' rows).find? fun row => row.id = x'.id ∧ row.conversationId = x'.conversationId) =
      some x' := by
  induction rows with
  | nil => cases hx
  | cons row rows ih =>
    rw [replaceRow, List.map_cons, List.find?_cons]
    by_cases hrow : row.id = x'.id
    · simp [hrow]
    · obtain rfl | hx := List.mem_cons.mp hx
      · exact absurd hid hrow
      · simp only [hrow, if_false, false_and, decide_false]
        exact ih hx

theorem showsChange_saved {change : Change} (hcv : s.membership c a = .ok change.conversation) {x : Message}
    (hx : x ∈ s.messages) (hid : x.id = change.message.id) (hm : change.message.id = m)
    (hc : change.message.conversationId = c) (halive : change.message.deletedForEveryoneAt = none)
    (hwrite : change.write = perform (.saveMessage change.message))
    (hrun : run exec (change.apply a) s = (.ok result, t)) : t.ShowsChange c m a result := by
  have hsave : run exec change.write s =
      (.ok (), { s with messages := replaceRow Message.id change.message s.messages }) := by
    rw [hwrite]
    rfl
  rw [run_apply hsave] at hrun
  cases hrun
  refine ⟨change.conversation, change.message, hcv, ?_, halive, rfl⟩
  subst hm hc
  exact find?_saved hx hid

theorem showsChange_kept {change : Change} (hcv : s.membership c a = .ok change.conversation)
    (hfind : (s.messages.find? fun row => row.id = m ∧ row.conversationId = c) = some change.message)
    (halive : change.message.deletedForEveryoneAt = none)
    (hwrite : ∃ reactions n, run exec change.write s =
      (.ok (), { s with messageReactions := reactions, nextId := n }))
    (hrun : run exec (change.apply a) s = (.ok result, t)) : t.ShowsChange c m a result := by
  obtain ⟨reactions, n, hwrite⟩ := hwrite
  rw [run_apply hwrite] at hrun
  cases hrun
  exact ⟨change.conversation, change.message, hcv, hfind, halive, rfl⟩

theorem editMessage_shows {body : Text} (h : run exec (editMessage c m a body) s = (.ok result, t)) :
    t.ShowsChange c m a result := by
  obtain ⟨q, hq, hrun⟩ := (accepts_editMessage c m a body).of_ok h
  obtain ⟨change, haccept, rfl⟩ := Option.map_eq_some_iff.mp hq
  obtain ⟨hcv, x, hx, hid, hc, _, halive, hmessage, hwrite⟩ := acceptEdit_eq_some haccept
  refine showsChange_saved hcv hx ?_ ?_ ?_ ?_ hwrite hrun <;> rw [hmessage]
  · exact hid
  · exact hc
  · exact halive

theorem reactMessage_shows {emoji : Text} (h : run exec (reactMessage c m a emoji) s = (.ok result, t)) :
    t.ShowsChange c m a result := by
  obtain ⟨q, hq, hrun⟩ := (accepts_reactMessage c m a emoji).of_ok h
  obtain ⟨change, haccept, rfl⟩ := Option.map_eq_some_iff.mp hq
  obtain ⟨hcv, _, _, _, halive, hwrite⟩ := acceptReact_eq_some haccept
  exact showsChange_kept hcv (acceptReact_found haccept) halive
    (hwrite ▸ run_toggleReaction change.message.id a emoji) hrun

theorem pinMessage_shows {pinned : Bool} (h : run exec (pinMessage c m a pinned) s = (.ok result, t)) :
    t.ShowsChange c m a result := by
  obtain ⟨q, hq, hrun⟩ := (accepts_pinMessage c m a pinned).of_ok h
  obtain ⟨change, haccept, rfl⟩ := Option.map_eq_some_iff.mp hq
  obtain ⟨hcv, x, hx, hid, hc, halive, ⟨_, _, hmessage⟩, _⟩ := acceptPin_eq_some haccept
  have halive' : change.message.deletedForEveryoneAt = none := by
    rw [hmessage]
    exact halive
  obtain hwrite | ⟨hfind, hwrite⟩ := acceptPin_found haccept
  · refine showsChange_saved hcv hx ?_ ?_ ?_ halive' hwrite hrun <;> rw [hmessage]
    · exact hid
    · exact hc
  · exact showsChange_kept hcv hfind halive' ⟨s.messageReactions, s.nextId, hwrite ▸ rfl⟩ hrun

/-- A program that ends with `getConversation`, or fails. -/
def Shows (c : ConversationId) (a : UserId) (p : M ConversationView) : Prop :=
  ∀ s t view, run exec p s = (.ok view, t) → t.ShowsConversation c a view

theorem shows_getConversation (c : ConversationId) (a : UserId) : Shows c a (getConversation c a) := by
  intro s t view h
  cases hcv : s.membership c a with
  | error e =>
    unfold getConversation at h
    rw [run_bind_error exec (hcv ▸ run_requireMembership c a)] at h
    cases h
  | ok cv =>
    rw [run_getConversation hcv] at h
    cases h
    exact ⟨cv, hcv, rfl⟩

theorem shows_bind {α : Type} {p : M α} {f : α → M ConversationView} (h : ∀ x, Shows c a (f x)) :
    Shows c a (p >>= f) := by
  intro s t view hrun
  obtain ⟨x, s', _, hrest⟩ := run_bind_inv exec hrun
  exact h x s' t view hrest

variable (c a)

theorem shows_setDisappearingMessages (n : Nat) : Shows c a (setDisappearingMessages c a n) :=
  shows_bind fun _ => shows_bind fun _ => shows_bind fun _ => shows_bind fun _ => shows_bind fun _ =>
    shows_getConversation c a

theorem shows_addMembers (ids : List UserId) : Shows c a (addMembers c a ids) :=
  shows_bind fun _ => shows_bind fun _ => shows_bind fun _ => shows_bind fun _ => shows_bind fun _ =>
    shows_getConversation c a

theorem shows_removeMember (u : UserId) : Shows c a (removeMember c a u) :=
  shows_bind fun _ => shows_bind fun _ => shows_bind fun _ => shows_bind fun _ => shows_bind fun _ =>
    shows_bind fun _ => shows_bind fun _ => shows_getConversation c a

theorem shows_setMemberRole (u : UserId) (role : Option ConversationMemberRole) :
    Shows c a (setMemberRole c a u role) :=
  shows_bind fun _ => shows_bind fun _ => shows_bind fun _ => shows_bind fun _ => shows_bind fun _ =>
    shows_bind fun _ => shows_bind fun _ => shows_bind fun _ => shows_getConversation c a

theorem shows_updateGroup (name : Text) : Shows c a (updateGroup c a name) :=
  shows_bind fun _ => shows_bind fun _ => shows_bind fun _ => shows_bind fun _ => shows_getConversation c a

end Relay.Chat
