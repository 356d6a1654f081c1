import Relay.Chat.Verify.Unread
import Relay.Chat.Verify.Viewers

/-!
# Read receipts and unread counters

A message view lists who has read the message by the dates of the two rows, in whole milliseconds; the
unread counter compares the stored times. The two answers agree (`seen_iff_not_counted`) unless the message
was created after the member's `lastReadAt` and in the same millisecond.
-/

namespace Relay.Chat

open Relay.Lib Relay.Lib.Rows Prog

variable {s : Db} {m : Message} {v w : UserId} {me : ConversationMember} {view : MessageView}

/-- `getMessage` or a page of `listMessages` shows the message to the user as this view. -/
def Db.Presents (db : Db) (w : UserId) (m : Message) (view : MessageView) : Prop :=
  (run exec (getMessage m.conversationId m.id w) db).1 = .ok view ∨
    ∃ page, view ∈ db.pageItems m.conversationId w page ∧ view.id = m.id

/-- The messages that the unread counter of the user counts in the conversation. -/
def Db.counted (db : Db) (u : UserId) (c : ConversationId) : List Message :=
  ((db.membersOf c).filter fun cm => cm.userId = u.canon ∧ cm.leftAt = none).flatMap fun cm =>
    db.messages.filter (db.countsUnread cm)

/-- The message was created after the member has read the conversation, in the same millisecond. -/
def ReadWithin (me : ConversationMember) (m : Message) : Prop :=
  ∃ t, me.lastReadAt = some t ∧ t < m.createdAt ∧ jsDate t = jsDate m.createdAt

/-- Dates agree with the times they come from, except within one millisecond. -/
theorem jsDate_le_iff (a b : Time) : (jsDate a ≤ jsDate b ↔ a ≤ b) ↔ ¬ (b < a ∧ jsDate b = jsDate a) := by
  by_cases hle : a ≤ b
  · have hdate : jsDate a ≤ jsDate b := jsDate_mono hle
    exact iff_of_true (iff_of_true hdate hle) fun h => absurd hle (Nat.not_le.mpr h.1)
  · have hlt : b < a := Nat.lt_of_not_le hle
    have hdate : jsDate b ≤ jsDate a := jsDate_mono (Nat.le_of_lt hlt)
    rw [iff_false_right hle, and_iff_right hlt, Nat.not_le]
    constructor
    · intro hdates heq
      rw [heq] at hdates
      exact Nat.lt_irrefl _ hdates
    · intro hne
      exact Nat.lt_of_le_of_ne hdate hne

theorem unreadCount_counted (s : Db) (u : UserId) {ids : List ConversationId} {c : ConversationId} (hc : c ∈ ids) :
    s.unreadCount u ids c = (s.counted u c).length := by
  have hne : ids ≠ [] := List.ne_nil_of_mem hc
  unfold Db.unreadCount Db.counted
  rw [run_unreadCounts, if_neg hne]
  refine (lookup_counts _ ids.eraseDups c).trans ?_
  rw [if_pos (List.mem_eraseDups.mpr hc), List.length_flatMap]

theorem find?_message (hkeyed : WellKeyed s) (hm : m ∈ s.messages) :
    (s.messages.find? fun row => row.id = m.id ∧ row.conversationId = m.conversationId) = some m := by
  cases hfind : s.messages.find? fun row => row.id = m.id ∧ row.conversationId = m.conversationId with
  | none =>
    have hnot := List.find?_eq_none.mp hfind m hm
    simp at hnot
  | some m' =>
    have hmatch := List.find?_some hfind
    rw [decide_eq_true_eq] at hmatch
    rw [hkeyed.messages.eq_of_id_eq (List.mem_of_find?_eq_some hfind) hm hmatch.1]

/-- What a member is shown is the view of the stored row. -/
theorem viewOf_of_presents (hkeyed : WellKeyed s) (hm : m ∈ s.messages) (h : s.Presents w m view) :
    ∃ cv, s.membership m.conversationId w = .ok cv ∧ view = s.viewOf m cv.members w := by
  obtain hget | ⟨page, hpage, hid⟩ := h
  · cases hcv : s.membership m.conversationId w with
    | error e =>
      unfold getMessage at hget
      rw [run_bind_error exec (hcv ▸ run_requireMembership m.conversationId w)] at hget
      cases hget
    | ok cv =>
      rw [run_getMessage hcv (find?_message hkeyed hm)] at hget
      split at hget
      · cases hget
      · cases hget
        exact ⟨cv, rfl, rfl⟩
  · cases hcv : s.membership m.conversationId w with
    | error e =>
      unfold Db.pageItems at hpage
      rw [run_listMessages, hcv] at hpage
      exact absurd hpage List.not_mem_nil
    | ok cv =>
      rw [pageItems_eq hcv] at hpage
      obtain ⟨m', hm', rfl⟩ := List.mem_map.mp hpage
      have hm'' : m' ∈ s.messages := by
        have hlisted := List.mem_of_mem_drop (List.mem_of_mem_take hm')
        unfold Db.listMessages orderDesc at hlisted
        rw [List.mem_insertionSort] at hlisted
        exact List.mem_of_mem_filter hlisted
      rw [hkeyed.messages.eq_of_id_eq hm'' hm hid]
      exact ⟨cv, rfl, rfl⟩

/-- The receipt of an active member other than the sender. -/
theorem mem_seenBy (hs : Reachable s) {cv : ConversationWithMembers}
    (hcv : s.membership m.conversationId w = .ok cv) (hme : findActive (s.membersOf m.conversationId) v = some me)
    (hother : v ≠ m.senderId) (hdelivered : m.undelivered = false) :
    v ∈ seenBy m cv.members ↔ ∃ t, me.lastReadAt = some t ∧ jsDate m.createdAt ≤ jsDate t := by
  obtain ⟨hmem, rfl, hleft⟩ := findActive_eq_some hme
  obtain ⟨_, hmembers, _⟩ := Db.membership_eq_ok hcv
  have hactive : me ∈ cv.members := by
    rw [hmembers]
    exact mem_activeMembers.mpr ⟨hmem, hleft⟩
  have honly : ∀ r ∈ cv.members, r.userId = me.userId → r = me := by
    intro r hr huser
    rw [hmembers] at hr
    obtain ⟨hr, hrleft⟩ := mem_activeMembers.mp hr
    obtain ⟨hstored, hconv⟩ := Db.mem_membersOf.mp hr
    obtain ⟨hstored', hconv'⟩ := Db.mem_membersOf.mp hmem
    exact hs.inv.keyed.members.eq_of_id_eq hstored hstored'
      (hs.seatedOnce r hstored me hstored' (hconv.trans hconv'.symm) huser hrleft hleft)
  unfold seenBy
  rw [hdelivered, if_neg Bool.false_ne_true, List.mem_map]
  simp only [List.mem_filter, decide_eq_true_eq, Option.any_eq_true]
  constructor
  · rintro ⟨r, ⟨hr, _, _, t, hread, hle⟩, huser⟩
    rw [honly r hr huser] at hread
    exact ⟨t, hread, hle⟩
  · rintro ⟨t, hread, hle⟩
    exact ⟨me, ⟨hactive, hleft, hother, t, hread, hle⟩, rfl⟩

/-- The counter of an active member other than the sender. -/
theorem mem_counted (hs : Reachable s) (hm : m ∈ s.messages)
    (hme : findActive (s.membersOf m.conversationId) v = some me) (hother : v ≠ m.senderId)
    (hdelivered : m.undelivered = false) (halive : m.deletedForEveryoneAt = none)
    (hvisible : s.isHidden m.id v = false) :
    m ∈ s.counted v m.conversationId ↔ ¬ ∃ t, me.lastReadAt = some t ∧ m.createdAt ≤ t := by
  unfold Db.counted
  rw [joined_eq hs hme]
  obtain ⟨hmem, rfl, _⟩ := findActive_eq_some hme
  obtain ⟨_, hconv⟩ := Db.mem_membersOf.mp hmem
  have hcounts : s.countsUnread me m = true ↔ ¬ ∃ t, me.lastReadAt = some t ∧ m.createdAt ≤ t := by
    unfold Db.countsUnread
    cases hread : me.lastReadAt with
    | none => simp [hconv, Ne.symm hother, hdelivered, halive, hvisible]
    | some t => simp [hconv, Ne.symm hother, hdelivered, halive, hvisible]
  simp only [List.flatMap_cons, List.flatMap_nil, List.append_nil, List.mem_filter, hm, true_and, hcounts]

/-- For a delivered message that is not deleted, not hidden by the active member `v` and not from `v`: every
view of it lists `v` as a reader exactly when the unread counter of `v` does not count it, unless it was
created after `v` has read the conversation and in the same millisecond. -/
theorem seen_iff_not_counted (hs : Reachable s) (hm : m ∈ s.messages)
    (hme : findActive (s.membersOf m.conversationId) v = some me) (hother : v ≠ m.senderId)
    (hdelivered : m.undelivered = false) (halive : m.deletedForEveryoneAt = none)
    (hvisible : s.isHidden m.id v = false) (hview : s.Presents w m view) :
    (∀ ids, m.conversationId ∈ ids →
        s.unreadCount v ids m.conversationId = (s.counted v m.conversationId).length) ∧
      ((v ∈ view.seenBy ↔ m ∉ s.counted v m.conversationId) ↔ ¬ ReadWithin me m) := by
  refine ⟨fun ids hids => unreadCount_counted s v hids, ?_⟩
  obtain ⟨cv, hcv, rfl⟩ := viewOf_of_presents hs.inv.keyed hm hview
  have hseen : (s.viewOf m cv.members w).seenBy = seenBy m cv.members := rfl
  rw [hseen, mem_seenBy hs hcv hme hother hdelivered,
    mem_counted hs hm hme hother hdelivered halive hvisible, not_not]
  unfold ReadWithin
  cases me.lastReadAt with
  | none => simp
  | some t =>
    have hdates := jsDate_le_iff m.createdAt t
    simpa using hdates

/-- A sends B a message, and B reads the conversation `d` microseconds later. -/
def Db.readAfter (d : Nat) : Db :=
  (((Db.empty 300 0).serve [.createGroup userA ['g'] [userB], .sendMessage (textMessage userA 0 ['h', 'i'])]).wait
    d).serve [.markSeen 0 userB none]

theorem reachable_readAfter (d : Nat) : Reachable (Db.readAfter d) :=
  (((reachable_empty 300 0).serve _).wait d).serve _

/-- The message. -/
def sentMessage : Message :=
  { id := 3, conversationId := 0, senderId := userA, body := ['h', 'i'], type := .text, replyToMessageId := none,
    deletedForEveryoneAt := none, editedAt := none, pinnedAt := none, pinnedByUserId := none,
    attachmentUrl := none, attachmentMime := none, attachmentName := none, attachmentSize := none,
    forwardedFromMessageId := none, mentions := [], linkPreview := none, expiresAt := none,
    undelivered := false, createdAt := 300 }

/-- The row of B after reading. -/
def readSeat (readAt : Time) : ConversationMember :=
  { id := 2, conversationId := 0, userId := userB, role := .member, joinedAt := 300, lastReadAt := some readAt,
    mutedAt := none, pinnedAt := none, leftAt := none }

/-- What A sees of the message. -/
def Db.sentView (db : Db) : MessageView := db.viewOf sentMessage (activeMembers (db.membersOf 0)) userA

/-- B reads 5 milliseconds after the message was sent. -/
theorem seen_iff_not_counted_later :
    (∀ ids, 0 ∈ ids → (Db.readAfter 5000).unreadCount userB ids 0 = ((Db.readAfter 5000).counted userB 0).length) ∧
      ((userB ∈ (Db.readAfter 5000).sentView.seenBy ↔ sentMessage ∉ (Db.readAfter 5000).counted userB 0) ↔
        ¬ ReadWithin (readSeat 5000) sentMessage) := by
  have hview : (Db.readAfter 5000).Presents userA sentMessage (Db.readAfter 5000).sentView := .inl rfl
  exact seen_iff_not_counted (reachable_readAfter 5000) (by decide +kernel) (by decide +kernel) (by decide) rfl rfl
    (by decide +kernel) hview

/-- B reads 200 microseconds after the message was sent and within its millisecond: A sees that B has read
the message, and the counter of B still counts it. -/
theorem seen_iff_not_counted_fails : ¬ ∀ (s : Db) (m : Message) (v w : UserId) (me : ConversationMember)
    (view : MessageView), Reachable s → m ∈ s.messages → findActive (s.membersOf m.conversationId) v = some me →
      v ≠ m.senderId → m.undelivered = false → m.deletedForEveryoneAt = none → s.isHidden m.id v = false →
        s.Presents w m view → (v ∈ view.seenBy ↔ m ∉ s.counted v m.conversationId) := by
  intro hall
  have hview : (Db.readAfter 200).Presents userA sentMessage (Db.readAfter 200).sentView := .inl rfl
  have hiff := hall (Db.readAfter 200) sentMessage userB userA (readSeat 0) _ (reachable_readAfter 200)
    (by decide +kernel) (by decide +kernel) (by decide) rfl rfl (by decide +kernel) hview
  have hseen : userB ∈ (Db.readAfter 200).sentView.seenBy := by decide +kernel
  have hcounted : sentMessage ∈ (Db.readAfter 200).counted userB 0 := by decide +kernel
  exact hiff.mp hseen hcounted

end Relay.Chat
