import Relay.Chat.Verify.Seats

/-!
# Unread counters

The number of unread messages comes from a grouped join of its own, the pages of `listMessages` from another
query. `unread_eq` says that they agree: the counter of a conversation is the number of items on all its
pages that are unread. A user who has left and come back has one active row, so the join counts a message
once.
-/

namespace Relay.Chat

open Relay.Lib Relay.Lib.Rows Prog

variable {s : Db}

/-- The items of a page of `listMessages`, none where the request fails. -/
def Db.pageItems (db : Db) (c : ConversationId) (u : UserId) (page : Page) : List MessageView :=
  match (run exec (Chat.listMessages c u page) db).1 with
  | .ok result => result.items
  | .error _ => []

/-- The items of the first `n` pages. -/
def Db.items (db : Db) (c : ConversationId) (u : UserId) {limit : Nat} (hlimit : 0 < limit) (n : Nat) :
    List MessageView :=
  (List.range n).flatMap fun k => db.pageItems c u ⟨k + 1, limit, Nat.succ_pos k, hlimit⟩

/-- The item was not sent by the member, is not deleted for everyone, and the row it shows was created after
the member has read the conversation. -/
def Db.unreadItem (db : Db) (me : ConversationMember) (item : MessageView) : Bool :=
  item.senderId != me.userId && !item.deletedForEveryone &&
    match me.lastReadAt with
    | none => true
    | some readAt => db.messages.any fun m => m.id = item.id ∧ readAt < m.createdAt

/-- What `unreadCounts` answers for one of the conversations asked for. -/
def Db.unreadCount (db : Db) (u : UserId) (ids : List ConversationId) (c : ConversationId) : Nat :=
  match (run exec (unreadCounts u ids) db).1 with
  | .ok counts => (counts.lookup c).getD 0
  | .error _ => 0

/-! ## The pages -/

section Pages

variable {c : ConversationId} {u : UserId} {limit n : Nat}

theorem pageItems_eq {cv : ConversationWithMembers} (h : s.membership c u = .ok cv) (page : Page) :
    s.pageItems c u page =
      (((s.listMessages ⟨[c], u, none, none, false⟩).drop page.skip).take page.take).map fun m =>
        s.viewOf m cv.members u := by
  unfold Db.pageItems
  rw [run_listMessages, h]
  rfl

/-- All pages together show the messages listed, each once. -/
theorem items_eq {cv : ConversationWithMembers} (h : s.membership c u = .ok cv) (hlimit : 0 < limit)
    (hn : (s.listMessages ⟨[c], u, none, none, false⟩).length ≤ n * limit) :
    s.items c u hlimit n =
      (s.listMessages ⟨[c], u, none, none, false⟩).map fun m => s.viewOf m cv.members u := by
  unfold Db.items
  simp only [pageItems_eq h]
  rw [← List.map_flatMap]
  congr 1
  exact (flatMap_pages _ limit n).trans (List.take_of_length_le hn)

end Pages

/-! ## The join -/

theorem filter_eq_singleton {α : Type} {p : α → Bool} {rows : List α} {a : α} (hnodup : rows.Nodup)
    (ha : a ∈ rows) (hp : p a = true) (hunique : ∀ b ∈ rows, p b = true → b = a) : rows.filter p = [a] := by
  refine (List.perm_singleton.mp ?_)
  refine (List.perm_ext_iff_of_nodup (hnodup.filter p) (List.nodup_singleton a)).mpr fun b => ?_
  rw [List.mem_filter, List.mem_singleton]
  constructor
  · exact fun ⟨hb, hpb⟩ => hunique b hb hpb
  · rintro rfl
    exact ⟨ha, hp⟩

/-- The join finds one row of the user: the active one. -/
theorem joined_eq (hs : Reachable s) {c : ConversationId} {u : UserId} {me : ConversationMember}
    (hme : findActive (s.membersOf c) u = some me) :
    ((s.membersOf c).filter fun cm => cm.userId = u.canon ∧ cm.leftAt = none) = [me] := by
  obtain ⟨hmem, huser, hleft⟩ := findActive_eq_some hme
  obtain ⟨hstored, hconv⟩ := Db.mem_membersOf.mp hmem
  have hcanon : u.canon = u := huser ▸ hs.inv.canon me hstored
  have hnodup : (s.membersOf c).Nodup :=
    (List.Nodup.of_map _ hs.inv.keyed.members.nodup).filter _
  refine filter_eq_singleton hnodup hmem (decide_eq_true ⟨huser.trans hcanon.symm, hleft⟩) fun m hm hp => ?_
  obtain ⟨hmuser, hmleft⟩ := of_decide_eq_true hp
  obtain ⟨hmstored, hmconv⟩ := Db.mem_membersOf.mp hm
  exact hs.inv.keyed.members.eq_of_id_eq hmstored hstored
    (hs.seatedOnce m hmstored me hstored (hmconv.trans hconv.symm)
      (hmuser.trans (hcanon.trans huser.symm)) hmleft hleft)

/-- A grouped count is looked up; a group that counts nothing is absent. -/
theorem lookup_counts {κ : Type} [DecidableEq κ] (count : κ → Nat) (ks : List κ) (k : κ) :
    ((((ks.map fun k => (k, count k)).filter fun row => row.2 ≠ 0).lookup k).getD 0) =
      if k ∈ ks then count k else 0 := by
  induction ks with
  | nil => rfl
  | cons k' ks ih =>
    rw [List.map_cons, List.filter_cons]
    by_cases hk : k = k'
    · subst hk
      rw [if_pos List.mem_cons_self]
      by_cases hcount : count k = 0
      · rw [if_neg (by simpa using hcount), ih, hcount, ite_self]
      · rw [if_pos (by simpa using hcount), List.lookup_cons_self, Option.getD_some]
    · have hmem : k ∈ k' :: ks ↔ k ∈ ks := by simp [hk]
      rw [if_congr hmem rfl rfl, ← ih]
      split
      · rw [List.lookup_cons, beq_eq_false_iff_ne.mpr hk]
      · rfl

theorem unreadCount_eq (hs : Reachable s) {c : ConversationId} {u : UserId} {ids : List ConversationId}
    (hc : c ∈ ids) {me : ConversationMember} (hme : findActive (s.membersOf c) u = some me) :
    s.unreadCount u ids c = (s.messages.filter (s.countsUnread me)).length := by
  have hne : ids ≠ [] := List.ne_nil_of_mem hc
  unfold Db.unreadCount
  rw [run_unreadCounts, if_neg hne]
  refine (lookup_counts _ ids.eraseDups c).trans ?_
  rw [if_pos (List.mem_eraseDups.mpr hc), joined_eq hs hme]
  simp

/-! ## The two queries -/

/-- The join counts the messages that are listed and whose items are unread. -/
theorem countsUnread_eq (hs : Reachable s) {c : ConversationId} {u : UserId} {me : ConversationMember}
    (hme : findActive (s.membersOf c) u = some me) (members : List ConversationMember) {m : Message}
    (hm : m ∈ s.messages) :
    s.countsUnread me m =
      (s.unreadItem me (s.viewOf m members u) && s.filterMatches ⟨[c], u, none, none, false⟩ m) := by
  obtain ⟨hmem, rfl, _⟩ := findActive_eq_some hme
  obtain ⟨hstored, rfl⟩ := Db.mem_membersOf.mp hmem
  have hcanon := hs.inv.canon me hstored
  have hread : ∀ t, (s.messages.any fun row => row.id = m.id ∧ t < row.createdAt) =
      decide (t < m.createdAt) := by
    intro t
    rw [Bool.eq_iff_iff, List.any_eq_true, decide_eq_true_eq]
    constructor
    · rintro ⟨row, hrow, hmatch⟩
      obtain ⟨hid, hlt⟩ := of_decide_eq_true hmatch
      rwa [hs.inv.keyed.messages.eq_of_id_eq hrow hm hid] at hlt
    · exact fun hlt => ⟨m, hm, decide_eq_true ⟨rfl, hlt⟩⟩
  have hview : (s.viewOf m members me.userId).id = m.id ∧
      (s.viewOf m members me.userId).senderId = m.senderId ∧
      (s.viewOf m members me.userId).deletedForEveryone = (m.deletedForEveryoneAt != none) := ⟨rfl, rfl, rfl⟩
  obtain ⟨hid, hsender, hdeleted⟩ := hview
  unfold Db.countsUnread Db.unreadItem Db.filterMatches
  simp only [hid, hsender, hdeleted, hcanon, hread, List.mem_singleton]
  rw [Bool.eq_iff_iff]
  cases me.lastReadAt <;> simp <;> tauto

/-- The unread counter of a conversation is the number of unread items on all its pages, of any size. -/
theorem unread_eq (hs : Reachable s) {c : ConversationId} {u : UserId} {row : Conversation}
    (hrow : s.findConversation c = some row) {me : ConversationMember}
    (hme : findActive (s.membersOf c) u = some me) {ids : List ConversationId} (hc : c ∈ ids) {limit : Nat}
    (hlimit : 0 < limit) :
    ∃ pages, (∀ k, ∃ result, (run exec (listMessages c u ⟨k + 1, limit, Nat.succ_pos k, hlimit⟩) s).1 =
        .ok result ∧ result.info.totalPages = pages) ∧
      ∀ n, pages ≤ n → s.unreadCount u ids c = (s.items c u hlimit n).countP (s.unreadItem me) := by
  obtain ⟨cv, hcv⟩ : ∃ cv, s.membership c u = .ok cv := by
    unfold Db.membership
    rw [hrow, hme]
    exact ⟨_, rfl⟩
  let listed := s.listMessages ⟨[c], u, none, none, false⟩
  refine ⟨(listed.length + limit - 1) / limit, fun k => ?_, fun n hn => ?_⟩
  · rw [run_listMessages, hcv]
    exact ⟨_, rfl, rfl⟩
  · have hall : listed.length ≤ n * limit :=
      Nat.le_trans (le_pages listed.length hlimit) (Nat.mul_le_mul_right limit hn)
    rw [unreadCount_eq hs hc hme, items_eq hcv hlimit hall, List.countP_map,
      ← List.countP_eq_length_filter]
    have hperm : listed.Perm (s.messages.filter (s.filterMatches ⟨[c], u, none, none, false⟩)) :=
      List.perm_insertionSort _ _
    rw [hperm.countP_eq, List.countP_filter]
    exact List.countP_congr fun m hm => by
      rw [countsUnread_eq hs hme cv.members hm]
      rfl

/-- A group that B has left and was added to again, with a message of A. -/
def rejoinedGroup : Db := (Db.empty 0 0).serve
  [.createGroup userA ['g'] [userB], .leave 0 userB, .addMembers 0 userA [userB],
    .sendMessage (textMessage userA 0 ['h', 'i'])]

/-- The row B has now. -/
def rejoinedSeat : ConversationMember where
  id := 3
  conversationId := 0
  userId := userB
  role := .member
  joinedAt := 0
  lastReadAt := none
  mutedAt := none
  pinnedAt := none
  leftAt := none

theorem unread_eq_rejoined :
    ∃ pages, (∀ k, ∃ result, (run exec (listMessages 0 userB ⟨k + 1, 1, Nat.succ_pos k, Nat.one_pos⟩)
        rejoinedGroup).1 = .ok result ∧ result.info.totalPages = pages) ∧
      ∀ n, pages ≤ n → rejoinedGroup.unreadCount userB [0] 0 =
        (rejoinedGroup.items 0 userB Nat.one_pos n).countP (rejoinedGroup.unreadItem rejoinedSeat) :=
  unread_eq ((reachable_empty 0 0).serve _) rfl (by decide) List.mem_cons_self Nat.one_pos

end Relay.Chat
