import Relay.Chat.Verify.Unread
import Relay.Chat.Verify.Exposure

/-!
# The pages of `listConversations`

The conversations are loaded in the order of the database, sorted by the service and cut into pages. Whatever
the order of the rows is, as long as it stays, the pages together list every conversation of the user once,
pinned ones first and by last activity (`conversations_paged`).
-/

namespace Relay.Chat

open Relay.Lib Relay.Lib.Rows Prog

variable {s : Db} {u : UserId} {limit : Nat}

/-! ## The order of the rows -/

/-- The database answers the query for conversations in another order. -/
def execArranged (arrange : List ConversationWithMembers → List ConversationWithMembers) :
    (c : Call) → Db → Except Failure c.Answer × Db
  | .findConversations ids, db =>
    (.ok (arrange ((db.conversations.filter fun row => row.id ∈ ids ∧ row.deletedAt = none).map
      db.withMembers)), db)
  | c, db => exec c db

variable {arrange : List ConversationWithMembers → List ConversationWithMembers}

/-- Calls other than this query. -/
def NoConversations (c : Call) : Prop := ∀ ids, c ≠ .findConversations ids

theorem execArranged_eq {c : Call} (h : NoConversations c) (s : Db) : execArranged arrange c s = exec c s := by
  cases c with
  | findConversations ids => exact absurd rfl (h ids)
  | _ => rfl

theorem run_arranged {α : Type} {p : M α} (h : Uses NoConversations p) (s : Db) :
    run (execArranged arrange) p s = run exec p s :=
  h.run_congr (fun _ s hc => execArranged_eq hc s) s

theorem run_arranged_unreadCounts (u : UserId) (ids : List ConversationId) :
    run (execArranged arrange) (unreadCounts u ids) s = run exec (unreadCounts u ids) s := by
  refine run_arranged ?_ s
  exact uses_ite (fun _ => trivial) fun _ => uses_perform (by rintro ids ⟨⟩)

theorem run_arranged_latestMessages (ids : List ConversationId) (u : UserId) :
    run (execArranged arrange) (latestMessagesByConversation ids u) s =
      run exec (latestMessagesByConversation ids u) s := by
  refine run_arranged ?_ s
  exact uses_ite (fun _ => trivial) fun _ => uses_perform (by rintro ids ⟨⟩)

theorem run_arranged_blockFlags (cvs : List ConversationWithMembers) (u : UserId) :
    run (execArranged arrange) (blockFlagsForConversations cvs u) s =
      run exec (blockFlagsForConversations cvs u) s := by
  refine run_arranged ?_ s
  exact uses_ite (fun _ => trivial) fun _ => uses_bind (uses_perform (by rintro ids ⟨⟩)) fun _ => trivial

/-! ## What is listed -/

/-- The user is an active member of the conversation, and has pinned it. -/
def Db.isPinned (db : Db) (u : UserId) (c : ConversationId) : Bool :=
  (db.members.filter fun me => me.userId = u.canon ∧ me.leftAt = none).any fun me =>
    me.conversationId = c ∧ me.pinnedAt ≠ none

/-- The conversation is stored, not deleted, and the user is an active member. -/
def Db.Joined (db : Db) (u : UserId) (c : ConversationId) : Prop :=
  ∃ row ∈ db.conversations, row.id = c ∧ row.deletedAt = none ∧
    ∃ me ∈ db.members, me.conversationId = c ∧ me.userId = u.canon ∧ me.leftAt = none

/-- `lastMessageAt ?? createdAt`. -/
def ConversationView.activity (view : ConversationView) : Time := view.lastMessageAt.getD view.createdAt

def ConversationWithMembers.activity (c : ConversationWithMembers) : Time :=
  jsDate (c.lastMessageAt.getD c.createdAt)

/-- The conversations of the user in the order of the pages. -/
def Db.sortedConversations (db : Db) (arrange : List ConversationWithMembers → List ConversationWithMembers)
    (u : UserId) : List ConversationWithMembers :=
  sortConversations (db.isPinned u) (arrange ((db.conversations.filter fun row =>
    row.id ∈ db.conversationIds u ∧ row.deletedAt = none).map db.withMembers))

/-- The items of one page. -/
def Db.conversationItems (db : Db) (arrange : List ConversationWithMembers → List ConversationWithMembers)
    (u : UserId) (page : Page) : List ConversationView :=
  match (run (execArranged arrange) (listConversations u page) db).1 with
  | .ok result => result.items
  | .error _ => []

/-- The items of the first `n` pages, one page after the other. -/
def Db.firstPages (db : Db) (arrange : List ConversationWithMembers → List ConversationWithMembers)
    (u : UserId) (hlimit : 0 < limit) (n : Nat) : List ConversationView :=
  (List.range n).flatMap fun k => db.conversationItems arrange u (Page.nth hlimit k)

/-- The order of the pages: pinned first, then by activity. -/
def Db.Precedes (db : Db) (u : UserId) (a b : ConversationId × Time) : Prop :=
  (db.isPinned u b.1 = true → db.isPinned u a.1 = true) ∧
    (db.isPinned u a.1 = db.isPinned u b.1 → b.2 ≤ a.2)

/-- What the order of a listed conversation depends on. -/
def ConversationWithMembers.entry (c : ConversationWithMembers) : ConversationId × Time := (c.id, c.activity)

def ConversationView.entry (view : ConversationView) : ConversationId × Time := (view.id, view.activity)

/-- The comparison is total and transitive, so the sorted conversations are in order. -/
theorem pairwise_sortConversations (s : Db) (u : UserId) (items : List ConversationWithMembers) :
    (sortConversations (s.isPinned u) items).Pairwise fun a b => s.Precedes u a.entry b.entry := by
  let before (a b : ConversationWithMembers) : Prop :=
    (s.isPinned u a.id = true ∧ s.isPinned u b.id = false) ∨
      (s.isPinned u a.id = s.isPinned u b.id ∧ b.activity ≤ a.activity)
  have htotal : ∀ a b, before a b ∨ before b a := by
    intro a b
    simp only [before]
    cases ha : s.isPinned u a.id <;> cases hb : s.isPinned u b.id <;>
      simp [Nat.le_total b.activity a.activity]
  have htrans : ∀ a b c, before a b → before b c → before a c := by
    intro a b c
    simp only [before]
    rintro (⟨ha, hb⟩ | ⟨hab, htab⟩) (⟨hb', hc⟩ | ⟨hbc, htbc⟩)
    · exact absurd (hb.symm.trans hb') Bool.false_ne_true
    · exact .inl ⟨ha, hbc ▸ hb⟩
    · exact .inl ⟨hab.trans hb', hc⟩
    · exact .inr ⟨hab.trans hbc, Nat.le_trans htbc htab⟩
  have : Std.Total before := ⟨htotal⟩
  have : IsTrans ConversationWithMembers before := ⟨htrans⟩
  have hsorted := List.pairwise_insertionSort before items
  refine hsorted.imp fun {a b} hab => ?_
  obtain ⟨ha, hb⟩ | ⟨hsame, htime⟩ := hab
  · refine ⟨fun _ => ha, fun hsame => ?_⟩
    exact absurd (hb.symm.trans (hsame.symm.trans ha)) Bool.false_ne_true
  · exact ⟨fun hb => hsame.trans hb, fun _ => htime⟩

theorem mem_sortedConversations (harrange : ∀ rows, (arrange rows).Perm rows) {c : ConversationId} :
    c ∈ (s.sortedConversations arrange u).map (fun item => item.id) ↔ s.Joined u c := by
  have hids : ∀ id, id ∈ s.conversationIds u ↔
      ∃ me ∈ s.members, me.conversationId = id ∧ me.userId = u.canon ∧ me.leftAt = none := by
    intro id
    simp only [Db.conversationIds, List.mem_map, List.mem_filter, decide_eq_true_eq]
    constructor
    · rintro ⟨me, ⟨hme, hactive⟩, rfl⟩
      exact ⟨me, hme, rfl, hactive⟩
    · rintro ⟨me, hme, rfl, hactive⟩
      exact ⟨me, ⟨hme, hactive⟩, rfl⟩
  simp only [Db.sortedConversations, sortConversations, List.mem_map, List.mem_insertionSort,
    (harrange _).mem_iff, List.mem_filter, decide_eq_true_eq, hids]
  constructor
  · rintro ⟨_, ⟨row, ⟨hrow, hmember, halive⟩, rfl⟩, rfl⟩
    exact ⟨row, hrow, rfl, halive, hmember⟩
  · rintro ⟨row, hrow, rfl, halive, hmember⟩
    exact ⟨_, ⟨row, ⟨hrow, hmember, halive⟩, rfl⟩, rfl⟩

theorem nodup_sortedConversations (hs : Reachable s) (harrange : ∀ rows, (arrange rows).Perm rows) :
    ((s.sortedConversations arrange u).map fun item => item.id).Nodup := by
  have hperm : (s.sortedConversations arrange u).Perm
      ((s.conversations.filter fun row => row.id ∈ s.conversationIds u ∧ row.deletedAt = none).map s.withMembers) :=
    (List.perm_insertionSort _ _).trans (harrange _)
  rw [(hperm.map _).nodup_iff, List.map_map]
  have hsub : (s.conversations.filter fun row => row.id ∈ s.conversationIds u ∧ row.deletedAt = none).Sublist
      s.conversations := List.filter_sublist
  exact hs.inv.keyed.conversations.nodup.sublist (hsub.map _)

/-! ## The pages -/

/-- A page shows its part of the sorted conversations; the database stays as it is. -/
theorem run_listConversations (harrange : ∀ rows, (arrange rows).Perm rows) (s : Db) (u : UserId) (page : Page) :
    ∃ views, run (execArranged arrange) (listConversations u page) s =
        (.ok (buildPaginatedResult views (s.sortedConversations arrange u).length page), s) ∧
      views.map ConversationView.entry =
        (((s.sortedConversations arrange u).drop page.skip).take page.take).map
          ConversationWithMembers.entry := by
  have hread : run (execArranged arrange) (perform (.findMemberships u)) s =
      (.ok (s.members.filter fun me => me.userId = u.canon ∧ me.leftAt = none), s) := rfl
  unfold listConversations
  rw [run_bind_ok _ hread]
  dsimp only
  split
  · next hnone =>
    have hids : s.conversationIds u = [] := hnone
    have hsorted : s.sortedConversations arrange u = [] := by
      have harranged : arrange [] = [] := (harrange []).eq_nil
      simp [Db.sortedConversations, hids, harranged, sortConversations]
    rw [hsorted]
    exact ⟨[], rfl, by simp⟩
  · have hload : run (execArranged arrange) (perform (.findConversations
          ((s.members.filter fun me => me.userId = u.canon ∧ me.leftAt = none).map
            ConversationMember.conversationId))) s =
        (.ok (arrange ((s.conversations.filter fun row =>
          row.id ∈ s.conversationIds u ∧ row.deletedAt = none).map s.withMembers)), s) := rfl
    rw [run_bind_ok _ hload,
      run_bind_ok _ ((run_arranged_unreadCounts u _).trans (run_unreadCounts u _)),
      run_bind_ok _ ((run_arranged_latestMessages _ u).trans (run_latestMessagesByConversation u _))]
    obtain ⟨flags, hflags⟩ := run_blockFlagsForConversations (s := s)
      (((s.sortedConversations arrange u).drop page.skip).take page.take) u
    have hlength : (s.sortedConversations arrange u).length = (arrange ((s.conversations.filter fun row =>
        row.id ∈ s.conversationIds u ∧ row.deletedAt = none).map s.withMembers)).length :=
      List.length_insertionSort _ _
    rw [hlength]
    refine ⟨_, run_bind_ok _ ((run_arranged_blockFlags _ u).trans hflags), ?_⟩
    rw [List.map_map]
    refine List.map_congr_left fun item _ => ?_
    simp only [Function.comp_apply, ConversationView.entry, ConversationWithMembers.entry, ConversationView.activity,
      ConversationWithMembers.activity, toConversationView]
    cases item.lastMessageAt <;> rfl

section Pages

variable (harrange : ∀ rows, (arrange rows).Perm rows) (s) (u) (hlimit : 0 < limit)
include harrange

theorem conversationItems_entry (k : Nat) :
    (s.conversationItems arrange u (Page.nth hlimit k)).map ConversationView.entry =
      (((s.sortedConversations arrange u).drop (k * limit)).take limit).map ConversationWithMembers.entry := by
  obtain ⟨views, hrun, hviews⟩ := run_listConversations harrange s u (Page.nth hlimit k)
  unfold Db.conversationItems
  rw [hrun]
  exact hviews

theorem conversationItems_ne_nil (k : Nat) : s.conversationItems arrange u (Page.nth hlimit k) ≠ [] ↔
    k < ((s.sortedConversations arrange u).length + limit - 1) / limit := by
  have hentries := conversationItems_entry s u harrange hlimit k
  rw [← page_ne_nil_iff hlimit, not_iff_not]
  constructor
  · intro hnil
    rw [hnil] at hentries
    exact List.map_eq_nil_iff.mp hentries.symm
  · intro hnil
    rw [hnil] at hentries
    exact List.map_eq_nil_iff.mp hentries

theorem firstPages_entry {n : Nat} (hn : (s.sortedConversations arrange u).length ≤ n * limit) :
    (s.firstPages arrange u hlimit n).map ConversationView.entry =
      (s.sortedConversations arrange u).map ConversationWithMembers.entry := by
  unfold Db.firstPages
  rw [List.map_flatMap]
  simp only [conversationItems_entry s u harrange hlimit]
  rw [← List.map_flatMap, flatMap_pages, List.take_of_length_le hn]

end Pages

/-- For every user and page size: the pages from 1 to `totalPages` together list each conversation of the user that
is not deleted exactly once, in order; the pages after them are empty, and the two flags say whether there is a
next and a previous page. -/
theorem conversations_paged (hs : Reachable s) (harrange : ∀ rows, (arrange rows).Perm rows) (u : UserId)
    (hlimit : 0 < limit) :
    ∃ totalPages,
      (∀ k, ∃ result,
        run (execArranged arrange) (listConversations u (Page.nth hlimit k)) s = (.ok result, s) ∧
        result.info.totalPages = totalPages ∧
        (totalPages < k + 1 → result.items = []) ∧
        (result.info.hasNextPage = true ↔ s.conversationItems arrange u (Page.nth hlimit (k + 1)) ≠ []) ∧
        (result.info.hasPreviousPage = true ↔ 1 < k + 1)) ∧
      ((s.firstPages arrange u hlimit totalPages).map ConversationView.id).Nodup ∧
      (∀ c, c ∈ (s.firstPages arrange u hlimit totalPages).map ConversationView.id ↔ s.Joined u c) ∧
      (s.firstPages arrange u hlimit totalPages).Pairwise fun v w => s.Precedes u v.entry w.entry := by
  have hall := firstPages_entry s u harrange hlimit (le_pages (s.sortedConversations arrange u).length hlimit)
  have hids := congrArg (List.map Prod.fst) hall
  rw [List.map_map, List.map_map] at hids
  have hids : (s.firstPages arrange u hlimit _).map ConversationView.id =
      (s.sortedConversations arrange u).map fun item => item.id := hids
  refine ⟨((s.sortedConversations arrange u).length + limit - 1) / limit, fun k => ?_, ?_, fun c => ?_, ?_⟩
  · obtain ⟨views, hrun, _⟩ := run_listConversations harrange s u (Page.nth hlimit k)
    have hitems : s.conversationItems arrange u (Page.nth hlimit k) = views := by
      unfold Db.conversationItems
      rw [hrun]
      rfl
    refine ⟨_, hrun, rfl, fun hbeyond => ?_, ?_, decide_eq_true_iff⟩
    · by_contra hne
      have hlt := (conversationItems_ne_nil s u harrange hlimit k).mp (hitems ▸ hne)
      omega
    · rw [conversationItems_ne_nil s u harrange hlimit (k + 1)]
      exact decide_eq_true_iff
  · rw [hids]
    exact nodup_sortedConversations hs harrange
  · rw [hids]
    exact mem_sortedConversations harrange
  · have hsorted := pairwise_sortConversations s u (arrange ((s.conversations.filter fun row =>
      row.id ∈ s.conversationIds u ∧ row.deletedAt = none).map s.withMembers))
    have hentries := List.pairwise_map.mpr hsorted
    exact List.pairwise_map.mp (hall ▸ hentries)

/-- Four groups of A, of which the second is pinned and the third deleted. -/
def fourGroups : List Op :=
  [.createGroup userA ['g'] [userB], .createGroup userA ['h'] [userB], .createGroup userA ['i'] [userB],
    .createGroup userA ['j'] [userB], .pinConversation 3 userA true, .deleteGroup 6 userA]

/-- The rows come in the reverse order, and a page shows two of them. -/
theorem conversations_paged_groups :
    ∃ totalPages,
      (∀ k, ∃ result,
        run (execArranged List.reverse) (listConversations userA (Page.nth (Nat.succ_pos 1) k))
          ((Db.empty 300 0).serve fourGroups) = (.ok result, (Db.empty 300 0).serve fourGroups) ∧
        result.info.totalPages = totalPages ∧
        (totalPages < k + 1 → result.items = []) ∧
        (result.info.hasNextPage = true ↔ ((Db.empty 300 0).serve fourGroups).conversationItems List.reverse userA
          (Page.nth (Nat.succ_pos 1) (k + 1)) ≠ []) ∧
        (result.info.hasPreviousPage = true ↔ 1 < k + 1)) ∧
      ((((Db.empty 300 0).serve fourGroups).firstPages List.reverse userA (Nat.succ_pos 1) totalPages).map
        ConversationView.id).Nodup ∧
      (∀ c, c ∈ (((Db.empty 300 0).serve fourGroups).firstPages List.reverse userA (Nat.succ_pos 1) totalPages).map
        ConversationView.id ↔ ((Db.empty 300 0).serve fourGroups).Joined userA c) ∧
      (((Db.empty 300 0).serve fourGroups).firstPages List.reverse userA (Nat.succ_pos 1) totalPages).Pairwise
        fun v w => ((Db.empty 300 0).serve fourGroups).Precedes userA v.entry w.entry :=
  conversations_paged ((reachable_empty 300 0).serve fourGroups) List.reverse_perm userA (Nat.succ_pos 1)

example : (((Db.empty 300 0).serve fourGroups).firstPages List.reverse userA (Nat.succ_pos 1) 2).map
    ConversationView.id = [3, 9, 0] := by decide +kernel

end Relay.Chat
