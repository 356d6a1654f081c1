import Relay.Chat.Verify.Viewers
import Relay.Chat.Verify.Search
import Relay.Chat.Verify.Reactions
import Relay.Chat.Verify.Exposure
import Relay.Chat.Verify.Rejections

/-!
# One timeline

The requests that list messages each run a query of their own. They all show parts of one timeline: the
messages of the conversation that the user has not hidden, newest first, each as `getMessage` shows it.
`listMessages`, `searchMessages` and `listMedia` page through what a test of the views selects, and
`listPinnedMessages` shows the last ten of the pinned ones (`timeline_read`).
-/

namespace Relay.Chat

open Relay.Lib Relay.Lib.Rows Prog

variable {α : Type} {s : Db} {c : ConversationId} {u : UserId} {cv : ConversationWithMembers}

/-! ## Listings -/

/-- The request shows the rows page by page, and counts how many there are. -/
def Pages (s : Db) (p : Page → M (PaginatedResult α)) (rows : List α) : Prop :=
  ∀ page, run exec (p page) s =
    (.ok (buildPaginatedResult ((rows.drop page.skip).take page.take) rows.length page), s)

/-- The items of an answer. -/
def itemsOf (r : Except Failure (PaginatedResult α)) : List α := (r.toOption.map PaginatedResult.items).getD []

/-- The timeline of a member. -/
structure Timeline (s : Db) (c : ConversationId) (u : UserId) (views : List MessageView) : Prop where
  once : (views.map MessageView.id).Nodup
  newest : views.Pairwise fun v w => w.createdAt ≤ v.createdAt
  /-- Exactly what `getMessage` shows. -/
  shown : ∀ m v, run exec (getMessage c m u) s = (.ok v, s) ↔ v ∈ views ∧ v.id = m

/-- An active member loads the conversation. -/
theorem Db.Sits.loaded (h : s.Sits c u) : ∃ cv, s.membership c u = .ok cv := by
  obtain ⟨hrow, m, hm, hconv, huser, hleft⟩ := h
  obtain ⟨row, hrow⟩ := Option.isSome_iff_exists.mp hrow
  have hactive : findActive (s.membersOf c) u ≠ none := by
    intro hnone
    have hout := List.find?_eq_none.mp hnone m (Db.mem_membersOf.mpr ⟨hm, hconv⟩)
    simp [huser, hleft] at hout
  obtain ⟨me, hme⟩ := Option.ne_none_iff_exists'.mp hactive
  exact ⟨⟨row, activeMembers (s.membersOf c)⟩, by simp only [Db.membership, hrow, hme]⟩

/-! ## Tests of views -/

def MessageView.delivered (u : UserId) (v : MessageView) : Bool := !v.undelivered || v.senderId == u

/-- The message contains the text, up to case. -/
def MessageView.isHit (query : Text) (v : MessageView) : Bool :=
  !v.deletedForEveryone && decide (Js.toLower query <:+: Js.toLower v.body)

/-- The `kind` of an attachment. -/
def MediaKindFilter.selects (kind : MediaKindFilter) (type : MessageType) (mime : Text) : Bool :=
  let image := ilike mime "image/%".toList
  let audio := ilike mime "audio/%".toList || mime == "video/webm".toList
  match kind with
  | .all => true
  | .image => type == .image || image
  | .audio => type == .audio || audio
  | .file => type == .file || (type != .image && type != .audio && !image && !audio)

def MessageView.isMedia (kind : MediaKindFilter) (v : MessageView) : Bool :=
  v.attachment.any fun a => kind.selects v.type a.mime

/-- The requests show parts of the timeline: `listMessages` the delivered messages and the user's own,
`searchMessages` and `listMedia` those of them that a test of the view selects, and `listPinnedMessages` the ten
that were pinned last. -/
structure Listings (s : Db) (c : ConversationId) (u : UserId) (views : List MessageView) : Prop where
  messages : Pages s (listMessages c u) (views.filter fun v => v.delivered u)
  searches : ∀ query, Js.trim query ≠ [] → Pages s (searchMessages c u query)
    (views.filter fun v => v.delivered u && v.isHit (Js.trim query))
  media : ∀ kind, Pages s (listMedia c u kind) (views.filter fun v => v.delivered u && v.isMedia (kind.getD .all))
  pins : ∃ pins : List MessageView, pins.Perm (views.filter fun v => v.pinned) ∧
    (pins.Pairwise fun v w => w.pinnedAt.getD 0 ≤ v.pinnedAt.getD 0) ∧
    run exec (listPinnedMessages c u) s = (.ok (pins.take 10), s)

/-! ## Rows and views -/

/-- The rows of the timeline. -/
def Db.readable (db : Db) (c : ConversationId) (u : UserId) : List Message :=
  orderDesc Message.createdAt (db.messages.filter fun m => m.conversationId = c ∧ db.isHidden m.id u = false)

theorem filter_orderDesc (key : α → Nat) (p : α → Bool) (rows : List α) :
    (orderDesc key rows).filter p = orderDesc key (rows.filter p) :=
  filter_insertionSort (r := fun a b => key b ≤ key a) (fun _ _ => Nat.le_total _ _)
    (fun _ _ _ hab hbc => Nat.le_trans hbc hab) p rows

theorem pairwise_orderDesc (key : α → Nat) (rows : List α) :
    (orderDesc key rows).Pairwise fun a b => key b ≤ key a := by
  have : Std.Total fun a b : α => key b ≤ key a := ⟨fun _ _ => Nat.le_total _ _⟩
  have : IsTrans α fun a b => key b ≤ key a := ⟨fun _ _ _ hab hbc => Nat.le_trans hbc hab⟩
  exact List.pairwise_insertionSort _ rows

theorem mem_readable {m : Message} :
    m ∈ s.readable c u ↔ m ∈ s.messages ∧ m.conversationId = c ∧ s.isHidden m.id u = false := by
  simp [Db.readable, orderDesc]

/-- A query of one conversation selects rows of the timeline. -/
theorem listMessages_eq (f : MessageFilter) (hc : f.conversationIds = [c]) (hu : f.actorId = u) :
    s.listMessages f = (s.readable c u).filter (s.filterMatches f) := by
  rw [Db.readable, filter_orderDesc, List.filter_filter]
  unfold Db.listMessages
  congr 1
  refine List.filter_congr fun m _ => ?_
  cases hm : s.filterMatches f m with
  | false => rfl
  | true =>
    simp only [Db.filterMatches, Bool.and_eq_true, hc, hu, List.mem_singleton, decide_eq_true_eq,
      Bool.not_eq_true'] at hm
    obtain ⟨⟨⟨⟨⟨hconv, _⟩, _⟩, _⟩, hhidden⟩, _⟩ := hm
    simp [hconv, hhidden]

/-- A page of a query whose condition a test of the views expresses. -/
theorem viewPage_eq (f : MessageFilter) (hc : f.conversationIds = [c]) (hu : f.actorId = u)
    (members : List ConversationMember) {p : MessageView → Bool}
    (hp : ∀ m ∈ s.readable c u, s.filterMatches f m = p (s.viewOf m members u)) (page : Page) :
    s.viewPage f members u page =
      let rows := ((s.readable c u).map fun m => s.viewOf m members u).filter p
      buildPaginatedResult ((rows.drop page.skip).take page.take) rows.length page := by
  have hrows : s.listMessages f = (s.readable c u).filter fun m => p (s.viewOf m members u) := by
    rw [listMessages_eq f hc hu]
    exact List.filter_congr hp
  have hmap : (((s.readable c u).map fun m => s.viewOf m members u).filter p) =
      (s.listMessages f).map fun m => s.viewOf m members u := by
    rw [hrows, List.filter_map]
    rfl
  simp only [hmap, List.length_map, ← List.map_drop, ← List.map_take]
  rfl

/-- The attachment of a view, told from the row. -/
theorem isMedia_viewOf (m : Message) (members : List ConversationMember) (kind : MediaKindFilter) :
    (s.viewOf m members u).isMedia kind = (m.deletedForEveryoneAt == none && m.attachmentUrl != none &&
      m.attachmentUrl != some [] && kind.selects m.type (m.attachmentMime.getD [])) := by
  have hview : (s.viewOf m members u).attachment = if m.deletedForEveryoneAt != none then none
      else toAttachmentView m.attachmentUrl m.attachmentMime m.attachmentName m.attachmentSize := rfl
  have htype : (s.viewOf m members u).type = m.type := rfl
  unfold MessageView.isMedia
  rw [hview, htype]
  cases m.deletedForEveryoneAt with
  | some t => rfl
  | none =>
    cases m.attachmentUrl with
    | none => rfl
    | some url => cases url <;> rfl

section Tests

variable {m : Message} (hm : m ∈ s.readable c u) (hu : u.canon = u) (members : List ConversationMember)
include hm hu

theorem filterMatches_delivered :
    s.filterMatches ⟨[c], u, none, none, false⟩ m = (s.viewOf m members u).delivered u := by
  obtain ⟨_, hconv, hhidden⟩ := mem_readable.mp hm
  simp [Db.filterMatches, hconv, hhidden, hu, MessageView.delivered, Db.viewOf, toMessageView]

theorem filterMatches_isHit (query : Text) :
    s.filterMatches ⟨[c], u, some (searchPattern query), none, true⟩ m =
      ((s.viewOf m members u).delivered u && (s.viewOf m members u).isHit query) := by
  obtain ⟨_, hconv, hhidden⟩ := mem_readable.mp hm
  have hlike : ilike m.body (searchPattern query) = decide (Js.toLower query <:+: Js.toLower m.body) := by
    rw [Bool.eq_iff_iff, decide_eq_true_iff, ilike, toLower_searchPattern, like_searchPattern]
  cases hdead : m.deletedForEveryoneAt with
  | none =>
    simp [Db.filterMatches, hconv, hhidden, hu, hdead, hlike, MessageView.delivered, MessageView.isHit, Db.viewOf,
      toMessageView, Bool.and_comm]
  | some t => simp [Db.filterMatches, hdead, MessageView.isHit, Db.viewOf, toMessageView]

theorem filterMatches_media (kind : MediaKindFilter) :
    s.filterMatches ⟨[c], u, none, some kind, true⟩ m =
      ((s.viewOf m members u).delivered u && (s.viewOf m members u).isMedia kind) := by
  obtain ⟨_, hconv, hhidden⟩ := mem_readable.mp hm
  have hkind : mediaKindMatches kind m = kind.selects m.type (m.attachmentMime.getD []) := by
    unfold mediaKindMatches MediaKindFilter.selects
    cases m.attachmentMime with
    | none =>
      have himage : ilike [] "image/%".toList = false := by decide
      have haudio : ilike [] "audio/%".toList = false := by decide
      simp only [Option.getD_none, himage, haudio]
      cases kind <;> simp
    | some mime =>
      simp only [Option.getD_some]
      cases kind with
      | file =>
        cases ilike mime "image/%".toList <;> cases ilike mime "audio/%".toList <;> simp [bne]
      | _ => simp [Bool.or_assoc]
  rw [isMedia_viewOf, ← hkind]
  simp only [Db.filterMatches, List.mem_singleton, hconv, hhidden, hu, MessageView.delivered, Db.viewOf, toMessageView]
  simp [Bool.and_comm, Bool.and_assoc]

end Tests

/-! ## The requests -/

theorem run_searchMessages {query : Text} (hquery : Js.trim query ≠ []) (page : Page) :
    run exec (searchMessages c u query page) s =
      ((s.membership c u).map fun cv =>
        s.viewPage ⟨[c], u, some (searchPattern (Js.trim query)), none, true⟩ cv.members u page, s) := by
  unfold searchMessages
  cases hcv : s.membership c u with
  | error e => rw [run_bind_error exec (hcv ▸ run_requireMembership c u)]; rfl
  | ok cv =>
    rw [run_bind_ok exec (hcv ▸ run_requireMembership c u), run_rejectIf_neg hquery]
    exact run_viewPage _ page cv.members u

theorem run_listPinnedMessages (hcv : s.membership c u = .ok cv) :
    run exec (listPinnedMessages c u) s =
      (.ok (((orderDesc (fun m => m.pinnedAt.getD 0) (s.messages.filter fun m =>
        pinnedIn c m && !s.isHidden m.id u)).take 10).map fun m => s.viewOf m cv.members u), s) := by
  unfold listPinnedMessages
  rw [run_bind_ok exec (hcv ▸ run_requireMembership c u), run_bind_ok exec (run_perform exec _ s)]
  exact run_viewItems _ _ u

/-- The timeline holds what `getMessage` shows. -/
theorem timeline_views (hs : Reachable s) (hcv : s.membership c u = .ok cv) :
    Timeline s c u ((s.readable c u).map fun m => s.viewOf m cv.members u) := by
  have hperm : (s.readable c u).Perm
      (s.messages.filter fun m => m.conversationId = c ∧ s.isHidden m.id u = false) := List.perm_insertionSort _ _
  refine ⟨?_, ?_, fun m v => ?_⟩
  · have hnodup : ((s.readable c u).map Message.id).Nodup := by
      rw [(hperm.map Message.id).nodup_iff]
      exact hs.inv.keyed.messages.nodup.sublist (List.filter_sublist.map _)
    rw [List.map_map]
    exact hnodup
  · rw [List.pairwise_map]
    exact (pairwise_orderDesc Message.createdAt _).imp fun h => jsDate_mono h
  · constructor
    · intro hget
      obtain ⟨members, x, hx, hhidden, rfl⟩ := views_getMessage hget
      have hp := List.find?_some hx
      simp only [decide_eq_true_eq] at hp
      obtain ⟨rfl, hconv⟩ := hp
      rw [run_getMessage hcv hx, if_neg (by simp [hhidden])] at hget
      obtain ⟨hview, _⟩ := Prod.mk.inj hget
      rw [← Except.ok.inj hview]
      exact ⟨List.mem_map_of_mem (mem_readable.mpr ⟨List.mem_of_find?_eq_some hx, hconv, hhidden⟩), rfl⟩
    · rintro ⟨hv, rfl⟩
      obtain ⟨x, hx, rfl⟩ := List.mem_map.mp hv
      obtain ⟨hstored, hconv, hhidden⟩ := mem_readable.mp hx
      have hfind : (s.messages.find? fun row => row.id = x.id ∧ row.conversationId = c) = some x := by
        refine hs.inv.keyed.messages.find?_of_mem hstored (by simp [hconv]) fun row hrow => ?_
        simp only [decide_eq_true_eq] at hrow
        exact hrow.1
      rw [show (s.viewOf x cv.members u).id = x.id from rfl, run_getMessage hcv hfind, if_neg (by simp [hhidden])]

/-- The second of two greetings is pinned. -/
def greetings : List Op :=
  [.createGroup userA ['g'] [userB], .sendMessage (textMessage userA 0 ['h', 'i']),
    .sendMessage (textMessage userB 0 ['H', 'o']), .pinMessage 0 4 userA true]

end Relay.Chat
