import Relay.Chat.Verify.Checks

/-!
# What a response shows of a message

A response shows a message in full, in a view with its id, or quotes it in the preview of a reply.
`Db.listed` is the list of messages a reading operation puts into its response, and
`reads_carries_iff` says what the response then carries. The queries behind `Db.listed` leave out what
the reader has hidden and what was not delivered to the reader; the rows behind a preview are loaded by
their ids alone.
-/

namespace Relay.Chat

open Relay.Lib Relay.Lib.Rows Prog

variable {s : Db}

/-! ## Views -/

/-- The preview shows something of the message. -/
def MessageReplyView.Carries (p : MessageReplyView) (m : MessageId) : Prop := p.id = m ∧ p.body ≠ []

/-- The view shows the body or the attachment of the message, or its preview quotes the message. -/
def MessageView.Carries (v : MessageView) (m : MessageId) : Prop :=
  (v.id = m ∧ (v.body ≠ [] ∨ v.attachment ≠ none)) ∨ ∃ p ∈ v.replyTo, p.Carries m

/-- The message views a response consists of. -/
def Response.views : Response → List MessageView
  | .conversation view => view.lastMessage.toList
  | .conversations page => page.items.filterMap ConversationView.lastMessage
  | .messages page => page.items
  | .hits page => page.items.map GlobalSearchHitView.message
  | .message view => [view]
  | .pinned views => views
  | .sent result => [result.view]
  | .deleted result => [result.message]
  | .expired results => results.map DeleteMessageResult.message
  | .dispatched results => results.map SendMessageResult.view
  | _ => []

/-- The response carries the body or the attachment of the message. -/
def Response.Carries (r : Response) (m : MessageId) : Prop := ∃ v ∈ r.views, v.Carries m

instance (p : MessageReplyView) (m : MessageId) : Decidable (p.Carries m) :=
  inferInstanceAs (Decidable (_ ∧ _))

instance (v : MessageView) (m : MessageId) : Decidable (v.Carries m) :=
  inferInstanceAs (Decidable (_ ∨ _))

instance (r : Response) (m : MessageId) : Decidable (r.Carries m) :=
  inferInstanceAs (Decidable (∃ v ∈ r.views, v.Carries m))

/-- A run on a fixed input that returns what is looked for. -/
theorem exists_ok_of_map {ε α : Type} {P : α → Prop} [DecidablePred P] {r : Except ε α}
    (h : (r.map fun a => decide (P a)) = .ok true) : ∃ a, r = .ok a ∧ P a := by
  cases r with
  | error e => cases h
  | ok a => exact ⟨a, rfl, of_decide_eq_true (Except.ok.inj h)⟩

/-- There is something to show of the message. -/
def Message.Shows (m : Message) : Prop :=
  m.deletedForEveryoneAt = none ∧ (m.body ≠ [] ∨ orNull m.attachmentUrl ≠ none)

theorem toAttachmentView_eq_none {url mime name : Option Text} {size : Option Nat} :
    toAttachmentView url mime name size = none ↔ orNull url = none := Option.map_eq_none_iff

theorem toMessageView_carries {x : Message} {members : List ConversationMember}
    {replyTo : Option Message} {reactions : List MessageReaction} {u : UserId} {m : MessageId} :
    (toMessageView x members replyTo reactions u).Carries m ↔
      (x.id = m ∧ x.Shows) ∨ ∃ p, replyTo = some p ∧ p.id = m ∧ replyBody p ≠ [] := by
  unfold MessageView.Carries Message.Shows
  refine or_congr (and_congr_right fun _ => ?_) ?_
  · by_cases hdel : x.deletedForEveryoneAt = none
    · simp [toMessageView, hdel, toAttachmentView_eq_none]
    · simp [toMessageView, hdel]
  · constructor
    · rintro ⟨_, hp, hcarries⟩
      obtain ⟨p, rfl, rfl⟩ := Option.map_eq_some_iff.mp hp
      exact ⟨p, rfl, hcarries⟩
    · rintro ⟨p, rfl, hcarries⟩
      exact ⟨toReplyView p, rfl, hcarries⟩

/-- What the preview of a reply to the message shows of it. -/
def Db.preview (db : Db) (m : MessageId) : Text :=
  ((db.messages.find? fun row => row.id = m).map replyBody).getD []

theorem preview_of_mem (h : WellKeyed s) {m : Message} (hm : m ∈ s.messages) :
    s.preview m.id = replyBody m := by
  unfold Db.preview
  rw [h.messages.find?_eq_some.mpr ⟨hm, rfl⟩]
  rfl

/-- The message shows another one in its preview. -/
def Db.Quotes (db : Db) (x : Message) (m : MessageId) : Prop :=
  x.replyToMessageId = some m ∧ db.preview m ≠ []

theorem viewOf_carries {x : Message} {members : List ConversationMember} {u : UserId}
    {m : MessageId} :
    (s.viewOf x members u).Carries m ↔ (x.id = m ∧ x.Shows) ∨ s.Quotes x m := by
  unfold Db.viewOf
  rw [toMessageView_carries]
  refine or_congr Iff.rfl ?_
  unfold Db.replyRow Db.Quotes Db.preview
  constructor
  · rintro ⟨p, hp, rfl, hbody⟩
    obtain ⟨id, hid, hfind⟩ := Option.bind_eq_some_iff.mp hp
    have hpid : p.id = id := by simpa using List.find?_some hfind
    subst hpid
    rw [hfind]
    exact ⟨hid, hbody⟩
  · rintro ⟨hid, hbody⟩
    rw [hid]
    cases hfind : s.messages.find? fun row => row.id = m with
    | none =>
      rw [hfind] at hbody
      exact absurd rfl hbody
    | some p =>
      rw [hfind] at hbody
      have hpid : p.id = m := by simpa using List.find?_some hfind
      exact ⟨p, hfind, hpid, hbody⟩

/-! ## Reading operations -/

def Op.reading : Op → Bool
  | .listMessages _ _ _ | .searchMessages _ _ _ _ | .searchGlobal _ _ _ | .listMedia _ _ _ _
  | .getMessage _ _ _ | .listPinnedMessages _ _ | .listConversations _ _ => true
  | _ => false

/-- The operation shows the messages with their reply previews. -/
def Op.quoting : Op → Bool
  | .listConversations _ _ => false
  | op => op.reading

theorem eq_listConversations {op : Op} (hop : op.reading = true) (hquoting : op.quoting = false) :
    ∃ u page, op = .listConversations u page := by
  cases op with
  | listConversations u page => exact ⟨u, page, rfl⟩
  | _ => first
    | cases hop; done
    | cases hquoting

/-- A page of the messages a filter selects, newest first. -/
def Db.pageOf (db : Db) (f : MessageFilter) (page : Page) : List Message :=
  ((db.listMessages f).drop page.skip).take page.take

/-- The conversations the user is an active member of. -/
def Db.conversationIds (db : Db) (u : UserId) : List ConversationId :=
  (db.members.filter fun m => m.userId = u.canon ∧ m.leftAt = none).map
    ConversationMember.conversationId

/-- The conversations on a page of `listConversations`. -/
def Db.conversationPage (db : Db) (u : UserId) (page : Page) : List ConversationWithMembers :=
  let memberships := db.members.filter fun m => m.userId = u.canon ∧ m.leftAt = none
  let pinned (c : ConversationId) : Bool :=
    memberships.any fun member => member.conversationId = c ∧ member.pinnedAt ≠ none
  let items := (db.conversations.filter fun row =>
    row.id ∈ db.conversationIds u ∧ row.deletedAt = none).map db.withMembers
  ((sortConversations pinned items).drop page.skip).take page.take

/-- The last message of a conversation on the page. -/
def Db.lastMessage (db : Db) (u : UserId) (page : Page) (c : ConversationId) : Option Message :=
  (db.latestRows u ((db.conversationPage u page).map fun item => item.id)).find? fun m =>
    m.conversationId = c

/-- The messages a reading operation puts into its response. -/
def Db.listed (db : Db) : Op → List Message
  | .listMessages c u page => db.pageOf ⟨[c], u, none, none, false⟩ page
  | .searchMessages c u query page =>
    db.pageOf ⟨[c], u, some (searchPattern (Js.trim query)), none, true⟩ page
  | .searchGlobal u query page =>
    if (Js.trim query).length < 2 then []
    else
      db.pageOf ⟨db.conversationIds u, u, some (searchPattern (Js.trim query)), none, true⟩ page
  | .listMedia c u kind page => db.pageOf ⟨[c], u, none, some (kind.getD .all), true⟩ page
  | .getMessage c m _ => (db.messages.find? fun row => row.id = m ∧ row.conversationId = c).toList
  | .listPinnedMessages c u =>
    (orderDesc (fun m => m.pinnedAt.getD 0) (db.messages.filter fun m =>
      pinnedIn c m && !db.isHidden m.id u)).take 10
  | .listConversations u page =>
    (db.conversationPage u page).filterMap fun item => db.lastMessage u page item.id
  | _ => []

/-! ### What the operations return -/

theorem run_map_ok {α β : Type} {f : α → β} {p : M α} {b : β}
    (h : (run exec (f <$> p) s).1 = .ok b) : ∃ a t, run exec p s = (.ok a, t) ∧ f a = b := by
  rw [run_map] at h
  rcases hp : run exec p s with ⟨e | a, t⟩
  · rw [hp] at h
    cases h
  · rw [hp] at h
    exact ⟨a, t, rfl, Except.ok.inj h⟩

theorem run_requireMembership_ok {β : Type} {c : ConversationId} {u : UserId}
    {f : ConversationWithMembers → M β} {b : β} {t : Db}
    (h : run exec (requireMembership c u >>= f) s = (.ok b, t)) :
    ∃ cv, s.membership c u = .ok cv ∧ run exec (f cv) s = (.ok b, t) := by
  cases hcv : s.membership c u with
  | error e =>
    rw [run_bind_error exec (hcv ▸ run_requireMembership c u)] at h
    cases h
  | ok cv =>
    rw [run_bind_ok exec (hcv ▸ run_requireMembership c u)] at h
    exact ⟨cv, rfl, h⟩

/-- The views of the listed messages. -/
def Db.viewsOf (db : Db) (items : List Message) (members : Message → List ConversationMember)
    (u : UserId) : List MessageView :=
  items.map fun item => db.viewOf item (members item) u

theorem pageOf_nil {u : UserId} {pattern : Option Text} {media : Option MediaKindFilter}
    {onlyAlive : Bool} {page : Page} : s.pageOf ⟨[], u, pattern, media, onlyAlive⟩ page = [] := by
  have hnone : s.filterMatches ⟨[], u, pattern, media, onlyAlive⟩ = fun _ => false := by
    funext m
    simp [Db.filterMatches]
  simp [Db.pageOf, Db.listMessages, hnone, orderDesc]

/-- What `loadConversations` answers. -/
def Db.conversationsIn (db : Db) (ids : List ConversationId) : List ConversationWithMembers :=
  (db.conversations.filter fun row => row.id ∈ ids ∧ row.deletedAt = none).map db.withMembers

theorem run_loadConversations (ids : List ConversationId) :
    run exec (loadConversations ids) s = (.ok (s.conversationsIn ids), s) := by
  unfold loadConversations Db.conversationsIn
  split
  · next hnil => simp [hnil]
  · exact run_perform exec _ s

/-- The hits of a search are its views with a conversation each. -/
theorem views_hits (views : List MessageView) (f : MessageView → GlobalSearchConversationView)
    (total : Nat) (page : Page) :
    (Response.hits
      (buildPaginatedResult (views.map fun view => ⟨view, f view⟩) total page)).views = views := by
  change List.map _ (List.map _ views) = views
  rw [List.map_map]
  exact List.map_id views

theorem views_searchGlobal {u : UserId} {query : Text} {page : Page}
    {result : PaginatedResult GlobalSearchHitView} {t : Db}
    (h : run exec (searchGlobal u query page) s = (.ok result, t)) :
    ∃ members, (Response.hits result).views =
      s.viewsOf (s.listed (.searchGlobal u query page)) members u := by
  unfold searchGlobal at h
  obtain ⟨_, h⟩ := run_rejectIf_ok h
  simp only [Db.listed]
  split at h
  · next hshort =>
    cases h
    rw [if_pos hshort]
    exact ⟨fun _ => [], rfl⟩
  · next hlong =>
    rw [if_neg hlong]
    rw [run_bind_ok exec (run_perform exec _ s)] at h
    dsimp only at h
    split at h
    · next hnone =>
      cases h
      rw [show s.conversationIds u = [] from hnone, pageOf_nil]
      exact ⟨fun _ => [], rfl⟩
    · rw [run_bind_ok exec (run_perform exec _ s)] at h
      dsimp only at h
      rw [run_bind_ok exec (run_loadConversations _), run_bind_ok exec (run_viewItems _ _ u)] at h
      cases h
      let items := s.pageOf
        ⟨s.conversationIds u, u, some (searchPattern (Js.trim query)), none, true⟩ page
      refine ⟨hitMembers (s.conversationsIn (items.map Message.conversationId).eraseDups), ?_⟩
      exact views_hits _ _ _ page

theorem views_getMessage {c : ConversationId} {m : MessageId} {u : UserId} {result : MessageView}
    {t : Db} (h : run exec (getMessage c m u) s = (.ok result, t)) :
    ∃ members x, (s.messages.find? fun row => row.id = m ∧ row.conversationId = c) = some x ∧
      s.isHidden x.id u = false ∧ result = s.viewOf x members u := by
  unfold getMessage at h
  obtain ⟨cv, hcv, h⟩ := run_requireMembership_ok h
  rw [run_bind_ok exec (run_perform exec _ s)] at h
  obtain ⟨x, hx, h⟩ := run_require_ok h
  rw [run_bind_ok exec (run_perform exec _ s)] at h
  obtain ⟨hhide, h⟩ := run_rejectIf_ok h
  rw [run_bind_ok exec (run_loadReplyParents [x]), run_bind_ok exec (run_loadReactions [x.id])] at h
  cases h
  refine ⟨cv.members, x, hx, ?_, ?_⟩
  · have hnone := List.find?_eq_none.mp (not_not.mp hhide)
    unfold Db.isHidden
    rw [List.any_eq_false]
    intro row hrow
    simpa using hnone row hrow
  · rw [replyOf_filter fun r hr => by simp [hr], reactionsOf_filter List.mem_cons_self]
    rfl

/-- A reading operation returns the views of the messages it lists. -/
theorem quoting_views {op : Op} (hop : op.quoting = true) {r : Response}
    (hr : (op.run s).1 = .ok r) :
    ∃ members u, op.actor = some u ∧ r.views = s.viewsOf (s.listed op) members u := by
  cases op with
  | listMessages c u page =>
    obtain ⟨a, t, ha, rfl⟩ := run_map_ok hr
    obtain ⟨cv, _, ha⟩ := run_requireMembership_ok ha
    cases (run_viewPage _ page cv.members u).symm.trans ha
    exact ⟨fun _ => cv.members, u, rfl, rfl⟩
  | searchMessages c u query page =>
    obtain ⟨a, t, ha, rfl⟩ := run_map_ok hr
    obtain ⟨cv, _, ha⟩ := run_requireMembership_ok ha
    obtain ⟨_, ha⟩ := run_rejectIf_ok ha
    cases (run_viewPage _ page cv.members u).symm.trans ha
    exact ⟨fun _ => cv.members, u, rfl, rfl⟩
  | searchGlobal u query page =>
    obtain ⟨a, t, ha, rfl⟩ := run_map_ok hr
    obtain ⟨members, hviews⟩ := views_searchGlobal ha
    exact ⟨members, u, rfl, hviews⟩
  | listMedia c u kind page =>
    obtain ⟨a, t, ha, rfl⟩ := run_map_ok hr
    obtain ⟨cv, _, ha⟩ := run_requireMembership_ok ha
    cases (run_viewPage _ page cv.members u).symm.trans ha
    exact ⟨fun _ => cv.members, u, rfl, rfl⟩
  | getMessage c m u =>
    obtain ⟨a, t, ha, rfl⟩ := run_map_ok hr
    obtain ⟨members, x, hx, _, rfl⟩ := views_getMessage ha
    refine ⟨fun _ => members, u, rfl, ?_⟩
    simp only [Db.listed, hx]
    rfl
  | listPinnedMessages c u =>
    obtain ⟨a, t, ha, rfl⟩ := run_map_ok hr
    obtain ⟨cv, _, ha⟩ := run_requireMembership_ok ha
    rw [run_bind_ok exec (run_perform exec _ s), run_viewItems] at ha
    cases ha
    exact ⟨fun _ => cv.members, u, rfl, rfl⟩
  | _ => cases hop

theorem latestRows_conversation {u : UserId} {ids : List ConversationId} {m : Message}
    (h : m ∈ s.latestRows u ids) :
    m ∈ s.messages ∧ m.conversationId ∈ ids ∧ (m.undelivered = false ∨ m.senderId = u.canon) := by
  unfold Db.latestRows at h
  obtain ⟨c, hc, hm⟩ := List.mem_filterMap.mp h
  have hmem : m ∈ orderDesc Message.createdAt (s.messages.filter fun m =>
      m.conversationId = c ∧ (m.undelivered = false ∨ m.senderId = u.canon)) := by
    rcases Option.or_eq_some_iff.mp hm with hfind | ⟨_, hhead⟩
    · exact List.mem_of_find?_eq_some hfind
    · exact List.mem_of_head? hhead
  rw [orderDesc, List.mem_insertionSort, List.mem_filter] at hmem
  simp only [decide_eq_true_eq] at hmem
  exact ⟨hmem.1, hmem.2.1 ▸ List.mem_eraseDups.mp hc, hmem.2.2⟩

theorem run_latestMessagesByConversation (u : UserId) (ids : List ConversationId) :
    run exec (latestMessagesByConversation ids u) s = (.ok (s.latestRows u ids), s) := by
  unfold latestMessagesByConversation
  split
  · next hnil => rw [hnil]; rfl
  · exact run_perform exec _ s

/-- What `blockFlagsForConversations` answers is read from the database, which stays. -/
theorem run_blockFlagsForConversations (cvs : List ConversationWithMembers) (u : UserId) :
    ∃ flags, run exec (blockFlagsForConversations cvs u) s = (.ok flags, s) := by
  unfold blockFlagsForConversations
  dsimp only
  split
  · exact ⟨_, rfl⟩
  · rw [run_bind_ok exec (run_perform exec _ s)]
    exact ⟨_, rfl⟩

/-- The views of the last messages have no previews. -/
theorem views_listConversations {u : UserId} {page : Page}
    {result : PaginatedResult ConversationView} {t : Db}
    (h : run exec (listConversations u page) s = (.ok result, t)) :
    (Response.conversations result).views = (s.conversationPage u page).filterMap fun item =>
      (s.lastMessage u page item.id).map fun m =>
        toMessageView m (activeMembers item.members) none [] u := by
  unfold listConversations at h
  rw [run_bind_ok exec (run_perform exec _ s)] at h
  dsimp only at h
  split at h
  · next hnone =>
    cases h
    have hpage : s.conversationPage u page = [] := by
      have hids : s.conversationIds u = [] := hnone
      simp [Db.conversationPage, hids, sortConversations]
    rw [hpage]
    rfl
  · rw [run_bind_ok exec (run_perform exec _ s), run_bind_ok exec (run_unreadCounts _ _),
      run_bind_ok exec (run_latestMessagesByConversation _ _)] at h
    obtain ⟨flags, hflags⟩ := run_blockFlagsForConversations (s := s) (s.conversationPage u page) u
    cases (run_bind_ok exec hflags).symm.trans h
    change List.filterMap _ (List.map _ _) = _
    rw [List.filterMap_map]
    rfl

/-! ### What they carry -/

/-- A reading operation shows what it lists, and quotes what the listed messages reply to. -/
theorem reads_carries_iff {op : Op} (hop : op.reading = true) {r : Response}
    (hr : (op.run s).1 = .ok r) (m : MessageId) :
    r.Carries m ↔ ∃ x ∈ s.listed op,
      (x.id = m ∧ x.Shows) ∨ (op.quoting = true ∧ s.Quotes x m) := by
  unfold Response.Carries
  cases hquoting : op.quoting with
  | true =>
    obtain ⟨members, u, _, hviews⟩ := quoting_views hquoting hr
    rw [hviews]
    constructor
    · rintro ⟨v, hv, hcarries⟩
      obtain ⟨x, hx, rfl⟩ := List.mem_map.mp hv
      exact ⟨x, hx, (viewOf_carries.mp hcarries).imp_right fun hq => ⟨rfl, hq⟩⟩
    · rintro ⟨x, hx, hcarries⟩
      exact ⟨_, List.mem_map_of_mem hx, viewOf_carries.mpr (hcarries.imp_right And.right)⟩
  | false =>
    obtain ⟨u, page, rfl⟩ := eq_listConversations hop hquoting
    obtain ⟨result, t, hrun, rfl⟩ := run_map_ok hr
    rw [views_listConversations hrun]
    simp only [Db.listed, List.mem_filterMap, Bool.false_eq_true, false_and, or_false]
    constructor
    · rintro ⟨v, ⟨item, hitem, hv⟩, hcarries⟩
      obtain ⟨x, hx, rfl⟩ := Option.map_eq_some_iff.mp hv
      refine ⟨x, ⟨item, hitem, hx⟩, ?_⟩
      exact (toMessageView_carries.mp hcarries).resolve_right fun ⟨_, hp, _⟩ => nomatch hp
    · rintro ⟨x, ⟨item, hitem, hx⟩, hcarries⟩
      exact ⟨_, ⟨item, hitem, Option.map_eq_some_iff.mpr ⟨x, hx, rfl⟩⟩,
        toMessageView_carries.mpr (.inl hcarries)⟩

theorem mem_pageOf {f : MessageFilter} {page : Page} {x : Message} (h : x ∈ s.pageOf f page) :
    x ∈ s.messages ∧ s.isHidden x.id f.actorId = false ∧
      (x.undelivered = false ∨ x.senderId = f.actorId.canon) := by
  have hx := List.mem_of_mem_drop (List.mem_of_mem_take h)
  rw [Db.listMessages, orderDesc, List.mem_insertionSort, List.mem_filter] at hx
  have hfilter := hx.2
  simp only [Db.filterMatches, Bool.and_eq_true, Bool.or_eq_true, Bool.not_eq_true',
    beq_iff_eq] at hfilter
  exact ⟨hx.1, hfilter.1.2, hfilter.2⟩

/-- What is listed is stored. -/
theorem listed_stored {op : Op} {x : Message} (hx : x ∈ s.listed op) : x ∈ s.messages := by
  cases op with
  | listMessages c u page => exact (mem_pageOf hx).1
  | searchMessages c u query page => exact (mem_pageOf hx).1
  | searchGlobal u query page =>
    simp only [Db.listed] at hx
    split at hx
    · cases hx
    · exact (mem_pageOf hx).1
  | listMedia c u kind page => exact (mem_pageOf hx).1
  | getMessage c m u => exact List.mem_of_find?_eq_some (Option.mem_toList.mp hx)
  | listPinnedMessages c u =>
    have hx := List.mem_of_mem_take hx
    rw [orderDesc, List.mem_insertionSort, List.mem_filter] at hx
    exact hx.1
  | listConversations u page =>
    obtain ⟨item, _, hx⟩ := List.mem_filterMap.mp hx
    exact (latestRows_conversation (List.mem_of_find?_eq_some hx)).1
  | _ => cases hx

/-- The operations that show previews leave out the messages their reader has hidden. -/
theorem listed_unhidden {op : Op} (hop : op.quoting = true) {r : Response}
    (hr : (op.run s).1 = .ok r) {u : UserId} (hu : op.actor = some u) {x : Message}
    (hx : x ∈ s.listed op) : s.isHidden x.id u = false := by
  cases op with
  | listMessages c u page => cases hu; exact (mem_pageOf hx).2.1
  | searchMessages c u query page => cases hu; exact (mem_pageOf hx).2.1
  | searchGlobal u query page =>
    cases hu
    simp only [Db.listed] at hx
    split at hx
    · cases hx
    · exact (mem_pageOf hx).2.1
  | listMedia c u kind page => cases hu; exact (mem_pageOf hx).2.1
  | getMessage c m u =>
    cases hu
    obtain ⟨_, _, hrun, rfl⟩ := run_map_ok hr
    obtain ⟨_, y, hy, hhidden, _⟩ := views_getMessage hrun
    have hxy : some y = some x := hy.symm.trans (Option.mem_toList.mp hx)
    cases hxy
    exact hhidden
  | listPinnedMessages c u =>
    cases hu
    have hx := List.mem_of_mem_take hx
    rw [orderDesc, List.mem_insertionSort, List.mem_filter] at hx
    simpa using (Bool.and_eq_true_iff.mp hx.2).2
  | _ => cases hop

/-- The reading operations whose query leaves out what is not delivered to the reader. -/
def Op.delivering : Op → Bool
  | .getMessage _ _ _ | .listPinnedMessages _ _ => false
  | op => op.reading

theorem listed_delivered {op : Op} (hop : op.delivering = true) {u : UserId}
    (hu : op.actor = some u) {x : Message} (hx : x ∈ s.listed op) :
    x.undelivered = false ∨ x.senderId = u.canon := by
  cases op with
  | listMessages c u page => cases hu; exact (mem_pageOf hx).2.2
  | searchMessages c u query page => cases hu; exact (mem_pageOf hx).2.2
  | searchGlobal u query page =>
    cases hu
    simp only [Db.listed] at hx
    split at hx
    · cases hx
    · exact (mem_pageOf hx).2.2
  | listMedia c u kind page => cases hu; exact (mem_pageOf hx).2.2
  | listConversations u page =>
    cases hu
    obtain ⟨item, _, hx⟩ := List.mem_filterMap.mp hx
    exact (latestRows_conversation (List.mem_of_find?_eq_some hx)).2.2
  | _ => cases hop

end Relay.Chat
