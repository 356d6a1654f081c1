import Relay.Chat.Verify.Reads
import Relay.Chat.Verify.Lawful

/-!
# Databases that agree on what may be seen

`Agree hidden A s t` relates two databases that may differ inside the conversations of a set
`hidden`, in the content and the reactions of messages deleted for everyone, and, unless `A` holds,
in the audit log. The lemmas of this file say that the queries of the service answer alike in such
databases, as long as they ask for conversations outside `hidden`.
-/

namespace Relay.Chat

open Relay.Lib Relay.Lib.Rows Prog

/-! ## Tombstones -/

/-- The message without its content, if it is deleted for everyone. -/
def Message.redact (m : Message) : Message :=
  if m.deletedForEveryoneAt = none then m
  else
    { m with
      body := []
      attachmentUrl := none
      attachmentMime := none
      attachmentName := none
      attachmentSize := none
      mentions := []
      linkPreview := none }

section Redact

variable {m m' : Message}

/-- Messages that look the same when redacted are the same, or both deleted and different in their
content only. -/
theorem redact_eq_redact (h : m.redact = m'.redact) :
    m = m' ∨ m.deletedForEveryoneAt ≠ none ∧
      ∃ body url mime name size mentions preview,
        m' = { m with
          body := body, attachmentUrl := url, attachmentMime := mime, attachmentName := name,
          attachmentSize := size, mentions := mentions, linkPreview := preview } := by
  have hdel : m.deletedForEveryoneAt = m'.deletedForEveryoneAt := by
    have hfield := congrArg Message.deletedForEveryoneAt h
    unfold Message.redact at hfield
    split at hfield <;> split at hfield <;> exact hfield
  unfold Message.redact at h
  by_cases hm : m.deletedForEveryoneAt = none
  · rw [if_pos hm, if_pos (hdel.symm.trans hm)] at h
    exact .inl h
  · rw [if_neg hm, if_neg fun hm' => hm (hdel.trans hm')] at h
    refine .inr ⟨hm, m'.body, m'.attachmentUrl, m'.attachmentMime, m'.attachmentName,
      m'.attachmentSize, m'.mentions, m'.linkPreview, ?_⟩
    cases m
    cases m'
    simp only [Message.mk.injEq] at h ⊢
    simp_all

theorem redact_deletedForEveryoneAt (h : m.redact = m'.redact) :
    m.deletedForEveryoneAt = m'.deletedForEveryoneAt := by
  obtain rfl | ⟨_, b, u, mi, n, sz, me, p, rfl⟩ := redact_eq_redact h <;> rfl

/-- Only tombstones are redacted. -/
theorem eq_of_redact (h : m.redact = m'.redact) (halive : m.deletedForEveryoneAt = none) :
    m = m' := by
  obtain h | ⟨hdel, _⟩ := redact_eq_redact h
  · exact h
  · exact absurd halive hdel

theorem redact_origin (h : m.redact = m'.redact) : m.origin = m'.origin := by
  obtain rfl | ⟨_, b, u, mi, n, sz, me, p, rfl⟩ := redact_eq_redact h <;> rfl

@[simp] theorem origin_redact (m : Message) : m.redact.origin = m.origin := by
  unfold Message.redact
  split <;> rfl

/-- A reply preview of a tombstone shows nothing of it. -/
theorem toReplyView_redact (h : m.redact = m'.redact) : toReplyView m = toReplyView m' := by
  obtain rfl | ⟨hdel, b, u, mi, n, sz, me, p, rfl⟩ := redact_eq_redact h
  · rfl
  · simp [toReplyView, replyBody, hdel]

/-- Neither does its view; its reactions are left out as well. -/
theorem toMessageView_redact (h : m.redact = m'.redact) (members : List ConversationMember)
    {r r' : Option Message} (hr : r.map Message.redact = r'.map Message.redact)
    {rs rs' : List MessageReaction} (hrs : m.deletedForEveryoneAt = none → rs = rs') (u : UserId) :
    toMessageView m members r rs u = toMessageView m' members r' rs' u := by
  have hreply : r.map toReplyView = r'.map toReplyView := by
    cases r <;> cases r'
    · rfl
    · cases hr
    · cases hr
    · exact congrArg some (toReplyView_redact (Option.some.inj hr))
  obtain rfl | ⟨hdel, b, u, mi, n, sz, me, p, rfl⟩ := redact_eq_redact h
  · unfold toMessageView
    rw [hreply]
    by_cases hdel : m.deletedForEveryoneAt = none
    · rw [hrs hdel]
    · simp [hdel]
  · simp [toMessageView, seenBy, hdel, hreply]

/-- Sorting by a column that is never redacted. -/
theorem map_orderDesc {l l' : List Message} (key : Message → Nat)
    (hkey : ∀ m, key m.redact = key m) (heq : l.map Message.redact = l'.map Message.redact) :
    (orderDesc key l).map Message.redact = (orderDesc key l').map Message.redact := by
  unfold orderDesc
  have hmap : ∀ l : List Message, (l.insertionSort fun a b => key b ≤ key a).map Message.redact =
      (l.map Message.redact).insertionSort fun a b => key b ≤ key a := fun l =>
    List.map_insertionSort _ _ _ _ fun a _ b _ => by rw [hkey, hkey]
  rw [hmap, hmap, heq]

theorem redact_createdAt (m : Message) : m.redact.createdAt = m.createdAt := by
  unfold Message.redact
  split <;> rfl

theorem redact_pinnedAt (m : Message) : m.redact.pinnedAt = m.pinnedAt := by
  unfold Message.redact
  split <;> rfl

end Redact

/-! ## Agreement -/

/-- The messages outside `hidden`, redacted. -/
def Db.seen (db : Db) (hidden : ConversationId → Bool) : List Message :=
  (db.messages.filter fun m => !hidden m.conversationId).map Message.redact

/-- No message of a hidden conversation has this id. -/
def Db.Shows (db : Db) (hidden : ConversationId → Bool) (id : MessageId) : Prop :=
  ∀ m ∈ db.messages, m.id = id → hidden m.conversationId = false

/-- Nor has a message deleted for everyone. -/
def Db.ShowsAlive (db : Db) (hidden : ConversationId → Bool) (id : MessageId) : Prop :=
  ∀ m ∈ db.messages, m.id = id → hidden m.conversationId = false ∧ m.deletedForEveryoneAt = none

structure Agree (hidden : ConversationId → Bool) (A : Prop) (s t : Db) : Prop where
  conversations :
    s.conversations.filter (fun c => !hidden c.id) = t.conversations.filter (fun c => !hidden c.id)
  /-- The same conversations exist. -/
  stored : ∀ c, (s.findConversation c).isSome = (t.findConversation c).isSome
  members :
    s.members.filter (fun m => !hidden m.conversationId) =
      t.members.filter (fun m => !hidden m.conversationId)
  messages : s.seen hidden = t.seen hidden
  hides : ∀ id, s.Shows hidden id → t.Shows hidden id →
    s.messageHides.filter (fun h => h.messageId = id) =
      t.messageHides.filter (fun h => h.messageId = id)
  reactions : ∀ id, s.ShowsAlive hidden id → t.ShowsAlive hidden id →
    s.reactionsTo id = t.reactionsTo id
  scheduledMessages :
    s.scheduledMessages.filter (fun m => !hidden m.conversationId) =
      t.scheduledMessages.filter (fun m => !hidden m.conversationId)
  userBlocks : s.userBlocks = t.userBlocks
  auditEvents : A → s.auditEvents = t.auditEvents
  workspaceSettings : s.workspaceSettings = t.workspaceSettings
  nextId : s.nextId = t.nextId
  now : s.now = t.now
  timeZone : s.timeZone = t.timeZone

/-- What is known of one of the two databases: `u` takes part in no hidden conversation, and hidden
conversations are among the stored ones. -/
structure Ready (hidden : ConversationId → Bool) (u : UserId) (s : Db) : Prop where
  inv : Inv s
  outside : ∀ m ∈ s.members, hidden m.conversationId = true → m.userId = u.canon →
    m.leftAt ≠ none
  fresh : ∀ c, s.nextId ≤ c → hidden c = false

namespace Agree

variable {hidden : ConversationId → Bool} {A : Prop} {s t : Db} (h : Agree hidden A s t)
include h

theorem symm : Agree hidden A t s where
  conversations := h.conversations.symm
  stored := fun c => (h.stored c).symm
  members := h.members.symm
  messages := h.messages.symm
  hides := fun id ht hs => (h.hides id hs ht).symm
  reactions := fun id ht hs => (h.reactions id hs ht).symm
  scheduledMessages := h.scheduledMessages.symm
  userBlocks := h.userBlocks.symm
  auditEvents := fun ha => (h.auditEvents ha).symm
  workspaceSettings := h.workspaceSettings.symm
  nextId := h.nextId.symm
  now := h.now.symm
  timeZone := h.timeZone.symm

/-! ### Conversations and members -/

theorem findConversation {c : ConversationId} (hc : hidden c = false) :
    s.findConversation c = t.findConversation c := by
  refine find?_eq_of_filter_eq h.conversations ?_ ?_ <;>
  · intro row _ hrow
    simp only [decide_eq_true_eq] at hrow
    simp [hrow.1, hc]

theorem membersOf {c : ConversationId} (hc : hidden c = false) :
    s.membersOf c = t.membersOf c := by
  refine filter_eq_of_filter_eq h.members ?_ ?_ <;>
  · intro row _ hrow
    simp only [decide_eq_true_eq] at hrow
    simp [hrow, hc]

theorem withMembers {c : Conversation} (hc : hidden c.id = false) :
    s.withMembers c = t.withMembers c := by
  unfold Db.withMembers
  rw [h.membersOf hc]

/-- The actor is told the same about a hidden conversation. -/
theorem membership {u : UserId} (hs : Ready hidden u s) (ht : Ready hidden u t)
    (c : ConversationId) : s.membership c u = t.membership c u := by
  have hnone : ∀ {s : Db}, Ready hidden u s → hidden c = true →
      findActive (s.membersOf c) u = none := by
    intro s hs hc
    cases hm : findActive (s.membersOf c) u with
    | none => rfl
    | some m =>
      obtain ⟨hmem, hu, hleft⟩ := findActive_eq_some hm
      obtain ⟨hmem, hconv⟩ := Db.mem_membersOf.mp hmem
      refine absurd hleft (hs.outside m hmem (hconv.symm ▸ hc) ?_)
      rw [← hu, hs.inv.canon m hmem]
  unfold Db.membership
  cases hc : hidden c with
  | false => rw [h.findConversation hc, h.membersOf hc]
  | true =>
    have hstored := h.stored c
    rw [hnone hs hc, hnone ht hc]
    cases hrow : s.findConversation c <;> cases hrow' : t.findConversation c <;>
      simp_all

theorem findMemberships {u : UserId} (hs : Ready hidden u s) (ht : Ready hidden u t) :
    (s.members.filter fun m => m.userId = u.canon ∧ m.leftAt = none) =
      t.members.filter fun m => m.userId = u.canon ∧ m.leftAt = none := by
  have hvisible : ∀ {s : Db}, Ready hidden u s → ∀ m ∈ s.members,
      (decide (m.userId = u.canon ∧ m.leftAt = none)) = true →
        (!hidden m.conversationId) = true := by
    intro s hs m hm hmu
    simp only [decide_eq_true_eq] at hmu
    cases hc : hidden m.conversationId with
    | false => rfl
    | true => exact absurd hmu.2 (hs.outside m hm hc hmu.1)
  exact filter_eq_of_filter_eq h.members (hvisible hs) (hvisible ht)

theorem findConversations {ids : List ConversationId} (hids : ∀ c ∈ ids, hidden c = false) :
    ((s.conversations.filter fun row => row.id ∈ ids ∧ row.deletedAt = none).map s.withMembers) =
      (t.conversations.filter fun row => row.id ∈ ids ∧ row.deletedAt = none).map
        t.withMembers := by
  have hrows : (s.conversations.filter fun row => row.id ∈ ids ∧ row.deletedAt = none) =
      t.conversations.filter fun row => row.id ∈ ids ∧ row.deletedAt = none := by
    refine filter_eq_of_filter_eq h.conversations ?_ ?_ <;>
    · intro row _ hrow
      simp only [decide_eq_true_eq] at hrow
      simp [hids _ hrow.1]
  rw [hrows]
  refine List.map_congr_left fun row hrow => h.withMembers (hids _ ?_)
  have hrow := (List.mem_filter.mp hrow).2
  simp only [decide_eq_true_eq] at hrow
  exact hrow.1

/-- A member row of a conversation outside `hidden` is in both tables. -/
theorem mem_members {m : ConversationMember} (hm : m ∈ s.members)
    (hc : hidden m.conversationId = false) : m ∈ t.members := by
  have hmem : m ∈ s.members.filter fun m => !hidden m.conversationId :=
    List.mem_filter.mpr ⟨hm, by simp [hc]⟩
  rw [h.members] at hmem
  exact (List.mem_filter.mp hmem).1

/-! ### Messages -/

/-- A message outside `hidden` is in both tables, up to the content of a tombstone. -/
theorem exists_message {m : Message} (hm : m ∈ s.messages)
    (hc : hidden m.conversationId = false) : ∃ m' ∈ t.messages, m.redact = m'.redact := by
  have hmem : m.redact ∈ s.seen hidden :=
    List.mem_map_of_mem (List.mem_filter.mpr ⟨hm, by simp [hc]⟩)
  rw [h.messages] at hmem
  obtain ⟨m', hm', heq⟩ := List.mem_map.mp hmem
  exact ⟨m', (List.mem_filter.mp hm').1, heq.symm⟩

theorem shows (hs : WellKeyed s) (ht : WellKeyed t) {m : Message} (hm : m ∈ s.messages)
    (hc : hidden m.conversationId = false) : s.Shows hidden m.id ∧ t.Shows hidden m.id := by
  obtain ⟨m', hm', heq⟩ := h.exists_message hm hc
  have ho := redact_origin heq
  refine ⟨fun x hx hid => ?_, fun x hx hid => ?_⟩
  · rw [hs.messages.eq_of_id_eq hx hm hid, hc]
  · rw [ht.messages.eq_of_id_eq hx hm' (hid.trans (Message.id_of_origin ho)),
      ← Message.conversationId_of_origin ho, hc]

theorem showsAlive (hs : WellKeyed s) (ht : WellKeyed t) {m : Message} (hm : m ∈ s.messages)
    (hc : hidden m.conversationId = false) (halive : m.deletedForEveryoneAt = none) :
    s.ShowsAlive hidden m.id ∧ t.ShowsAlive hidden m.id := by
  obtain ⟨m', hm', heq⟩ := h.exists_message hm hc
  obtain rfl := eq_of_redact heq halive
  refine ⟨fun x hx hid => ?_, fun x hx hid => ?_⟩
  · rw [hs.messages.eq_of_id_eq hx hm hid]
    exact ⟨hc, halive⟩
  · rw [ht.messages.eq_of_id_eq hx hm' hid]
    exact ⟨hc, halive⟩

theorem hidesOf (hs : WellKeyed s) (ht : WellKeyed t) {m : Message} (hm : m ∈ s.messages)
    (hc : hidden m.conversationId = false) :
    s.messageHides.filter (fun h => h.messageId = m.id) =
      t.messageHides.filter (fun h => h.messageId = m.id) :=
  have hshows := h.shows hs ht hm hc
  h.hides m.id hshows.1 hshows.2

theorem isHidden (hs : WellKeyed s) (ht : WellKeyed t) {m : Message} (hm : m ∈ s.messages) (hc : hidden m.conversationId = false)
    (u : UserId) : s.isHidden m.id u = t.isHidden m.id u := by
  have hany : ∀ s : Db, s.isHidden m.id u =
      (s.messageHides.filter fun h => h.messageId = m.id).any fun h => h.userId == u.canon := by
    intro s
    unfold Db.isHidden
    rw [List.any_filter]
    rfl
  rw [hany s, hany t, h.hidesOf hs ht hm hc]

/-- Queries that select the same messages up to the content of tombstones. -/
theorem filter_messages {q q' : Message → Bool}
    (hq : ∀ m ∈ s.messages, q m = true → hidden m.conversationId = false)
    (hq' : ∀ m ∈ t.messages, q' m = true → hidden m.conversationId = false)
    (hqq' : ∀ m ∈ s.messages, ∀ m' ∈ t.messages, hidden m.conversationId = false →
      m.redact = m'.redact → q m = q' m') :
    (s.messages.filter q).map Message.redact = (t.messages.filter q').map Message.redact := by
  refine filter_map_eq_of_filter h.messages (fun m hm hqm => ?_) (fun m hm hqm => ?_)
    fun m hm m' hm' hc _ heq => ?_
  · simp [hq m hm hqm]
  · simp [hq' m hm hqm]
  · exact hqq' m hm m' hm' (by simpa using hc) heq

theorem find_messages {q q' : Message → Bool}
    (hq : ∀ m ∈ s.messages, q m = true → hidden m.conversationId = false)
    (hq' : ∀ m ∈ t.messages, q' m = true → hidden m.conversationId = false)
    (hqq' : ∀ m ∈ s.messages, ∀ m' ∈ t.messages, hidden m.conversationId = false →
      m.redact = m'.redact → q m = q' m') :
    (s.messages.find? q).map Message.redact = (t.messages.find? q').map Message.redact := by
  rw [← List.head?_filter, ← List.head?_filter, ← List.head?_map, ← List.head?_map,
    h.filter_messages hq hq' hqq']

theorem length_messages {q q' : Message → Bool}
    (hq : ∀ m ∈ s.messages, q m = true → hidden m.conversationId = false)
    (hq' : ∀ m ∈ t.messages, q' m = true → hidden m.conversationId = false)
    (hqq' : ∀ m ∈ s.messages, ∀ m' ∈ t.messages, hidden m.conversationId = false →
      m.redact = m'.redact → q m = q' m') :
    (s.messages.filter q).length = (t.messages.filter q').length := by
  have heq := congrArg List.length (h.filter_messages hq hq' hqq')
  simpa using heq

theorem findMessage (m : MessageId) {c : ConversationId} (hc : hidden c = false) :
    (s.messages.find? fun row => row.id = m ∧ row.conversationId = c).map Message.redact =
      (t.messages.find? fun row => row.id = m ∧ row.conversationId = c).map Message.redact := by
  refine h.find_messages ?_ ?_ fun x _ x' _ _ heq => ?_
  · intro x _ hx
    simp only [decide_eq_true_eq] at hx
    rw [hx.2, hc]
  · intro x _ hx
    simp only [decide_eq_true_eq] at hx
    rw [hx.2, hc]
  · have ho := redact_origin heq
    rw [Message.id_of_origin ho, Message.conversationId_of_origin ho]

/-- The row a reply points to, as far as it may be seen: replies stay in their conversation. -/
theorem replyRow (hs : Inv s) (ht : Inv t) {m m' : Message} (heq : m.redact = m'.redact)
    (hc : hidden m.conversationId = false)
    (hreply : ∀ r, m.replyToMessageId = some r → s.HasMessage r m.conversationId) :
    (s.replyRow m).map Message.redact = (t.replyRow m').map Message.redact := by
  unfold Db.replyRow
  rw [← Message.replyToMessageId_of_origin (redact_origin heq)]
  cases hr : m.replyToMessageId with
  | none => rfl
  | some r =>
    obtain ⟨row, hrow, hid, hconv⟩ := hreply r hr
    have hrowc : hidden row.conversationId = false := hconv ▸ hc
    obtain ⟨row', hrow', hrr'⟩ := h.exists_message hrow hrowc
    have ho := redact_origin hrr'
    simp only [Option.bind_some]
    refine h.find_messages ?_ ?_ fun x _ x' _ _ hxx' => ?_
    · intro x hx hxid
      simp only [decide_eq_true_eq] at hxid
      rw [hs.keyed.messages.eq_of_id_eq hx hrow (hxid.trans hid.symm), hrowc]
    · intro x hx hxid
      simp only [decide_eq_true_eq] at hxid
      rw [ht.keyed.messages.eq_of_id_eq hx hrow'
        (hxid.trans (hid.symm.trans (Message.id_of_origin ho))),
        ← Message.conversationId_of_origin ho, hrowc]
    · rw [Message.id_of_origin (redact_origin hxx')]

/-- The view of a message at hand, which may be newer than its row. -/
theorem viewOf (hs : Inv s) (ht : Inv t) {m m' : Message} (heq : m.redact = m'.redact)
    (hc : hidden m.conversationId = false)
    (hreply : ∀ r, m.replyToMessageId = some r → s.HasMessage r m.conversationId)
    (halive : m.deletedForEveryoneAt = none →
      ∃ row ∈ s.messages, row.id = m.id ∧ row.conversationId = m.conversationId ∧
        row.deletedForEveryoneAt = none)
    (members : List ConversationMember) (u : UserId) :
    s.viewOf m members u = t.viewOf m' members u := by
  unfold Db.viewOf
  refine toMessageView_redact heq members (h.replyRow hs ht heq hc hreply) (fun hdel => ?_) u
  obtain ⟨row, hrow, hid, hconv, hrowdel⟩ := halive hdel
  rw [← Message.id_of_origin (redact_origin heq), ← hid]
  have hshows := h.showsAlive hs.keyed ht.keyed hrow (hconv ▸ hc) hrowdel
  exact h.reactions row.id hshows.1 hshows.2

/-- The view of a stored message. -/
theorem viewOf_row (hs : Inv s) (ht : Inv t) {m m' : Message} (heq : m.redact = m'.redact)
    (hm : m ∈ s.messages) (hc : hidden m.conversationId = false)
    (members : List ConversationMember) (u : UserId) :
    s.viewOf m members u = t.viewOf m' members u :=
  h.viewOf hs ht heq hc (hs.replies m hm) (fun hdel => ⟨m, hm, rfl, rfl, hdel⟩) members u

/-- The views of a listing. -/
theorem viewItems (hs : Inv s) (ht : Inv t) {items items' : List Message}
    (heq : items.map Message.redact = items'.map Message.redact)
    (hitems : ∀ m ∈ items, m ∈ s.messages ∧ hidden m.conversationId = false)
    (members : Message → List ConversationMember)
    (hmembers : ∀ m m', m.redact = m'.redact → members m = members m') (u : UserId) :
    (items.map fun m => s.viewOf m (members m) u) = items'.map fun m => t.viewOf m (members m) u := by
  induction items generalizing items' with
  | nil =>
    cases items' with
    | nil => rfl
    | cons m' items' => cases heq
  | cons m items ih =>
    cases items' with
    | nil => cases heq
    | cons m' items' =>
      simp only [List.map_cons, List.cons.injEq] at heq ⊢
      obtain ⟨hm, hc⟩ := hitems m List.mem_cons_self
      refine ⟨?_, ih heq.2 fun x hx => hitems x (List.mem_cons_of_mem _ hx)⟩
      rw [h.viewOf_row hs ht heq.1 hm hc, hmembers m m' heq.1]

theorem filterMatches (hs : WellKeyed s) (ht : WellKeyed t) {f : MessageFilter}
    (hf : f.onlyAlive = true ∨ f.pattern = none ∧ f.media = none) {m m' : Message}
    (hm : m ∈ s.messages) (hc : hidden m.conversationId = false) (heq : m.redact = m'.redact) :
    s.filterMatches f m = t.filterMatches f m' := by
  have hhidden := h.isHidden hs ht hm hc f.actorId
  obtain rfl | ⟨hdel, b, u, mi, n, sz, me, p, rfl⟩ := redact_eq_redact heq
  · unfold Db.filterMatches
    rw [hhidden]
  · unfold Db.filterMatches
    rw [hhidden]
    obtain ⟨time, htime⟩ := Option.ne_none_iff_exists'.mp hdel
    obtain halive | ⟨hp, hmedia⟩ := hf
    · simp [halive, htime]
    · simp [hp, hmedia]

theorem listMessages (hs : WellKeyed s) (ht : WellKeyed t) {f : MessageFilter}
    (hids : ∀ c ∈ f.conversationIds, hidden c = false)
    (hf : f.onlyAlive = true ∨ f.pattern = none ∧ f.media = none) :
    (s.listMessages f).map Message.redact = (t.listMessages f).map Message.redact := by
  have hin : ∀ (s : Db) (m : Message), s.filterMatches f m = true →
      hidden m.conversationId = false := by
    intro s m hm
    unfold Db.filterMatches at hm
    simp only [Bool.and_eq_true, decide_eq_true_eq] at hm
    exact hids _ hm.1.1.1.1.1
  unfold Db.listMessages
  exact map_orderDesc _ redact_createdAt (h.filter_messages (fun m _ hm => hin s m hm)
    (fun m _ hm => hin t m hm) fun m hm m' _ hc heq => h.filterMatches hs ht hf hm hc heq)

omit h in
/-- A message of a listing is stored outside `hidden`. -/
theorem mem_listMessages {f : MessageFilter} (hids : ∀ c ∈ f.conversationIds, hidden c = false)
    {skip take : Nat} {m : Message} (hm : m ∈ ((s.listMessages f).drop skip).take take) :
    m ∈ s.messages ∧ hidden m.conversationId = false := by
  have hm := List.mem_of_mem_drop (List.mem_of_mem_take hm)
  unfold Db.listMessages orderDesc at hm
  rw [List.mem_insertionSort, List.mem_filter] at hm
  obtain ⟨hm, hf⟩ := hm
  unfold Db.filterMatches at hf
  simp only [Bool.and_eq_true, decide_eq_true_eq] at hf
  exact ⟨hm, hids _ hf.1.1.1.1.1⟩

omit h in
theorem pinnedIn {c : ConversationId} {m m' : Message} (heq : m.redact = m'.redact) :
    Chat.pinnedIn c m = Chat.pinnedIn c m' := by
  obtain rfl | ⟨_, b, u, mi, n, sz, me, p, rfl⟩ := redact_eq_redact heq <;> rfl

omit h in
theorem pinnedIn_eq_true {c : ConversationId} {m : Message} (hm : Chat.pinnedIn c m = true) :
    m.conversationId = c := by
  unfold Chat.pinnedIn at hm
  simp only [Bool.and_eq_true, beq_iff_eq] at hm
  exact hm.1.1

theorem countPinned {c : ConversationId} (hc : hidden c = false) :
    (s.messages.filter (Chat.pinnedIn c)).length = (t.messages.filter (Chat.pinnedIn c)).length :=
  h.length_messages (fun _ _ hm => pinnedIn_eq_true hm ▸ hc) (fun _ _ hm => pinnedIn_eq_true hm ▸ hc)
    fun _ _ _ _ _ heq => pinnedIn heq

theorem listPinned (hs : WellKeyed s) (ht : WellKeyed t) {c : ConversationId}
    (hc : hidden c = false) (u : UserId) :
    (orderDesc (fun m => m.pinnedAt.getD 0) (s.messages.filter fun m =>
      Chat.pinnedIn c m && !s.isHidden m.id u)).map Message.redact =
    (orderDesc (fun m => m.pinnedAt.getD 0) (t.messages.filter fun m =>
      Chat.pinnedIn c m && !t.isHidden m.id u)).map Message.redact := by
  refine map_orderDesc _ (fun m => by rw [redact_pinnedAt]) (h.filter_messages ?_ ?_ ?_)
  · intro m _ hm
    rw [Bool.and_eq_true] at hm
    exact pinnedIn_eq_true hm.1 ▸ hc
  · intro m _ hm
    rw [Bool.and_eq_true] at hm
    exact pinnedIn_eq_true hm.1 ▸ hc
  · intro m hm m' _ hmc heq
    rw [pinnedIn heq, h.isHidden hs ht hm hmc, Message.id_of_origin (redact_origin heq)]

theorem countsUnread (hs : WellKeyed s) (ht : WellKeyed t) {cm : ConversationMember}
    {m m' : Message} (hm : m ∈ s.messages)
    (hc : hidden m.conversationId = false) (heq : m.redact = m'.redact) :
    s.countsUnread cm m = t.countsUnread cm m' := by
  have hhidden := h.isHidden hs ht hm hc cm.userId
  obtain rfl | ⟨_, b, u, mi, n, sz, me, p, rfl⟩ := redact_eq_redact heq
  · unfold Db.countsUnread
    rw [hhidden]
  · unfold Db.countsUnread
    rw [hhidden]

omit h in
theorem countsUnread_eq_true {cm : ConversationMember} {m : Message}
    (hm : s.countsUnread cm m = true) : m.conversationId = cm.conversationId := by
  unfold Db.countsUnread at hm
  simp only [Bool.and_eq_true, beq_iff_eq] at hm
  exact hm.1.1.1.1.1

theorem unreadRows (hs : WellKeyed s) (ht : WellKeyed t) (u : UserId)
    {ids : List ConversationId} (hids : ∀ c ∈ ids, hidden c = false) : s.unreadRows u ids = t.unreadRows u ids := by
  unfold Db.unreadRows
  congr 1
  refine List.map_congr_left fun c hc => ?_
  have hc := hids c (List.mem_eraseDups.mp hc)
  rw [h.membersOf hc]
  congr 2
  refine List.map_congr_left fun cm hcm => ?_
  have hcm : cm.conversationId = c := (Db.mem_membersOf.mp (List.mem_filter.mp hcm).1).2
  exact h.length_messages (fun m _ hm => by rw [countsUnread_eq_true hm, hcm, hc])
    (fun m _ hm => by rw [countsUnread_eq_true hm, hcm, hc])
    fun m hm m' _ hmc heq => h.countsUnread hs ht hm hmc heq

/-- The newest message of a conversation outside `hidden`, as far as it may be seen. -/
theorem latest (u : UserId) {c : ConversationId} (hc : hidden c = false) :
    let rows (s : Db) := orderDesc Message.createdAt (s.messages.filter fun m =>
      m.conversationId = c ∧ (m.undelivered = false ∨ m.senderId = u.canon))
    (((rows s).find? fun m => m.deletedForEveryoneAt = none).or (rows s).head?).map Message.redact =
      (((rows t).find? fun m => m.deletedForEveryoneAt = none).or (rows t).head?).map
        Message.redact := by
  intro rows
  have hrows : (rows s).map Message.redact = (rows t).map Message.redact := by
    refine map_orderDesc _ redact_createdAt (h.filter_messages ?_ ?_ ?_)
    · intro m _ hm
      simp only [decide_eq_true_eq] at hm
      rw [hm.1, hc]
    · intro m _ hm
      simp only [decide_eq_true_eq] at hm
      rw [hm.1, hc]
    · intro m _ m' _ _ heq
      obtain rfl | ⟨_, b, u, mi, n, sz, me, p, rfl⟩ := redact_eq_redact heq <;> rfl
  have hfilter : ((rows s).filter fun m => m.deletedForEveryoneAt = none).map Message.redact =
      ((rows t).filter fun m => m.deletedForEveryoneAt = none).map Message.redact :=
    filter_map_eq hrows fun a _ b _ hab => by rw [redact_deletedForEveryoneAt hab]
  rw [Option.map_or, Option.map_or, ← List.head?_filter, ← List.head?_filter, ← List.head?_map,
    ← List.head?_map, ← List.head?_map, ← List.head?_map, hfilter, hrows]

theorem latestRows (u : UserId) {ids : List ConversationId} (hids : ∀ c ∈ ids, hidden c = false) :
    (s.latestRows u ids).map Message.redact = (t.latestRows u ids).map Message.redact := by
  unfold Db.latestRows
  rw [List.map_filterMap, List.map_filterMap]
  refine List.filterMap_congr fun c hc => ?_
  exact h.latest u (hids c (List.mem_eraseDups.mp hc))

/-! ### Hides, reactions, scheduled messages and blocks -/

theorem findHide (hs : WellKeyed s) (ht : WellKeyed t) {m : Message}
    (hm : m ∈ s.messages) (hc : hidden m.conversationId = false)
    (u : UserId) :
    (s.messageHides.find? fun h => h.messageId = m.id ∧ h.userId = u.canon) =
      t.messageHides.find? fun h => h.messageId = m.id ∧ h.userId = u.canon := by
  refine find?_eq_of_filter_eq (h.hidesOf hs ht hm hc) ?_ ?_ <;>
  · intro row _ hrow
    simp only [decide_eq_true_eq] at hrow ⊢
    exact hrow.1

theorem findReaction (hs : WellKeyed s) (ht : WellKeyed t) {m : Message}
    (hm : m ∈ s.messages) (hc : hidden m.conversationId = false)
    (halive : m.deletedForEveryoneAt = none) (u : UserId) (emoji : Text) :
    (s.messageReactions.find? fun r => r.messageId = m.id ∧ r.userId = u.canon ∧ r.emoji = emoji) =
      t.messageReactions.find? fun r =>
        r.messageId = m.id ∧ r.userId = u.canon ∧ r.emoji = emoji := by
  have hshows := h.showsAlive hs ht hm hc halive
  refine find?_eq_of_filter_eq (h.reactions m.id hshows.1 hshows.2) ?_ ?_ <;>
  · intro row _ hrow
    simp only [decide_eq_true_eq] at hrow ⊢
    exact hrow.1

/-- The scheduled messages of a conversation outside `hidden` that a query selects. -/
theorem scheduled {q : ScheduledMessage → Bool} {c : ConversationId} (hc : hidden c = false)
    (hq : ∀ row, q row = true → row.conversationId = c) :
    s.scheduledMessages.filter q = t.scheduledMessages.filter q := by
  refine filter_eq_of_filter_eq h.scheduledMessages ?_ ?_ <;>
  · intro row _ hrow
    simp [hq row hrow, hc]

theorem blocks (a b : UserId) : s.blocks a b = t.blocks a b := by
  unfold Db.blocks
  rw [h.userBlocks]

theorem hasBlock (a b : UserId) : s.hasBlock a b = t.hasBlock a b := by
  unfold Db.hasBlock
  rw [h.blocks]

theorem delivery (cv : ConversationWithMembers) (u : UserId) :
    s.delivery cv u = t.delivery cv u := by
  unfold Db.delivery
  simp only [h.hasBlock]

theorem blockFlags (cv : ConversationWithMembers) (u : UserId) :
    s.blockFlags cv u = t.blockFlags cv u := by
  unfold Db.blockFlags
  simp only [h.hasBlock]

/-- What a reply target answers, up to nothing: a tombstone is rejected. -/
theorem target {c : ConversationId} (hc : hidden c = false) (r : Option MessageId) :
    s.target c r = t.target c r := by
  unfold Db.target
  cases r with
  | none => rfl
  | some id =>
    have hfind := h.findMessage id hc
    dsimp only
    generalize (s.messages.find? fun row => decide (row.id = id ∧ row.conversationId = c)) = o
      at hfind ⊢
    generalize (t.messages.find? fun row => decide (row.id = id ∧ row.conversationId = c)) = o'
      at hfind ⊢
    cases o with
    | none =>
      cases o' with
      | none => rfl
      | some m' => cases hfind
    | some m =>
      cases o' with
      | none => cases hfind
      | some m' =>
        have heq : m.redact = m'.redact := Option.some.inj hfind
        dsimp only
        rw [← redact_deletedForEveryoneAt heq]
        split
        · next halive => rw [eq_of_redact heq halive]
        · rfl

end Agree

end Relay.Chat
