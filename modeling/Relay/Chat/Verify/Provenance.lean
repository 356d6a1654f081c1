import Relay.Chat.Verify.Licences

/-!
# Where the rows come from

A `History` is what there is to know of a run from outside: the databases it went through, and the requests
that were made. `History.Accounts` says of every row that it is there, and is as it is, because of a request
of somebody who was entitled to it at some moment of the run. `History.Warrants` are the calls that only
write such rows, and they keep the accounts (`History.Accounts.exec`).
-/

namespace Relay.Chat

open Relay.Lib Relay.Lib.Rows

structure History where
  visited : Db → Prop
  asked : Op → Prop

/-- The user is the active owner of the group. -/
def Db.Owns (db : Db) (c : ConversationId) (u : UserId) : Prop :=
  ∃ m ∈ db.seats c, m.userId = u ∧ m.role = .owner

/-- What a forward copies. -/
def Content.copied (x : Content) : Content :=
  { x with mentions := [], linkPreview := none, replyToMessageId := none }

/-- What is left of a message deleted for everyone. -/
def Content.buried (x : Content) : Content :=
  { x with attachmentUrl := none, attachmentMime := none, attachmentName := none, attachmentSize := none }

/-- A line of the call history. -/
def historyLine (body : Text) : Content where
  body := body
  type := .call
  attachmentUrl := none
  attachmentMime := none
  attachmentName := none
  attachmentSize := none
  mentions := []
  linkPreview := none
  replyToMessageId := none

namespace History

variable (h : History)

/-- It was so at some moment. -/
def Once (P : Db → Prop) : Prop := ∃ db, h.visited db ∧ P db

/-! ## Conversations and memberships -/

/-- Why the user is, or was, a member. A conversation takes the next free id when it is created. -/
inductive Admitted (c : ConversationId) (u : UserId) : Prop
  | paired {a b : UserId} (asked : h.asked (.createPrivate a b)) (created : h.Once fun db => db.nextId = c)
      (named : u = a.canon ∨ u = b.canon)
  | founded {a : UserId} {name : Text} {ids : List UserId} (asked : h.asked (.createGroup a name ids))
      (created : h.Once fun db => db.nextId = c) (named : u = a.canon ∨ ∃ v ∈ ids, u = v.canon)
  | added {a : UserId} {ids : List UserId} (asked : h.asked (.addMembers c a ids))
      (manages : h.Once fun db => db.Manages c a) (named : ∃ v ∈ ids, u = v.canon)

/-- Why the membership has ended. -/
inductive Departed (c : ConversationId) (u : UserId) : Prop
  | left (asked : h.asked (.leave c u))
  | removed {a : UserId} (asked : h.asked (.removeMember c a u)) (manages : h.Once fun db => db.Manages c a)
  | dissolved {a : UserId} (asked : h.asked (.deleteGroup c a)) (founded : h.Once fun db => db.Founded c a)

/-- Why the user owns the group. -/
inductive Enthroned (c : ConversationId) (u : UserId) : Prop
  | founded {a : UserId} {name : Text} {ids : List UserId} (asked : h.asked (.createGroup a name ids))
      (created : h.Once fun db => db.nextId = c) (named : u = a.canon)
  | inherited {a : UserId} (asked : h.asked (.leave c a)) (owns : h.Once fun db => db.Owns c a)

structure MemberAccount (m : ConversationMember) : Prop where
  admitted : h.Admitted m.conversationId m.userId
  left : m.leftAt ≠ none → h.Departed m.conversationId m.userId
  owner : m.role = .owner → h.Enthroned m.conversationId m.userId
  admin : m.role = .admin → ∃ a, h.asked (.setMemberRole m.conversationId a m.userId (some .admin)) ∧
    h.Once fun db => db.Owns m.conversationId a
  muted : m.mutedAt ≠ none → h.asked (.muteConversation m.conversationId m.userId true)
  pinned : m.pinnedAt ≠ none → h.asked (.pinConversation m.conversationId m.userId true)
  read : m.lastReadAt ≠ none → ∃ x, h.asked (.markSeen m.conversationId m.userId x)

/-- Why the conversation was created. -/
inductive Created (row : Conversation) : Prop
  | paired {a b : UserId} (asked : h.asked (.createPrivate a b)) (type : row.type = .priv)
      (creator : row.createdBy = a.canon) (key : row.pairKey = some (privatePairKey a b))
  | founded {a : UserId} {name : Text} {ids : List UserId} (asked : h.asked (.createGroup a name ids))
      (type : row.type = .group) (creator : row.createdBy = a.canon) (key : row.pairKey = none)

/-- Why the group has this name. -/
inductive Named (row : Conversation) : Text → Prop
  | founded {a : UserId} {name : Text} {ids : List UserId} (asked : h.asked (.createGroup a name ids))
      (creator : row.createdBy = a.canon) : Named row (Js.trim name)
  | renamed {a : UserId} {name : Text} (asked : h.asked (.updateGroup row.id a name))
      (manages : h.Once fun db => db.Manages row.id a) : Named row (Js.trim name)

structure ConversationAccount (row : Conversation) : Prop where
  created : h.Created row
  fresh : h.Once fun db => db.nextId = row.id
  named : ∀ name, row.name = some name → h.Named row name
  disappearing : row.disappearingDurationSeconds ≠ 0 →
    ∃ a, h.asked (.setDisappearingMessages row.id a row.disappearingDurationSeconds) ∧
      h.Once fun db => db.Sits row.id a ∧ (row.type = .group → db.Manages row.id a)
  deleted : row.deletedAt ≠ none → ∃ a, h.asked (.deleteGroup row.id a) ∧ h.Once fun db => db.Founded row.id a

/-! ## Messages -/

/-- The user has asked for a message of this content in the conversation. -/
inductive Composed (c : ConversationId) (u : UserId) : Content → Prop
  | sent {payload : SendMessage} {x : Content} (asked : h.asked (.sendMessage payload))
      (conversation : payload.conversationId = c) (actor : payload.actorId.canon = u)
      (composes : payload.Composes x) : Composed c u x
  | called {payload : SendMessage} (asked : h.asked (.sendMessage payload))
      (conversation : payload.conversationId = c) (actor : payload.actorId.canon = u)
      (system : payload.systemCall = true) : Composed c u (historyLine (Js.trim (payload.body.getD [])))
  | scheduled {payload : ScheduleMessage} {row : ScheduledMessage} {x : Content}
      (asked : h.asked (.scheduleMessage payload)) (conversation : payload.conversationId = c)
      (actor : payload.actorId.canon = u) (scheduled : payload.toSend.Composes row.content)
      (composes : row.toPayload.Composes x) : Composed c u x
  | forwarded {a : UserId} {source : ConversationId} {y : Message}
      (asked : h.asked (.forwardMessage a source c y.id)) (actor : a.canon = u)
      (seated : h.Once fun db => db.Sits source a) (stored : h.Once fun db => y ∈ db.messages)
      (inside : y.conversationId = source) (alive : y.deletedForEveryoneAt = none) :
      Composed c u y.content.copied

/-- Why the message is deleted for everyone: its sender has asked for it, or it was due. -/
inductive Deleted (m : Message) : Prop
  | asked (asked : h.asked (.deleteMessage m.conversationId m.id m.senderId true))
  | expired {x : Message} {t : Time} (asked : h.asked .expireDueMessages) (stored : h.Once fun db => x ∈ db.messages)
      (same : x.id = m.id) (expires : x.expiresAt = some t) (due : h.Once fun db => t ≤ jsDate db.now)

structure MessageAccount (m : Message) : Prop where
  seated : ∃ a, a.canon = m.senderId ∧ h.Once fun db => db.Sits m.conversationId a
  content : ∃ x, h.Composed m.conversationId m.senderId x ∧
    (m.content = { x with body := m.body } ∨
      m.deletedForEveryoneAt ≠ none ∧ m.content = { x.buried with body := m.body }) ∧
    (m.body = x.body ∨
      ∃ body, h.asked (.editMessage m.conversationId m.id m.senderId body) ∧ m.body = Js.trim body)
  edited : m.editedAt ≠ none → ∃ body, h.asked (.editMessage m.conversationId m.id m.senderId body)
  pinned : ∀ u, m.pinnedByUserId = some u → h.asked (.pinMessage m.conversationId m.id u true) ∧
    h.Once fun db => db.Sits m.conversationId u
  deleted : m.deletedForEveryoneAt ≠ none → h.Deleted m

/-! ## What users leave on messages -/

/-- The user was in the conversation, and so was the message. -/
def Saw (c : ConversationId) (u : UserId) (m : MessageId) : Prop :=
  (h.Once fun db => db.Sits c u) ∧ h.Once fun db => ∃ x ∈ db.messages, x.id = m ∧ x.conversationId = c

def HideAccount (row : MessageHide) : Prop :=
  ∃ c u, row.userId = u.canon ∧ h.asked (.deleteMessage c row.messageId u false) ∧ h.Saw c u row.messageId

def ReactionAccount (row : MessageReaction) : Prop :=
  ∃ c u, row.userId = u.canon ∧ h.asked (.reactMessage c row.messageId u row.emoji) ∧ h.Saw c u row.messageId

/-- The user has asked to schedule this message. -/
structure Planned (c : ConversationId) (u : UserId) (at' : Time) (x : Content) (payload : ScheduleMessage) :
    Prop where
  asked : h.asked (.scheduleMessage payload)
  conversation : payload.conversationId = c
  actor : payload.actorId.canon = u
  time : payload.scheduledFor = some at'
  composes : payload.toSend.Composes x
  seated : h.Once fun db => db.Sits c payload.actorId

/-- The message was to be sent by then. -/
def CameDue (id : Nat) : Prop :=
  h.asked .dispatchDueScheduled ∧ ∃ row : ScheduledMessage, row.id = id ∧
    (h.Once fun db => row ∈ db.scheduledMessages) ∧ h.Once fun db => row.scheduledFor ≤ jsDate db.now

structure ScheduledAccount (row : ScheduledMessage) : Prop where
  planned : ∃ payload, h.Planned row.conversationId row.senderId row.scheduledFor row.content payload
  cancelled : row.status = .cancelled → ∃ a, a.canon = row.senderId ∧
    h.asked (.cancelScheduledMessage row.conversationId row.id a)
  dispatched : row.status ≠ .pending → row.status ≠ .cancelled → h.CameDue row.id

def BlockAccount (row : UserBlock) : Prop :=
  ∃ a u, row.blockerId = a.canon ∧ row.blockedId = u.canon ∧ h.asked (.blockUser a u)

/-- A user has made a request. -/
def Acted (u : UserId) : Prop := ∃ op a, h.asked op ∧ op.actor = some a ∧ a.canon = u

/-- Every row is accounted for. -/
structure Accounts (db : Db) : Prop where
  conversations : ∀ row ∈ db.conversations, h.ConversationAccount row
  members : ∀ row ∈ db.members, h.MemberAccount row
  messages : ∀ row ∈ db.messages, h.MessageAccount row
  hides : ∀ row ∈ db.messageHides, h.HideAccount row
  reactions : ∀ row ∈ db.messageReactions, h.ReactionAccount row
  scheduled : ∀ row ∈ db.scheduledMessages, h.ScheduledAccount row
  blocks : ∀ row ∈ db.userBlocks, h.BlockAccount row
  audit : ∀ row ∈ db.auditEvents, h.Acted row.actorId

/-! ## Calls with a warrant -/

/-- What is stored of a new message. -/
structure Drafted (d : MessageDraft) : Prop where
  seated : h.Once fun db => db.Sits d.conversationId d.senderId
  composed : h.Composed d.conversationId d.senderId.canon d.content

/-- The calls that write accounted rows only. -/
def Warrants : Call → Prop
  | .createPrivateTx a b key => h.asked (.createPrivate a b) ∧ key = privatePairKey a b
  | .createGroupTx a ids name =>
    ∃ name' ids', h.asked (.createGroup a name' ids') ∧ name = Js.trim name' ∧ ∀ v ∈ ids, v ∈ ids'
  | .saveConversation cv => h.ConversationAccount cv.toConversation
  | .softDeleteConversation c => ∃ a, h.asked (.deleteGroup c a) ∧ h.Once fun db => db.Founded c a
  | .saveMember m => h.MemberAccount m
  | .saveMembers ms => ∀ m ∈ ms, h.MemberAccount m
  | .insertMember c u role => role = .member ∧
    ∃ a ids, h.asked (.addMembers c a ids) ∧ u ∈ ids ∧ h.Once fun db => db.Manages c a
  | .insertMessage d => h.Drafted d
  | .saveMessage m => h.MessageAccount m
  | .insertHide m u => ∃ c, h.asked (.deleteMessage c m u false) ∧ h.Saw c u m
  | .insertReaction m u emoji => ∃ c, h.asked (.reactMessage c m u emoji) ∧ h.Saw c u m
  | .insertScheduled d =>
    ∃ payload, h.Planned d.conversationId d.senderId.canon d.scheduledFor d.content payload
  | .saveScheduled row => h.ScheduledAccount row
  | .claimScheduled id => h.CameDue id
  | .insertBlock a u => h.asked (.blockUser a u)
  | .insertAudit a _ _ _ _ => h.Acted a.canon
  | _ => True

variable {h}

theorem Created.of_eq {row row' : Conversation} (hrow : h.Created row) (htype : row'.type = row.type)
    (hcreator : row'.createdBy = row.createdBy) (hkey : row'.pairKey = row.pairKey) : h.Created row' := by
  cases hrow with
  | paired asked type creator key => exact .paired asked (htype.trans type) (hcreator.trans creator) (hkey.trans key)
  | founded asked type creator key => exact .founded asked (htype.trans type) (hcreator.trans creator) (hkey.trans key)

theorem Named.of_eq {row row' : Conversation} {name : Text} (hrow : h.Named row name) (hid : row'.id = row.id)
    (hcreator : row'.createdBy = row.createdBy) : h.Named row' name := by
  cases hrow with
  | founded asked creator => exact .founded asked (hcreator.trans creator)
  | renamed asked manages => exact .renamed (hid ▸ asked) (hid ▸ manages)

/-- The account of a conversation does not depend on its times. -/
theorem ConversationAccount.of_eq {row row' : Conversation} (hrow : h.ConversationAccount row)
    (hid : row'.id = row.id) (htype : row'.type = row.type) (hname : row'.name = row.name)
    (hcreator : row'.createdBy = row.createdBy) (hkey : row'.pairKey = row.pairKey)
    (hduration : row'.disappearingDurationSeconds = row.disappearingDurationSeconds)
    (hdeleted : row'.deletedAt ≠ none → row.deletedAt ≠ none ∨
      ∃ a, h.asked (.deleteGroup row.id a) ∧ h.Once fun db => db.Founded row.id a) : h.ConversationAccount row' := by
  refine ⟨hrow.created.of_eq htype hcreator hkey, hid ▸ hrow.fresh, fun name h => ?_, fun hne => ?_, fun hne => ?_⟩
  · exact (hrow.named name (hname ▸ h)).of_eq hid hcreator
  · rw [hid, htype, hduration]
    exact hrow.disappearing (hduration ▸ hne)
  · rw [hid]
    exact (hdeleted hne).elim hrow.deleted id

theorem Deleted.of_eq {m m' : Message} (hm : h.Deleted m) (hid : m'.id = m.id)
    (hconv : m'.conversationId = m.conversationId) (hsender : m'.senderId = m.senderId) : h.Deleted m' := by
  cases hm with
  | asked asked => exact .asked (hid ▸ hconv ▸ hsender ▸ asked)
  | expired asked stored same expires due => exact .expired asked stored (same.trans hid.symm) expires due

/-- A membership as it is inserted. -/
theorem memberAccount_inserted {i : Nat} {c : ConversationId} {u : UserId} {role : ConversationMemberRole}
    {at' : Time} (hin : h.Admitted c u) (hadmin : role ≠ .admin) (howner : role = .owner → h.Enthroned c u) :
    h.MemberAccount ⟨i, c, u, role, at', none, none, none, none⟩ where
  admitted := hin
  left hleft := absurd rfl hleft
  owner := howner
  admin h := absurd h hadmin
  muted hmuted := absurd rfl hmuted
  pinned hpinned := absurd rfl hpinned
  read hread := absurd rfl hread

theorem messageAccount_inserted {d : MessageDraft} (hd : h.Drafted d) (i : MessageId) (t : Time) :
    h.MessageAccount ({ d with senderId := d.senderId.canon }.toRow i t) where
  seated := ⟨d.senderId, rfl, hd.seated⟩
  content := ⟨d.content, hd.composed, .inl rfl, .inl rfl⟩
  edited hedited := absurd rfl hedited
  pinned _ hu := nomatch hu
  deleted hdeleted := absurd rfl hdeleted

/-- The rows of a conversation that is created, and those that were there. -/
theorem insertMembers_rows {s t : Db} {c : ConversationId} {us : List (UserId × ConversationMemberRole)}
    (ht : s.insertMembers c us = some t) :
    t.conversations = s.conversations ∧ t.messages = s.messages ∧ t.messageHides = s.messageHides ∧
      t.messageReactions = s.messageReactions ∧ t.scheduledMessages = s.scheduledMessages ∧
      t.userBlocks = s.userBlocks ∧ t.auditEvents = s.auditEvents ∧
      ∀ m ∈ t.members, m ∈ s.members ∨
        ∃ i u role at', (u, role) ∈ us ∧ m = ⟨i, c, u.canon, role, at', none, none, none, none⟩ := by
  induction us generalizing s with
  | nil =>
    cases ht
    exact ⟨rfl, rfl, rfl, rfl, rfl, rfl, rfl, fun m hm => .inl hm⟩
  | cons u us ih =>
    obtain ⟨u, role⟩ := u
    simp only [Db.insertMembers] at ht
    split at ht
    · cases ht
    · next s' hs' =>
      obtain ⟨h1, h2, h3, h4, h5, h6, h7, hrows⟩ := ih ht
      rw [Db.insertMember_eq_some hs'] at h1 h2 h3 h4 h5 h6 h7 hrows
      refine ⟨h1, h2, h3, h4, h5, h6, h7, fun m hm => ?_⟩
      rcases hrows m hm with hm | ⟨i, v, role', at', hv, rfl⟩
      · rcases List.mem_append.mp hm with hm | hm
        · exact .inl hm
        · exact .inr ⟨_, u, role, _, List.mem_cons_self, List.mem_singleton.mp hm⟩
      · exact .inr ⟨i, v, role', at', List.mem_cons_of_mem _ hv, rfl⟩

/-- A conversation that is created with its members. -/
theorem Accounts.created {s t : Db} (hs : h.Accounts s) {type : ConversationType} {name key : Option Text}
    {a : UserId} (hrow : h.ConversationAccount ⟨s.nextId, type, name, a.canon, key, none, 0, s.now, s.now, none⟩)
    {us : List (UserId × ConversationMemberRole)}
    (ht : (s.insertConversation type name a key).insertMembers s.nextId us = some t)
    (hus : ∀ u role, (u, role) ∈ us → h.Admitted s.nextId u.canon ∧ role ≠ .admin ∧
      (role = .owner → h.Enthroned s.nextId u.canon)) : h.Accounts t := by
  obtain ⟨h1, h2, h3, h4, h5, h6, h7, hrows⟩ := insertMembers_rows ht
  refine ⟨?_, ?_, h2 ▸ hs.messages, h3 ▸ hs.hides, h4 ▸ hs.reactions, h5 ▸ hs.scheduled, h6 ▸ hs.blocks,
    h7 ▸ hs.audit⟩
  · intro c hc
    rw [h1] at hc
    rcases List.mem_append.mp hc with hc | hc
    · exact hs.conversations c hc
    · rw [List.mem_singleton.mp hc]
      exact hrow
  · intro m hm
    rcases hrows m hm with hm | ⟨i, u, role, at', hu, rfl⟩
    · exact hs.members m hm
    · obtain ⟨hin, hadmin, howner⟩ := hus u role hu
      exact memberAccount_inserted hin hadmin howner

/-- Calls with a warrant keep the accounts. -/
theorem Accounts.exec {s : Db} {c : Call} (hv : h.visited s) (hs : h.Accounts s) (hc : h.Warrants c) :
    h.Accounts (Chat.exec c s).2 := by
  cases c with
  | createPrivateTx a b key =>
    obtain ⟨hasked, rfl⟩ := hc
    have hfresh : h.Once fun db => db.nextId = s.nextId := ⟨s, hv, rfl⟩
    refine after_createPrivateTx hs fun t ht => hs.created ?_ ht fun u role hu => ?_
    · exact ⟨.paired hasked rfl rfl rfl, hfresh, fun _ hname => (by cases hname), fun hne => absurd rfl hne,
        fun hne => absurd rfl hne⟩
    · simp only [List.mem_cons, List.not_mem_nil, or_false, Prod.mk.injEq] at hu
      rcases hu with ⟨rfl, rfl⟩ | ⟨rfl, rfl⟩
      · exact ⟨.paired hasked hfresh (.inl rfl), by simp, by simp⟩
      · exact ⟨.paired hasked hfresh (.inr rfl), by simp, by simp⟩
  | createGroupTx a ids name =>
    obtain ⟨name', ids', hasked, rfl, hids⟩ := hc
    have hfresh : h.Once fun db => db.nextId = s.nextId := ⟨s, hv, rfl⟩
    refine after_createGroupTx hs fun t ht => hs.created ?_ ht fun u role hu => ?_
    · refine ⟨.founded hasked rfl rfl rfl, hfresh, ?_, fun hne => absurd rfl hne, fun hne => absurd rfl hne⟩
      rintro _ ⟨⟩
      exact .founded hasked rfl
    · rcases List.mem_cons.mp hu with hu | hu
      · cases hu
        exact ⟨.founded hasked hfresh (.inl rfl), by simp, fun _ => .founded hasked hfresh rfl⟩
      · obtain ⟨v, hv', heq⟩ := List.mem_map.mp hu
        cases heq
        exact ⟨.founded hasked hfresh (.inr ⟨u, hids u hv', rfl⟩), by simp, by simp⟩
  | saveConversation cv =>
    simp only [Chat.exec]
    split
    · refine ⟨fun row hrow => ?_, hs.members, hs.messages, hs.hides, hs.reactions, hs.scheduled, hs.blocks,
        hs.audit⟩
      obtain ⟨old, hold, rfl⟩ := List.mem_map.mp hrow
      split
      · exact hc.of_eq rfl rfl rfl rfl rfl rfl .inl
      · exact hs.conversations old hold
    · exact hs
  | softDeleteConversation id =>
    refine ⟨fun row hrow => ?_, hs.members, hs.messages, hs.hides, hs.reactions, hs.scheduled, hs.blocks, hs.audit⟩
    obtain ⟨old, hold, rfl⟩ := List.mem_map.mp hrow
    have haccount := hs.conversations old hold
    split
    · next hid =>
      subst hid
      exact haccount.of_eq rfl rfl rfl rfl rfl rfl fun _ => .inr hc
    · exact haccount
  | saveMember m =>
    refine after_saveMember hs fun t ht => ?_
    rw [Db.saveMember_eq_some ht]
    refine ⟨hs.conversations, fun row hrow => ?_, hs.messages, hs.hides, hs.reactions, hs.scheduled, hs.blocks,
      hs.audit⟩
    rcases mem_replaceRow hrow with rfl | hrow
    · exact hc
    · exact hs.members row hrow
  | saveMembers ms =>
    refine after_saveMembers hs fun t ht => ?_
    obtain ⟨rows, rfl, hrows⟩ := Db.saveMembers_eq_some ht
    refine ⟨hs.conversations, fun row hrow => ?_, hs.messages, hs.hides, hs.reactions, hs.scheduled, hs.blocks,
      hs.audit⟩
    rcases hrows row hrow with hrow | hrow
    · exact hc row hrow
    · exact hs.members row hrow
  | insertMember c u role =>
    obtain ⟨rfl, a, ids, hasked, hu, hmanages⟩ := hc
    refine after_insertMember hs fun t ht => ?_
    rw [Db.insertMember_eq_some ht]
    refine ⟨hs.conversations, fun row hrow => ?_, hs.messages, hs.hides, hs.reactions, hs.scheduled, hs.blocks,
      hs.audit⟩
    rcases List.mem_append.mp hrow with hrow | hrow
    · exact hs.members row hrow
    · rw [List.mem_singleton.mp hrow]
      exact memberAccount_inserted (.added hasked hmanages ⟨u, hu, rfl⟩) (by simp) (by simp)
  | insertMessage d =>
    refine ⟨hs.conversations, hs.members, fun row hrow => ?_, hs.hides, hs.reactions, hs.scheduled, hs.blocks,
      hs.audit⟩
    rcases List.mem_append.mp hrow with hrow | hrow
    · exact hs.messages row hrow
    · rw [List.mem_singleton.mp hrow]
      exact messageAccount_inserted hc _ _
  | saveMessage m =>
    refine ⟨hs.conversations, hs.members, fun row hrow => ?_, hs.hides, hs.reactions, hs.scheduled, hs.blocks,
      hs.audit⟩
    rcases mem_replaceRow hrow with rfl | hrow
    · exact hc
    · exact hs.messages row hrow
  | insertHide m u =>
    simp only [Chat.exec]
    split
    · exact hs
    · refine ⟨hs.conversations, hs.members, hs.messages, fun row hrow => ?_, hs.reactions, hs.scheduled, hs.blocks,
        hs.audit⟩
      rcases List.mem_append.mp hrow with hrow | hrow
      · exact hs.hides row hrow
      · obtain ⟨c, hasked, hsaw⟩ := hc
        rw [List.mem_singleton.mp hrow]
        exact ⟨c, u, rfl, hasked, hsaw⟩
  | removeReaction r =>
    exact ⟨hs.conversations, hs.members, hs.messages, hs.hides,
      fun row hrow => hs.reactions row (List.mem_of_mem_filter hrow), hs.scheduled, hs.blocks, hs.audit⟩
  | insertReaction m u emoji =>
    simp only [Chat.exec]
    split
    · exact hs
    · refine ⟨hs.conversations, hs.members, hs.messages, hs.hides, fun row hrow => ?_, hs.scheduled, hs.blocks,
        hs.audit⟩
      rcases List.mem_append.mp hrow with hrow | hrow
      · exact hs.reactions row hrow
      · obtain ⟨c, hasked, hsaw⟩ := hc
        rw [List.mem_singleton.mp hrow]
        exact ⟨c, u, rfl, hasked, hsaw⟩
  | insertScheduled d =>
    refine ⟨hs.conversations, hs.members, hs.messages, hs.hides, hs.reactions, fun row hrow => ?_, hs.blocks,
      hs.audit⟩
    rcases List.mem_append.mp hrow with hrow | hrow
    · exact hs.scheduled row hrow
    · rw [List.mem_singleton.mp hrow]
      exact ⟨hc, fun hstatus => (by cases hstatus), fun hne => absurd rfl hne⟩
  | saveScheduled row =>
    refine ⟨hs.conversations, hs.members, hs.messages, hs.hides, hs.reactions, fun row' hrow => ?_, hs.blocks,
      hs.audit⟩
    rcases mem_replaceRow hrow with rfl | hrow
    · exact ⟨hc.planned, hc.cancelled, hc.dispatched⟩
    · exact hs.scheduled row' hrow
  | claimScheduled id =>
    refine ⟨hs.conversations, hs.members, hs.messages, hs.hides, hs.reactions, fun row hrow => ?_, hs.blocks,
      hs.audit⟩
    obtain ⟨old, hold, rfl⟩ := List.mem_map.mp hrow
    have haccount := hs.scheduled old hold
    split
    · next hid =>
      refine ⟨haccount.planned, by simp, fun _ _ => ?_⟩
      rw [hid.1]
      exact hc
    · exact haccount
  | insertBlock a u =>
    simp only [Chat.exec]
    split
    · exact hs
    · refine ⟨hs.conversations, hs.members, hs.messages, hs.hides, hs.reactions, hs.scheduled, fun row hrow => ?_,
        hs.audit⟩
      rcases List.mem_append.mp hrow with hrow | hrow
      · exact hs.blocks row hrow
      · rw [List.mem_singleton.mp hrow]
        exact ⟨a, u, rfl, rfl, hc⟩
  | deleteBlock a u =>
    exact ⟨hs.conversations, hs.members, hs.messages, hs.hides, hs.reactions, hs.scheduled,
      fun row hrow => hs.blocks row (List.mem_of_mem_filter hrow), hs.audit⟩
  | insertAudit a action type id info =>
    refine ⟨hs.conversations, hs.members, hs.messages, hs.hides, hs.reactions, hs.scheduled, hs.blocks,
      fun row hrow => ?_⟩
    rcases List.mem_append.mp hrow with hrow | hrow
    · exact hs.audit row hrow
    · rw [List.mem_singleton.mp hrow]
      exact hc
  | saveWorkspace settings =>
    exact ⟨hs.conversations, hs.members, hs.messages, hs.hides, hs.reactions, hs.scheduled, hs.blocks, hs.audit⟩
  | _ => exact hs

end History

end Relay.Chat
