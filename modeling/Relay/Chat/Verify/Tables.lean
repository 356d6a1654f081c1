import Relay.Chat.System

/-!
# What the calls do to the tables

Rows are never removed from the tables of conversations, members, messages and scheduled messages,
and a part of each row never changes once it is written: its `origin`. `Db.Grows` is the order of
databases that follows, the one under which a fact read earlier may still be used later.
-/

namespace Relay.Chat

open Relay.Lib Relay.Lib.Rows

/-! ## Origins -/

/-- The columns of a message that are written once. -/
structure Message.Origin where
  id : MessageId
  conversationId : ConversationId
  senderId : UserId
  replyToMessageId : Option MessageId
  forwardedFromMessageId : Option MessageId
  undelivered : Bool
deriving DecidableEq

def Message.origin (m : Message) : Message.Origin :=
  ⟨m.id, m.conversationId, m.senderId, m.replyToMessageId, m.forwardedFromMessageId, m.undelivered⟩

/-- The columns of a conversation that are written once. -/
structure Conversation.Origin where
  id : ConversationId
  type : ConversationType
  createdBy : UserId
  pairKey : Option Text
deriving DecidableEq

def Conversation.origin (c : Conversation) : Conversation.Origin :=
  ⟨c.id, c.type, c.createdBy, c.pairKey⟩

/-- The columns of a member row that are written once. -/
structure ConversationMember.Origin where
  id : Nat
  conversationId : ConversationId
  userId : UserId
deriving DecidableEq

def ConversationMember.origin (m : ConversationMember) : ConversationMember.Origin :=
  ⟨m.id, m.conversationId, m.userId⟩

section Origin

theorem Message.id_of_origin {m m' : Message} (h : m.origin = m'.origin) : m.id = m'.id :=
  congrArg Message.Origin.id h

theorem Message.conversationId_of_origin {m m' : Message} (h : m.origin = m'.origin) :
    m.conversationId = m'.conversationId := congrArg Message.Origin.conversationId h

theorem Message.senderId_of_origin {m m' : Message} (h : m.origin = m'.origin) :
    m.senderId = m'.senderId := congrArg Message.Origin.senderId h

theorem Message.replyToMessageId_of_origin {m m' : Message} (h : m.origin = m'.origin) :
    m.replyToMessageId = m'.replyToMessageId := congrArg Message.Origin.replyToMessageId h

@[simp] theorem Message.origin_bury (m : Message) (now : Time) : (m.bury now).origin = m.origin :=
  rfl

end Origin

/-! ## Pair keys -/

/-- The texts of two user ids can be read off their pair key. -/
theorem privatePairKey_eq {a b x y : UserId} (h : privatePairKey a b = privatePairKey x y) :
    a = x ∧ b = y ∨ a = y ∧ b = x := by
  have hcolon : ∀ u : UserId, ':' ∉ u.text := by
    intro u hmem
    have hc := List.all_eq_true.mp u.uuid ':' hmem
    revert hc
    decide
  have hinj : ∀ {a b x y : UserId}, a.text ++ ':' :: b.text = x.text ++ ':' :: y.text →
      a = x ∧ b = y := by
    intro a b x y heq
    obtain ⟨hax, _, hby⟩ := (List.append_cons_inj_of_notMem (hcolon a) (hcolon b)).mp heq
    exact ⟨UserId.eq_of_text hax, UserId.eq_of_text hby⟩
  unfold privatePairKey at h
  split at h <;> split at h
  · have heq := hinj h
    exact .inl ⟨heq.2, heq.1⟩
  · have heq := hinj h
    exact .inr ⟨heq.2, heq.1⟩
  · have heq := hinj h
    exact .inr heq
  · exact .inl (hinj h)

/-! ## Facts that stay true -/

/-- A message with this id is stored in the conversation. -/
def Db.HasMessage (db : Db) (m : MessageId) (c : ConversationId) : Prop :=
  ∃ row ∈ db.messages, row.id = m ∧ row.conversationId = c

/-- A group with this id is stored. -/
def Db.IsGroup (db : Db) (c : ConversationId) : Prop :=
  ∃ row ∈ db.conversations, row.id = c ∧ row.type = .group

/-- A row like this one was loaded from the table. -/
def Db.KnowsMessage (db : Db) (m : Message) : Prop :=
  m.origin ∈ db.messages.map Message.origin

def Db.KnowsConversation (db : Db) (c : Conversation) : Prop :=
  c.origin ∈ db.conversations.map Conversation.origin

def Db.KnowsMember (db : Db) (m : ConversationMember) : Prop :=
  m.origin ∈ db.members.map ConversationMember.origin

/-- The tables of `t` have all rows of `s`, with the same origins. -/
structure Db.Grows (s t : Db) : Prop where
  messages : s.messages.map Message.origin ⊆ t.messages.map Message.origin
  conversations : s.conversations.map Conversation.origin ⊆ t.conversations.map Conversation.origin
  members : s.members.map ConversationMember.origin ⊆ t.members.map ConversationMember.origin

theorem Db.Grows.refl (s : Db) : s.Grows s := ⟨fun _ h => h, fun _ h => h, fun _ h => h⟩

theorem Db.Grows.trans {s t u : Db} (h : s.Grows t) (h' : t.Grows u) : s.Grows u :=
  ⟨fun _ hm => h'.messages (h.messages hm), fun _ hc => h'.conversations (h.conversations hc),
    fun _ hm => h'.members (h.members hm)⟩

section Grows

variable {s t : Db}

theorem Db.HasMessage.grows {m : MessageId} {c : ConversationId} (h : s.HasMessage m c)
    (hst : s.Grows t) : t.HasMessage m c := by
  obtain ⟨row, hrow, rfl, rfl⟩ := h
  obtain ⟨row', hrow', ho⟩ := List.mem_map.mp (hst.messages (List.mem_map_of_mem hrow))
  exact ⟨row', hrow', Message.id_of_origin ho, Message.conversationId_of_origin ho⟩

theorem Db.KnowsMessage.grows {m : Message} (h : s.KnowsMessage m) (hst : s.Grows t) :
    t.KnowsMessage m := hst.messages h

theorem Db.KnowsConversation.grows {c : Conversation} (h : s.KnowsConversation c)
    (hst : s.Grows t) : t.KnowsConversation c := hst.conversations h

theorem Db.KnowsMember.grows {m : ConversationMember} (h : s.KnowsMember m) (hst : s.Grows t) :
    t.KnowsMember m := hst.members h

theorem Db.KnowsMessage.hasMessage {m : Message} (h : s.KnowsMessage m) :
    s.HasMessage m.id m.conversationId := by
  obtain ⟨row, hrow, ho⟩ := List.mem_map.mp h
  exact ⟨row, hrow, Message.id_of_origin ho, Message.conversationId_of_origin ho⟩

theorem Db.knowsMessage_of_mem {m : Message} (h : m ∈ s.messages) : s.KnowsMessage m :=
  List.mem_map_of_mem h

theorem Db.knowsMember_of_mem {m : ConversationMember} (h : m ∈ s.members) : s.KnowsMember m :=
  List.mem_map_of_mem h

theorem Db.knowsConversation_of_mem {c : Conversation} (h : c ∈ s.conversations) :
    s.KnowsConversation c := List.mem_map_of_mem h

theorem Db.IsGroup.grows {c : ConversationId} (h : s.IsGroup c) (hst : s.Grows t) :
    t.IsGroup c := by
  obtain ⟨row, hrow, rfl, htype⟩ := h
  obtain ⟨row', hrow', ho⟩ := List.mem_map.mp (hst.conversations (List.mem_map_of_mem hrow))
  exact ⟨row', hrow', congrArg Conversation.Origin.id ho,
    (congrArg Conversation.Origin.type ho).trans htype⟩

theorem Db.KnowsConversation.isGroup {c : Conversation} (h : s.KnowsConversation c)
    (htype : c.type = .group) : s.IsGroup c.id := by
  obtain ⟨row, hrow, ho⟩ := List.mem_map.mp h
  exact ⟨row, hrow, congrArg Conversation.Origin.id ho,
    (congrArg Conversation.Origin.type ho).trans htype⟩

end Grows

/-! ## Rows found -/

section Find

variable {db : Db}

theorem Db.findConversation_eq_some {c : ConversationId} {row : Conversation}
    (h : db.findConversation c = some row) :
    row ∈ db.conversations ∧ row.id = c ∧ row.deletedAt = none := by
  have hp := List.find?_some h
  simp only [decide_eq_true_eq] at hp
  exact ⟨List.mem_of_find?_eq_some h, hp.1, hp.2⟩

theorem Db.mem_membersOf {c : ConversationId} {m : ConversationMember} :
    m ∈ db.membersOf c ↔ m ∈ db.members ∧ m.conversationId = c := by
  simp [Db.membersOf]

theorem findActive_eq_some {members : List ConversationMember} {u : UserId}
    {m : ConversationMember} (h : findActive members u = some m) :
    m ∈ members ∧ m.userId = u ∧ m.leftAt = none := by
  have hp := List.find?_some h
  simp only [decide_eq_true_eq] at hp
  exact ⟨List.mem_of_find?_eq_some h, hp.1, hp.2⟩

theorem findOther_eq_some {members : List ConversationMember} {u : UserId}
    {m : ConversationMember} (h : findOther members u = some m) :
    m ∈ members ∧ m.userId ≠ u ∧ m.leftAt = none := by
  have hp := List.find?_some h
  simp only [decide_eq_true_eq] at hp
  exact ⟨List.mem_of_find?_eq_some h, hp.1, hp.2⟩

theorem mem_activeMembers {members : List ConversationMember} {m : ConversationMember} :
    m ∈ activeMembers members ↔ m ∈ members ∧ m.leftAt = none := by
  simp [activeMembers]

/-- Asking twice for active members changes nothing. -/
@[simp] theorem activeMembers_activeMembers (members : List ConversationMember) :
    activeMembers (activeMembers members) = activeMembers members := by
  simp [activeMembers]

theorem findMessage_eq_some {id : MessageId} {c : ConversationId} {m : Message}
    (h : (exec (.findMessage id c) db).1 = .ok (some m)) :
    m ∈ db.messages ∧ m.id = id ∧ m.conversationId = c := by
  have h : (db.messages.find? fun m => m.id = id ∧ m.conversationId = c) = some m := by
    simpa only [exec, Except.ok.injEq] using h
  have hp := List.find?_some h
  simp only [decide_eq_true_eq] at hp
  exact ⟨List.mem_of_find?_eq_some h, hp.1, hp.2⟩

end Find

/-! ## Members written -/

section Members

variable {s t : Db}

theorem Db.insertMember_eq_some {c : ConversationId} {u : UserId} {role : ConversationMemberRole}
    (h : s.insertMember c u role = some t) :
    t = { s with
      members := s.members ++ [⟨s.nextId, c, u.canon, role, s.now, none, none, none, none⟩]
      nextId := s.nextId + 1 } := by
  unfold Db.insertMember at h
  dsimp only at h
  split at h
  · cases h
  · exact (Option.some.inj h).symm

/-- The rows of a transaction that adds members. -/
theorem Db.insertMembers_eq_some {c : ConversationId} {us : List (UserId × ConversationMemberRole)}
    (h : s.insertMembers c us = some t) :
    ∃ rows : List ConversationMember,
      t = { s with members := s.members ++ rows, nextId := s.nextId + rows.length } ∧
      rows.map (fun r => (r.conversationId, r.userId, r.leftAt)) =
        us.map (fun u => (c, u.1.canon, none)) ∧
      rows.map ConversationMember.id = List.range' s.nextId rows.length := by
  induction us generalizing s with
  | nil =>
    cases h
    exact ⟨[], by simp, rfl, rfl⟩
  | cons u us ih =>
    obtain ⟨u, role⟩ := u
    simp only [Db.insertMembers] at h
    split at h
    · cases h
    · next s' hs' =>
      obtain ⟨rows, rfl, hrows, hids⟩ := ih h
      rw [Db.insertMember_eq_some hs']
      refine ⟨⟨s.nextId, c, u.canon, role, s.now, none, none, none, none⟩ :: rows, ?_, ?_, ?_⟩
      · simp [Nat.add_assoc, Nat.add_comm 1]
      · simp [hrows]
      · rw [Db.insertMember_eq_some hs'] at hids
        simp [hids, List.range'_succ]

theorem Db.saveMember_eq_some {m : ConversationMember} (h : s.saveMember m = some t) :
    t = { s with members := replaceRow ConversationMember.id m s.members } := by
  unfold Db.saveMember at h
  split at h
  · cases h
  · exact (Option.some.inj h).symm

theorem Db.saveMembers_eq_some {ms : List ConversationMember} (h : s.saveMembers ms = some t) :
    ∃ rows, t = { s with members := rows } ∧ ∀ m ∈ rows, m ∈ ms ∨ m ∈ s.members := by
  induction ms generalizing s with
  | nil =>
    cases h
    exact ⟨_, rfl, fun m hm => .inr hm⟩
  | cons m ms ih =>
    simp only [Db.saveMembers] at h
    split at h
    · cases h
    · next s' hs' =>
      obtain ⟨rows, rfl, hrows⟩ := ih h
      rw [Db.saveMember_eq_some hs'] at hrows ⊢
      refine ⟨rows, rfl, fun x hx => ?_⟩
      rcases hrows x hx with hx | hx
      · exact .inl (List.mem_cons_of_mem _ hx)
      · rcases mem_replaceRow hx with rfl | hx
        · exact .inl List.mem_cons_self
        · exact .inr hx

end Members

end Relay.Chat
