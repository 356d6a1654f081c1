import Relay.Chat.Verify.Tables

/-!
# The invariant of the chat database

`Inv` is what every database has that interleaved requests can reach: ids are fresh and unique, a
reply points into its own conversation, member rows belong to stored conversations, and a private
conversation has exactly the two active members of its pair key. `Lawful` says which arguments the
service calls the repositories with; lawful calls keep the invariant and only let the tables grow.
-/

namespace Relay.Chat

open Relay.Lib Relay.Lib.Rows

/-! ## Unique ids -/

structure WellKeyed (s : Db) : Prop where
  conversations : Keyed Conversation.id s.conversations s.nextId
  members : Keyed ConversationMember.id s.members s.nextId
  messages : Keyed Message.id s.messages s.nextId
  scheduled : Keyed ScheduledMessage.id s.scheduledMessages s.nextId

theorem wellKeyed_empty (now : Time) (timeZone : Int) : WellKeyed (Db.empty now timeZone) :=
  ⟨.nil, .nil, .nil, .nil⟩

namespace WellKeyed

variable {s : Db}

theorem step_nextId (h : WellKeyed s) :
    Keyed Conversation.id s.conversations (s.nextId + 1) ∧
      Keyed ConversationMember.id s.members (s.nextId + 1) ∧
      Keyed Message.id s.messages (s.nextId + 1) ∧
      Keyed ScheduledMessage.id s.scheduledMessages (s.nextId + 1) :=
  ⟨h.conversations.mono (Nat.le_succ _), h.members.mono (Nat.le_succ _),
    h.messages.mono (Nat.le_succ _), h.scheduled.mono (Nat.le_succ _)⟩

theorem insertConversation (h : WellKeyed s) (type : ConversationType) (name : Option Text)
    (createdBy : UserId) (pairKey : Option Text) :
    WellKeyed (s.insertConversation type name createdBy pairKey) :=
  have ⟨_, hm, hmsg, hsch⟩ := h.step_nextId
  ⟨h.conversations.concat rfl, hm, hmsg, hsch⟩

theorem insertMembers {t : Db} {c : ConversationId} {us : List (UserId × ConversationMemberRole)}
    (h : WellKeyed s) (ht : s.insertMembers c us = some t) : WellKeyed t := by
  obtain ⟨rows, rfl, _, hids⟩ := Db.insertMembers_eq_some ht
  have hle : s.nextId ≤ s.nextId + rows.length := Nat.le_add_right _ _
  exact ⟨h.conversations.mono hle, h.members.append hids, h.messages.mono hle,
    h.scheduled.mono hle⟩

theorem saveMembers {t : Db} {ms : List ConversationMember} (h : WellKeyed s)
    (ht : s.saveMembers ms = some t) : WellKeyed t := by
  induction ms generalizing s with
  | nil =>
    cases ht
    exact h
  | cons m ms ih =>
    simp only [Db.saveMembers] at ht
    split at ht
    · cases ht
    · next s' hs' =>
      refine ih ?_ ht
      rw [Db.saveMember_eq_some hs']
      exact ⟨h.conversations, h.members.replaceRow, h.messages, h.scheduled⟩

end WellKeyed

theorem WellKeyed.wait {s : Db} (h : WellKeyed s) (d : Nat) : WellKeyed (s.wait d) :=
  ⟨h.conversations, h.members, h.messages, h.scheduled⟩

/-- The database a transaction leaves: the old one, or the one it computes. -/
theorem orViolation_snd {α : Type} {e : QueryError} {s : Db} {o : Option (α × Db)} {P : Db → Prop}
    (hs : P s) (ho : ∀ a t, o = some (a, t) → P t) : P (orViolation e s o).2 := by
  cases o with
  | none => exact hs
  | some r => exact ho r.1 r.2 rfl

section Writes

variable {s : Db} {P : Db → Prop}

/-- A private conversation is created with its members, or the database stays as it is. -/
theorem after_createPrivateTx {a b : UserId} {key : Text} (hs : P s)
    (hnew : ∀ t, (s.insertConversation .priv none a (some key)).insertMembers s.nextId
      [(a, .member), (b, .member)] = some t → P t) : P (exec (.createPrivateTx a b key) s).2 := by
  simp only [exec]
  split
  · exact hs
  · refine orViolation_snd hs fun r t ht => ?_
    obtain ⟨t', ht', hr⟩ := Option.bind_eq_some_iff.mp ht
    obtain ⟨row, _, heq⟩ := Option.map_eq_some_iff.mp hr
    cases heq
    exact hnew t ht'

theorem after_createGroupTx {a : UserId} {ids : List UserId} {name : Text} (hs : P s)
    (hnew : ∀ t, (s.insertConversation .group (some name) a none).insertMembers s.nextId
      ((a, .owner) :: ids.map fun u => (u, .member)) = some t → P t) :
    P (exec (.createGroupTx a ids name) s).2 := by
  refine orViolation_snd hs fun r t ht => ?_
  obtain ⟨t', ht', hr⟩ := Option.bind_eq_some_iff.mp ht
  obtain ⟨row, _, heq⟩ := Option.map_eq_some_iff.mp hr
  cases heq
  exact hnew t ht'

/-- Memberships are written, or the database stays as it is. -/
theorem after_violation {e : QueryError} {o : Option Db} (hs : P s) (hnew : ∀ t, o = some t → P t) :
    P (orViolation e s (o.map fun t => ((), t))).2 := by
  cases o with
  | none => exact hs
  | some t => exact hnew t rfl

theorem after_saveMember {m : ConversationMember} (hs : P s) (hnew : ∀ t, s.saveMember m = some t → P t) :
    P (exec (.saveMember m) s).2 := after_violation hs hnew

theorem after_saveMembers {ms : List ConversationMember} (hs : P s)
    (hnew : ∀ t, s.saveMembers ms = some t → P t) : P (exec (.saveMembers ms) s).2 := after_violation hs hnew

theorem after_insertMember {c : ConversationId} {u : UserId} {role : ConversationMemberRole} (hs : P s)
    (hnew : ∀ t, s.insertMember c u role = some t → P t) : P (exec (.insertMember c u role) s).2 :=
  after_violation hs hnew

end Writes

/-- Calls that write conversations and members only. -/
def SeatingCall : Call → Prop
  | .createPrivateTx _ _ _ | .createGroupTx _ _ _ | .saveConversation _ | .softDeleteConversation _
  | .saveMember _ | .saveMembers _ | .insertMember _ _ _ => True
  | _ => False

/-- They leave the other tables alone. -/
theorem SeatingCall.exec {c : Call} (h : SeatingCall c) (s : Db) :
    ∃ conversations members nextId, (exec c s).2 = { s with conversations, members, nextId } := by
  cases c with
  | createPrivateTx a b key =>
    refine after_createPrivateTx (P := fun t => ∃ conversations members nextId,
      t = { s with conversations, members, nextId }) ⟨_, _, _, rfl⟩ fun t ht => ?_
    obtain ⟨rows, rfl, _, _⟩ := Db.insertMembers_eq_some ht
    exact ⟨_, _, _, rfl⟩
  | createGroupTx a ids name =>
    refine after_createGroupTx (P := fun t => ∃ conversations members nextId,
      t = { s with conversations, members, nextId }) ⟨_, _, _, rfl⟩ fun t ht => ?_
    obtain ⟨rows, rfl, _, _⟩ := Db.insertMembers_eq_some ht
    exact ⟨_, _, _, rfl⟩
  | saveConversation c =>
    simp only [Chat.exec]
    split <;> exact ⟨_, _, _, rfl⟩
  | softDeleteConversation id => exact ⟨_, _, _, rfl⟩
  | saveMember m =>
    refine after_saveMember (P := fun t => ∃ conversations members nextId,
      t = { s with conversations, members, nextId }) ⟨_, _, _, rfl⟩ fun t ht => ?_
    exact ⟨_, _, _, Db.saveMember_eq_some ht⟩
  | saveMembers ms =>
    refine after_saveMembers (P := fun t => ∃ conversations members nextId,
      t = { s with conversations, members, nextId }) ⟨_, _, _, rfl⟩ fun t ht => ?_
    obtain ⟨rows, rfl, _⟩ := Db.saveMembers_eq_some ht
    exact ⟨_, _, _, rfl⟩
  | insertMember c u role =>
    refine after_insertMember (P := fun t => ∃ conversations members nextId,
      t = { s with conversations, members, nextId }) ⟨_, _, _, rfl⟩ fun t ht => ?_
    exact ⟨_, _, _, Db.insertMember_eq_some ht⟩
  | _ => exact h.elim

/-- No call breaks the keys. -/
theorem WellKeyed.exec {s : Db} (h : WellKeyed s) (c : Call) : WellKeyed (exec c s).2 := by
  have ⟨hc, hm, hmsg, hsch⟩ := h.step_nextId
  cases c with
  | createPrivateTx a b key =>
    refine after_createPrivateTx h fun t ht => ?_
    exact (h.insertConversation _ _ _ _).insertMembers ht
  | createGroupTx a ids name =>
    refine after_createGroupTx h fun t ht => ?_
    exact (h.insertConversation _ _ _ _).insertMembers ht
  | saveConversation c =>
    simp only [Chat.exec]
    split
    · refine ⟨h.conversations.map fun r => ?_, h.members, h.messages, h.scheduled⟩
      split
      · next hid => exact hid.1.symm
      · rfl
    · exact h
  | softDeleteConversation id =>
    refine ⟨h.conversations.map fun r => ?_, h.members, h.messages, h.scheduled⟩
    split <;> rfl
  | saveMember m =>
    refine after_saveMember h fun t ht => ?_
    rw [Db.saveMember_eq_some ht]
    exact ⟨h.conversations, h.members.replaceRow, h.messages, h.scheduled⟩
  | saveMembers ms =>
    refine after_saveMembers h fun t ht => ?_
    exact h.saveMembers ht
  | insertMember id u role =>
    refine after_insertMember h fun t ht => ?_
    rw [Db.insertMember_eq_some ht]
    exact ⟨hc, h.members.concat rfl, hmsg, hsch⟩
  | insertMessage d => exact ⟨hc, hm, h.messages.concat rfl, hsch⟩
  | saveMessage m => exact ⟨h.conversations, h.members, h.messages.replaceRow, h.scheduled⟩
  | insertHide m u =>
    simp only [Chat.exec]
    split
    · exact h
    · exact ⟨hc, hm, hmsg, hsch⟩
  | insertReaction m u emoji =>
    simp only [Chat.exec]
    split
    · exact h
    · exact ⟨hc, hm, hmsg, hsch⟩
  | insertScheduled d => exact ⟨hc, hm, hmsg, h.scheduled.concat rfl⟩
  | saveScheduled row => exact ⟨h.conversations, h.members, h.messages, h.scheduled.replaceRow⟩
  | claimScheduled id =>
    refine ⟨h.conversations, h.members, h.messages, h.scheduled.map fun r => ?_⟩
    split <;> rfl
  | insertBlock a b =>
    simp only [Chat.exec]
    split
    · exact h
    · exact ⟨hc, hm, hmsg, hsch⟩
  | insertAudit a action type id info => exact ⟨hc, hm, hmsg, hsch⟩
  | _ => exact ⟨h.conversations, h.members, h.messages, h.scheduled⟩

/-! ## Lawful calls -/

/-- How the service calls the repositories. What it saves it has loaded before, with the origin
unchanged; membership changes are for groups only; a reply has its target in the conversation. -/
def Lawful (s : Db) : Call → Prop
  | .createPrivateTx a b key => key = privatePairKey a b
  | .saveConversation c => s.KnowsConversation c.toConversation ∧ c.deletedAt = none
  | .softDeleteConversation id => s.IsGroup id
  | .saveMember m => s.KnowsMember m ∧ (m.leftAt ≠ none → s.IsGroup m.conversationId)
  | .saveMembers ms =>
    ∀ m ∈ ms, s.KnowsMember m ∧ (m.leftAt ≠ none → s.IsGroup m.conversationId)
  | .insertMember c _ _ => s.IsGroup c
  | .insertMessage d => ∀ r, d.replyToMessageId = some r → s.HasMessage r d.conversationId
  | .saveMessage m => s.KnowsMessage m
  | _ => True

section Save

variable {s : Db} (h : WellKeyed s)
include h

/-- A message that was loaded has the origin of the row with its id. -/
theorem Db.KnowsMessage.origin_eq {m row : Message} (hm : s.KnowsMessage m)
    (hrow : row ∈ s.messages) (hid : row.id = m.id) : row.origin = m.origin := by
  obtain ⟨row', hrow', ho⟩ := List.mem_map.mp hm
  rw [h.messages.eq_of_id_eq hrow hrow' (hid.trans (Message.id_of_origin ho).symm), ho]

theorem Db.KnowsConversation.origin_eq {c row : Conversation} (hc : s.KnowsConversation c)
    (hrow : row ∈ s.conversations) (hid : row.id = c.id) : row.origin = c.origin := by
  obtain ⟨row', hrow', ho⟩ := List.mem_map.mp hc
  have hid' : row'.id = c.id := congrArg Conversation.Origin.id ho
  rw [h.conversations.eq_of_id_eq hrow hrow' (hid.trans hid'.symm), ho]

theorem Db.KnowsMember.origin_eq {m row : ConversationMember} (hm : s.KnowsMember m)
    (hrow : row ∈ s.members) (hid : row.id = m.id) : row.origin = m.origin := by
  obtain ⟨row', hrow', ho⟩ := List.mem_map.mp hm
  have hid' : row'.id = m.id := congrArg ConversationMember.Origin.id ho
  rw [h.members.eq_of_id_eq hrow hrow' (hid.trans hid'.symm), ho]

theorem origins_saveMessage {m : Message} (hm : s.KnowsMessage m) :
    (replaceRow Message.id m s.messages).map Message.origin = s.messages.map Message.origin :=
  map_replaceRow fun _ hr hid => hm.origin_eq h hr hid

theorem origins_saveMember {m : ConversationMember} (hm : s.KnowsMember m) :
    (replaceRow ConversationMember.id m s.members).map ConversationMember.origin =
      s.members.map ConversationMember.origin :=
  map_replaceRow fun _ hr hid => hm.origin_eq h hr hid

end Save

/-- The row `saveConversation` leaves in place of `row`. -/
def savedRow (c : ConversationWithMembers) (now : Time) (row : Conversation) : Conversation :=
  if row.id = c.id ∧ row ≠ c.toConversation then { c.toConversation with updatedAt := now } else row

theorem origin_savedRow {s : Db} (h : WellKeyed s) {c : ConversationWithMembers}
    (hc : s.KnowsConversation c.toConversation) {row : Conversation}
    (hrow : row ∈ s.conversations) : (savedRow c s.now row).origin = row.origin := by
  unfold savedRow
  split
  · next hid => exact (hc.origin_eq h hrow hid.1).symm
  · rfl

theorem saveMembers_grows {s t : Db} {ms : List ConversationMember} (h : WellKeyed s)
    (hms : ∀ m ∈ ms, s.KnowsMember m) (ht : s.saveMembers ms = some t) : s.Grows t := by
  induction ms generalizing s with
  | nil =>
    cases ht
    exact .refl _
  | cons m ms ih =>
    simp only [Db.saveMembers] at ht
    split at ht
    · cases ht
    · next s' hs' =>
      have hs := Db.saveMember_eq_some hs'
      have hgrows : s.Grows s' := by
        rw [hs]
        refine ⟨fun _ hm => hm, fun _ hc => hc, ?_⟩
        rw [origins_saveMember h (hms m List.mem_cons_self)]
        exact fun _ hm => hm
      have hkeyed : WellKeyed s' := by
        rw [hs]
        exact ⟨h.conversations, h.members.replaceRow, h.messages, h.scheduled⟩
      exact hgrows.trans
        (ih hkeyed (fun m' hm' => (hms m' (List.mem_cons_of_mem _ hm')).grows hgrows) ht)

theorem insertConversation_grows (s : Db) (type : ConversationType) (name : Option Text)
    (createdBy : UserId) (pairKey : Option Text) :
    s.Grows (s.insertConversation type name createdBy pairKey) := by
  refine ⟨fun _ hm => hm, ?_, fun _ hm => hm⟩
  simp [Db.insertConversation]

theorem insertMembers_grows {s t : Db} {c : ConversationId}
    {us : List (UserId × ConversationMemberRole)} (ht : s.insertMembers c us = some t) :
    s.Grows t := by
  obtain ⟨rows, rfl, _, _⟩ := Db.insertMembers_eq_some ht
  refine ⟨fun _ hm => hm, fun _ hc => hc, ?_⟩
  simp

/-- Lawful calls only let the tables grow. -/
theorem Lawful.grows {s : Db} (h : WellKeyed s) {c : Call} (hc : Lawful s c) :
    s.Grows (exec c s).2 := by
  cases c with
  | createPrivateTx a b key =>
    refine after_createPrivateTx (.refl s) fun t ht => ?_
    exact (insertConversation_grows s _ _ _ _).trans (insertMembers_grows ht)
  | createGroupTx a ids name =>
    refine after_createGroupTx (.refl s) fun t ht => ?_
    exact (insertConversation_grows s _ _ _ _).trans (insertMembers_grows ht)
  | saveConversation c =>
    simp only [Chat.exec]
    split
    · refine ⟨fun _ hm => hm, fun o ho => ?_, fun _ hm => hm⟩
      obtain ⟨row, hrow, rfl⟩ := List.mem_map.mp ho
      rw [← origin_savedRow h hc.1 hrow]
      exact List.mem_map_of_mem (List.mem_map_of_mem hrow)
    · exact .refl s
  | softDeleteConversation id =>
    refine ⟨fun _ hm => hm, fun o ho => ?_, fun _ hm => hm⟩
    obtain ⟨row, hrow, rfl⟩ := List.mem_map.mp ho
    refine List.mem_map.mpr ⟨_, List.mem_map_of_mem hrow, ?_⟩
    split <;> rfl
  | saveMember m =>
    refine after_saveMember (.refl s) fun t ht => ?_
    rw [Db.saveMember_eq_some ht]
    refine ⟨fun _ hm => hm, fun _ hc => hc, ?_⟩
    rw [origins_saveMember h hc.1]
    exact fun _ hm => hm
  | saveMembers ms =>
    refine after_saveMembers (.refl s) fun t ht => ?_
    exact saveMembers_grows h (fun m hm => (hc m hm).1) ht
  | insertMember id u role =>
    refine after_insertMember (.refl s) fun t ht => ?_
    rw [Db.insertMember_eq_some ht]
    refine ⟨fun _ hm => hm, fun _ hc => hc, ?_⟩
    simp
  | insertMessage d =>
    refine ⟨?_, fun _ hc => hc, fun _ hm => hm⟩
    simp [Chat.exec]
  | saveMessage m =>
    refine ⟨?_, fun _ hc => hc, fun _ hm => hm⟩
    simp only [Chat.exec]
    rw [origins_saveMessage h hc]
    exact fun _ hm => hm
  | insertHide m u =>
    simp only [Chat.exec]
    split <;> exact ⟨fun _ hm => hm, fun _ hc => hc, fun _ hm => hm⟩
  | insertReaction m u emoji =>
    simp only [Chat.exec]
    split <;> exact ⟨fun _ hm => hm, fun _ hc => hc, fun _ hm => hm⟩
  | insertBlock a b =>
    simp only [Chat.exec]
    split <;> exact ⟨fun _ hm => hm, fun _ hc => hc, fun _ hm => hm⟩
  | _ => exact ⟨fun _ hm => hm, fun _ hc => hc, fun _ hm => hm⟩

/-! ## The invariant -/

/-- A private conversation is never deleted, and its members are the two users of its pair key, in
the order of the request that created it. Neither ever leaves. -/
structure Paired (s : Db) (c : Conversation) : Prop where
  deletedAt : c.deletedAt = none
  pair : ∃ x y : UserId, x.canon ≠ y.canon ∧ c.pairKey = some (privatePairKey x y) ∧
    (s.membersOf c.id).map (fun m => (m.userId, m.leftAt)) = [(x.canon, none), (y.canon, none)]

structure Inv (s : Db) : Prop where
  keyed : WellKeyed s
  homes : ∀ m ∈ s.members, ∃ c ∈ s.conversations, c.id = m.conversationId
  canon : ∀ m ∈ s.members, m.userId.canon = m.userId
  /-- A reply points to a message of its own conversation. -/
  replies : ∀ m ∈ s.messages, ∀ r, m.replyToMessageId = some r → s.HasMessage r m.conversationId
  pairs : ∀ c ∈ s.conversations, c.type = .priv → Paired s c
  groups : ∀ c ∈ s.conversations, c.type = .group → c.pairKey = none

theorem inv_empty (now : Time) (timeZone : Int) : Inv (Db.empty now timeZone) where
  keyed := wellKeyed_empty now timeZone
  homes := fun _ h => absurd h List.not_mem_nil
  canon := fun _ h => absurd h List.not_mem_nil
  replies := fun _ h => absurd h List.not_mem_nil
  pairs := fun _ h => absurd h List.not_mem_nil
  groups := fun _ h => absurd h List.not_mem_nil

namespace Inv

variable {s t : Db}

theorem not_isGroup (h : Inv s) {c : Conversation} (hc : c ∈ s.conversations)
    (htype : c.type = .priv) : ¬ s.IsGroup c.id := by
  rintro ⟨row, hrow, hid, hgroup⟩
  rw [h.keyed.conversations.eq_of_id_eq hrow hc hid, htype] at hgroup
  cases hgroup

/-- Only the tables of conversations, members and messages matter. -/
theorem of_same (h : Inv s) (hkeyed : WellKeyed t) (hc : t.conversations = s.conversations)
    (hm : t.members = s.members) (hmsg : t.messages = s.messages) : Inv t where
  keyed := hkeyed
  homes := by rw [hm, hc]; exact h.homes
  canon := by rw [hm]; exact h.canon
  replies := by
    simp only [Db.HasMessage, hmsg]
    exact h.replies
  pairs := by
    rw [hc]
    intro c hcs htype
    obtain ⟨hdel, x, y, hne, hkey, hpair⟩ := h.pairs c hcs htype
    refine ⟨hdel, x, y, hne, hkey, ?_⟩
    rw [Db.membersOf, hm]
    exact hpair
  groups := by rw [hc]; exact h.groups

/-- Rows of the message table that keep the law of replies. -/
theorem of_messages (h : Inv s) {rows : List Message} (hkeyed : WellKeyed t)
    (ht : t.conversations = s.conversations ∧ t.members = s.members ∧ t.messages = rows)
    (hreplies : ∀ m ∈ rows, ∀ r, m.replyToMessageId = some r → t.HasMessage r m.conversationId) :
    Inv t where
  keyed := hkeyed
  homes := by rw [ht.2.1, ht.1]; exact h.homes
  canon := by rw [ht.2.1]; exact h.canon
  replies := by
    rw [ht.2.2]
    exact hreplies
  pairs := by
    rw [ht.1]
    intro c hcs htype
    obtain ⟨hdel, x, y, hne, hkey, hpair⟩ := h.pairs c hcs htype
    refine ⟨hdel, x, y, hne, hkey, ?_⟩
    rw [Db.membersOf, ht.2.1]
    exact hpair
  groups := by rw [ht.1]; exact h.groups

/-- Conversations rewritten with their origins, and no private one deleted. -/
theorem map_conversations (h : Inv s) {f : Conversation → Conversation}
    (hf : ∀ c ∈ s.conversations, (f c).origin = c.origin)
    (hdel : ∀ c ∈ s.conversations, c.type = .priv → (f c).deletedAt = none)
    (hkeyed : WellKeyed { s with conversations := s.conversations.map f }) :
    Inv { s with conversations := s.conversations.map f } where
  keyed := hkeyed
  homes := by
    intro m hm
    obtain ⟨c, hc, hid⟩ := h.homes m hm
    exact ⟨f c, List.mem_map_of_mem hc, (congrArg Conversation.Origin.id (hf c hc)).trans hid⟩
  canon := h.canon
  replies := h.replies
  pairs := by
    intro c hc htype
    obtain ⟨c', hc', rfl⟩ := List.mem_map.mp hc
    have ho := hf c' hc'
    have htype' : c'.type = .priv := (congrArg Conversation.Origin.type ho).symm.trans htype
    obtain ⟨_, x, y, hne, hkey, hpair⟩ := h.pairs c' hc' htype'
    have hid : (f c').id = c'.id := congrArg Conversation.Origin.id ho
    refine ⟨hdel c' hc' htype', x, y, hne,
      (congrArg Conversation.Origin.pairKey ho).trans hkey, ?_⟩
    rw [hid]
    exact hpair
  groups := by
    intro c hc htype
    obtain ⟨c', hc', rfl⟩ := List.mem_map.mp hc
    have ho := hf c' hc'
    exact (congrArg Conversation.Origin.pairKey ho).trans
      (h.groups c' hc' ((congrArg Conversation.Origin.type ho).symm.trans htype))

/-- A member row saved again. A private conversation keeps its members. -/
theorem replaceMember (h : Inv s) {m : ConversationMember} (hm : s.KnowsMember m)
    (hleft : m.leftAt ≠ none → s.IsGroup m.conversationId) :
    Inv { s with members := replaceRow ConversationMember.id m s.members } := by
  have ho : ∀ r ∈ s.members, r.id = m.id → r.origin = m.origin := fun r hr hid =>
    hm.origin_eq h.keyed hr hid
  have hback : ∀ m' ∈ replaceRow ConversationMember.id m s.members,
      ∃ r ∈ s.members, r.origin = m'.origin := by
    intro m' hm'
    have hmem := List.mem_map_of_mem (f := ConversationMember.origin) hm'
    rw [origins_saveMember h.keyed hm] at hmem
    exact List.mem_map.mp hmem
  refine ⟨⟨h.keyed.conversations, h.keyed.members.replaceRow, h.keyed.messages, h.keyed.scheduled⟩,
    ?_, ?_, h.replies, ?_, h.groups⟩
  · intro m' hm'
    obtain ⟨r, hr, horigin⟩ := hback m' hm'
    obtain ⟨c, hc, hid⟩ := h.homes r hr
    exact ⟨c, hc, hid.trans (congrArg ConversationMember.Origin.conversationId horigin)⟩
  · intro m' hm'
    obtain ⟨r, hr, horigin⟩ := hback m' hm'
    have huser : r.userId = m'.userId := congrArg ConversationMember.Origin.userId horigin
    rw [← huser]
    exact h.canon r hr
  · intro c hc htype
    obtain ⟨hdel, x, y, hne, hkey, hpair⟩ := h.pairs c hc htype
    refine ⟨hdel, x, y, hne, hkey, ?_⟩
    rw [← hpair]
    unfold Db.membersOf replaceRow
    rw [List.filter_map, List.map_map]
    have hfilter : s.members.filter ((fun m' : ConversationMember =>
        decide (m'.conversationId = c.id)) ∘ fun r => if r.id = m.id then m else r) =
          s.members.filter fun m' => decide (m'.conversationId = c.id) := by
      refine List.filter_congr fun r hr => ?_
      simp only [Function.comp_apply]
      split
      · next hid =>
        rw [show m.conversationId = r.conversationId from
          (congrArg ConversationMember.Origin.conversationId (ho r hr hid)).symm]
      · rfl
    rw [hfilter]
    refine List.map_congr_left fun r hr => ?_
    obtain ⟨hr, hconv⟩ := List.mem_filter.mp hr
    simp only [decide_eq_true_eq] at hconv
    simp only [Function.comp_apply]
    split
    · next hid =>
      have horigin := ho r hr hid
      have hnot : m.leftAt = none := by
        by_contra hleft'
        refine h.not_isGroup hc htype ?_
        rw [← hconv, show r.conversationId = m.conversationId from
          congrArg ConversationMember.Origin.conversationId horigin]
        exact hleft hleft'
      have hold : r.leftAt = none := by
        have hmem : (r.userId, r.leftAt) ∈
            (s.membersOf c.id).map fun m => (m.userId, m.leftAt) :=
          List.mem_map_of_mem (Db.mem_membersOf.mpr ⟨hr, hconv⟩)
        rw [hpair] at hmem
        simp only [List.mem_cons, Prod.mk.injEq, List.not_mem_nil, or_false] at hmem
        rcases hmem with ⟨_, hmem⟩ | ⟨_, hmem⟩ <;> exact hmem
      rw [hnot, hold, show m.userId = r.userId from
        (congrArg ConversationMember.Origin.userId horigin).symm]
    · rfl

/-- New member rows of a group. -/
theorem insertMembers {c : ConversationId} {us : List (UserId × ConversationMemberRole)}
    (h : Inv s) (hc : s.IsGroup c) (ht : s.insertMembers c us = some t) : Inv t := by
  have hkeyed := h.keyed.insertMembers ht
  obtain ⟨rows, rfl, hrows, _⟩ := Db.insertMembers_eq_some ht
  have hrow : ∀ r ∈ rows, r.conversationId = c ∧ ∃ u : UserId, r.userId = u.canon := by
    intro r hr
    have hmem := List.mem_map_of_mem (f := fun r : ConversationMember =>
      (r.conversationId, r.userId, r.leftAt)) hr
    rw [hrows] at hmem
    obtain ⟨u, _, heq⟩ := List.mem_map.mp hmem
    simp only [Prod.mk.injEq] at heq
    exact ⟨heq.1.symm, u.1, heq.2.1.symm⟩
  refine ⟨hkeyed, ?_, ?_, h.replies, ?_, h.groups⟩
  · intro m hm
    rcases List.mem_append.mp hm with hm | hm
    · exact h.homes m hm
    · obtain ⟨row, hmem, hid, _⟩ := hc
      exact ⟨row, hmem, hid.trans (hrow m hm).1.symm⟩
  · intro m hm
    rcases List.mem_append.mp hm with hm | hm
    · exact h.canon m hm
    · obtain ⟨_, u, hu⟩ := hrow m hm
      rw [hu, UserId.canon_canon]
  · intro c' hc' htype
    obtain ⟨hdel, x, y, hne, hkey, hpair⟩ := h.pairs c' hc' htype
    refine ⟨hdel, x, y, hne, hkey, ?_⟩
    have hother : rows.filter (fun m => decide (m.conversationId = c'.id)) = [] := by
      rw [List.filter_eq_nil_iff]
      intro r hr
      simp only [decide_eq_true_eq]
      intro hid
      refine h.not_isGroup hc' htype ?_
      rw [← hid, (hrow r hr).1]
      exact hc
    rw [Db.membersOf, List.filter_append, hother, List.append_nil]
    exact hpair

/-- No member row points to a conversation that is still to be created. -/
theorem membersOf_nextId (h : Inv s) : s.membersOf s.nextId = [] := by
  unfold Db.membersOf
  rw [List.filter_eq_nil_iff]
  intro m hm
  simp only [decide_eq_true_eq]
  intro hid
  obtain ⟨c, hc, hcid⟩ := h.homes m hm
  have hlt := h.keyed.conversations.lt c hc
  rw [hcid, hid] at hlt
  exact Nat.lt_irrefl _ hlt

theorem insertGroup (h : Inv s) (name : Option Text) (createdBy : UserId) :
    Inv (s.insertConversation .group name createdBy none) := by
  refine ⟨h.keyed.insertConversation _ _ _ _, ?_, h.canon, h.replies, ?_, ?_⟩
  · intro m hm
    obtain ⟨c, hc, hid⟩ := h.homes m hm
    exact ⟨c, List.mem_append_left _ hc, hid⟩
  · intro c hc htype
    rcases List.mem_append.mp hc with hc | hc
    · obtain ⟨hdel, x, y, hne, hkey, hpair⟩ := h.pairs c hc htype
      exact ⟨hdel, x, y, hne, hkey, hpair⟩
    · rw [List.mem_singleton.mp hc] at htype
      cases htype
  · intro c hc htype
    rcases List.mem_append.mp hc with hc | hc
    · exact h.groups c hc htype
    · rw [List.mem_singleton.mp hc]

/-- A new private conversation with its two members. -/
theorem insertPrivate (h : Inv s) {a b : UserId}
    (ht : (s.insertConversation .priv none a (some (privatePairKey a b))).insertMembers s.nextId
      [(a, .member), (b, .member)] = some t) : Inv t := by
  have hkeyed := (h.keyed.insertConversation .priv none a (some (privatePairKey a b))).insertMembers
    ht
  simp only [Db.insertMembers] at ht
  split at ht
  · cases ht
  · next s₁ hs₁ =>
    have h₁ := Db.insertMember_eq_some hs₁
    split at ht
    · cases ht
    · next s₂ hs₂ =>
      have h₂ := Db.insertMember_eq_some hs₂
      cases ht
      have hne : a.canon ≠ b.canon := by
        intro heq
        rw [h₁] at hs₂
        simp [Db.insertMember, Db.memberTaken, Db.insertConversation, heq] at hs₂
      rw [h₁] at h₂
      simp only [Db.insertConversation] at h₂
      refine ⟨hkeyed, ?_, ?_, ?_, ?_, ?_⟩
      · intro m hm
        rw [h₂] at hm ⊢
        simp only [List.append_assoc, List.mem_append, List.mem_cons, List.not_mem_nil,
          or_false] at hm
        rcases hm with hm | hm | hm
        · obtain ⟨c, hc, hid⟩ := h.homes m hm
          exact ⟨c, List.mem_append_left _ hc, hid⟩
        · exact ⟨_, List.mem_append_right _ List.mem_cons_self, by rw [hm]⟩
        · exact ⟨_, List.mem_append_right _ List.mem_cons_self, by rw [hm]⟩
      · intro m hm
        rw [h₂] at hm
        simp only [List.append_assoc, List.mem_append, List.mem_cons, List.not_mem_nil,
          or_false] at hm
        rcases hm with hm | rfl | rfl
        · exact h.canon m hm
        · exact UserId.canon_canon a
        · exact UserId.canon_canon b
      · rw [h₂]
        exact h.replies
      · intro c hc htype
        rw [h₂] at hc
        rcases List.mem_append.mp hc with hc | hc
        · obtain ⟨hdel, x, y, hxy, hkey, hpair⟩ := h.pairs c hc htype
          refine ⟨hdel, x, y, hxy, hkey, ?_⟩
          have hid : s.nextId ≠ c.id := fun hid =>
            Nat.lt_irrefl _ (hid ▸ h.keyed.conversations.lt c hc)
          rw [← hpair, h₂]
          simp [Db.membersOf, List.filter_append, hid]
        · obtain rfl := List.mem_singleton.mp hc
          refine ⟨rfl, a, b, hne, rfl, ?_⟩
          have hnil := h.membersOf_nextId
          unfold Db.membersOf at hnil
          rw [h₂]
          simp [Db.membersOf, List.filter_append, hnil]
      · intro c hc htype
        rw [h₂] at hc
        rcases List.mem_append.mp hc with hc | hc
        · exact h.groups c hc htype
        · rw [List.mem_singleton.mp hc] at htype
          cases htype

theorem saveMembers (h : Inv s) {ms : List ConversationMember}
    (hms : ∀ m ∈ ms, s.KnowsMember m ∧ (m.leftAt ≠ none → s.IsGroup m.conversationId))
    (ht : s.saveMembers ms = some t) : Inv t := by
  induction ms generalizing s with
  | nil =>
    cases ht
    exact h
  | cons m ms ih =>
    simp only [Db.saveMembers] at ht
    split at ht
    · cases ht
    · next s' hs' =>
      have hm := hms m List.mem_cons_self
      have hs := Db.saveMember_eq_some hs'
      have hgrows : s.Grows s' := by
        rw [hs]
        refine ⟨fun _ hm => hm, fun _ hc => hc, ?_⟩
        rw [origins_saveMember h.keyed hm.1]
        exact fun _ hm => hm
      refine ih ?_ (fun m' hm' => ?_) ht
      · rw [hs]
        exact h.replaceMember hm.1 hm.2
      · have hm' := hms m' (List.mem_cons_of_mem _ hm')
        exact ⟨hm'.1.grows hgrows, fun hleft => (hm'.2 hleft).grows hgrows⟩

/-- Lawful calls keep the invariant. -/
theorem exec (h : Inv s) {c : Call} (hc : Lawful s c) : Inv (exec c s).2 := by
  have hkeyed := h.keyed.exec c
  have hgrows := hc.grows h.keyed
  cases c with
  | createPrivateTx a b key =>
    obtain rfl : key = privatePairKey a b := hc
    refine after_createPrivateTx h fun t ht => ?_
    exact h.insertPrivate ht
  | createGroupTx a ids name =>
    refine after_createGroupTx h fun t ht => ?_
    exact (h.insertGroup _ _).insertMembers
      ⟨_, List.mem_append_right _ List.mem_cons_self, rfl, rfl⟩ ht
  | saveConversation c =>
    simp only [Chat.exec] at hkeyed ⊢
    split
    · next hall =>
      rw [if_pos hall] at hkeyed
      refine h.map_conversations (f := savedRow c s.now)
        (fun row hrow => origin_savedRow h.keyed hc.1 hrow) (fun row hrow htype => ?_) hkeyed
      unfold savedRow
      split
      · exact hc.2
      · exact (h.pairs row hrow htype).deletedAt
    · exact h
  | softDeleteConversation id =>
    refine h.map_conversations (fun row _ => ?_) (fun row hrow htype => ?_) hkeyed
    · split <;> rfl
    · split
      · next hid => exact absurd (hid ▸ hc) (h.not_isGroup hrow htype)
      · exact (h.pairs row hrow htype).deletedAt
  | saveMember m =>
    refine after_saveMember h fun t ht => ?_
    rw [Db.saveMember_eq_some ht]
    exact h.replaceMember hc.1 hc.2
  | saveMembers ms =>
    refine after_saveMembers h fun t ht => ?_
    exact h.saveMembers hc ht
  | insertMember id u role =>
    refine after_insertMember h fun t ht => ?_
    have hone : s.insertMembers id [(u, role)] = some t := by simp [Db.insertMembers, ht]
    exact h.insertMembers hc hone
  | insertMessage d =>
    refine h.of_messages hkeyed ⟨rfl, rfl, rfl⟩ fun m hm r hr => ?_
    rcases List.mem_append.mp hm with hm | hm
    · exact (h.replies m hm r hr).grows hgrows
    · rw [List.mem_singleton.mp hm] at hr ⊢
      exact Db.HasMessage.grows (hc r hr) hgrows
  | saveMessage m =>
    refine h.of_messages hkeyed ⟨rfl, rfl, rfl⟩ fun m' hm' r hr => ?_
    have hmem := List.mem_map_of_mem (f := Message.origin) hm'
    simp only [Chat.exec] at hmem
    rw [origins_saveMessage h.keyed hc] at hmem
    obtain ⟨row, hrow, ho⟩ := List.mem_map.mp hmem
    rw [← Message.conversationId_of_origin ho]
    exact (h.replies row hrow r ((Message.replyToMessageId_of_origin ho).trans hr)).grows hgrows
  | insertHide m u =>
    simp only [Chat.exec] at hkeyed ⊢
    split
    · exact h
    · next hnot =>
      rw [if_neg hnot] at hkeyed
      exact h.of_same hkeyed rfl rfl rfl
  | insertReaction m u emoji =>
    simp only [Chat.exec] at hkeyed ⊢
    split
    · exact h
    · next hnot =>
      rw [if_neg hnot] at hkeyed
      exact h.of_same hkeyed rfl rfl rfl
  | insertBlock a b =>
    simp only [Chat.exec] at hkeyed ⊢
    split
    · exact h
    · next hnot =>
      rw [if_neg hnot] at hkeyed
      exact h.of_same hkeyed rfl rfl rfl
  | _ => exact h.of_same hkeyed rfl rfl rfl

theorem wait (h : Inv s) (d : Nat) : Inv (s.wait d) := h.of_same (h.keyed.wait d) rfl rfl rfl

end Inv

end Relay.Chat
