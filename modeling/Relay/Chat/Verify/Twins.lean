import Relay.Chat.Verify.Agree

/-!
# Calls that write alike

A call that keeps to the conversations outside `hidden` (`Open`) has the same answer in two
databases that agree, and leaves databases that agree. `Twins` adds to the agreement what is known
of each side; `Twin` is the statement about programs that the operations are proved to satisfy.
-/

namespace Relay.Chat

open Relay.Lib Relay.Lib.Rows Prog

/-! ## Open calls -/

/-- The writing calls that stay outside `hidden`. -/
def Open (hidden : ConversationId → Bool) (s : Db) : Call → Prop
  | .createPrivateTx _ _ key =>
    ∀ c ∈ s.conversations, hidden c.id = true → c.deletedAt = none → c.pairKey ≠ some key
  | .createGroupTx _ _ _ => True
  | .saveConversation c => hidden c.id = false
  | .softDeleteConversation id => hidden id = false
  | .saveMember m => hidden m.conversationId = false
  | .saveMembers ms => ∀ m ∈ ms, hidden m.conversationId = false
  | .insertMember c _ _ => hidden c = false
  | .insertMessage d => hidden d.conversationId = false
  | .saveMessage m =>
    hidden m.conversationId = false ∧
      (m.deletedForEveryoneAt = none →
        ∀ row ∈ s.messages, row.id = m.id → row.deletedForEveryoneAt = none)
  | .insertHide m _ => s.Shows hidden m
  | .insertReaction m _ _ => s.ShowsAlive hidden m
  | .removeReaction _ => True
  | .insertScheduled d => hidden d.conversationId = false
  | .saveScheduled row =>
    hidden row.conversationId = false ∧
      ∀ r ∈ s.scheduledMessages, r.id = row.id → hidden r.conversationId = false
  | .claimScheduled id => ∀ r ∈ s.scheduledMessages, r.id = id → hidden r.conversationId = false
  | .insertBlock _ _ | .deleteBlock _ _ | .insertAudit _ _ _ _ _ | .saveWorkspace _ => True
  | _ => False

/-- Two databases that agree, with what is known of each. -/
structure Twins (hidden : ConversationId → Bool) (A : Prop) (u : UserId) (s t : Db) : Prop where
  agree : Agree hidden A s t
  left : Ready hidden u s
  right : Ready hidden u t

section Writes

variable {hidden : ConversationId → Bool} {A : Prop} {s t : Db}

/-! ### Member rows -/

theorem Agree.memberTaken (h : Agree hidden A s t) {m : ConversationMember}
    (hc : hidden m.conversationId = false) : s.memberTaken m = t.memberTaken m := by
  have hany : ∀ s : Db, (s.members.any fun row => row.id ≠ m.id &&
      row.conversationId = m.conversationId && row.userId = m.userId && row.leftAt = none) =
        (s.membersOf m.conversationId).any fun row => row.id ≠ m.id &&
          row.userId = m.userId && row.leftAt = none := by
    intro s
    unfold Db.membersOf
    rw [List.any_filter]
    congr 1
    funext row
    by_cases hrow : row.conversationId = m.conversationId <;> simp [hrow]
  unfold Db.memberTaken
  rw [hany s, hany t, h.membersOf hc]

theorem Agree.insertMember (h : Agree hidden A s t) {c : ConversationId} (hc : hidden c = false)
    (u : UserId) (role : ConversationMemberRole) :
    Option.Rel (Agree hidden A) (s.insertMember c u role) (t.insertMember c u role) := by
  have hrow : (⟨s.nextId, c, u.canon, role, s.now, none, none, none, none⟩ : ConversationMember) =
      ⟨t.nextId, c, u.canon, role, t.now, none, none, none, none⟩ := by
    rw [h.nextId, h.now]
  unfold Db.insertMember
  dsimp only
  rw [hrow, h.memberTaken hc]
  split
  · exact .none
  · refine .some { h with members := ?_, nextId := congrArg (· + 1) h.nextId }
    rw [List.filter_append, List.filter_append, h.members]

theorem Agree.insertMembers (h : Agree hidden A s t) {c : ConversationId} (hc : hidden c = false)
    (us : List (UserId × ConversationMemberRole)) :
    Option.Rel (Agree hidden A) (s.insertMembers c us) (t.insertMembers c us) := by
  induction us generalizing s t with
  | nil => exact .some h
  | cons u us ih =>
    obtain ⟨u, role⟩ := u
    simp only [Db.insertMembers]
    have hrel := h.insertMember hc u role
    generalize s.insertMember c u role = o at hrel
    generalize t.insertMember c u role = o' at hrel
    cases hrel with
    | none => exact .none
    | some h' => exact ih h'

/-- A member row that was loaded replaces a row of its own conversation. -/
theorem filter_replaceMember (hs : WellKeyed s) {m : ConversationMember} (hm : s.KnowsMember m) :
    (replaceRow ConversationMember.id m s.members).filter (fun m => !hidden m.conversationId) =
      replaceRow ConversationMember.id m (s.members.filter fun m => !hidden m.conversationId) := by
  refine filter_replaceRow fun r hr hid => ?_
  rw [show r.conversationId = m.conversationId from
    congrArg ConversationMember.Origin.conversationId (hm.origin_eq hs hr hid)]

theorem Agree.saveMember (h : Agree hidden A s t) (hs : WellKeyed s) (ht : WellKeyed t)
    {m : ConversationMember} (hm : s.KnowsMember m) (hm' : t.KnowsMember m)
    (hc : hidden m.conversationId = false) :
    Option.Rel (Agree hidden A) (s.saveMember m) (t.saveMember m) := by
  unfold Db.saveMember
  rw [h.memberTaken hc]
  split
  · exact .none
  · refine .some { h with members := ?_ }
    rw [filter_replaceMember hs hm, filter_replaceMember ht hm', h.members]

theorem Agree.saveMembers (h : Agree hidden A s t) (hs : WellKeyed s) (ht : WellKeyed t)
    {ms : List ConversationMember} (hms : ∀ m ∈ ms, s.KnowsMember m)
    (hms' : ∀ m ∈ ms, t.KnowsMember m) (hc : ∀ m ∈ ms, hidden m.conversationId = false) :
    Option.Rel (Agree hidden A) (s.saveMembers ms) (t.saveMembers ms) := by
  induction ms generalizing s t with
  | nil => exact .some h
  | cons m ms ih =>
    have hgrow : ∀ {s s' : Db}, WellKeyed s → (∀ x ∈ m :: ms, s.KnowsMember x) →
        s.saveMember m = some s' → WellKeyed s' ∧ ∀ x ∈ ms, s'.KnowsMember x := by
      intro s s' hs hms heq
      rw [Db.saveMember_eq_some heq]
      refine ⟨⟨hs.conversations, hs.members.replaceRow, hs.messages, hs.scheduled⟩,
        fun x hx => ?_⟩
      unfold Db.KnowsMember
      rw [origins_saveMember hs (hms m List.mem_cons_self)]
      exact hms x (List.mem_cons_of_mem _ hx)
    simp only [Db.saveMembers]
    have hrel := h.saveMember hs ht (hms m List.mem_cons_self) (hms' m List.mem_cons_self)
      (hc m List.mem_cons_self)
    cases hsm : s.saveMember m with
    | none =>
      rw [hsm] at hrel
      cases htm : t.saveMember m with
      | none => exact .none
      | some t' =>
        rw [htm] at hrel
        cases hrel
    | some s' =>
      rw [hsm] at hrel
      cases htm : t.saveMember m with
      | none =>
        rw [htm] at hrel
        cases hrel
      | some t' =>
        rw [htm] at hrel
        cases hrel with
        | some h' =>
          obtain ⟨hs', hms₁⟩ := hgrow hs hms hsm
          obtain ⟨ht', hms₂⟩ := hgrow ht hms' htm
          exact ih h' hs' ht' hms₁ hms₂ fun x hx => hc x (List.mem_cons_of_mem _ hx)

/-- A transaction that fails alike or leaves databases that agree. -/
theorem orViolation_rel (h : Agree hidden A s t) {α : Type} {e : QueryError}
    {o o' : Option (α × Db)}
    (ho : Option.Rel (fun x y => x.1 = y.1 ∧ Agree hidden A x.2 y.2) o o') :
    (orViolation e s o).1 = (orViolation e t o').1 ∧
      Agree hidden A (orViolation e s o).2 (orViolation e t o').2 := by
  cases ho with
  | none => exact ⟨rfl, h⟩
  | some hxy => exact ⟨congrArg Except.ok hxy.1, hxy.2⟩

/-! ### Conversations -/

theorem Agree.insertConversation (h : Agree hidden A s t) (type : ConversationType)
    (name : Option Text) (createdBy : UserId) (pairKey : Option Text) :
    Agree hidden A (s.insertConversation type name createdBy pairKey)
      (t.insertConversation type name createdBy pairKey) := by
  have hfind : ∀ (s : Db) (c : ConversationId),
      ((s.insertConversation type name createdBy pairKey).findConversation c).isSome =
        ((s.findConversation c).isSome || decide (s.nextId = c)) := by
    intro s c
    unfold Db.findConversation Db.insertConversation
    by_cases hid : s.nextId = c <;> simp [List.find?_append, hid]
  refine { h with conversations := ?_, stored := fun c => ?_, nextId := ?_ }
  · unfold Db.insertConversation
    rw [List.filter_append, List.filter_append, h.conversations, h.nextId, h.now]
  · rw [hfind, hfind, h.stored, h.nextId]
  · exact congrArg (· + 1) h.nextId

/-- The conversation a transaction has just created, with its members. -/
theorem Agree.createTx (h : Agree hidden A s t)
    (hfresh : hidden s.nextId = false) (type : ConversationType) (name : Option Text)
    (createdBy : UserId) (pairKey : Option Text) (us : List (UserId × ConversationMemberRole)) :
    Option.Rel (fun x y => x.1 = y.1 ∧ Agree hidden A x.2 y.2)
      (((s.insertConversation type name createdBy pairKey).insertMembers s.nextId us).bind
        fun s' => (s'.findConversation s.nextId).map fun c => (s'.withMembers c, s'))
      (((t.insertConversation type name createdBy pairKey).insertMembers t.nextId us).bind
        fun t' => (t'.findConversation t.nextId).map fun c => (t'.withMembers c, t')) := by
  rw [← h.nextId]
  have hrel := (h.insertConversation type name createdBy pairKey).insertMembers hfresh us
  generalize (s.insertConversation type name createdBy pairKey).insertMembers s.nextId us = o
    at hrel
  generalize (t.insertConversation type name createdBy pairKey).insertMembers s.nextId us = o'
    at hrel
  cases hrel with
  | none => exact .none
  | @some s' t' h' =>
    simp only [Option.bind_some]
    rw [h'.findConversation hfresh]
    cases hfind : t'.findConversation s.nextId with
    | none => exact .none
    | some c =>
      have hid := (Db.findConversation_eq_some hfind).2.1
      exact .some ⟨h'.withMembers (hid ▸ hfresh), h'⟩

theorem Agree.pairKeyTaken (h : Agree hidden A s t) {key : Text}
    (hs : ∀ c ∈ s.conversations, hidden c.id = true → c.deletedAt = none → c.pairKey ≠ some key)
    (ht : ∀ c ∈ t.conversations, hidden c.id = true → c.deletedAt = none → c.pairKey ≠ some key) :
    s.pairKeyTaken key = t.pairKeyTaken key := by
  have hrows : s.conversations.filter (fun row => row.pairKey = some key && row.deletedAt = none) =
      t.conversations.filter fun row => row.pairKey = some key && row.deletedAt = none := by
    refine filter_eq_of_filter_eq h.conversations (fun c hc hq => ?_) fun c hc hq => ?_
    · simp only [Bool.and_eq_true, decide_eq_true_eq] at hq
      cases hh : hidden c.id with
      | false => rfl
      | true => exact absurd hq.1 (hs c hc hh hq.2)
    · simp only [Bool.and_eq_true, decide_eq_true_eq] at hq
      cases hh : hidden c.id with
      | false => rfl
      | true => exact absurd hq.1 (ht c hc hh hq.2)
  have hany : ∀ s : Db, s.pairKeyTaken key =
      (s.conversations.filter fun row =>
        row.pairKey = some key && row.deletedAt = none).any fun _ => true := by
    intro s
    unfold Db.pairKeyTaken
    rw [List.any_filter]
    simp
  rw [hany s, hany t, hrows]

/-- Conversations rewritten one by one, those of `hidden` kept as they are. -/
theorem Agree.map_conversations (h : Agree hidden A s t) {f : Conversation → Conversation}
    (hid : ∀ c, (f c).id = c.id) (hkeep : ∀ c, hidden c.id = true → f c = c) :
    Agree hidden A { s with conversations := s.conversations.map f }
      { t with conversations := t.conversations.map f } := by
  have hfilter : ∀ rows : List Conversation, (rows.map f).filter (fun c => !hidden c.id) =
      (rows.filter fun c => !hidden c.id).map f := by
    intro rows
    rw [List.filter_map]
    congr 1
    refine List.filter_congr fun c _ => ?_
    simp only [Function.comp_apply, hid]
  have hrows : (s.conversations.map f).filter (fun c => !hidden c.id) =
      (t.conversations.map f).filter fun c => !hidden c.id := by
    rw [hfilter, hfilter, h.conversations]
  refine { h with conversations := hrows, stored := fun c => ?_ }
  cases hc : hidden c with
  | false =>
    unfold Db.findConversation
    rw [find?_eq_of_filter_eq hrows]
    · intro row _ hrow
      simp only [decide_eq_true_eq] at hrow
      simp [hrow.1, hc]
    · intro row _ hrow
      simp only [decide_eq_true_eq] at hrow
      simp [hrow.1, hc]
  | true =>
    have hsame : ∀ s : Db, (({ s with conversations := s.conversations.map f } :
        Db).findConversation c) = s.findConversation c := by
      intro s
      unfold Db.findConversation
      induction s.conversations with
      | nil => rfl
      | cons row rows ih =>
        simp only [List.map_cons, List.find?_cons, ih, hid]
        by_cases hrow : row.id = c
        · rw [hkeep row (hrow ▸ hc)]
        · simp [hrow]
    rw [hsame, hsame, h.stored]

/-! ### Messages -/

/-- Message tables written alike. Every message now seen had a row that was seen. -/
theorem Agree.with_messages (h : Agree hidden A s t) {rows rows' : List Message} {n : Nat}
    (hrows : (rows.filter fun m => !hidden m.conversationId).map Message.redact =
      (rows'.filter fun m => !hidden m.conversationId).map Message.redact)
    (hs : ∀ id, ({ s with messages := rows } : Db).Shows hidden id → s.Shows hidden id)
    (ht : ∀ id, ({ t with messages := rows' } : Db).Shows hidden id → t.Shows hidden id)
    (hsa : ∀ id, ({ s with messages := rows } : Db).ShowsAlive hidden id →
      s.ShowsAlive hidden id)
    (hta : ∀ id, ({ t with messages := rows' } : Db).ShowsAlive hidden id →
      t.ShowsAlive hidden id) :
    Agree hidden A { s with messages := rows, nextId := n }
      { t with messages := rows', nextId := n } :=
  { h with
    messages := hrows
    hides := fun id hid hid' => h.hides id (hs id hid) (ht id hid')
    reactions := fun id hid hid' => h.reactions id (hsa id hid) (hta id hid')
    nextId := rfl }

theorem Agree.insertMessage (h : Agree hidden A s t) (m : Message) {n : Nat} :
    Agree hidden A { s with messages := s.messages ++ [m], nextId := n }
      { t with messages := t.messages ++ [m], nextId := n } := by
  refine h.with_messages ?_ ?_ ?_ ?_ ?_
  · have hmessages := h.messages
    unfold Db.seen at hmessages
    rw [List.filter_append, List.filter_append, List.map_append, List.map_append, hmessages]
  · exact fun id hid x hx => hid x (List.mem_append_left _ hx)
  · exact fun id hid x hx => hid x (List.mem_append_left _ hx)
  · exact fun id hid x hx => hid x (List.mem_append_left _ hx)
  · exact fun id hid x hx => hid x (List.mem_append_left _ hx)

/-- A message that was loaded replaces a row of its own conversation. -/
theorem seen_replaceMessage (hs : WellKeyed s) {m : Message} (hm : s.KnowsMessage m) :
    ((replaceRow Message.id m s.messages).filter fun m => !hidden m.conversationId).map
        Message.redact = replaceRow Message.id m.redact (s.seen hidden) := by
  rw [filter_replaceRow, map_replaceRow_comm]
  · rfl
  · exact fun r => Message.id_of_origin (origin_redact r)
  · intro r hr hid
    rw [Message.conversationId_of_origin (hm.origin_eq hs hr hid)]

/-- After the row of `m` is replaced, what is seen was seen before. -/
theorem shows_of_replaceMessage (hs : WellKeyed s) {m : Message} (hm : s.KnowsMessage m)
    {id : MessageId}
    (h : ({ s with messages := replaceRow Message.id m s.messages } : Db).Shows hidden id) :
    s.Shows hidden id := by
  intro x hx hid
  have hmem := List.mem_map_of_mem (f := Message.origin) hx
  rw [← origins_saveMessage hs hm] at hmem
  obtain ⟨x', hx', ho⟩ := List.mem_map.mp hmem
  rw [← Message.conversationId_of_origin ho]
  exact h x' hx' ((Message.id_of_origin ho).trans hid)

theorem showsAlive_of_replaceMessage (hs : WellKeyed s) {m : Message} (hm : s.KnowsMessage m)
    (halive : m.deletedForEveryoneAt = none →
      ∀ row ∈ s.messages, row.id = m.id → row.deletedForEveryoneAt = none)
    {id : MessageId}
    (h : ({ s with messages := replaceRow Message.id m s.messages } : Db).ShowsAlive hidden id) :
    s.ShowsAlive hidden id := by
  intro x hx hid
  have hshows := shows_of_replaceMessage hs hm (fun x hx hid => (h x hx hid).1) x hx hid
  refine ⟨hshows, ?_⟩
  by_cases hxm : x.id = m.id
  · have hmem : m ∈ replaceRow Message.id m s.messages :=
      List.mem_map.mpr ⟨x, hx, by rw [if_pos hxm]⟩
    exact halive (h m hmem (hxm.symm.trans hid)).2 x hx hxm
  · have hmem : x ∈ replaceRow Message.id m s.messages :=
      List.mem_map.mpr ⟨x, hx, by rw [if_neg hxm]⟩
    exact (h x hmem hid).2

theorem Agree.saveMessage (h : Agree hidden A s t) (hs : WellKeyed s) (ht : WellKeyed t)
    {m : Message} (hm : s.KnowsMessage m) (hm' : t.KnowsMessage m)
    (halive : m.deletedForEveryoneAt = none →
      ∀ row ∈ s.messages, row.id = m.id → row.deletedForEveryoneAt = none)
    (halive' : m.deletedForEveryoneAt = none →
      ∀ row ∈ t.messages, row.id = m.id → row.deletedForEveryoneAt = none) :
    Agree hidden A { s with messages := replaceRow Message.id m s.messages }
      { t with messages := replaceRow Message.id m t.messages } := by
  have hseen : ((replaceRow Message.id m s.messages).filter fun m =>
      !hidden m.conversationId).map Message.redact =
        ((replaceRow Message.id m t.messages).filter fun m =>
          !hidden m.conversationId).map Message.redact := by
    rw [seen_replaceMessage hs hm, seen_replaceMessage ht hm', h.messages]
  have hnext := h.with_messages (n := s.nextId) hseen
    (fun _ => shows_of_replaceMessage hs hm) (fun _ => shows_of_replaceMessage ht hm')
    (fun _ => showsAlive_of_replaceMessage hs hm halive)
    (fun _ => showsAlive_of_replaceMessage ht hm' halive')
  exact { hnext with nextId := h.nextId }

/-! ### Hides, reactions and scheduled messages -/

theorem Agree.insertHide (h : Agree hidden A s t) {m : MessageId} (hm : s.Shows hidden m)
    (hm' : t.Shows hidden m) (u : UserId) :
    (exec (.insertHide m u) s).1 = (exec (.insertHide m u) t).1 ∧
      Agree hidden A (exec (.insertHide m u) s).2 (exec (.insertHide m u) t).2 := by
  have hhidden : s.isHidden m u = t.isHidden m u := by
    have hany : ∀ s : Db, s.isHidden m u =
        (s.messageHides.filter fun h => h.messageId = m).any fun h => h.userId == u.canon := by
      intro s
      unfold Db.isHidden
      rw [List.any_filter]
      rfl
    rw [hany s, hany t, h.hides m hm hm']
  simp only [exec, hhidden]
  split
  · exact ⟨rfl, h⟩
  · refine ⟨rfl, { h with hides := fun id hs ht => ?_, nextId := congrArg (· + 1) h.nextId }⟩
    rw [List.filter_append, List.filter_append, h.hides id hs ht, h.nextId, h.now]

theorem Agree.insertReaction (h : Agree hidden A s t) {m : MessageId}
    (hm : s.ShowsAlive hidden m) (hm' : t.ShowsAlive hidden m) (u : UserId) (emoji : Text) :
    (exec (.insertReaction m u emoji) s).1 = (exec (.insertReaction m u emoji) t).1 ∧
      Agree hidden A (exec (.insertReaction m u emoji) s).2
        (exec (.insertReaction m u emoji) t).2 := by
  have hany : ∀ s : Db, (s.messageReactions.any fun r =>
      r.messageId = m ∧ r.userId = u.canon ∧ r.emoji = emoji) =
        (s.reactionsTo m).any fun r => r.userId = u.canon ∧ r.emoji = emoji := by
    intro s
    unfold Db.reactionsTo
    rw [List.any_filter]
    simp
  simp only [exec, hany, h.reactions m hm hm']
  split
  · exact ⟨rfl, h⟩
  · refine ⟨rfl, { h with reactions := fun id hs ht => ?_, nextId := congrArg (· + 1) h.nextId }⟩
    have hrows := h.reactions id hs ht
    unfold Db.reactionsTo at hrows ⊢
    rw [List.filter_append, List.filter_append, hrows, h.nextId, h.now]

theorem Agree.removeReaction (h : Agree hidden A s t) (r : MessageReaction) :
    Agree hidden A (exec (.removeReaction r) s).2 (exec (.removeReaction r) t).2 := by
  refine { h with reactions := fun id hs ht => ?_ }
  have hrows := h.reactions id hs ht
  unfold Db.reactionsTo at hrows ⊢
  simp only [exec]
  rw [List.filter_comm, hrows, List.filter_comm]

/-- Scheduled messages rewritten one by one, none moved into or out of `hidden`. -/
theorem Agree.map_scheduled (h : Agree hidden A s t) {f : ScheduledMessage → ScheduledMessage}
    (hs : ∀ r ∈ s.scheduledMessages, hidden (f r).conversationId = hidden r.conversationId)
    (ht : ∀ r ∈ t.scheduledMessages, hidden (f r).conversationId = hidden r.conversationId) :
    Agree hidden A { s with scheduledMessages := s.scheduledMessages.map f }
      { t with scheduledMessages := t.scheduledMessages.map f } := by
  have hfilter : ∀ rows : List ScheduledMessage,
      (∀ r ∈ rows, hidden (f r).conversationId = hidden r.conversationId) →
        (rows.map f).filter (fun r => !hidden r.conversationId) =
          (rows.filter fun r => !hidden r.conversationId).map f := by
    intro rows hrows
    rw [List.filter_map]
    congr 1
    refine List.filter_congr fun r hr => ?_
    simp only [Function.comp_apply, hrows r hr]
  refine { h with scheduledMessages := ?_ }
  rw [hfilter _ hs, hfilter _ ht, h.scheduledMessages]

end Writes

/-! ## One call -/

section Exec

variable {hidden : ConversationId → Bool} {A : Prop} {u : UserId} {s t : Db}

/-- An open call has one answer in both databases and leaves them in agreement. -/
theorem Twins.exec_agree (h : Twins hidden A u s t) {c : Call} (hs : Lawful s c) (ht : Lawful t c)
    (hos : Open hidden s c) (hot : Open hidden t c) :
    (exec c s).1 = (exec c t).1 ∧ Agree hidden A (exec c s).2 (exec c t).2 := by
  obtain ⟨h, hl, hr⟩ := h
  have hks := hl.inv.keyed
  have hkt := hr.inv.keyed
  cases c with
  | createPrivateTx a b key =>
    simp only [exec, h.pairKeyTaken hos hot]
    split
    · exact ⟨rfl, h⟩
    · exact orViolation_rel h (h.createTx (hl.fresh _ (Nat.le_refl _)) _ _ _ _ _)
  | createGroupTx a ids name =>
    exact orViolation_rel h (h.createTx (hl.fresh _ (Nat.le_refl _)) _ _ _ _ _)
  | saveConversation c =>
    simp only [exec, h.membersOf hos]
    split
    · have hrows : Agree hidden A { s with conversations := s.conversations.map (savedRow c t.now) }
          { t with conversations := t.conversations.map (savedRow c t.now) } := by
        refine h.map_conversations (fun row => ?_) fun row hrow => ?_
        · unfold savedRow
          split
          · next hid => exact hid.1.symm
          · rfl
        · unfold savedRow
          rw [if_neg]
          rintro ⟨hid, _⟩
          rw [hid, hos] at hrow
          cases hrow
      rw [h.now]
      exact ⟨rfl, { hrows with now := rfl }⟩
    · exact ⟨rfl, h⟩
  | softDeleteConversation id =>
    have hrows := h.map_conversations
      (f := fun row => if row.id = id then { row with deletedAt := some t.now } else row)
      (fun row => by split <;> rfl) fun row hrow => by
        refine if_neg ?_
        rintro rfl
        rw [hos] at hrow
        cases hrow
    simp only [exec, true_and]
    rw [h.now]
    exact { hrows with now := rfl }
  | saveMember m =>
    refine orViolation_rel h ?_
    have hrel := h.saveMember hks hkt hs.1 ht.1 hos
    generalize s.saveMember m = o at hrel ⊢
    generalize t.saveMember m = o' at hrel ⊢
    cases hrel with
    | none => exact .none
    | some h' => exact .some ⟨rfl, h'⟩
  | saveMembers ms =>
    refine orViolation_rel h ?_
    have hrel := h.saveMembers hks hkt (fun m hm => (hs m hm).1) (fun m hm => (ht m hm).1) hos
    generalize s.saveMembers ms = o at hrel ⊢
    generalize t.saveMembers ms = o' at hrel ⊢
    cases hrel with
    | none => exact .none
    | some h' => exact .some ⟨rfl, h'⟩
  | insertMember c user role =>
    refine orViolation_rel h ?_
    have hrel := h.insertMember hos user role
    generalize s.insertMember c user role = o at hrel ⊢
    generalize t.insertMember c user role = o' at hrel ⊢
    cases hrel with
    | none => exact .none
    | some h' => exact .some ⟨rfl, h'⟩
  | insertMessage d =>
    simp only [exec]
    rw [h.nextId, h.now]
    exact ⟨rfl, { h.insertMessage _ with now := rfl }⟩
  | saveMessage m => exact ⟨rfl, h.saveMessage hks hkt hs ht hos.2 hot.2⟩
  | insertHide m user => exact h.insertHide hos hot user
  | insertReaction m user emoji => exact h.insertReaction hos hot user emoji
  | removeReaction r => exact ⟨rfl, h.removeReaction r⟩
  | insertScheduled d =>
    simp only [exec]
    rw [h.nextId, h.now]
    refine ⟨rfl, { h with scheduledMessages := ?_, nextId := rfl, now := rfl }⟩
    rw [List.filter_append, List.filter_append, h.scheduledMessages]
  | saveScheduled row =>
    have hrows := h.map_scheduled
      (f := fun r => if r.id = row.id then { row with updatedAt := t.now } else r)
      (fun r hr => by
        split
        · next hid => rw [hos.1, hos.2 r hr hid]
        · rfl)
      fun r hr => by
        split
        · next hid => rw [hot.1, hot.2 r hr hid]
        · rfl
    simp only [exec, true_and]
    rw [h.now]
    exact { hrows with now := rfl }
  | claimScheduled id =>
    have hrows : (s.scheduledMessages.filter fun row => row.id = id ∧ row.status = .pending) =
        t.scheduledMessages.filter fun row => row.id = id ∧ row.status = .pending := by
      refine filter_eq_of_filter_eq h.scheduledMessages (fun r hr hq => ?_) fun r hr hq => ?_
      · simp only [decide_eq_true_eq] at hq
        simp [hos r hr hq.1]
      · simp only [decide_eq_true_eq] at hq
        simp [hot r hr hq.1]
    have hkeep : ∀ r : ScheduledMessage, hidden (if r.id = id ∧ r.status = .pending then
        { r with status := .sending, updatedAt := t.now } else r).conversationId =
          hidden r.conversationId := fun r => by split <;> rfl
    have hmap := h.map_scheduled (fun r _ => hkeep r) fun r _ => hkeep r
    simp only [exec, hrows, true_and]
    rw [h.now]
    exact { hmap with now := rfl }
  | insertBlock a b =>
    simp only [exec, h.blocks]
    split
    · exact ⟨rfl, h⟩
    · rw [h.nextId, h.now]
      refine ⟨rfl, { h with userBlocks := ?_, nextId := rfl, now := rfl }⟩
      rw [h.userBlocks]
  | deleteBlock a b =>
    simp only [exec, h.blocks]
    exact ⟨trivial, { h with userBlocks := by rw [h.userBlocks] }⟩
  | insertAudit a action type id info =>
    simp only [exec]
    rw [h.nextId, h.now]
    exact ⟨rfl, { h with auditEvents := fun ha => by rw [h.auditEvents ha], nextId := rfl, now := rfl }⟩
  | saveWorkspace settings => exact ⟨rfl, { h with workspaceSettings := rfl }⟩
  | _ => exact hos.elim

/-- Ids are never given back. -/
theorem nextId_le_exec (c : Call) (s : Db) : s.nextId ≤ (exec c s).2.nextId := by
  have hinsert : ∀ {s t : Db} {c : ConversationId} {us : List (UserId × ConversationMemberRole)},
      s.insertMembers c us = some t → s.nextId ≤ t.nextId := by
    intro s t c us ht
    obtain ⟨rows, rfl, _, _⟩ := Db.insertMembers_eq_some ht
    exact Nat.le_add_right _ _
  cases c with
  | createPrivateTx a b key =>
    refine after_createPrivateTx (P := fun t => s.nextId ≤ t.nextId) (Nat.le_refl _) fun t ht => ?_
    exact Nat.le_trans (Nat.le_succ _) (hinsert ht)
  | createGroupTx a ids name =>
    refine after_createGroupTx (P := fun t => s.nextId ≤ t.nextId) (Nat.le_refl _) fun t ht => ?_
    exact Nat.le_trans (Nat.le_succ _) (hinsert ht)
  | saveConversation c =>
    simp only [exec]
    split <;> exact Nat.le_refl _
  | saveMember m =>
    refine after_saveMember (P := fun t => s.nextId ≤ t.nextId) (Nat.le_refl _) fun t ht => ?_
    rw [Db.saveMember_eq_some ht]
  | saveMembers ms =>
    refine after_saveMembers (P := fun t => s.nextId ≤ t.nextId) (Nat.le_refl _) fun t ht => ?_
    obtain ⟨rows, rfl, _⟩ := Db.saveMembers_eq_some ht
    exact Nat.le_refl _
  | insertMember c u role =>
    refine after_insertMember (P := fun t => s.nextId ≤ t.nextId) (Nat.le_refl _) fun t ht => ?_
    rw [Db.insertMember_eq_some ht]
    exact Nat.le_succ _
  | insertMessage d => exact Nat.le_succ _
  | insertHide m u =>
    simp only [exec]
    split
    · exact Nat.le_refl _
    · exact Nat.le_succ _
  | insertReaction m u emoji =>
    simp only [exec]
    split
    · exact Nat.le_refl _
    · exact Nat.le_succ _
  | insertScheduled d => exact Nat.le_succ _
  | insertBlock a b =>
    simp only [exec]
    split
    · exact Nat.le_refl _
    · exact Nat.le_succ _
  | insertAudit a action type id info => exact Nat.le_succ _
  | _ => exact Nat.le_refl _

/-- New member rows of a conversation outside `hidden`. -/
theorem insertMembers_hidden {c : ConversationId} {us : List (UserId × ConversationMemberRole)}
    (hc : hidden c = false) (ht : s.insertMembers c us = some t) :
    ∀ m ∈ t.members, hidden m.conversationId = true → m ∈ s.members := by
  intro m hm hhid
  obtain ⟨rows, rfl, hrows, _⟩ := Db.insertMembers_eq_some ht
  rcases List.mem_append.mp hm with hm | hm
  · exact hm
  · have hmem := List.mem_map_of_mem (f := fun r : ConversationMember =>
      (r.conversationId, r.userId, r.leftAt)) hm
    rw [hrows] at hmem
    obtain ⟨x, _, heq⟩ := List.mem_map.mp hmem
    simp only [Prod.mk.injEq] at heq
    rw [← heq.1, hc] at hhid
    cases hhid

/-- Open calls write no member row of a hidden conversation. -/
theorem Open.members (hs : Ready hidden u s) {c : Call} (ho : Open hidden s c) :
    ∀ m ∈ (exec c s).2.members, hidden m.conversationId = true → m ∈ s.members := by
  have hfresh := hs.fresh s.nextId (Nat.le_refl _)
  let P (t : Db) : Prop := ∀ m ∈ t.members, hidden m.conversationId = true → m ∈ s.members
  have hsame : P s := fun m hm _ => hm
  cases c with
  | createPrivateTx a b key =>
    refine after_createPrivateTx (P := P) hsame fun t ht => ?_
    exact insertMembers_hidden (s := s.insertConversation _ _ _ _) hfresh ht
  | createGroupTx a ids name =>
    refine after_createGroupTx (P := P) hsame fun t ht => ?_
    exact insertMembers_hidden (s := s.insertConversation _ _ _ _) hfresh ht
  | saveConversation c =>
    simp only [exec]
    split <;> exact hsame
  | saveMember m =>
    refine after_saveMember (P := P) hsame fun t ht => ?_
    intro x hx hhid
    rw [Db.saveMember_eq_some ht] at hx
    rcases mem_replaceRow hx with rfl | hx
    · rw [show hidden x.conversationId = false from ho] at hhid
      cases hhid
    · exact hx
  | saveMembers ms =>
    refine after_saveMembers (P := P) hsame fun t ht => ?_
    obtain ⟨rows, rfl, hrows⟩ := Db.saveMembers_eq_some ht
    intro x hx hhid
    rcases hrows x hx with hx | hx
    · rw [ho x hx] at hhid
      cases hhid
    · exact hx
  | insertMember c user role =>
    refine after_insertMember (P := P) hsame fun t ht => ?_
    have hone : s.insertMembers c [(user, role)] = some t := by simp [Db.insertMembers, ht]
    exact insertMembers_hidden ho hone
  | insertHide m u =>
    simp only [exec]
    split <;> exact hsame
  | insertReaction m u emoji =>
    simp only [exec]
    split <;> exact hsame
  | insertBlock a b =>
    simp only [exec]
    split <;> exact hsame
  | _ => exact hsame

theorem Ready.exec (h : Ready hidden u s) {c : Call} (hc : Lawful s c) (ho : Open hidden s c) :
    Ready hidden u (exec c s).2 where
  inv := h.inv.exec hc
  outside := fun m hm hhid hu => h.outside m (ho.members h m hm hhid) hhid hu
  fresh := fun c hle => h.fresh c (Nat.le_trans (nextId_le_exec _ s) hle)

theorem Twins.exec (h : Twins hidden A u s t) {c : Call} (hs : Lawful s c) (ht : Lawful t c)
    (hos : Open hidden s c) (hot : Open hidden t c) :
    (exec c s).1 = (exec c t).1 ∧ Twins hidden A u (exec c s).2 (exec c t).2 :=
  have hagree := h.exec_agree hs ht hos hot
  ⟨hagree.1, hagree.2, h.left.exec hs hos, h.right.exec ht hot⟩

end Exec

end Relay.Chat
