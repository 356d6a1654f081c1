import Relay.Chat.Verify.Parallel

/-!
# Two noninterference theorems

What happens in conversations that a user does not take part in changes no answer to that user
(`nonmember_noninterference`), and what a message held before it was deleted for everyone changes no
answer to anyone (`tombstone_noninterference`). Both are about any two reachable databases that
agree (`Agree`) and are read off one walk through the operations (`twin_client`, `twin_program`).
-/

namespace Relay.Chat

open Relay.Lib Relay.Lib.Rows Prog

variable {hidden : ConversationId → Bool} {A : Prop} {u : UserId} {s t : Db}

/-! ## The operations of clients -/

/-- Every operation of a client. -/
theorem twin_client (h : Twins hidden A u s t) {op : Op}
    (hop : op.actor = some u ∨ op.actor = none) (hclient : op.isInternal = false) :
    Twin hidden A u op.program op.program s t := by
  have hactor : ∀ a, some a = some u ∨ some a = none → a = u := by
    rintro a (ha | ha)
    · exact Option.some.inj ha
    · cases ha
  cases op with
  | createPrivate a b => obtain rfl := hactor a hop; exact twin_map _ (twin_createPrivate · b) h
  | createGroup a name ids =>
    obtain rfl := hactor a hop
    exact twin_map _ (twin_createGroup · name ids) h
  | listConversations a page =>
    obtain rfl := hactor a hop
    exact twin_map _ (twin_listConversations · page) h
  | getConversation c a => obtain rfl := hactor a hop; exact twin_map _ (twin_getConversation · c) h
  | listMessages c a page =>
    obtain rfl := hactor a hop
    exact twin_map _ (twin_listMessagesOp · c page) h
  | searchMessages c a query page =>
    obtain rfl := hactor a hop
    exact twin_map _ (twin_searchMessages · c query page) h
  | searchGlobal a query page =>
    obtain rfl := hactor a hop
    exact twin_map _ (twin_searchGlobal · query page) h
  | listMedia c a kind page =>
    obtain rfl := hactor a hop
    exact twin_map _ (twin_listMedia · c kind page) h
  | getMessage c m a => obtain rfl := hactor a hop; exact twin_map _ (twin_getMessage · c m) h
  | listPinnedMessages c a =>
    obtain rfl := hactor a hop
    exact twin_map _ (twin_listPinnedMessages · c) h
  | sendMessage payload => exact twin_map _ (twin_sendMessage · (hactor _ hop)) h
  | forwardMessage a source target m =>
    obtain rfl := hactor a hop
    exact twin_map _ (twin_forwardMessage · source target m) h
  | editMessage c m a body =>
    obtain rfl := hactor a hop
    exact twin_map _ (twin_editMessage · c m body) h
  | reactMessage c m a emoji =>
    obtain rfl := hactor a hop
    exact twin_map _ (twin_reactMessage · c m emoji) h
  | pinMessage c m a pinned =>
    obtain rfl := hactor a hop
    exact twin_map _ (twin_pinMessage · c m pinned) h
  | deleteMessage c m a forEveryone =>
    obtain rfl := hactor a hop
    exact twin_map _ (twin_deleteMessage · c m forEveryone) h
  | expireDueMessages => cases hclient
  | scheduleMessage payload => exact twin_map _ (twin_scheduleMessage · (hactor _ hop)) h
  | listScheduledMessages c a =>
    obtain rfl := hactor a hop
    exact twin_map _ (twin_listScheduledMessages · c) h
  | cancelScheduledMessage c id a =>
    obtain rfl := hactor a hop
    exact twin_map _ (twin_cancelScheduledMessage · c id) h
  | dispatchDueScheduled => cases hclient
  | pinConversation c a pinned =>
    obtain rfl := hactor a hop
    exact twin_map _ (twin_updateMembership · c fun _ _ => rfl) h
  | muteConversation c a muted =>
    obtain rfl := hactor a hop
    exact twin_map _ (twin_updateMembership · c fun _ _ => rfl) h
  | markSeen c a m => obtain rfl := hactor a hop; exact twin_map _ (twin_markSeen · c m) h
  | setDisappearingMessages c a n =>
    obtain rfl := hactor a hop
    exact twin_map _ (twin_setDisappearingMessages · c n) h
  | addMembers c a ids => obtain rfl := hactor a hop; exact twin_map _ (twin_addMembers · c ids) h
  | removeMember c a m => obtain rfl := hactor a hop; exact twin_map _ (twin_removeMember · c m) h
  | setMemberRole c a m role =>
    obtain rfl := hactor a hop
    exact twin_map _ (twin_setMemberRole · c m role) h
  | leave c a => obtain rfl := hactor a hop; exact twin_map _ (twin_leave · c) h
  | updateGroup c a name =>
    obtain rfl := hactor a hop
    exact twin_map _ (twin_updateGroup · c name) h
  | deleteGroup c a => obtain rfl := hactor a hop; exact twin_map _ (twin_deleteGroup · c) h
  | blockUser a b => obtain rfl := hactor a hop; exact twin_map _ (twin_blockUser · b) h
  | unblockUser a b => obtain rfl := hactor a hop; exact twin_map _ (twin_unblockUser · b) h
  | listBlocks a => obtain rfl := hactor a hop; exact twin_map _ twin_listBlocks h
  | prepareVoiceCall c a =>
    obtain rfl := hactor a hop
    exact twin_map _ (twin_prepareVoiceCall · c) h
  | getAnalytics => cases hclient
  | listAuditEvents page => cases hclient
  | logAudit a action type id info => cases hclient
  | getWorkspaceSettings => exact twin_map _ twin_getWorkspaceSettings h
  | updateWorkspaceSettings a n m p l =>
    obtain rfl := hactor a hop
    exact twin_map _ (twin_updateWorkspaceSettings · n m p l) h

/-! ## Conversations of others -/

/-- `v` is no active member of the conversation. -/
def Db.Outsider (db : Db) (v : UserId) (c : ConversationId) : Prop :=
  ∀ m ∈ db.members, m.conversationId = c → m.userId = v.canon → m.leftAt ≠ none

theorem Reachable.ready (hs : Reachable s) {v : UserId}
    (hstored : ∀ c, hidden c = true → (s.findConversation c).isSome = true)
    (hv : ∀ c, hidden c = true → s.Outsider v c) : Ready hidden v s where
  inv := hs.inv
  outside := fun m hm hhid hu => hv m.conversationId hhid m hm rfl hu
  fresh := by
    intro c hle
    cases hc : hidden c with
    | false => rfl
    | true =>
      obtain ⟨row, hrow⟩ := Option.isSome_iff_exists.mp (hstored c hc)
      obtain ⟨hmem, hid, _⟩ := Db.findConversation_eq_some hrow
      have hlt := hs.inv.keyed.conversations.lt row hmem
      rw [hid] at hlt
      exact absurd hlt (Nat.not_lt.mpr hle)

/-- Two runs of one operation from twin databases have one outcome. -/
theorem Twins.run_eq (h : Twins hidden A u s t) {op : Op}
    (hop : Twin hidden A u op.program op.program s t) : (op.run s).1 = (op.run t).1 :=
  (hop (op.calls h.left.inv) (op.calls h.right.inv)).1

/-- Two databases that may differ inside stored conversations `v` takes no part in answer the
operations of `v` alike, errors included. -/
theorem nonmember_noninterference (hs : Reachable s) (ht : Reachable t) {v : UserId}
    (h : Agree hidden False s t)
    (hstored : ∀ c, hidden c = true → (s.findConversation c).isSome = true)
    (hv : ∀ c, hidden c = true → s.Outsider v c ∧ t.Outsider v c) {op : Op}
    (hop : op.actor = some v ∨ op.actor = none) (hclient : op.isInternal = false) :
    (op.run s).1 = (op.run t).1 := by
  have htwins : Twins hidden False v s t :=
    ⟨h, hs.ready hstored fun c hc => (hv c hc).1,
      ht.ready (fun c hc => h.stored c ▸ hstored c hc) fun c hc => (hv c hc).2⟩
  exact htwins.run_eq (twin_client htwins hop hclient)

/-- A group of A and B with one message in it, and a private chat of C with A. -/
def secretGroup (body : Text) : Db := (Db.empty 0 0).serve
  [.createGroup userA ['g'] [userB], .sendMessage (textMessage userA 0 body),
    .createPrivate userC userA]

theorem agree_secretGroup :
    Agree (fun c => c == 0) False (secretGroup ['x']) (secretGroup ['y']) := by
  have hconversations : (secretGroup ['x']).conversations = (secretGroup ['y']).conversations := by
    decide
  have hhides : (secretGroup ['x']).messageHides = (secretGroup ['y']).messageHides := by decide
  have hreactions : (secretGroup ['x']).messageReactions = (secretGroup ['y']).messageReactions := by
    decide
  refine ⟨by decide, fun c => ?_, by decide, by decide, fun id _ _ => ?_, fun id _ _ => ?_,
    by decide, by decide, nofun, by decide, by decide, by decide, by decide⟩
  · unfold Db.findConversation
    rw [hconversations]
  · rw [hhides]
  · unfold Db.reactionsTo
    rw [hreactions]

theorem nonmember_noninterference_secretGroup :
    ((Op.listConversations userC ⟨1, 10, by decide, by decide⟩).run (secretGroup ['x'])).1 =
      ((Op.listConversations userC ⟨1, 10, by decide, by decide⟩).run (secretGroup ['y'])).1 := by
  have hout : ∀ c : ConversationId, (c == 0) = true →
      (secretGroup ['x']).Outsider userC c ∧ (secretGroup ['y']).Outsider userC c := by
    intro c hc
    rw [beq_iff_eq.mp hc]
    unfold Db.Outsider
    decide
  have hstored : ∀ c : ConversationId, (c == 0) = true →
      ((secretGroup ['x']).findConversation c).isSome = true := by
    intro c hc
    rw [beq_iff_eq.mp hc]
    decide
  exact nonmember_noninterference ((reachable_empty 0 0).serve _) ((reachable_empty 0 0).serve _)
    agree_secretGroup hstored hout (.inl rfl) rfl

/-! ## Tombstones -/

/-! ### Databases with nothing hidden -/

section Clear

variable (hclear : ∀ c, hidden c = false) (h : Twins hidden A u s t)
include hclear h

/-- When no conversation is hidden, anyone may act. -/
theorem Twins.anyone (v : UserId) : Twins hidden A v s t :=
  ⟨h.agree,
    ⟨h.left.inv, fun m _ hhid => absurd hhid (by simp [hclear]), fun c _ => hclear c⟩,
    ⟨h.right.inv, fun m _ hhid => absurd hhid (by simp [hclear]), fun c _ => hclear c⟩⟩

omit h in
theorem Twin.anyone {α : Type} {p q : M α} {v : UserId} (hpq : Twin hidden A v p q s t) :
    Twin hidden A u p q s t := by
  intro hcp hcq
  have hsame := hpq hcp hcq
  exact ⟨hsame.1, hsame.2.anyone hclear u⟩

/-- The messages are the same up to the content of tombstones. -/
theorem redact_messages : s.messages.map Message.redact = t.messages.map Message.redact := by
  have hall : ∀ rows : List Message, rows.filter (fun m => !hidden m.conversationId) = rows :=
    fun rows => List.filter_eq_self.mpr fun m _ => by simp [hclear]
  have hseen := h.agree.messages
  unfold Db.seen at hseen
  rwa [hall, hall] at hseen

theorem conversations_eq : s.conversations = t.conversations := by
  have hall : ∀ rows : List Conversation, rows.filter (fun c => !hidden c.id) = rows :=
    fun rows => List.filter_eq_self.mpr fun m _ => by simp [hclear]
  have hrows := h.agree.conversations
  rwa [hall, hall] at hrows

theorem scheduledMessages_eq : s.scheduledMessages = t.scheduledMessages := by
  have hall : ∀ rows : List ScheduledMessage,
      rows.filter (fun r => !hidden r.conversationId) = rows :=
    fun rows => List.filter_eq_self.mpr fun m _ => by simp [hclear]
  have hrows := h.agree.scheduledMessages
  rwa [hall, hall] at hrows

end Clear

/-! ### Analytics -/

/-- What the analytics count of a message. -/
def Message.stamp (m : Message) : Time × ConversationId := (m.createdAt, m.conversationId)

def Db.stamps (db : Db) : List (Time × ConversationId) := db.messages.map Message.stamp

/-- Counting rows through a projection. -/
theorem map_filter_comp {α β γ : Type} (f : α → β) (q : β → Bool) (g : β → γ) (l : List α) :
    (l.filter fun a => q (f a)).map (fun a => g (f a)) = ((l.map f).filter q).map g := by
  rw [List.filter_map, List.map_map]
  rfl

theorem length_filter_comp {α β : Type} (f : α → β) (q : β → Bool) (l : List α) :
    (l.filter fun a => q (f a)).length = ((l.map f).filter q).length := by
  rw [List.filter_map, List.length_map]
  rfl

theorem countSince_eq (db : Db) (since : Int) :
    db.countSince since = (db.stamps.filter fun x => since ≤ (x.1 : Int)).length :=
  length_filter_comp Message.stamp (fun x : Time × ConversationId => decide (since ≤ (x.1 : Int))) _

theorem conversationsSince_eq (db : Db) (since : Int) :
    db.conversationsSince since =
      ((db.stamps.filter fun x => since ≤ (x.1 : Int)).map Prod.snd).eraseDups.length :=
  congrArg (fun l : List ConversationId => l.eraseDups.length)
    (map_filter_comp Message.stamp (fun x : Time × ConversationId => decide (since ≤ (x.1 : Int))) Prod.snd _)

theorem dayRows_eq (db : Db) (since : Int) :
    db.dayRows since =
      let days := (db.stamps.filter fun x => since ≤ (x.1 : Int)).map fun x =>
        localDay db.timeZone x.1
      days.eraseDups.map fun day => (day, days.count day) :=
  congrArg (fun days : List Int => days.eraseDups.map fun day => (day, days.count day))
    (map_filter_comp Message.stamp (fun x : Time × ConversationId => decide (since ≤ (x.1 : Int)))
      (fun x => localDay db.timeZone x.1) _)

theorem length_inConversation (db : Db) (c : ConversationId) :
    (db.messages.filter fun m => m.conversationId = c).length =
      (db.stamps.filter fun x => x.2 = c).length :=
  length_filter_comp Message.stamp (fun x : Time × ConversationId => decide (x.2 = c)) _

section Clear

variable (hclear : ∀ c, hidden c = false) (h : Twins hidden A u s t)
include hclear h

theorem stamps_eq : s.stamps = t.stamps := by
  have hstamp : ∀ rows : List Message,
      rows.map Message.stamp = (rows.map Message.redact).map Message.stamp := by
    intro rows
    rw [List.map_map]
    refine List.map_congr_left fun m _ => ?_
    simp only [Function.comp_apply, Message.stamp, redact_createdAt,
      Message.conversationId_of_origin (origin_redact m)]
  unfold Db.stamps
  rw [hstamp, redact_messages hclear h, ← hstamp]

theorem twin_getAnalytics : Twin hidden A u getAnalytics getAnalytics s t := by
  have hstamps := stamps_eq hclear h
  have hconversations := conversations_eq hclear h
  have hlength : s.messages.length = t.messages.length := by
    have heq := congrArg List.length hstamps
    unfold Db.stamps at heq
    rwa [List.length_map, List.length_map] at heq
  refine twin_newDate h fun now => twin_reads (run_perform exec _ s) (run_perform exec _ t) ?_
  rw [← h.agree.timeZone]
  refine twin_reads (run_perform exec _ s) (run_perform exec _ t) ?_
  rw [← hconversations]
  refine twin_reads (run_perform exec _ s) (run_perform exec _ t) ?_
  rw [← hlength]
  refine twin_reads (run_perform exec _ s) (run_perform exec _ t) ?_
  rw [countSince_eq, countSince_eq, ← hstamps]
  refine twin_reads (run_perform exec _ s) (run_perform exec _ t) ?_
  rw [countSince_eq, countSince_eq, ← hstamps]
  refine twin_reads (run_perform exec _ s) (run_perform exec _ t) ?_
  rw [conversationsSince_eq, conversationsSince_eq, ← hstamps]
  refine twin_reads (run_perform exec _ s) (run_perform exec _ t) ?_
  rw [dayRows_eq, dayRows_eq, ← hstamps, ← h.agree.timeZone]
  refine twin_reads (run_perform exec _ s) (run_perform exec _ t) ?_
  have htop : s.topRows = t.topRows := by
    unfold Db.topRows
    simp only [length_inConversation, hstamps, hconversations]
  rw [← htop]
  exact twin_ret h _

/-! ### The jobs -/

theorem twin_dispatchScheduled (row : ScheduledMessage) :
    Twin hidden A u (dispatchScheduled row) (dispatchScheduled row) s t := by
  refine twin_write h (c := .claimScheduled row.id) (fun _ _ _ => hclear _) (fun _ _ _ => hclear _)
    fun claimed _ _ _ _ _ h₁ => ?_
  split
  · exact twin_ret h₁ _
  have hactor : row.toPayload.actorId = row.senderId := rfl
  have hsend := twin_attempt (twin_sendMessage (h₁.anyone hclear row.senderId) hactor)
  refine twin_bind h₁ (hsend.anyone hclear) fun outcome _ _ _ _ _ h₂ => ?_
  cases outcome with
  | ok result =>
    exact twin_write h₂ (c := .saveScheduled _) ⟨hclear _, fun _ _ _ => hclear _⟩
      ⟨hclear _, fun _ _ _ => hclear _⟩ fun _ _ _ _ _ _ h₃ => twin_ret h₃ _
  | error e =>
    exact twin_write h₂ (c := .saveScheduled _) ⟨hclear _, fun _ _ _ => hclear _⟩
      ⟨hclear _, fun _ _ _ => hclear _⟩ fun _ _ _ _ _ _ h₃ => twin_ret h₃ _

theorem twin_dispatchDueScheduled :
    Twin hidden A u dispatchDueScheduled dispatchDueScheduled s t := by
  refine twin_newDate h fun now => twin_reads (run_perform exec _ s) (run_perform exec _ t) ?_
  rw [← scheduledMessages_eq hclear h]
  exact twin_collect h (P := fun _ _ => True) trivial
    (fun row _ _ _ _ h' => twin_dispatchScheduled hclear h' row) fun _ _ _ _ _ _ _ _ _ => trivial

end Clear

/-- The messages still to be expired are known and alive. -/
structure ToExpire (due : List Message) (s : Db) : Prop where
  nodup : (due.map Message.id).Nodup
  known : ∀ x ∈ due, s.KnowsMessage x
  alive : ∀ x ∈ due, ∀ row ∈ s.messages, row.id = x.id → row.deletedForEveryoneAt = none

/-- A round writes the row of its own message only. -/
theorem run_expireMessage_messages {x : Message} {b : Option DeleteMessageResult} {s' : Db}
    (hrun : run exec (expireMessage x) s = (.ok b, s')) :
    ∃ y : Message, y.id = x.id ∧ s'.messages = replaceRow Message.id y s.messages := by
  unfold expireMessage at hrun
  rw [run_read (a := (s.findConversation x.conversationId).map s.withMembers) rfl] at hrun
  cases hc : (s.findConversation x.conversationId).map s.withMembers with
  | none =>
    rw [hc, run_write (a := ()) rfl] at hrun
    cases hrun
    exact ⟨{ x with expiresAt := none }, rfl, rfl⟩
  | some cv =>
    rw [hc, run_read (a := jsDate s.now) rfl, run_write (a := ()) rfl,
      run_bind_ok exec (run_loadReplyTo _)] at hrun
    cases hrun
    exact ⟨{ x.bury (jsDate s.now) with expiresAt := none }, rfl, rfl⟩

theorem ToExpire.next {x : Message} {rest : List Message} {b : Option DeleteMessageResult}
    {s' : Db} (h : ToExpire (x :: rest) s)
    (hrun : run exec (expireMessage x) s = (.ok b, s')) (hgrows : s.Grows s') :
    ToExpire rest s' := by
  have hnodup := h.nodup
  rw [List.map_cons, List.nodup_cons] at hnodup
  obtain ⟨y, hy, hmessages⟩ := run_expireMessage_messages hrun
  refine ⟨hnodup.2, fun z hz => (h.known z (List.mem_cons_of_mem _ hz)).grows hgrows,
    fun z hz row hrow hid => ?_⟩
  rw [hmessages] at hrow
  rcases mem_replaceRow hrow with rfl | hrow
  · exact absurd (List.mem_map.mpr ⟨z, hz, hid.symm.trans hy⟩) hnodup.1
  · exact h.alive z (List.mem_cons_of_mem _ hz) row hrow hid

section Clear

variable (hclear : ∀ c, hidden c = false) (h : Twins hidden A u s t)
include hclear h

theorem twin_expireMessage {x : Message} {rest : List Message} (hx : ToExpire (x :: rest) s) :
    Twin hidden A u (expireMessage x) (expireMessage x) s t := by
  have halive := hx.alive x List.mem_cons_self
  have halive' : ∀ row ∈ t.messages, row.id = x.id → row.deletedForEveryoneAt = none := by
    intro row hrow hid
    obtain ⟨row', hrow', heq⟩ := h.agree.symm.exists_message hrow (hclear _)
    rw [redact_deletedForEveryoneAt heq]
    exact halive row' hrow' ((Message.id_of_origin (redact_origin heq)).symm.trans hid)
  refine twin_reads (run_perform exec _ s) (run_perform exec _ t) ?_
  rw [← h.agree.findConversation (hclear x.conversationId)]
  cases hrow : s.findConversation x.conversationId with
  | none =>
    exact twin_write h (c := .saveMessage _) ⟨hclear _, fun _ => halive⟩
      ⟨hclear _, fun _ => halive'⟩ fun _ _ _ _ _ _ h' => twin_ret h' _
  | some row =>
    rw [Option.map_some, Option.map_some, ← h.agree.withMembers (hclear row.id)]
    refine twin_newDate h fun now => ?_
    refine twin_write h (c := .saveMessage _) ⟨hclear _, fun hdel => nomatch hdel⟩
      ⟨hclear _, fun hdel => nomatch hdel⟩ fun _ s' t' _ _ hgrows h' => ?_
    refine twin_reads (run_loadReplyTo _) (run_loadReplyTo _) ?_
    have hreplies : ∀ r, x.replyToMessageId = some r → s'.HasMessage r x.conversationId := by
      intro r hr
      obtain ⟨old, hold, ho⟩ := List.mem_map.mp (hx.known x List.mem_cons_self)
      have hstored := h.left.inv.replies old hold r
        ((Message.replyToMessageId_of_origin ho).trans hr)
      exact (Message.conversationId_of_origin ho ▸ hstored).grows hgrows
    have hsame : ({ x.bury now with expiresAt := none } : Message).redact =
        ({ x.bury now with expiresAt := none } : Message).redact := rfl
    have hreply := h'.agree.replyRow h'.left.inv h'.right.inv hsame (hclear _) hreplies
    rw [toMessageView_redact rfl (s.withMembers row).members hreply (fun _ => rfl) x.senderId]
    exact twin_ret h' _

/-- Only live messages are due, and they are the same on both sides. -/
theorem findDueMessages_eq (before : Time) :
    (exec (.findDueMessages before) s).1 = (exec (.findDueMessages before) t).1 := by
  have hlive : ∀ rows : List Message, (∀ m ∈ rows, m.deletedForEveryoneAt = none) →
      rows.map Message.redact = rows := by
    intro rows hrows
    have hid : rows.map Message.redact = rows.map id :=
      List.map_congr_left fun m hm => if_pos (hrows m hm)
    rw [hid, List.map_id]
  have hrows : (s.messages.filter fun m =>
        (m.expiresAt.any fun t => t ≤ before) && m.deletedForEveryoneAt == none) =
      t.messages.filter fun m =>
        (m.expiresAt.any fun t => t ≤ before) && m.deletedForEveryoneAt == none := by
    rw [← hlive (s.messages.filter _), ← hlive (t.messages.filter _)]
    · refine h.agree.filter_messages (fun _ _ _ => hclear _) (fun _ _ _ => hclear _)
        fun m _ m' _ _ heq => ?_
      obtain rfl | ⟨hdel, b, u, mi, n, sz, me, p, rfl⟩ := redact_eq_redact heq
      · rfl
      · rfl
    · intro m hm
      have hm := (List.mem_filter.mp hm).2
      rw [Bool.and_eq_true, beq_iff_eq] at hm
      exact hm.2
    · intro m hm
      have hm := (List.mem_filter.mp hm).2
      rw [Bool.and_eq_true, beq_iff_eq] at hm
      exact hm.2
  simp only [exec, hrows]

theorem twin_expireDueMessages : Twin hidden A u expireDueMessages expireDueMessages s t := by
  refine twin_newDate h fun now => ?_
  have hdue := findDueMessages_eq hclear h now
  refine twin_read h (run_perform exec _ s) (r := (exec (.findDueMessages now) s).1) ?_
    fun due hdue' => ?_
  · rw [run_perform, hdue]
    rfl
  have hmem : ∀ x ∈ due, x ∈ s.messages ∧ x.deletedForEveryoneAt = none := by
    intro x hx
    simp only [exec, Except.ok.injEq] at hdue'
    subst hdue'
    have hx := List.mem_of_mem_take hx
    rw [orderAsc, List.mem_insertionSort, List.mem_filter, Bool.and_eq_true, beq_iff_eq] at hx
    exact ⟨hx.1, hx.2.2⟩
  have hnodup : (due.map Message.id).Nodup := by
    simp only [exec, Except.ok.injEq] at hdue'
    subst hdue'
    refine List.Nodup.sublist ((List.take_sublist _ _).map _) ?_
    unfold orderAsc
    rw [((List.perm_insertionSort _ _).map Message.id).nodup_iff]
    exact h.left.inv.keyed.messages.nodup.sublist (List.filter_sublist.map _)
  refine twin_collect h (P := ToExpire) ⟨hnodup, fun x hx => Db.knowsMessage_of_mem (hmem x hx).1,
    fun x hx row hrow hid => ?_⟩ (fun x rest s' t' hx h' => twin_expireMessage hclear h' hx)
    fun x rest b s' s'' hx _ hrun hgrows => hx.next hrun hgrows
  rw [h.left.inv.keyed.messages.eq_of_id_eq hrow (hmem x hx).1 hid]
  exact (hmem x hx).2

/-- Every operation, whoever calls it. -/
theorem twin_program (ha : A) (op : Op) : Twin hidden A u op.program op.program s t := by
  by_cases hclient : op.isInternal = false
  · cases hop : op.actor with
    | some v => exact (twin_client (h.anyone hclear v) (.inl hop) hclient).anyone hclear
    | none => exact twin_client h (.inr hop) hclient
  · cases op with
    | getAnalytics => exact twin_map _ (twin_getAnalytics hclear) h
    | listAuditEvents page => exact twin_map _ (twin_listAuditEvents · ha page) h
    | logAudit a action type id info =>
      exact twin_map _ (fun h => twin_logAudit h action type id info a) h
    | dispatchDueScheduled => exact twin_map _ (twin_dispatchDueScheduled hclear) h
    | expireDueMessages => exact twin_map _ (twin_expireDueMessages hclear) h
    | _ => exact absurd rfl hclient

end Clear

/-- Two databases that differ in the content and the reactions of messages deleted for everyone
answer every operation alike, errors included. -/
theorem tombstone_noninterference (hs : Reachable s) (ht : Reachable t)
    (h : Agree (fun _ => false) True s t) (op : Op) : (op.run s).1 = (op.run t).1 := by
  have htwins : Twins (fun _ => false) True userA s t :=
    ⟨h, hs.ready (fun _ hc => nomatch hc) (fun _ hc => nomatch hc),
      ht.ready (fun _ hc => nomatch hc) (fun _ hc => nomatch hc)⟩
  exact htwins.run_eq (twin_program (fun _ => rfl) htwins trivial op)

/-- A group of A and B with one message that A has deleted for everyone. -/
def deletedMessage (body : Text) : Db := (Db.empty 0 0).serve
  [.createGroup userA ['g'] [userB], .sendMessage (textMessage userA 0 body),
    .deleteMessage 0 3 userA true]

theorem tombstone_noninterference_deletedMessage :
    (Op.run (.listMessages 0 userB ⟨1, 10, by decide, by decide⟩) (deletedMessage ['x'])).1 =
      (Op.run (.listMessages 0 userB ⟨1, 10, by decide, by decide⟩) (deletedMessage ['y'])).1 := by
  have hconversations :
      (deletedMessage ['x']).conversations = (deletedMessage ['y']).conversations := by decide
  have hhides : (deletedMessage ['x']).messageHides = (deletedMessage ['y']).messageHides := by
    decide
  have hreactions :
      (deletedMessage ['x']).messageReactions = (deletedMessage ['y']).messageReactions := by decide
  have hagree : Agree (fun _ => false) True (deletedMessage ['x']) (deletedMessage ['y']) := by
    refine ⟨by decide, fun c => ?_, by decide, by decide, fun id _ _ => ?_, fun id _ _ => ?_,
      by decide, by decide, fun _ => by decide, by decide, by decide, by decide, by decide⟩
    · unfold Db.findConversation
      rw [hconversations]
    · rw [hhides]
    · unfold Db.reactionsTo
      rw [hreactions]
  exact tombstone_noninterference ((reachable_empty 0 0).serve _) ((reachable_empty 0 0).serve _)
    hagree _

end Relay.Chat
