import Relay.Chat.Verify.Exposure

/-!
# Undelivered messages

A message sent to a user the sender has blocked is stored as undelivered: the sender alone is to see
it. The listings leave it out for everybody else, and the send itself is told to the sender only. It is
shown to others by the reads that do not ask for delivery, by the previews of replies to it, by the
operations that tell all members about a change, and by a forward (`undelivered_kept_iff`).
-/

namespace Relay.Chat

open Relay.Lib Relay.Lib.Rows Prog

variable {s : Db}

/-! ## Who gets a response, and what it shows -/

/-- The operations whose result goes to the members of a conversation. -/
def Op.telling : Op → Bool
  | .sendMessage _ | .forwardMessage _ _ _ _ | .editMessage _ _ _ _ | .reactMessage _ _ _ _
  | .pinMessage _ _ _ _ => true
  | _ => false

/-- The user gets the response: as one of the recipients of a result, or as the actor. -/
def Response.ReturnedTo (r : Response) (op : Op) (v : UserId) : Prop :=
  match r with
  | .sent result => ∃ w ∈ result.recipientIds, w.canon = v.canon
  | _ => ∃ u, op.actor = some u ∧ u.canon = v.canon

/-- The message a forward copies. -/
def Op.copies : Op → Option MessageId
  | .forwardMessage _ _ _ m => some m
  | _ => none

/-- The response shows the message or a copy of it. -/
def Response.Discloses (r : Response) (op : Op) (m : MessageId) : Prop :=
  r.Carries m ∨ (op.copies = some m ∧ ∃ v ∈ r.views, v.body ≠ [] ∨ v.attachment ≠ none)

/-- The stored message `id` is a reply to `m`, and its preview shows something. -/
def Db.IsReply (db : Db) (id : MessageId) (m : Message) : Prop :=
  (∃ x ∈ db.messages, x.id = id ∧ x.replyToMessageId = some m.id) ∧ replyBody m ≠ []

/-- The operation shows the message to all who get its response, delivered or not. -/
def Db.Exposes (db : Db) (op : Op) (m : Message) : Prop :=
  match op with
  | .sendMessage payload =>
    MessageType.ofText (payload.type.getD "text".toList) ≠ some .call ∧
      payload.replyToMessageId = some m.id ∧ replyBody m ≠ []
  | .forwardMessage _ _ _ id => id = m.id ∧ m.Shows
  | .editMessage _ id _ _ => id = m.id ∨ db.IsReply id m
  | .reactMessage _ id _ _ | .pinMessage _ id _ _ => (id = m.id ∧ m.Shows) ∨ db.IsReply id m
  | .getMessage _ _ _ | .listPinnedMessages _ _ =>
    ∃ x ∈ db.listed op, (x.id = m.id ∧ x.Shows) ∨ db.Quotes x m.id
  | .listConversations _ _ => False
  | _ => ∃ x ∈ db.listed op, db.Quotes x m.id

/-! ## Reads -/

theorem reading_messages {op : Op} (hop : op.reading = true) :
    (op.run s).2.messages = s.messages := by
  have hread : ∀ c, ReadCall c → QuietCall c := fun _ h => h.quiet
  cases op with
  | listMessages c u page => exact ((Quiet.map _ (uses_listMessages hread c u page)).run s).2.2
  | searchMessages c u query page =>
    exact ((Quiet.map _ (uses_searchMessages hread c u query page)).run s).2.2
  | searchGlobal u query page =>
    exact ((Quiet.map _ (uses_searchGlobal hread u query page)).run s).2.2
  | listMedia c u kind page =>
    exact ((Quiet.map _ (uses_listMedia hread c u kind page)).run s).2.2
  | getMessage c m u =>
    exact ((Quiet.map _ (uses_getMessage hread (fun _ _ => trivial) c m u)).run s).2.2
  | listPinnedMessages c u => exact ((Quiet.map _ (uses_listPinnedMessages hread c u)).run s).2.2
  | listConversations u page =>
    exact ((Quiet.map _ (uses_listConversations hread u page)).run s).2.2
  | _ => cases hop

theorem reading_returnedTo {op : Op} (hop : op.reading = true) {r : Response}
    (hr : (op.run s).1 = .ok r) {v : UserId} (hv : r.ReturnedTo op v) :
    op.copies = none ∧ ∃ u, op.actor = some u ∧ u.canon = v.canon := by
  cases op with
  | listMessages _ _ _ | searchMessages _ _ _ _ | searchGlobal _ _ _ | listMedia _ _ _ _
  | getMessage _ _ _ | listPinnedMessages _ _ | listConversations _ _ =>
    obtain ⟨_, _, _, rfl⟩ := run_map_ok hr
    exact ⟨rfl, hv⟩
  | _ => cases hop

/-- A read shows an undelivered message of another user where its query does not ask for delivery. -/
theorem reading_kept_iff (hs : Reachable s) {op : Op} (hop : op.reading = true) {r : Response}
    (hr : (op.run s).1 = .ok r) {m : Message} (hm : m ∈ s.messages) (hund : m.undelivered = true)
    {v : UserId} (hv : r.ReturnedTo op v) (hne : v.canon ≠ m.senderId) :
    r.Discloses op m.id ↔ s.Exposes op m := by
  obtain ⟨hcopies, u, hu, huv⟩ := reading_returnedTo hop hr hv
  have hdiscloses : r.Discloses op m.id ↔ r.Carries m.id := by
    simp [Response.Discloses, hcopies]
  rw [hdiscloses, reads_carries_iff hop hr]
  -- the queries that ask for delivery do not list the message
  have hunlisted : op.delivering = true → ∀ x ∈ s.listed op, x.id ≠ m.id := by
    rintro hdelivering x hx hid
    obtain rfl := hs.inv.keyed.messages.eq_of_id_eq (listed_stored hx) hm hid
    rcases listed_delivered hdelivering hu hx with hdelivered | hsender
    · rw [hund] at hdelivered
      cases hdelivered
    · exact hne (huv.symm.trans hsender.symm)
  have hquoted : op.delivering = true → op.quoting = true →
      ((∃ x ∈ s.listed op, (x.id = m.id ∧ x.Shows) ∨ (op.quoting = true ∧ s.Quotes x m.id)) ↔
        ∃ x ∈ s.listed op, s.Quotes x m.id) := by
    intro hdelivering hquoting
    refine exists_congr fun x => and_congr_right fun hx => ?_
    simp [hunlisted hdelivering x hx, hquoting]
  cases op with
  | listMessages c u page => exact hquoted rfl rfl
  | searchMessages c u query page => exact hquoted rfl rfl
  | searchGlobal u query page => exact hquoted rfl rfl
  | listMedia c u kind page => exact hquoted rfl rfl
  | getMessage c id u => simp [Db.Exposes, Op.quoting, Op.reading]
  | listPinnedMessages c u => simp [Db.Exposes, Op.quoting, Op.reading]
  | listConversations u page =>
    refine iff_of_false ?_ id
    rintro ⟨x, hx, ⟨hid, _⟩ | ⟨hq, _⟩⟩
    · exact hunlisted rfl x hx hid
    · cases hq
  | _ => cases hop

/-! ## Sending -/

/-- What a send stores and returns. -/
theorem run_store_ok {o : Outgoing} {result : SendMessageResult} {t : Db}
    (h : run exec o.store s = (.ok result, t)) :
    t.messages = s.messages ++
        [{ o.draft with senderId := o.draft.senderId.canon }.toRow s.nextId s.now] ∧
      result = ⟨toMessageView (o.draft.toRow s.nextId s.now) o.conversation.members o.replyTo []
        o.draft.senderId, o.recipientIds⟩ := by
  have hmessages : (run exec o.store s).2.messages = (exec (.insertMessage o.draft) s).2.messages := by
    unfold Outgoing.store
    rw [run_bind_ok exec (run_perform exec _ s)]
    refine run_messages (uses_bind (uses_perform trivial) fun _ => ?_)
    split
    · exact uses_bind (uses_recordAudit (fun _ _ _ _ _ => trivial) _ _ _ _ _) fun _ => trivial
    · trivial
  refine ⟨?_, ?_⟩
  · rw [h] at hmessages
    exact hmessages
  · unfold Outgoing.store at h
    rw [run_bind_ok exec (run_perform exec _ s)] at h
    obtain ⟨_, t', _, h⟩ := run_bind_inv exec h
    split at h
    · obtain ⟨_, t'', _, h⟩ := run_bind_inv exec h
      cases h
      rfl
    · cases h
      rfl

/-- An undelivered message goes to its sender alone. -/
theorem delivery_recipients {cv : ConversationWithMembers} {u : UserId}
    (h : (s.delivery cv u).undelivered = true) : (s.delivery cv u).recipientIds = [u] := by
  unfold Db.delivery at h ⊢
  split at h
  · cases h
  · split at h
    · cases h
    · split at h
      · cases h
      · next hfree =>
        split at h
        · next hblock => simp [*]
        · cases h

/-- What an accepted send replies to, and to whom it goes when it is undelivered. -/
structure Outgoing.Sent (s : Db) (o : Outgoing) (actorId : UserId) (r : Option MessageId) : Prop where
  sender : o.draft.senderId = actorId
  undelivered : o.draft.undelivered = true → o.recipientIds = [actorId]
  replyTo : o.replyTo.map Message.id = r
  stored : ∀ p, o.replyTo = some p → p ∈ s.messages

theorem acceptSend_sent {payload : SendMessage} {o : Outgoing} (h : s.acceptSend payload = some o) :
    o.Sent s payload.actorId
      (if MessageType.ofText (payload.type.getD "text".toList) = some .call then none
      else payload.replyToMessageId) := by
  unfold Db.acceptSend at h
  obtain ⟨_, _, h⟩ := Option.bind_eq_some_iff.mp h
  obtain ⟨type, htype, h⟩ := Option.bind_eq_some_iff.mp h
  rw [htype]
  split at h
  · next hcall =>
    obtain ⟨_, _, h⟩ := Option.bind_eq_some_iff.mp h
    obtain ⟨_, _, h⟩ := Option.bind_eq_some_iff.mp h
    obtain ⟨cv, _, h⟩ := Option.bind_eq_some_iff.mp h
    cases h
    rw [if_pos (congrArg some hcall)]
    exact ⟨rfl, fun h => (nomatch h), rfl, fun _ h => (nomatch h)⟩
  · next hcall =>
    obtain ⟨cv, _, h⟩ := Option.bind_eq_some_iff.mp h
    obtain ⟨_, _, h⟩ := Option.bind_eq_some_iff.mp h
    obtain ⟨replyTo, htarget, h⟩ := Option.bind_eq_some_iff.mp h
    cases h
    have htarget : s.target cv.id payload.replyToMessageId = .ok replyTo := by
      cases hr : s.target cv.id payload.replyToMessageId with
      | error e =>
        rw [hr] at htarget
        cases htarget
      | ok a =>
        rw [hr] at htarget
        cases htarget
        rfl
    obtain ⟨hids, hstored⟩ := Db.target_eq_ok htarget
    rw [if_neg fun h => hcall (Option.some.inj h)]
    exact ⟨rfl, delivery_recipients, hids, fun p hp => (hstored p hp).1⟩

theorem acceptForward_sent {u : UserId} {source target : ConversationId} {id : MessageId}
    {o : Outgoing} (h : s.acceptForward u source target id = some o) :
    o.Sent s u none ∧ ∃ x ∈ s.messages, x.id = id ∧ x.deletedForEveryoneAt = none ∧
      o.draft.body = x.body ∧ o.draft.attachmentUrl = x.attachmentUrl := by
  unfold Db.acceptForward at h
  obtain ⟨src, _, h⟩ := Option.bind_eq_some_iff.mp h
  obtain ⟨cv, _, h⟩ := Option.bind_eq_some_iff.mp h
  obtain ⟨x, hx, h⟩ := Option.bind_eq_some_iff.mp h
  obtain ⟨_, halive, h⟩ := Option.bind_eq_some_iff.mp h
  obtain ⟨_, _, h⟩ := Option.bind_eq_some_iff.mp h
  cases h
  have hp := List.find?_some hx
  simp only [decide_eq_true_eq] at hp
  exact ⟨⟨rfl, delivery_recipients, rfl, fun _ h => (nomatch h)⟩, x,
    List.mem_of_find?_eq_some hx, hp.1, by simpa using halive, rfl, rfl⟩

/-- The result of a send shows others of an undelivered message what its preview quotes. -/
theorem store_carries (hs : WellKeyed s) {o : Outgoing} {u : UserId} {id : Option MessageId}
    (ho : o.Sent s u id) {result : SendMessageResult} {t : Db}
    (hrun : run exec o.store s = (.ok result, t)) {m : Message} (hm : m ∈ t.messages)
    (hund : m.undelivered = true) {v : UserId} (hv : ∃ w ∈ result.recipientIds, w.canon = v.canon)
    (hne : v.canon ≠ m.senderId) :
    m ∈ s.messages ∧ (result.view.Carries m.id ↔ id = some m.id ∧ replyBody m ≠ []) := by
  obtain ⟨hmessages, rfl⟩ := run_store_ok hrun
  have hold : m ∈ s.messages := by
    rw [hmessages] at hm
    rcases List.mem_append.mp hm with hm | hm
    · exact hm
    · obtain rfl := List.mem_singleton.mp hm
      obtain ⟨w, hw, hwv⟩ := hv
      dsimp only at hw
      rw [ho.undelivered hund] at hw
      obtain rfl := List.mem_singleton.mp hw
      refine absurd (hwv.symm.trans ?_) hne
      simp [MessageDraft.toRow, ho.sender]
  refine ⟨hold, ?_⟩
  rw [toMessageView_carries]
  constructor
  · rintro (⟨hid, _⟩ | ⟨p, hp, hpid, hbody⟩)
    · have hlt := hs.messages.lt m hold
      rw [← hid] at hlt
      exact absurd hlt (Nat.lt_irrefl _)
    · obtain rfl := hs.messages.eq_of_id_eq (ho.stored p hp) hold hpid
      refine ⟨?_, hbody⟩
      rw [← ho.replyTo, hp]
      rfl
  · rintro ⟨hid, hbody⟩
    obtain ⟨p, hp, hpid⟩ := Option.map_eq_some_iff.mp (ho.replyTo.trans hid)
    obtain rfl := hs.messages.eq_of_id_eq (ho.stored p hp) hold hpid
    exact .inr ⟨p, hp, rfl, hbody⟩

theorem sendMessage_kept_iff (hs : Reachable s) {payload : SendMessage} {r : Response}
    (hr : ((Op.sendMessage payload).run s).1 = .ok r) {m : Message}
    (hm : m ∈ ((Op.sendMessage payload).run s).2.messages) (hund : m.undelivered = true)
    {v : UserId} (hv : r.ReturnedTo (.sendMessage payload) v) (hne : v.canon ≠ m.senderId) :
    r.Discloses (.sendMessage payload) m.id ↔ s.Exposes (.sendMessage payload) m := by
  obtain ⟨result, t, hrun, rfl⟩ := run_map_ok hr
  have ht : ((Op.sendMessage payload).run s).2 = t := by
    rw [Op.run, Op.program, run_map, hrun]
  obtain ⟨q, hq, hstore⟩ := (accepts_sendMessage payload).of_ok hrun
  obtain ⟨o, ho, rfl⟩ := Option.map_eq_some_iff.mp hq
  obtain ⟨_, hcarries⟩ := store_carries hs.inv.keyed (acceptSend_sent ho) hstore (ht ▸ hm) hund hv hne
  have hdiscloses : (Response.sent result).Discloses (.sendMessage payload) m.id ↔
      result.view.Carries m.id := by
    simp [Response.Discloses, Response.Carries, Response.views, Op.copies]
  rw [hdiscloses, hcarries]
  simp only [Db.Exposes]
  split
  · next hcall => exact iff_of_false (fun h => nomatch h.1) fun h => h.1 hcall
  · next hcall => exact (and_iff_right hcall).symm

theorem forwardMessage_kept_iff (hs : Reachable s) {u : UserId} {source target : ConversationId}
    {id : MessageId} {r : Response} (hr : ((Op.forwardMessage u source target id).run s).1 = .ok r)
    {m : Message} (hm : m ∈ ((Op.forwardMessage u source target id).run s).2.messages)
    (hund : m.undelivered = true) {v : UserId}
    (hv : r.ReturnedTo (.forwardMessage u source target id) v) (hne : v.canon ≠ m.senderId) :
    r.Discloses (.forwardMessage u source target id) m.id ↔
      s.Exposes (.forwardMessage u source target id) m := by
  obtain ⟨result, t, hrun, rfl⟩ := run_map_ok hr
  have ht : ((Op.forwardMessage u source target id).run s).2 = t := by
    rw [Op.run, Op.program, run_map, hrun]
  obtain ⟨q, hq, hstore⟩ := (accepts_forwardMessage u source target id).of_ok hrun
  obtain ⟨o, ho, rfl⟩ := Option.map_eq_some_iff.mp hq
  obtain ⟨hsent, x, hx, hxid, halive, hbody, hattachment⟩ := acceptForward_sent ho
  obtain ⟨hold, hcarries⟩ := store_carries hs.inv.keyed hsent hstore (ht ▸ hm) hund hv hne
  have hcopy : (result.view.body ≠ [] ∨ result.view.attachment ≠ none) ↔ x.Shows := by
    obtain ⟨_, rfl⟩ := run_store_ok hstore
    simp [toMessageView, MessageDraft.toRow, hbody, hattachment, Message.Shows, halive,
      toAttachmentView_eq_none]
  have hdiscloses : (Response.sent result).Discloses (.forwardMessage u source target id) m.id ↔
      id = m.id ∧ x.Shows := by
    simp [Response.Discloses, Response.Carries, Response.views, Op.copies, hcarries, hcopy]
  rw [hdiscloses]
  refine and_congr_right fun hid => ?_
  rw [hs.inv.keyed.messages.eq_of_id_eq hx hold (hxid.trans hid)]

/-! ## Changes -/

/-- What the view of a changed message shows of the messages stored then. -/
theorem change_carries {t : Db} (ht : WellKeyed t) {x : Message} {members : List ConversationMember}
    {u : UserId} {m : Message} (hm : m ∈ t.messages) :
    (t.viewOf x members u).Carries m.id ↔
      (x.id = m.id ∧ x.Shows) ∨ (x.replyToMessageId = some m.id ∧ replyBody m ≠ []) := by
  rw [viewOf_carries]
  unfold Db.Quotes
  rw [preview_of_mem ht hm]

theorem isReply_iff (hs : WellKeyed s) {x : Message} (hx : x ∈ s.messages) {m : Message} :
    s.IsReply x.id m ↔ x.replyToMessageId = some m.id ∧ replyBody m ≠ [] := by
  unfold Db.IsReply
  refine and_congr_left fun _ => ⟨?_, fun h => ⟨x, hx, rfl, h⟩⟩
  rintro ⟨y, hy, hid, hreply⟩
  rwa [hs.messages.eq_of_id_eq hy hx hid] at hreply

theorem acceptEdit_body {c : ConversationId} {m : MessageId} {u : UserId} {body : Text}
    {change : Change} (h : s.acceptEdit c m u body = some change) : Js.trim body ≠ [] := by
  unfold Db.acceptEdit at h
  obtain ⟨_, _, h⟩ := Option.bind_eq_some_iff.mp h
  obtain ⟨_, _, h⟩ := Option.bind_eq_some_iff.mp h
  obtain ⟨_, _, h⟩ := Option.bind_eq_some_iff.mp h
  obtain ⟨_, _, h⟩ := Option.bind_eq_some_iff.mp h
  obtain ⟨_, _, h⟩ := Option.bind_eq_some_iff.mp h
  obtain ⟨_, hbody, _⟩ := Option.bind_eq_some_iff.mp h
  simpa using hbody

/-- The result of a change that has passed its checks. -/
theorem change_discloses (op : Op) (hcopies : op.copies = none) {p : M SendMessageResult}
    (hop : op.program = Response.sent <$> p) {u : UserId} {o : Option Change}
    (haccepts : Accepts p s (o.map (Change.apply · u))) {r : Response}
    (hr : (op.run s).1 = .ok r) :
    ∃ change, o = some change ∧ ∀ s', run exec change.write s = (.ok (), s') →
      (op.run s).2 = s' ∧ ∀ m, r.Discloses op m ↔
        (s'.viewOf change.message change.conversation.members u).Carries m := by
  rw [Op.run, hop] at hr
  obtain ⟨result, t, hrun, rfl⟩ := run_map_ok hr
  obtain ⟨q, hq, happly⟩ := haccepts.of_ok hrun
  obtain ⟨change, ho, rfl⟩ := Option.map_eq_some_iff.mp hq
  refine ⟨change, ho, fun s' hwrite => ?_⟩
  cases (run_apply hwrite).symm.trans happly
  refine ⟨?_, fun m => ?_⟩
  · rw [Op.run, hop, run_map, hrun]
  · simp [Response.Discloses, Response.Carries, Response.views, hcopies]

theorem editMessage_kept_iff (hs : Reachable s) {c : ConversationId} {id : MessageId} {u : UserId}
    {body : Text} {r : Response} (hr : ((Op.editMessage c id u body).run s).1 = .ok r) {m : Message}
    (hm : m ∈ ((Op.editMessage c id u body).run s).2.messages) :
    r.Discloses (.editMessage c id u body) m.id ↔ s.Exposes (.editMessage c id u body) m := by
  have ht := (hs.run (.editMessage c id u body)).inv.keyed
  obtain ⟨change, ho, hresult⟩ := change_discloses (.editMessage c id u body) rfl rfl
    (accepts_editMessage c id u body) hr
  have hbody := acceptEdit_body ho
  obtain ⟨_, x, hx, rfl, _, _, halive, hmessage, hwrite⟩ := acceptEdit_eq_some ho
  obtain ⟨hs', hdiscloses⟩ := hresult _ (by rw [hwrite]; exact run_perform exec _ s)
  rw [hs'] at hm ht
  rw [hdiscloses, change_carries ht hm, hmessage]
  simp only [Db.Exposes]
  rw [isReply_iff hs.inv.keyed hx]
  refine or_congr (and_iff_left ?_) Iff.rfl
  exact ⟨halive, .inl hbody⟩

theorem reactMessage_kept_iff (hs : Reachable s) {c : ConversationId} {id : MessageId} {u : UserId}
    {emoji : Text} {r : Response} (hr : ((Op.reactMessage c id u emoji).run s).1 = .ok r)
    {m : Message} (hm : m ∈ ((Op.reactMessage c id u emoji).run s).2.messages) :
    r.Discloses (.reactMessage c id u emoji) m.id ↔ s.Exposes (.reactMessage c id u emoji) m := by
  have ht := (hs.run (.reactMessage c id u emoji)).inv.keyed
  obtain ⟨change, ho, hresult⟩ := change_discloses (.reactMessage c id u emoji) rfl rfl
    (accepts_reactMessage c id u emoji) hr
  obtain ⟨_, hx, rfl, _, _, hwrite⟩ := acceptReact_eq_some ho
  obtain ⟨reactions, nextId, htoggle⟩ := run_toggleReaction (s := s) change.message.id u emoji
  obtain ⟨hs', hdiscloses⟩ := hresult _ (by rw [hwrite]; exact htoggle)
  rw [hs'] at hm ht
  rw [hdiscloses, change_carries ht hm]
  simp only [Db.Exposes]
  rw [isReply_iff hs.inv.keyed hx]
  refine or_congr (and_congr_right fun hid => ?_) Iff.rfl
  rw [hs.inv.keyed.messages.eq_of_id_eq hx hm hid]

theorem pinMessage_kept_iff (hs : Reachable s) {c : ConversationId} {id : MessageId} {u : UserId}
    {pinned : Bool} {r : Response} (hr : ((Op.pinMessage c id u pinned).run s).1 = .ok r)
    {m : Message} (hm : m ∈ ((Op.pinMessage c id u pinned).run s).2.messages) :
    r.Discloses (.pinMessage c id u pinned) m.id ↔ s.Exposes (.pinMessage c id u pinned) m := by
  have ht := (hs.run (.pinMessage c id u pinned)).inv.keyed
  obtain ⟨change, ho, hresult⟩ := change_discloses (.pinMessage c id u pinned) rfl rfl
    (accepts_pinMessage c id u pinned) hr
  obtain ⟨_, x, hx, rfl, _, halive, ⟨at', by', hmessage⟩, hwrite⟩ := acceptPin_eq_some ho
  -- the message is stored as it is returned
  obtain ⟨s', hrun, hstored⟩ : ∃ s', run exec change.write s = (.ok (), s') ∧
      change.message ∈ s'.messages := by
    rcases hwrite with hwrite | ⟨hsame, hwrite⟩
    · refine ⟨_, by rw [hwrite]; exact run_perform exec _ s, ?_⟩
      exact mem_replaceRow_iff.mpr (.inl ⟨rfl, x, hx, by rw [hmessage]⟩)
    · exact ⟨s, by rw [hwrite]; rfl, hsame ▸ hx⟩
  obtain ⟨hs', hdiscloses⟩ := hresult s' hrun
  rw [hs'] at hm ht
  rw [hdiscloses, change_carries ht hm]
  simp only [Db.Exposes]
  rw [isReply_iff hs.inv.keyed hx]
  have hid : change.message.id = x.id := by rw [hmessage]
  have hreply : change.message.replyToMessageId = x.replyToMessageId := by rw [hmessage]
  rw [hreply, hid]
  refine or_congr (and_congr_right fun hxm => ?_) Iff.rfl
  rw [ht.messages.eq_of_id_eq hstored hm (hid.trans hxm)]

/-! ## All operations -/

/-- A has blocked B and has then written to B. -/
def undeliveredChat : Db := (Db.empty 0 0).serve
  [.createPrivate userA userB, .blockUser userA userB, .sendMessage (textMessage userA 0 ['h', 'i'])]

/-- The message as it is stored. -/
def undeliveredMessage : Message :=
  MessageDraft.toRow
    { conversationId := 0, senderId := userA, body := ['h', 'i'], type := .text, undelivered := true }
    4 0

/-- B asks for the message by its id. -/
theorem undeliveredChat_shown :
    ∃ r, ((Op.getMessage 0 4 userB).run undeliveredChat).1 = .ok r ∧ r.Carries 4 :=
  exists_ok_of_map (by decide)

end Relay.Chat
