import Relay.Chat.Verify.Checks
import Relay.Chat.Verify.Scheduled

/-!
# What a scheduled message says

A request is normalised when it is scheduled, and its row once more when it is sent. The second
normalisation changes nothing but a MIME type: what was scheduled as `video/webm` with an attachment
has become a voice note, and is sent as `audio/webm` (`content_toPayload`). So a scheduled message is
stored with the content an immediate one would have, unless the request is of that kind
(`same_content_iff`).
-/

namespace Relay.Chat

open Relay.Lib Relay.Lib.Rows Prog

/-- The request attaches what its MIME type calls a video and its type does not call a voice note. -/
def ScheduleMessage.Relabels (payload : ScheduleMessage) : Prop :=
  trimmed payload.attachmentUrl ≠ none ∧
    trimmed payload.attachmentMime = some "video/webm".toList ∧
      payload.type ≠ some "audio".toList

instance (payload : ScheduleMessage) : Decidable payload.Relabels :=
  inferInstanceAs (Decidable (_ ∧ _ ∧ _))

/-! ## Normalising twice -/

theorem trimmed_eq_some {t : Option Text} {u : Text} (h : trimmed t = some u) :
    Js.trim u = u ∧ u ≠ [] := by
  unfold trimmed orNull at h
  obtain ⟨hmap, hne⟩ := Option.filter_eq_some_iff.mp h
  obtain ⟨v, _, rfl⟩ := Option.map_eq_some_iff.mp hmap
  exact ⟨Js.trim_trim v, by simpa using hne⟩

@[simp] theorem trimmed_trimmed (t : Option Text) : trimmed (trimmed t) = trimmed t := by
  cases h : trimmed t with
  | none => rfl
  | some u =>
    obtain ⟨htrim, hne⟩ := trimmed_eq_some h
    simp only [trimmed, orNull, Option.map_some, htrim, Option.filter_some, ne_eq, hne,
      not_false_eq_true, decide_true, if_true]

theorem trimmed_attachmentMimeOf (mime type : Option Text) :
    trimmed (attachmentMimeOf mime type) = attachmentMimeOf mime type := by
  unfold attachmentMimeOf
  dsimp only
  split
  · rfl
  · exact trimmed_trimmed mime

theorem trim_bodyOf (body : Text) (type : MessageType) :
    Js.trim (bodyOf (Js.trim body) type) = bodyOf (Js.trim body) type := by
  unfold bodyOf
  split
  · exact Js.trim_trim body
  · cases type <;> rfl

/-- A body is not replaced by a placeholder twice. -/
theorem bodyOf_bodyOf (body : Text) (type : MessageType) :
    bodyOf (bodyOf body type) type = bodyOf body type := by
  unfold bodyOf
  by_cases h : body = []
  · cases type <;> simp [h]
  · simp [h]

theorem ofText_toText (type : MessageType) : MessageType.ofText type.toText = some type := by
  cases type <;> rfl

theorem ofText_eq_some {t : Text} {type : MessageType} (h : MessageType.ofText t = some type) :
    t = type.toText := by
  simp only [MessageType.ofText, MessageType.all, List.lookup_cons] at h
  repeat'
    split at h
    next heq =>
      cases h
      exact eq_of_beq heq
  cases h

theorem toText_inj {a b : MessageType} : a.toText = b.toText ↔ a = b := by
  cases a <;> cases b <;> decide

theorem validMentions_congr {mentions : Option (List UserId)} {actorId : UserId}
    {ms ms' : List ConversationMember} (h : (activeMembers ms').map ConversationMember.userId =
      (activeMembers ms).map ConversationMember.userId) :
    validMentions mentions actorId ms' = validMentions mentions actorId ms := by
  unfold validMentions
  rw [h]

theorem content_congr (payload : SendMessage) (requested : MessageType)
    {ms ms' : List ConversationMember} (h : (activeMembers ms').map ConversationMember.userId =
      (activeMembers ms).map ConversationMember.userId) :
    payload.content requested ms' = payload.content requested ms := by
  unfold SendMessage.content
  rw [validMentions_congr h]

/-- Valid mentions stay as they are. -/
theorem validMentions_validMentions (mentions : Option (List UserId)) (actorId : UserId)
    (ms : List ConversationMember) :
    validMentions (some (validMentions mentions actorId ms)) actorId ms =
      validMentions mentions actorId ms := by
  have hids : mentionIds (some (validMentions mentions actorId ms)) actorId =
      validMentions mentions actorId ms := by
    have hmem : ∀ u ∈ validMentions mentions actorId ms, u.text ≠ [] ∧ u ≠ actorId := by
      intro u hu
      have hu := (List.mem_filter.mp (List.mem_filter.mp hu).1)
      have htext := (List.mem_filter.mp (List.mem_eraseDups.mp hu.1)).2
      exact ⟨by simpa using htext, by simpa using hu.2⟩
    have hnodup : (validMentions mentions actorId ms).Nodup :=
      ((Js.nodup_eraseDups _).filter _).filter _
    have hfirst : ((validMentions mentions actorId ms).filter fun u => u.text ≠ []) =
        validMentions mentions actorId ms :=
      List.filter_eq_self.mpr fun u hu => by simpa using (hmem u hu).1
    have hlast : ((validMentions mentions actorId ms).filter fun u => u ≠ actorId) =
        validMentions mentions actorId ms :=
      List.filter_eq_self.mpr fun u hu => by simpa using (hmem u hu).2
    conv_lhs => rw [mentionIds, Option.getD_some, hfirst, Js.eraseDups_of_nodup hnodup, hlast]
  conv_lhs => rw [validMentions, hids]
  refine List.filter_eq_self.mpr fun u hu => ?_
  exact (List.mem_filter.mp hu).2

/-- The MIME type of a row, when the row is sent. -/
theorem attachmentMimeOf_twice (mime type : Option Text) (derived : MessageType) :
    attachmentMimeOf (attachmentMimeOf mime type) (some derived.toText) =
      if attachmentMimeOf mime type = some "video/webm".toList ∧ derived = .audio then
        some "audio/webm".toList
      else attachmentMimeOf mime type := by
  have haudio : some derived.toText = some "audio".toList ↔ derived = .audio := by
    rw [Option.some.injEq]
    exact toText_inj (b := .audio)
  conv_lhs => rw [attachmentMimeOf, trimmed_attachmentMimeOf]
  simp only [haudio]

/-- A type that was derived from the attachment is derived again. -/
theorem attachmentType_derived (url m type : Option Text) (requested : MessageType) :
    let derived := attachmentType url m type requested
    attachmentType url
      (if m = some "video/webm".toList ∧ derived = .audio then some "audio/webm".toList else m)
      (some derived.toText) derived = derived := by
  intro derived
  by_cases hurl : url = none
  · rw [attachmentType, if_pos hurl]
  by_cases himage : startsWith "image/" m = true
  · have hderived : derived = .image := by
      simp only [derived, attachmentType, if_neg hurl, if_pos himage]
    rw [hderived, if_neg (by simp), attachmentType, if_neg hurl, if_pos himage]
  by_cases haudio : startsWith "audio/" m = true ∨ type = some "audio".toList ∨
      m = some "video/webm".toList
  · have hderived : derived = .audio := by
      simp only [derived, attachmentType, if_neg hurl, if_neg himage, if_pos haudio]
    -- neither the old nor the new MIME type is that of an image
    have hother : startsWith "image/" (if m = some "video/webm".toList ∧ derived = .audio then
        some "audio/webm".toList else m) ≠ true := by
      split
      · decide
      · exact himage
    rw [attachmentType, if_neg hurl, if_neg hother, hderived, if_pos (.inr (.inl rfl))]
  · have hderived : derived = .file := by
      simp only [derived, attachmentType, if_neg hurl, if_neg himage, if_neg haudio]
    obtain ⟨hleads, _, hwebm⟩ := not_or.mp haudio |>.imp_right not_or.mp
    have hfile : ¬(startsWith "audio/" m = true ∨ some MessageType.file.toText = some "audio".toList ∨
        m = some "video/webm".toList) := by
      rintro (h | h | h)
      · exact hleads h
      · exact absurd h (by decide)
      · exact hwebm h
    rw [hderived, if_neg (by simp), attachmentType, if_neg hurl, if_neg himage, if_neg hfile]

/-- Which requests are sent with another MIME type than they asked for. -/
theorem ScheduleMessage.relabels_iff (payload : ScheduleMessage) {requested : MessageType}
    (hrequested : MessageType.ofText (payload.type.getD "text".toList) = some requested) :
    (attachmentMimeOf payload.attachmentMime payload.type = some "video/webm".toList ∧
      attachmentType (trimmed payload.attachmentUrl)
        (attachmentMimeOf payload.attachmentMime payload.type) payload.type requested = .audio) ↔
      payload.Relabels := by
  unfold Relabels
  by_cases haudio : payload.type = some "audio".toList
  · have hmime : attachmentMimeOf payload.attachmentMime payload.type ≠ some "video/webm".toList := by
      unfold attachmentMimeOf
      dsimp only
      split
      · decide
      · next h => exact fun hraw => h ⟨hraw, haudio⟩
    exact iff_of_false (fun h => hmime h.1) fun h => h.2.2 haudio
  · have hmime : attachmentMimeOf payload.attachmentMime payload.type =
        trimmed payload.attachmentMime := by
      unfold attachmentMimeOf
      exact if_neg fun h => haudio h.2
    rw [hmime]
    constructor
    · rintro ⟨hraw, htype⟩
      refine ⟨fun hurl => ?_, hraw, haudio⟩
      rw [attachmentType, if_pos hurl] at htype
      have htext := ofText_eq_some hrequested
      rw [htype] at htext
      cases hp : payload.type with
      | none =>
        rw [hp] at htext
        exact absurd htext (by decide)
      | some t =>
        rw [hp] at htext
        exact haudio (hp.trans (congrArg some htext))
    · rintro ⟨hurl, hraw, _⟩
      refine ⟨hraw, ?_⟩
      rw [hraw, attachmentType, if_neg hurl, if_neg (by decide), if_pos (.inr (.inr rfl))]

/-- The request made for a row asks for the content of the row, but for the MIME type of what was not
called a voice note before. -/
theorem content_toPayload {payload : ScheduleMessage} {requested : MessageType}
    (hrequested : MessageType.ofText (payload.type.getD "text".toList) = some requested)
    {ms ms' : List ConversationMember} (hms : (activeMembers ms').map ConversationMember.userId =
      (activeMembers ms).map ConversationMember.userId) {row : ScheduledMessage}
    (hrow : row.content = payload.toSend.content requested ms)
    (hsender : row.senderId = payload.actorId) :
    row.toPayload.content row.type ms' =
      if payload.Relabels then { row.content with attachmentMime := some "audio/webm".toList }
      else row.content := by
  obtain ⟨hbody, htype, hurl, hmime, hname, hsize, hmentions, hpreview, hreply⟩ :=
    Content.mk.injEq .. |>.mp hrow
  have hmime' : attachmentMimeOf row.attachmentMime (some row.type.toText) =
      if payload.Relabels then some "audio/webm".toList else row.attachmentMime := by
    rw [hmime, attachmentMimeOf_twice, htype]
    exact if_congr (payload.relabels_iff hrequested) rfl rfl
  have htype' : attachmentType (trimmed row.attachmentUrl)
      (attachmentMimeOf row.attachmentMime (some row.type.toText)) (some row.type.toText) row.type =
        row.type := by
    rw [hurl, hmime, htype, attachmentMimeOf_twice]
    simp only [ScheduleMessage.toSend, trimmed_trimmed]
    exact attachmentType_derived _ _ _ _
  have hcontent : row.toPayload.content row.type ms' = { row.content with
      attachmentMime := attachmentMimeOf row.attachmentMime (some row.type.toText) } := by
    simp only [SendMessage.content, ScheduledMessage.toPayload, ScheduledMessage.content,
      Option.getD_some, htype', Content.mk.injEq, true_and, and_true]
    refine ⟨?_, ?_, ?_, ?_⟩
    · rw [hbody, trim_bodyOf, htype]
      exact bodyOf_bodyOf _ _
    · rw [hurl, trimmed_trimmed]
    · rw [hname, trimmed_trimmed]
    · rw [hmentions, hsender, validMentions_congr hms]
      exact validMentions_validMentions _ _ _
  rw [hcontent, hmime']
  split <;> rfl

/-! ## Requests that a chat takes -/

section Chat

variable {s t : Db}

/-- The chat is in `t` as it was in `s`, for what a request into it asks: its kind, who is in it, who
has blocked whom, and the message it replies to. -/
structure Db.SameChat (s t : Db) (c : ConversationId) (replyTo : Option MessageId) : Prop where
  type : (t.findConversation c).map Conversation.type = (s.findConversation c).map Conversation.type
  members : (t.membersOf c).map (fun m => (m.userId, m.leftAt)) =
    (s.membersOf c).map fun m => (m.userId, m.leftAt)
  blocks : ∀ a ∈ s.membersOf c, ∀ b ∈ s.membersOf c,
    t.hasBlock a.userId b.userId = s.hasBlock a.userId b.userId
  target : ∀ id, replyTo = some id →
    (t.messages.find? fun m => m.id = id ∧ m.conversationId = c).map Message.deletedForEveryoneAt =
      (s.messages.find? fun m => m.id = id ∧ m.conversationId = c).map Message.deletedForEveryoneAt

/-- The request passes the checks of `sendMessage`, and is none for a line of the call history. -/
structure Db.Takes (s : Db) (payload : SendMessage) (requested : MessageType)
    (cv : ConversationWithMembers) : Prop where
  nonempty : ¬(Js.trim (payload.body.getD []) = [] ∧ trimmed payload.attachmentUrl = none)
  asks : MessageType.ofText (payload.type.getD "text".toList) = some requested
  notCall : requested ≠ .call
  membership : s.membership payload.conversationId payload.actorId = .ok cv
  allowed : (s.delivery cv payload.actorId).forbidden = false
  target : ∃ o, s.target cv.id payload.replyToMessageId = .ok o

theorem findActive_isSome (ms : List ConversationMember) (u : UserId) :
    (findActive ms u).isSome = (ms.map fun m => (m.userId, m.leftAt)).any fun p =>
      p.1 = u ∧ p.2 = none := by
  unfold findActive
  rw [List.any_map, List.isSome_find?]
  rfl

theorem findOther_userId (ms : List ConversationMember) (u : UserId) :
    (findOther ms u).map ConversationMember.userId =
      ((ms.map fun m => (m.userId, m.leftAt)).find? fun p => p.1 ≠ u ∧ p.2 = none).map Prod.fst := by
  unfold findOther
  rw [List.find?_map, Option.map_map]
  rfl

theorem activeMembers_map (ms : List ConversationMember) :
    (activeMembers ms).map (fun m => (m.userId, m.leftAt)) =
      (ms.map fun m => (m.userId, m.leftAt)).filter fun p => p.2 = none := by
  unfold activeMembers
  rw [List.filter_map]
  rfl

/-- Only a block of the other party forbids the delivery. -/
theorem delivery_forbidden (cv : ConversationWithMembers) (u : UserId) :
    (s.delivery cv u).forbidden =
      (cv.type = .priv && ((findOther cv.members u).map ConversationMember.userId).any fun o =>
        s.hasBlock o u) := by
  unfold Db.delivery
  by_cases htype : cv.type = .priv
  · rw [if_neg (not_not.mpr htype)]
    cases findOther cv.members u with
    | none => simp [openDelivery]
    | some other =>
      simp only [htype, decide_true, Bool.true_and, Option.map_some, Option.any_some]
      cases s.hasBlock other.userId u <;> cases s.hasBlock u other.userId <;> rfl
  · rw [if_pos htype]
    simp [htype, openDelivery]

theorem userIds_of_map {ms ms' : List ConversationMember}
    (h : ms'.map (fun m => (m.userId, m.leftAt)) = ms.map fun m => (m.userId, m.leftAt)) :
    (activeMembers ms').map ConversationMember.userId =
      (activeMembers ms).map ConversationMember.userId := by
  have hactive := congrArg (List.map Prod.fst)
    ((activeMembers_map ms').trans (h ▸ (activeMembers_map ms).symm))
  rw [List.map_map, List.map_map] at hactive
  exact hactive

theorem Db.SameChat.userIds {c : ConversationId} {r : Option MessageId} (h : s.SameChat t c r) :
    (activeMembers (t.membersOf c)).map (fun m => (m.userId, m.leftAt)) =
      (activeMembers (s.membersOf c)).map fun m => (m.userId, m.leftAt) := by
  rw [activeMembers_map, activeMembers_map, h.members]

/-- The message to reply to can be replied to as before. -/
theorem Db.SameChat.target_ok {c : ConversationId} {r : Option MessageId} (h : s.SameChat t c r)
    {o : Option Message} (ho : s.target c r = .ok o) : ∃ o', t.target c r = .ok o' := by
  cases r with
  | none => exact ⟨none, rfl⟩
  | some id =>
    have htarget := h.target id rfl
    unfold Db.target at ho ⊢
    dsimp only at ho ⊢
    split at ho
    · cases ho
    · next x hx =>
      rw [hx] at htarget
      split at ho
      · next halive =>
        obtain ⟨x', hx', heq⟩ := Option.map_eq_some_iff.mp htarget
        exact ⟨some x', by rw [hx']; exact if_pos (heq.trans halive)⟩
      · cases ho

/-- What the chat takes in `s` it takes in `t`. -/
theorem Db.Takes.later {payload : SendMessage} {requested : MessageType}
    {cv : ConversationWithMembers} (h : s.Takes payload requested cv)
    (hst : s.SameChat t payload.conversationId payload.replyToMessageId) :
    ∃ cv', t.Takes payload requested cv' ∧ cv'.members.map (fun m => (m.userId, m.leftAt)) =
      cv.members.map fun m => (m.userId, m.leftAt) := by
  obtain ⟨hfind, hmembers, m, hm⟩ := Db.membership_eq_ok h.membership
  have hid := Db.membership_id h.membership
  obtain ⟨row, hrow, htype⟩ : ∃ row, t.findConversation payload.conversationId = some row ∧
      row.type = cv.type := by
    have htype := hst.type
    rw [hfind] at htype
    exact Option.map_eq_some_iff.mp htype
  have hactive : (findActive (t.membersOf payload.conversationId) payload.actorId).isSome = true := by
    rw [findActive_isSome, hst.members, ← findActive_isSome, hm]
    rfl
  obtain ⟨m', hm'⟩ := Option.isSome_iff_exists.mp hactive
  have hmembership : t.membership payload.conversationId payload.actorId =
      .ok ⟨row, activeMembers (t.membersOf payload.conversationId)⟩ := by
    unfold Db.membership
    rw [hrow, hm']
  refine ⟨_, ⟨h.nonempty, h.asks, h.notCall, hmembership, ?_, ?_⟩, ?_⟩
  · have hallowed := h.allowed
    rw [delivery_forbidden, findOther_userId] at hallowed ⊢
    rw [hst.userIds, ← hmembers, htype]
    cases hother : (cv.members.map fun m => (m.userId, m.leftAt)).find? fun p =>
        p.1 ≠ payload.actorId ∧ p.2 = none with
    | none => simp
    | some p =>
      rw [hother] at hallowed
      obtain ⟨other, hmem, rfl⟩ := List.mem_map.mp (List.mem_of_find?_eq_some hother)
      rw [hmembers] at hmem
      obtain ⟨hactor, huser, _⟩ := findActive_eq_some hm
      have hblocks := hst.blocks other (mem_activeMembers.mp hmem).1 m hactor
      rw [huser] at hblocks
      simpa [hblocks] using hallowed
  · obtain ⟨o, ho⟩ := h.target
    have hcid : row.id = payload.conversationId := (Db.findConversation_eq_some hrow).2.1
    rw [hid] at ho
    change ∃ o, t.target row.id payload.replyToMessageId = .ok o
    rw [hcid]
    exact hst.target_ok ho
  · rw [hst.userIds, hmembers]

/-- A request that is taken is stored with its content. -/
theorem Db.Takes.stores {payload : SendMessage} {requested : MessageType}
    {cv : ConversationWithMembers} (h : s.Takes payload requested cv) :
    ∃ x, (run exec (sendMessage payload) s).2.messages = s.messages ++ [x] ∧
      x.content = payload.content requested cv.members := by
  obtain ⟨o, ho⟩ := h.target
  have hreply := (Db.target_eq_ok ho).1
  unfold sendMessage
  rw [run_rejectIf_neg h.nonempty, h.asks, run_require_some]
  dsimp only
  rw [if_neg h.notCall, run_bind_ok exec (h.membership ▸ run_requireMembership _ _),
    run_bind_ok exec (run_resolvePrivateDelivery _ _), run_rejectIf_neg (by simp [h.allowed]),
    run_bind_ok exec (ho ▸ run_replyTarget _ _), run_read (a := jsDate s.now) rfl,
    run_write rfl]
  -- what follows the insert writes no messages
  rw [run_messages]
  · refine ⟨_, rfl, ?_⟩
    simp only [Message.content, MessageDraft.toRow, SendMessage.content, hreply]
  · refine uses_bind (uses_perform trivial) fun _ => ?_
    exact uses_bind (uses_recordAudit (fun _ _ _ _ _ => trivial) _ _ _ _ _) fun _ => trivial

/-! ## From the request to the row -/

/-- The checks of a scheduled reply are those of a reply. -/
theorem run_checkScheduledReply (cv : ConversationWithMembers) (r : Option MessageId) {a : Unit}
    (h : run exec (checkScheduledReply cv r) s = (.ok a, t)) : t = s ∧ ∃ o, s.target cv.id r = .ok o := by
  unfold checkScheduledReply at h
  cases r with
  | none =>
    cases h
    exact ⟨rfl, none, rfl⟩
  | some id =>
    dsimp only at h
    rw [run_read (a := s.messages.find? fun m => m.id = id ∧ m.conversationId = cv.id) rfl,
      run_rejectIf] at h
    cases hfind : s.messages.find? fun m => m.id = id ∧ m.conversationId = cv.id with
    | none =>
      rw [hfind] at h
      cases h
    | some m =>
      rw [hfind] at h
      split at h
      · cases h
      · next halive =>
        cases h
        have halive : m.deletedForEveryoneAt = none := by simpa using halive
        exact ⟨rfl, some m, by unfold Db.target; simp only [hfind, if_pos halive]⟩

/-- What an accepted request has stored: a pending row with the content of the request. -/
theorem scheduleMessage_stores {payload : ScheduleMessage} {view : ScheduledMessageView}
    (h : run exec (scheduleMessage payload) s = (.ok view, t)) :
    ∃ requested cv row, s.Takes payload.toSend requested cv ∧
      t.scheduledMessages = s.scheduledMessages ++ [row] ∧ row.id = s.nextId ∧ row.id = view.id ∧
      row.conversationId = payload.conversationId ∧ row.senderId = payload.actorId.canon ∧
      row.content = payload.toSend.content requested cv.members := by
  unfold scheduleMessage at h
  obtain ⟨hnonempty, h⟩ := run_rejectIf_ok h
  obtain ⟨requested, hasks, h⟩ := run_require_ok h
  obtain ⟨hcall, h⟩ := run_rejectIf_ok h
  obtain ⟨scheduledFor, _, h⟩ := run_require_ok h
  rw [run_read (a := jsDate s.now) rfl] at h
  obtain ⟨_, h⟩ := run_rejectIf_ok h
  obtain ⟨_, h⟩ := run_rejectIf_ok h
  obtain ⟨cv, s₁, hload, h⟩ := run_bind_inv exec h
  rw [run_requireMembership] at hload
  obtain ⟨hcv, rfl⟩ := Prod.mk.inj hload
  rw [run_bind_ok exec (run_resolvePrivateDelivery _ _)] at h
  obtain ⟨hallowed, h⟩ := run_rejectIf_ok h
  rw [run_read rfl] at h
  obtain ⟨_, h⟩ := run_rejectIf_ok h
  obtain ⟨_, s₂, hreply, hinsert⟩ := run_bind_inv exec h
  obtain ⟨rfl, htarget⟩ := run_checkScheduledReply cv _ hreply
  have hid := Db.membership_id hcv
  rw [run_write rfl] at hinsert
  cases hinsert
  refine ⟨requested, cv, _, ⟨hnonempty, hasks, hcall, hcv,
    eq_false_of_ne_true hallowed, htarget⟩, rfl,
    rfl, rfl, hid, rfl, rfl⟩

/-- A chat that takes the request takes the one made for its row. -/
theorem Db.Takes.row {payload : ScheduleMessage} {requested : MessageType}
    {cv : ConversationWithMembers} (h : s.Takes payload.toSend requested cv) {row : ScheduledMessage}
    {ms : List ConversationMember} (hrow : row.content = payload.toSend.content requested ms)
    (hc : row.conversationId = payload.conversationId) (hsender : row.senderId = payload.actorId) :
    s.Takes row.toPayload row.type cv := by
  obtain ⟨hbody, htype, hurl, -, -, -, -, -, hreply⟩ := Content.mk.injEq .. |>.mp hrow
  refine ⟨?_, ofText_toText row.type, ?_, ?_, ?_, ?_⟩
  · rintro ⟨hempty, hnone⟩
    change Js.trim row.body = [] at hempty
    change trimmed row.attachmentUrl = none at hnone
    rw [hurl, trimmed_trimmed] at hnone
    rw [hbody, trim_bodyOf] at hempty
    have hraw : Js.trim (payload.toSend.body.getD []) ≠ [] := fun hraw => h.nonempty ⟨hraw, hnone⟩
    rw [bodyOf.eq_def, if_pos hraw] at hempty
    exact hraw hempty
  · rw [htype]
    exact attachmentType_ne_call h.notCall
  · change s.membership row.conversationId row.senderId = .ok cv
    rw [hc, hsender]
    exact h.membership
  · change (s.delivery cv row.senderId).forbidden = false
    rw [hsender]
    exact h.allowed
  · change ∃ o, s.target cv.id row.replyToMessageId = .ok o
    rw [hreply]
    exact h.target

/-! ## From the row to its round -/

/-- The row is stored as it was scheduled, or is no longer pending. -/
def Db.Keeps (s : Db) (row : ScheduledMessage) : Prop :=
  ∃ row', s.scheduledRow row.id = some row' ∧ (row' = row ∨ row'.status ≠ .pending)

/-- No request saves a scheduled message as pending. -/
def Unscheduling (c : Call) : Prop := ∀ row, c = .saveScheduled row → row.status ≠ .pending

theorem Db.Keeps.call {row : ScheduledMessage} (h : s.Keeps row) {c : Call} (hc : Unscheduling c) :
    (exec c s).2.Keeps row := by
  obtain ⟨row', hrow, hkept⟩ := h
  by_cases hpending : row'.status = .pending
  · obtain rfl : row' = row := hkept.resolve_right (not_not.mpr hpending)
    by_cases hclaim : c = .claimScheduled row'.id
    · subst hclaim
      refine ⟨row'.claimed row'.id s.now, by rw [scheduledRow_claim, hrow]; rfl, .inr ?_⟩
      unfold ScheduledMessage.claimed
      rw [if_pos ⟨rfl, hpending⟩]
      exact nofun
    by_cases hsave : ∃ saved, c = .saveScheduled saved ∧ saved.id = row'.id
    · obtain ⟨saved, rfl, hid⟩ := hsave
      exact ⟨{ saved with updatedAt := s.now },
        by rw [scheduledRow_save, if_pos hid, hrow]; rfl, .inr (hc saved rfl)⟩
    · exact ⟨row', scheduledRow_other hclaim (fun saved heq hid => hsave ⟨saved, heq, hid⟩) hrow,
        .inl rfl⟩
  · obtain ⟨settled, hsettled, hstatus⟩ := Settled.exec ⟨row', hrow, hpending⟩ hc
    exact ⟨settled, hsettled, .inr hstatus⟩

theorem Besides.unscheduling {c : Call} (h : Besides c) : Unscheduling c := by
  rintro row rfl
  exact h.elim

theorem Op.unscheduling (op : Op) : Uses Unscheduling op.program := by
  have hG : ∀ c, Aside c → Unscheduling c := fun _ h => h.besides.unscheduling
  have hminor : ∀ c, Minor c → Unscheduling c := fun _ h => h.aside.besides.unscheduling
  have hread : ∀ c, ReadCall c → Unscheduling c := fun _ h => h.aside.besides.unscheduling
  have map {α : Type} {p : M α} (f : α → Response) (h : Uses Unscheduling p) :
      Uses Unscheduling (f <$> p) := uses_bind h fun _ => trivial
  have hsaved : ∀ m, Unscheduling (.saveMessage m) := by rintro _ _ ⟨⟩
  have hfind : ∀ m c, Unscheduling (.findMessage m c) := by rintro _ _ _ ⟨⟩
  have hinsert : ∀ d, Unscheduling (.insertMessage d) := by rintro _ _ ⟨⟩
  have htouch : ∀ c, Unscheduling (.saveConversation c) := by rintro _ _ ⟨⟩
  have haudit : ∀ a action type id info, Unscheduling (.insertAudit a action type id info) := by
    rintro _ _ _ _ _ _ ⟨⟩
  have hstore : ∀ row : ScheduledMessage, row.status ≠ .pending → Unscheduling (.saveScheduled row) := by
    rintro _ h _ ⟨⟩
    exact h
  by_cases hop : op.writesMessages = false
  · exact (op.besides hop).mono (fun _ _ h => h) fun _ h => h.unscheduling
  · cases op with
    | sendMessage payload => exact map _ (uses_sendMessage hread payload hfind (fun d _ => hinsert d) htouch haudit)
    | forwardMessage a source target m =>
      exact map _ (uses_forwardMessage hread hfind hinsert htouch a source target m)
    | editMessage c m a body => exact map _ (uses_editMessage hminor hsaved c m a body)
    | pinMessage c m a pinned => exact map _ (uses_pinMessage hminor hsaved c m a pinned)
    | deleteMessage c m a forEveryone => exact map _ (uses_deleteMessage hminor hsaved c m a forEveryone)
    | expireDueMessages => exact map _ (uses_expireDueMessages hminor hsaved)
    | scheduleMessage payload =>
      exact map _ (uses_scheduleMessage hminor (by rintro _ _ ⟨⟩) payload)
    | cancelScheduledMessage c id a =>
      exact map _ (uses_cancelScheduledMessage hminor (fun row h => hstore row (h ▸ nofun)) c id a)
    | dispatchDueScheduled =>
      exact map _ (uses_dispatchDueScheduled hread hfind (fun d _ _ => hinsert d) htouch haudit (by rintro _ _ ⟨⟩) hstore)
    | _ => exact absurd rfl hop

/-- However requests interleave, a row stays as it was scheduled until it is claimed or cancelled. -/
theorem Db.Keeps.pool {row : ScheduledMessage} (h : s.Keeps row) (es : List ChatEvent) :
    (Runs.final poolStep es ⟨s, []⟩).store.Keeps row := by
  have hcall : ∀ (s : Db) (c : Call), s.Keeps row → Unscheduling c →
      (exec c s).2.Keeps row ∧ True := fun s c hI hL => ⟨hI.call hL, trivial⟩
  have hwait : ∀ (d : Nat) (s : Db), s.Keeps row → (s.wait d).Keeps row ∧ True :=
    fun d s hI => ⟨hI, trivial⟩
  have hprogram : ∀ (op : Op) (s : Db), s.Keeps row → Guards exec (fun s => s.Keeps row)
      (fun _ _ => True) (fun _ => Unscheduling) (fun _ _ => True) op.program s :=
    fun op s _ => guards_of_sat (fun _ _ _ hc => ⟨hc, trivial⟩) op.unscheduling s
  exact Pool.invariant (fun _ => trivial) (fun _ _ _ _ _ => trivial) hcall hwait hprogram h es

/-- A dispatch that starts in `s` comes to the round of `row` in `t`. -/
def Db.ComesTo (s : Db) (row : ScheduledMessage) (t : Db) : Prop :=
  ∃ pre post results, (exec (.findDueScheduled (jsDate s.now)) s).1 = .ok (pre ++ row :: post) ∧
    run exec (collect dispatchScheduled pre) s = (.ok results, t)

/-- Calls that neither claim nor save the scheduled message `r`. -/
def Elsewhere (r : Nat) : Call → Prop
  | .claimScheduled id => id ≠ r
  | .saveScheduled row => row.id ≠ r
  | _ => True

theorem Elsewhere.exec {r : Nat} {c : Call} (h : Elsewhere r c) {row : ScheduledMessage}
    (hrow : s.scheduledRow r = some row) : (exec c s).2.scheduledRow r = some row := by
  refine scheduledRow_other ?_ ?_ hrow
  · rintro rfl
    exact h rfl
  · rintro row' rfl
    exact h

/-- The rounds before it leave the row as it was found. -/
theorem scheduledRow_rounds {pre : List ScheduledMessage} {row : ScheduledMessage}
    (hpre : ∀ other ∈ pre, other.id ≠ row.id) (hrow : s.scheduledRow row.id = some row) :
    (run exec (collect dispatchScheduled pre) s).2.scheduledRow row.id = some row := by
  refine Sat.preserves (I := fun t : Db => t.scheduledRow row.id = some row) (G := Elsewhere row.id)
    (fun t c hc ht => hc.exec ht) ?_ hrow
  have hread : ∀ c, ReadCall c → Elsewhere row.id c := by
    intro c hc
    cases c <;> first | exact trivial | exact hc.elim
  refine uses_collect fun other hother => ?_
  refine uses_dispatchScheduled hread (fun _ _ => trivial) (fun _ _ _ => trivial) (fun _ => trivial)
    (fun _ _ _ _ _ => trivial) (hpre other hother) fun row' hid _ => ?_
  exact fun heq => hpre other hother (hid.symm.trans heq)

/-- The row of a round is pending, and still is when its round comes. -/
theorem Db.ComesTo.found {row : ScheduledMessage} (h : s.ComesTo row t) (hkeyed : WellKeyed s) :
    s.scheduledRow row.id = some row ∧ row.status = .pending ∧ t.scheduledRow row.id = some row ∧
      WellKeyed t := by
  obtain ⟨pre, post, results, hdue, hrounds⟩ := h
  have ht : (run exec (collect dispatchScheduled pre) s).2 = t := congrArg Prod.snd hrounds
  have hnodup := nodup_due hkeyed (jsDate s.now)
  rw [Except.ok.inj hdue, List.map_append, List.map_cons] at hnodup
  have hmem : row ∈ s.scheduledMessages.filter fun row =>
      row.status = .pending ∧ row.scheduledFor ≤ jsDate s.now := by
    have hmem : row ∈ pre ++ row :: post := List.mem_append_right _ List.mem_cons_self
    rw [← Except.ok.inj hdue] at hmem
    exact (List.mem_insertionSort _).mp (List.mem_of_mem_take hmem)
  obtain ⟨hstored, hpending⟩ := List.mem_filter.mp hmem
  have hrow := hkeyed.scheduled.find?_eq_some.mpr ⟨hstored, rfl⟩
  refine ⟨hrow, by simpa using (decide_eq_true_eq.mp hpending).1, ?_, ?_⟩
  · rw [← ht]
    refine scheduledRow_rounds (fun other hother hid => ?_) hrow
    have hdisjoint := (List.nodup_append.mp hnodup).2.2
    exact hdisjoint _ (List.mem_map_of_mem hother) _ List.mem_cons_self hid
  · rw [← ht]
    exact (calls_true (collect dispatchScheduled pre) s).preserves (fun _ c _ h => h.exec c) hkeyed

/-- The round of a pending row stores what the row asks for. -/
theorem messages_dispatchScheduled {row : ScheduledMessage}
    (hrow : s.scheduledRow row.id = some row) (hpending : row.status = .pending)
    (hkeyed : WellKeyed s) {cv : ConversationWithMembers} (h : s.Takes row.toPayload row.type cv) :
    ∃ x, (run exec (dispatchScheduled row) s).2.messages = s.messages ++ [x] ∧
      x.content = row.toPayload.content row.type cv.members := by
  obtain ⟨n, hn⟩ : ∃ n, (exec (.claimScheduled row.id) s).1 = .ok n := ⟨_, rfl⟩
  have hne : n ≠ 0 := by
    rintro rfl
    exact (claim_ne_zero hkeyed).mpr ⟨row, hrow, hpending⟩ hn
  -- a claim changes nothing the request looks at
  have hclaimed : (exec (.claimScheduled row.id) s).2.Takes row.toPayload row.type cv :=
    ⟨h.nonempty, h.asks, h.notCall, h.membership, h.allowed, h.target⟩
  obtain ⟨x, hx, hcontent⟩ := hclaimed.stores
  refine ⟨x, ?_, hcontent⟩
  rw [dispatchScheduled_eq, run_write (Prod.ext hn rfl), if_neg hne,
    run_bind_ok exec (run_attempt exec _ _), run_messages (uses_settle (fun _ _ _ => trivial) _)]
  exact hx

end Chat

/-- A message that was scheduled says what the request would have sent at once, if the chat is as it
was, exactly when the request does not attach a video that it does not call a voice note. -/
theorem same_content_iff {s s₁ d u : Db} (hs : Reachable s) {payload : ScheduleMessage}
    {view : ScheduledMessageView} (haccepted : run exec (scheduleMessage payload) s = (.ok view, s₁))
    (es : List ChatEvent) {row : ScheduledMessage}
    (hround : (Runs.final poolStep es ⟨s₁, []⟩).store.ComesTo row d) (hrow : row.id = view.id)
    (hd : s.SameChat d payload.conversationId payload.replyToMessageId)
    (hu : s.SameChat u payload.conversationId payload.replyToMessageId) :
    ∃ x y, (run exec (dispatchScheduled row) d).2.messages = d.messages ++ [x] ∧
      (run exec (sendMessage payload.toSend) u).2.messages = u.messages ++ [y] ∧
      (x.content = y.content ↔ ¬ payload.Relabels) := by
  obtain ⟨requested, cv, row₀, htakes, hstored, -, hview, hc, hsender, hcontent⟩ :=
    scheduleMessage_stores haccepted
  -- the actor is a member, so the id of the request is spelled as the stored one
  have hactor : payload.actorId.canon = payload.actorId := by
    obtain ⟨-, -, m, hm⟩ := Db.membership_eq_ok htakes.membership
    obtain ⟨hmem, huser, -⟩ := findActive_eq_some hm
    have hcanon := hs.inv.canon m (Db.mem_membersOf.mp hmem).1
    rw [huser] at hcanon
    exact hcanon
  rw [hactor] at hsender
  have hinv : Inv s₁ := by
    have hrun := hs.inv.run (.scheduleMessage payload)
    have hstore : ((Op.scheduleMessage payload).run s).2 = s₁ := by
      change (run exec (Response.scheduled <$> scheduleMessage payload) s).2 = s₁
      rw [run_map, haccepted]
    rwa [hstore] at hrun
  have hkeeps : s₁.Keeps row₀ := by
    refine ⟨row₀, hinv.keyed.scheduled.find?_eq_some.mpr ⟨?_, rfl⟩, .inl rfl⟩
    rw [hstored]
    exact List.mem_append_right _ List.mem_cons_self
  have hkeyed := (hinv.pool es).keyed
  obtain ⟨hfound, hpending, hrowd, hkeyedd⟩ := hround.found hkeyed
  have hrow₀ : row = row₀ := by
    obtain ⟨row', hrow', hkept⟩ := hkeeps.pool es
    rw [hview, ← hrow, hfound] at hrow'
    cases hrow'
    exact hkept.resolve_right (not_not.mpr hpending)
  subst hrow₀
  obtain ⟨cv₁, htakes₁, hms₁⟩ := htakes.later hd
  obtain ⟨cv₂, htakes₂, hms₂⟩ := htakes.later hu
  obtain ⟨x, hx, hxcontent⟩ :=
    messages_dispatchScheduled hrowd hpending hkeyedd (htakes₁.row hcontent hc hsender)
  obtain ⟨y, hy, hycontent⟩ := htakes₂.stores
  refine ⟨x, y, hx, hy, ?_⟩
  have hy' : y.content = row.content := by
    rw [hycontent, hcontent]
    exact content_congr _ _ (userIds_of_map hms₂)
  rw [hxcontent, hy', content_toPayload htakes.asks (userIds_of_map hms₁) hcontent hsender]
  by_cases hrelabels : payload.Relabels
  · rw [if_pos hrelabels]
    refine iff_of_false (fun heq => ?_) (not_not.mpr hrelabels)
    have hwebm := ((payload.relabels_iff htakes.asks).mpr hrelabels).1
    have hmime : row.content.attachmentMime = some "video/webm".toList := by
      rw [hcontent]
      exact hwebm
    have hother : some "audio/webm".toList ≠ some "video/webm".toList := by decide
    rw [← congrArg Content.attachmentMime heq] at hmime
    exact hother hmime
  · rw [if_neg hrelabels]
    exact iff_of_true rfl hrelabels

/-- A recording that is not called a voice note. -/
def recording : ScheduleMessage :=
  { scheduledText userA 0 ['h', 'i'] 60000000 with
    attachmentUrl := some ['u'], attachmentMime := some "video/webm".toList }

/-- The private chat of A and B, before and after A schedules the recording. -/
def quietChat : Db := (Db.empty 0 0).serve [.createPrivate userA userB]

def recordedChat : Db := (run exec (scheduleMessage recording) quietChat).2

def recordedRow : ScheduledMessage where
  id := 3
  conversationId := 0
  senderId := userA
  body := ['h', 'i']
  type := .audio
  replyToMessageId := none
  attachmentUrl := some ['u']
  attachmentMime := some "video/webm".toList
  attachmentName := none
  attachmentSize := none
  mentions := []
  linkPreview := none
  scheduledFor := 60000000
  status := .pending
  sentMessageId := none
  error := none
  cancelledAt := none
  createdAt := 0
  updatedAt := 0

theorem recordedChat_eq : run exec (scheduleMessage recording) quietChat =
    (.ok (toScheduledMessageView recordedRow), recordedChat) := by
  decide

/-- A minute later the row is due. -/
theorem recordedChat_comesTo : (Runs.final poolStep [.pass 60000000]
    ⟨recordedChat, []⟩).store.ComesTo recordedRow (recordedChat.wait 60000000) :=
  ⟨[], [], [], by decide, rfl⟩

theorem quietChat_same : quietChat.SameChat (recordedChat.wait 60000000) recording.conversationId
    recording.replyToMessageId :=
  ⟨by decide, by decide, by decide, nofun⟩

theorem same_content_iff_recording : ∃ x y,
    (run exec (dispatchScheduled recordedRow) (recordedChat.wait 60000000)).2.messages =
      (recordedChat.wait 60000000).messages ++ [x] ∧
    (run exec (sendMessage recording.toSend) quietChat).2.messages = quietChat.messages ++ [y] ∧
    (x.content = y.content ↔ ¬ recording.Relabels) :=
  same_content_iff ((reachable_empty 0 0).serve _) recordedChat_eq [.pass 60000000]
    recordedChat_comesTo rfl quietChat_same ⟨rfl, rfl, fun _ _ _ _ => rfl, fun _ _ => rfl⟩

/-- The recording is delivered as `audio/webm`; sent at once it is stored as `video/webm`. -/
theorem same_content_fails :
    ¬ ∀ (s s₁ d u : Db) (payload : ScheduleMessage) (view : ScheduledMessageView), Reachable s →
      run exec (scheduleMessage payload) s = (.ok view, s₁) →
      ∀ (es : List ChatEvent) (row : ScheduledMessage),
        (Runs.final poolStep es ⟨s₁, []⟩).store.ComesTo row d → row.id = view.id →
        s.SameChat d payload.conversationId payload.replyToMessageId →
        s.SameChat u payload.conversationId payload.replyToMessageId →
        ∀ x y, (run exec (dispatchScheduled row) d).2.messages = d.messages ++ [x] →
          (run exec (sendMessage payload.toSend) u).2.messages = u.messages ++ [y] →
          x.content = y.content := by
  intro h
  have hmime := h quietChat recordedChat (recordedChat.wait 60000000) quietChat recording _
    ((reachable_empty 0 0).serve _) recordedChat_eq [.pass 60000000] recordedRow recordedChat_comesTo rfl
    quietChat_same ⟨rfl, rfl, fun _ _ _ _ => rfl, fun _ _ => rfl⟩ _ _ rfl rfl
  exact absurd hmime (by decide)

end Relay.Chat
