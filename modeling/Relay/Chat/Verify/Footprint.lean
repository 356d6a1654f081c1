import Relay.Chat.System

/-!
# The calls an operation can make

For a set of calls `G` that contains all reads, the parts of the service that only read keep to `G`,
and an operation that writes keeps to it when its own writes are in it. A protocol that cares about a
few calls only takes the rest of an operation from here. What a request to send or to schedule a message
stores is the content it asks for (`SendMessage.Composes`).
-/

namespace Relay.Chat

open Relay.Lib Prog

/-- Calls that leave the database as it is. The loads of one message and of one scheduled message are
left out: what they answer is saved again. -/
def ReadCall : Call → Prop
  | .findPrivateByPairKey _ | .findConversations _ | .findConversation _ | .findMemberships _
  | .listMessages _ _ _ | .findMessageById _ | .findMessagesByIds _
  | .countPinned _ | .listPinned _ _ | .findDueMessages _ | .unreadRows _ _ | .latestRows _ _
  | .findHide _ _ | .findReaction _ _ _ | .findReactions _ | .countPending _ _ | .listPending _ _
  | .findDueScheduled _ | .findBlock _ _ | .listBlocks _ | .countBlocks _ _
  | .countBlocksEitherWay _ _ | .findPeerBlocks _ _ | .countConversations | .countMessages
  | .countMessagesSince _ | .countConversationsSince _ | .dayRows _ | .topRows | .listAudit _ _
  | .findWorkspace | .newDate | .getTimeZone => True
  | _ => False

theorem ReadCall.exec {c : Call} (h : ReadCall c) (s : Db) : (exec c s).2 = s := by
  cases c <;> first | rfl | exact h.elim

/-- A read never fails. -/
theorem ReadCall.answered {c : Call} (h : ReadCall c) (db : Db) : ∃ a, (Chat.exec c db).1 = .ok a := by
  cases c <;> first | exact ⟨_, rfl⟩ | exact h.elim

/-! ## Contents -/

/-- What a message says, and what is attached to it. -/
structure Content where
  body : Text
  type : MessageType
  attachmentUrl : Option Text
  attachmentMime : Option Text
  attachmentName : Option Text
  attachmentSize : Option Nat
  mentions : List UserId
  linkPreview : Option LinkPreview
  replyToMessageId : Option MessageId
deriving DecidableEq

def Message.content (m : Message) : Content where
  body := m.body
  type := m.type
  attachmentUrl := m.attachmentUrl
  attachmentMime := m.attachmentMime
  attachmentName := m.attachmentName
  attachmentSize := m.attachmentSize
  mentions := m.mentions
  linkPreview := m.linkPreview
  replyToMessageId := m.replyToMessageId

def ScheduledMessage.content (row : ScheduledMessage) : Content where
  body := row.body
  type := row.type
  attachmentUrl := row.attachmentUrl
  attachmentMime := row.attachmentMime
  attachmentName := row.attachmentName
  attachmentSize := row.attachmentSize
  mentions := row.mentions
  linkPreview := row.linkPreview
  replyToMessageId := row.replyToMessageId

def MessageDraft.content (d : MessageDraft) : Content where
  body := d.body
  type := d.type
  attachmentUrl := d.attachmentUrl
  attachmentMime := d.attachmentMime
  attachmentName := d.attachmentName
  attachmentSize := d.attachmentSize
  mentions := d.mentions
  linkPreview := d.linkPreview
  replyToMessageId := d.replyToMessageId

def ScheduledDraft.content (d : ScheduledDraft) : Content where
  body := d.body
  type := d.type
  attachmentUrl := d.attachmentUrl
  attachmentMime := d.attachmentMime
  attachmentName := d.attachmentName
  attachmentSize := d.attachmentSize
  mentions := d.mentions
  linkPreview := d.linkPreview
  replyToMessageId := d.replyToMessageId

/-- The request to send at once what is to be scheduled. -/
def ScheduleMessage.toSend (payload : ScheduleMessage) : SendMessage where
  actorId := payload.actorId
  conversationId := payload.conversationId
  body := payload.body
  type := payload.type
  replyToMessageId := payload.replyToMessageId
  attachmentUrl := payload.attachmentUrl
  attachmentMime := payload.attachmentMime
  attachmentName := payload.attachmentName
  attachmentSize := payload.attachmentSize
  mentionUserIds := payload.mentionUserIds
  linkPreview := payload.linkPreview
  systemCall := false

/-- The content of the message a request for the type `requested` asks for. -/
def SendMessage.content (payload : SendMessage) (requested : MessageType)
    (members : List ConversationMember) : Content :=
  let attachmentUrl := trimmed payload.attachmentUrl
  let attachmentMime := attachmentMimeOf payload.attachmentMime payload.type
  let type := attachmentType attachmentUrl attachmentMime payload.type requested
  { body := bodyOf (Js.trim (payload.body.getD [])) type
    type
    attachmentUrl
    attachmentMime
    attachmentName := trimmed payload.attachmentName
    attachmentSize := payload.attachmentSize
    mentions := validMentions payload.mentionUserIds payload.actorId members
    linkPreview := payload.linkPreview
    replyToMessageId := payload.replyToMessageId }

/-- The content comes from the request, but for the message it replies to. -/
def SendMessage.Composes (payload : SendMessage) (x : Content) : Prop :=
  ∃ requested members replyTo, requested ≠ .call ∧
    x = { payload.content requested members with replyToMessageId := replyTo }

/-! ## Programs that keep to some calls -/

/-- Every call of the program is in `G`. -/
abbrev Uses {α : Type} (G : Call → Prop) (p : M α) : Prop := Sat (fun _ _ => True) G p

section Uses

variable {α β : Type} {G : Call → Prop}

theorem uses_bind {p : M α} {f : α → M β} (hp : Uses G p) (hf : ∀ a, Uses G (f a)) :
    Uses G (p >>= f) := sat_bind hp hf

theorem uses_perform {c : Call} (h : G c) : Uses G (perform c) := sat_perform h

theorem uses_rejectIf (P : Prop) [Decidable P] (e : RpcError) : Uses G (rejectIf P e) := by
  unfold rejectIf
  split <;> trivial

/-- The rest after a check may use that it has passed. -/
theorem uses_unless {P : Prop} [Decidable P] {e : RpcError} {f : Unit → M α}
    (hf : ¬ P → Uses G (f ())) : Uses G (rejectIf P e >>= f) := by
  unfold rejectIf
  split
  · trivial
  · next h => exact hf h

theorem uses_require (a : Option α) (e : RpcError) : Uses G (require a e) := by
  cases a <;> trivial

theorem uses_ite {P : Prop} [Decidable P] {p q : M α} (hp : P → Uses G p) (hq : ¬ P → Uses G q) :
    Uses G (if P then p else q) := by
  split
  · next h => exact hp h
  · next h => exact hq h

theorem uses_collect {f : α → M (Option β)} {as : List α} (hf : ∀ a ∈ as, Uses G (f a)) :
    Uses G (collect f as) := by
  induction as with
  | nil => trivial
  | cons a as ih =>
    exact uses_bind (hf a List.mem_cons_self) fun _ =>
      uses_bind (ih fun b hb => hf b (List.mem_cons_of_mem a hb)) fun _ => trivial

variable (hG : ∀ c, ReadCall c → G c)
include hG

/-! ## Reads -/

theorem uses_requireMembership (c : ConversationId) (actorId : UserId) :
    Uses G (requireMembership c actorId) :=
  uses_bind (uses_perform (hG _ trivial)) fun _ => uses_bind (uses_require _ _) fun _ =>
    uses_bind (uses_require _ _) fun _ => trivial

theorem uses_hasBlock (a b : UserId) : Uses G (hasBlock a b) :=
  uses_bind (uses_perform (hG _ trivial)) fun _ => trivial

theorem uses_resolvePrivateDelivery (cv : ConversationWithMembers) (actorId : UserId) :
    Uses G (resolvePrivateDelivery cv actorId) := by
  refine uses_ite (fun _ => trivial) fun _ => ?_
  split
  · trivial
  · exact uses_bind (uses_hasBlock hG _ _) fun _ => uses_bind (uses_hasBlock hG _ _) fun _ => trivial

theorem uses_blockFlagsForConversation (cv : ConversationWithMembers) (actorId : UserId) :
    Uses G (blockFlagsForConversation cv actorId) := by
  refine uses_ite (fun _ => trivial) fun _ => ?_
  split
  · trivial
  · exact uses_bind (uses_hasBlock hG _ _) fun _ => uses_bind (uses_hasBlock hG _ _) fun _ => trivial

theorem uses_unreadCounts (actorId : UserId) (ids : List ConversationId) :
    Uses G (unreadCounts actorId ids) :=
  uses_ite (fun _ => trivial) fun _ => uses_perform (hG _ trivial)

theorem uses_viewConversation (cv : ConversationWithMembers) (actorId : UserId) :
    Uses G (viewConversation cv actorId) := by
  refine uses_bind ?_ fun _ => uses_bind (uses_blockFlagsForConversation hG _ _) fun _ => trivial
  exact uses_bind (uses_unreadCounts hG _ _) fun _ => trivial

theorem uses_getConversation (c : ConversationId) (actorId : UserId) :
    Uses G (getConversation c actorId) :=
  uses_bind (uses_requireMembership hG _ _) fun _ => uses_viewConversation hG _ _

theorem uses_loadReplyTo (m : Message) : Uses G (loadReplyTo m) := by
  unfold loadReplyTo
  split
  · trivial
  · exact uses_perform (hG _ trivial)

theorem uses_viewOne (m : Message) (cv : ConversationWithMembers) (actorId : UserId) :
    Uses G (viewOne m cv actorId) :=
  uses_bind (uses_loadReplyTo hG _) fun _ => uses_bind (uses_perform (hG _ trivial)) fun _ => trivial

theorem uses_blockFlagsForConversations (cvs : List ConversationWithMembers) (actorId : UserId) :
    Uses G (blockFlagsForConversations cvs actorId) :=
  uses_ite (fun _ => trivial) fun _ => uses_bind (uses_perform (hG _ trivial)) fun _ => trivial

theorem uses_latestMessages (ids : List ConversationId) (actorId : UserId) :
    Uses G (latestMessagesByConversation ids actorId) :=
  uses_ite (fun _ => trivial) fun _ => uses_perform (hG _ trivial)

theorem uses_loadReplyParents (items : List Message) : Uses G (loadReplyParents items) :=
  uses_ite (fun _ => trivial) fun _ => uses_perform (hG _ trivial)

theorem uses_loadReactions (ids : List MessageId) : Uses G (loadReactionsByMessageIds ids) :=
  uses_ite (fun _ => trivial) fun _ => uses_perform (hG _ trivial)

theorem uses_viewItems (items : List Message) (members : Message → List ConversationMember)
    (actorId : UserId) : Uses G (viewItems items members actorId) :=
  uses_bind (uses_loadReplyParents hG _) fun _ => uses_bind (uses_loadReactions hG _) fun _ => trivial

omit hG in
theorem uses_replyTarget (hfind : ∀ m c, G (.findMessage m c)) (cv : ConversationWithMembers) (r : Option MessageId) :
    Uses G (replyTarget cv r) := by
  unfold replyTarget
  split
  · trivial
  · exact uses_bind (uses_perform (hfind _ _)) fun _ => uses_bind (uses_require _ _) fun _ =>
      uses_bind (uses_rejectIf _ _) fun _ => trivial

omit hG in
theorem uses_checkScheduledReply (hfind : ∀ m c, G (.findMessage m c)) (cv : ConversationWithMembers) (r : Option MessageId) :
    Uses G (checkScheduledReply cv r) := by
  unfold checkScheduledReply
  split
  · trivial
  · exact uses_bind (uses_perform (hfind _ _)) fun _ => uses_rejectIf _ _

/-! ## Operations that only read -/

theorem uses_listConversations (actorId : UserId) (page : Page) :
    Uses G (listConversations actorId page) :=
  uses_bind (uses_perform (hG _ trivial)) fun _ => uses_ite (fun _ => trivial) fun _ =>
    uses_bind (uses_perform (hG _ trivial)) fun _ => uses_bind (uses_unreadCounts hG _ _) fun _ =>
      uses_bind (uses_latestMessages hG _ _) fun _ =>
        uses_bind (uses_blockFlagsForConversations hG _ _) fun _ => trivial

theorem uses_listMessages (c : ConversationId) (actorId : UserId) (page : Page) :
    Uses G (listMessages c actorId page) :=
  uses_bind (uses_requireMembership hG _ _) fun _ => uses_bind (uses_perform (hG _ trivial)) fun _ =>
    uses_bind (uses_viewItems hG _ _ _) fun _ => trivial

theorem uses_searchMessages (c : ConversationId) (actorId : UserId) (query : Text) (page : Page) :
    Uses G (searchMessages c actorId query page) :=
  uses_bind (uses_requireMembership hG _ _) fun _ => uses_bind (uses_rejectIf _ _) fun _ =>
    uses_bind (uses_perform (hG _ trivial)) fun _ => uses_bind (uses_viewItems hG _ _ _) fun _ => trivial

theorem uses_searchGlobal (actorId : UserId) (query : Text) (page : Page) :
    Uses G (searchGlobal actorId query page) := by
  refine uses_bind (uses_rejectIf _ _) fun _ => uses_ite (fun _ => trivial) fun _ =>
    uses_bind (uses_perform (hG _ trivial)) fun _ => uses_ite (fun _ => trivial) fun _ =>
      uses_bind (uses_perform (hG _ trivial)) fun _ => uses_bind ?_ fun _ =>
        uses_bind (uses_viewItems hG _ _ _) fun _ => trivial
  exact uses_ite (fun _ => trivial) fun _ => uses_perform (hG _ trivial)

theorem uses_listMedia (c : ConversationId) (actorId : UserId) (kind : Option MediaKindFilter)
    (page : Page) : Uses G (listMedia c actorId kind page) :=
  uses_bind (uses_requireMembership hG _ _) fun _ => uses_bind (uses_perform (hG _ trivial)) fun _ =>
    uses_bind (uses_viewItems hG _ _ _) fun _ => trivial

theorem uses_getMessage (hfind : ∀ m c, G (.findMessage m c)) (c : ConversationId) (m : MessageId)
    (actorId : UserId) : Uses G (getMessage c m actorId) :=
  uses_bind (uses_requireMembership hG _ _) fun _ => uses_bind (uses_perform (hfind _ _)) fun _ =>
    uses_bind (uses_require _ _) fun _ => uses_bind (uses_perform (hG _ trivial)) fun _ =>
      uses_bind (uses_rejectIf _ _) fun _ => uses_bind (uses_loadReplyParents hG _) fun _ =>
        uses_bind (uses_loadReactions hG _) fun _ => trivial

theorem uses_listPinnedMessages (c : ConversationId) (actorId : UserId) :
    Uses G (listPinnedMessages c actorId) :=
  uses_bind (uses_requireMembership hG _ _) fun _ => uses_bind (uses_perform (hG _ trivial)) fun _ =>
    uses_viewItems hG _ _ _

theorem uses_listScheduledMessages (c : ConversationId) (actorId : UserId) :
    Uses G (listScheduledMessages c actorId) :=
  uses_bind (uses_requireMembership hG _ _) fun _ => uses_bind (uses_perform (hG _ trivial)) fun _ =>
    trivial

theorem uses_callPeer (cv : ConversationWithMembers) (actorId : UserId)
    (member : ConversationMember) : Uses G (callPeer cv actorId member) := by
  refine uses_ite (fun _ => trivial) fun _ => uses_bind ?_ fun _ =>
    uses_bind (uses_rejectIf _ _) fun _ => trivial
  exact uses_bind (uses_perform (hG _ trivial)) fun _ => trivial

theorem uses_prepareVoiceCall (c : ConversationId) (actorId : UserId) :
    Uses G (prepareVoiceCall c actorId) :=
  uses_bind (uses_requireMembership hG _ _) fun _ => uses_bind (uses_rejectIf _ _) fun _ =>
    uses_bind (uses_rejectIf _ _) fun _ => uses_bind (uses_collect fun _ _ => uses_callPeer hG _ _ _) fun _ =>
      uses_bind (uses_rejectIf _ _) fun _ => trivial

theorem uses_getAnalytics : Uses G getAnalytics := by
  refine uses_bind (uses_perform (hG _ trivial)) fun _ => uses_bind (uses_perform (hG _ trivial)) fun _ =>
    uses_bind (uses_perform (hG _ trivial)) fun _ => uses_bind (uses_perform (hG _ trivial)) fun _ =>
      uses_bind (uses_perform (hG _ trivial)) fun _ => uses_bind (uses_perform (hG _ trivial)) fun _ => ?_
  exact uses_bind (uses_perform (hG _ trivial)) fun _ => uses_bind (uses_perform (hG _ trivial)) fun _ =>
    uses_bind (uses_perform (hG _ trivial)) fun _ => trivial

/-! ## Sending -/

omit hG in
theorem uses_recordAudit (haudit : ∀ a action type id info, G (.insertAudit a action type id info))
    (a : UserId) (action : String) (type id : Option Text) (info : AuditMeta) :
    Uses G (recordAudit a action type id info) :=
  uses_bind (uses_perform (haudit _ _ _ _ _)) fun _ => trivial

omit hG in
theorem attachmentType_ne_call {url mime type : Option Text} {requested : MessageType}
    (h : requested ≠ .call) : attachmentType url mime type requested ≠ .call := by
  unfold attachmentType
  split
  · exact h
  · split
    · exact nofun
    · split <;> exact nofun

/-- A message with an attachment has the type `attachmentType` derives for it. -/
def Derived (url mime : Option Text) (type : MessageType) : Prop :=
  url ≠ none → ∃ declared, type = attachmentType url mime declared .file

omit hG in
theorem derived_attachmentType (url mime declared : Option Text) (requested : MessageType) :
    Derived url mime (attachmentType url mime declared requested) := by
  intro hurl
  refine ⟨declared, ?_⟩
  unfold attachmentType
  rw [if_neg hurl, if_neg hurl]

/-- What a request to send stores. Only one marked as the system's stores a line of the call history. -/
structure SendMessage.Drafts (payload : SendMessage) (d : MessageDraft) : Prop where
  marked : d.type = .call → payload.systemCall = true
  derived : Derived d.attachmentUrl d.attachmentMime d.type

/-- A request to send stores a line of the call history, when it is marked as the system's, or the
content it asks for. -/
theorem uses_sendMessage_of (payload : SendMessage) (hfind : ∀ m c, G (.findMessage m c))
    (hcall : ∀ d : MessageDraft, payload.systemCall = true → d.type = .call → d.attachmentUrl = none →
      G (.insertMessage d))
    (hinsert : ∀ d : MessageDraft, payload.Composes d.content → G (.insertMessage d))
    (hsave : ∀ c, G (.saveConversation c))
    (haudit : ∀ a action type id info, G (.insertAudit a action type id info)) :
    Uses G (sendMessage payload) := by
  refine uses_bind (uses_rejectIf _ _) fun _ => uses_bind (uses_require _ _) fun type =>
    uses_ite (fun _ => ?_) fun htype => ?_
  · refine uses_unless fun hsystem => uses_bind (uses_rejectIf _ _) fun _ =>
      uses_bind (uses_requireMembership hG _ _) fun cv =>
        uses_bind (uses_perform (hcall _ (eq_true_of_ne_false hsystem) rfl rfl)) fun saved => ?_
    exact uses_bind (uses_perform (hsave _)) fun _ => trivial
  · refine uses_bind (uses_requireMembership hG _ _) fun cv =>
      uses_bind (uses_resolvePrivateDelivery hG _ _) fun delivery =>
        uses_bind (uses_rejectIf _ _) fun _ => uses_bind (uses_replyTarget hfind _ _) fun replyTo =>
          uses_bind (uses_perform (hG _ trivial)) fun now =>
            uses_bind (uses_perform (hinsert _ ⟨type, cv.members, replyTo.map Message.id, htype, rfl⟩))
              fun saved => ?_
    exact uses_bind (uses_perform (hsave _)) fun _ =>
      uses_bind (uses_recordAudit haudit _ _ _ _ _) fun _ => trivial

theorem uses_sendMessage (payload : SendMessage) (hfind : ∀ m c, G (.findMessage m c))
    (hinsert : ∀ d : MessageDraft, payload.Drafts d → G (.insertMessage d))
    (hsave : ∀ c, G (.saveConversation c))
    (haudit : ∀ a action type id info, G (.insertAudit a action type id info)) :
    Uses G (sendMessage payload) := by
  refine uses_sendMessage_of hG payload hfind (fun d hsystem _ hurl => ?_) (fun d hd => ?_) hsave haudit
  · exact hinsert d ⟨fun _ => hsystem, fun h => absurd hurl h⟩
  · obtain ⟨requested, members, replyTo, hrequested, hcontent⟩ := hd
    obtain ⟨-, htype, hurl, hmime, -⟩ := Content.mk.injEq .. |>.mp hcontent
    refine hinsert d ⟨fun hcall => ?_, ?_⟩
    · exact absurd (htype.symm.trans hcall) (attachmentType_ne_call hrequested)
    · rw [show d.type = _ from htype, show d.attachmentUrl = _ from hurl, show d.attachmentMime = _ from hmime]
      exact derived_attachmentType _ _ _ _

theorem uses_forwardMessage (hfind : ∀ m c, G (.findMessage m c)) (hinsert : ∀ d, G (.insertMessage d))
    (hsave : ∀ c, G (.saveConversation c)) (actorId : UserId) (source target : ConversationId)
    (m : MessageId) : Uses G (forwardMessage actorId source target m) := by
  refine uses_bind (uses_requireMembership hG _ _) fun fromConversation =>
    uses_bind (uses_requireMembership hG _ _) fun toConversation =>
      uses_bind (uses_perform (hfind _ _)) fun found => uses_bind (uses_require _ _) fun message => ?_
  refine uses_bind (uses_rejectIf _ _) fun _ =>
    uses_bind (uses_resolvePrivateDelivery hG _ _) fun delivery =>
      uses_bind (uses_rejectIf _ _) fun _ => uses_bind (uses_perform (hG _ trivial)) fun now =>
        uses_bind (uses_perform (hinsert _)) fun saved => ?_
  exact uses_bind (uses_perform (hsave _)) fun _ => trivial

omit hG in
theorem uses_settle {row : ScheduledMessage}
    (hstore : ∀ row' : ScheduledMessage, row'.id = row.id → row'.status ≠ .pending →
      G (.saveScheduled row'))
    (outcome : Except Failure SendMessageResult) : Uses G (settle row outcome) := by
  have hfail : ∀ (row' : ScheduledMessage) (e : Failure), row'.id = row.id →
      Uses G (failScheduled row' e) :=
    fun row' _ hid => uses_bind (uses_perform (hstore _ hid nofun)) fun _ => trivial
  cases outcome with
  | ok result =>
    refine uses_bind (sat_attempt (uses_perform (hstore _ rfl nofun))) fun saved => ?_
    cases saved with
    | ok _ => trivial
    | error e => exact hfail _ e rfl
  | error e => exact hfail _ e rfl

theorem uses_dispatchScheduled (hfind : ∀ m c, G (.findMessage m c))
    (hinsert : ∀ d : MessageDraft, d.type ≠ .call → Derived d.attachmentUrl d.attachmentMime d.type →
      G (.insertMessage d)) (hsave : ∀ c, G (.saveConversation c))
    (haudit : ∀ a action type id info, G (.insertAudit a action type id info))
    {row : ScheduledMessage} (hclaim : G (.claimScheduled row.id))
    (hstore : ∀ row' : ScheduledMessage, row'.id = row.id → row'.status ≠ .pending →
      G (.saveScheduled row')) :
    Uses G (dispatchScheduled row) :=
  uses_bind (uses_perform hclaim) fun _ => uses_ite (fun _ => trivial) fun _ =>
    uses_bind (sat_attempt (uses_sendMessage hG _ hfind
      (fun d h => hinsert d (fun hcall => Bool.false_ne_true (h.marked hcall)) h.derived) hsave haudit))
      fun outcome => uses_settle hstore outcome

theorem uses_dispatchDueScheduled (hfind : ∀ m c, G (.findMessage m c))
    (hinsert : ∀ d : MessageDraft, d.type ≠ .call → Derived d.attachmentUrl d.attachmentMime d.type →
      G (.insertMessage d)) (hsave : ∀ c, G (.saveConversation c))
    (haudit : ∀ a action type id info, G (.insertAudit a action type id info))
    (hclaim : ∀ id, G (.claimScheduled id))
    (hstore : ∀ row : ScheduledMessage, row.status ≠ .pending → G (.saveScheduled row)) :
    Uses G dispatchDueScheduled :=
  uses_bind (uses_perform (hG _ trivial)) fun _ => uses_bind (uses_perform (hG _ trivial)) fun _ =>
    uses_collect fun row _ => uses_dispatchScheduled hG hfind hinsert hsave haudit (hclaim row.id)
      fun row' _ => hstore row'

end Uses

/-! ## Operations that leave the messages alone -/

/-- Calls that write neither messages nor scheduled messages. -/
def Besides : Call → Prop
  | .insertMessage _ | .saveMessage _ | .insertScheduled _ | .claimScheduled _
  | .saveScheduled _ => False
  | _ => True

/-- Of these, the calls that create no private conversation. -/
def Aside : Call → Prop
  | .createPrivateTx _ _ _ => False
  | c => Besides c

/-- Of these, the calls that write no reactions. -/
def Bystander : Call → Prop
  | .insertReaction _ _ _ | .removeReaction _ => False
  | c => Aside c

theorem Bystander.aside {c : Call} (h : Bystander c) : Aside c := by
  cases c <;> first | exact trivial | exact h.elim

theorem Aside.besides {c : Call} (h : Aside c) : Besides c := by
  cases c <;> first | exact trivial | exact h.elim

theorem ReadCall.bystander {c : Call} (h : ReadCall c) : Bystander c := by
  cases c <;> first | exact trivial | exact h.elim

theorem ReadCall.aside {c : Call} (h : ReadCall c) : Aside c := h.bystander.aside

/-- Calls that write at most hides and audit events. -/
def Minor : Call → Prop
  | .findMessage _ _ | .findScheduled _ _ _ | .insertHide _ _ | .insertAudit _ _ _ _ _ => True
  | c => ReadCall c

theorem ReadCall.minor {c : Call} (h : ReadCall c) : Minor c := by
  cases c <;> first | exact trivial | exact h.elim

theorem Minor.bystander {c : Call} (h : Minor c) : Bystander c := by
  cases c <;> first | exact trivial | exact h.elim

theorem Minor.aside {c : Call} (h : Minor c) : Aside c := h.bystander.aside

/-- The operations that write messages or scheduled messages. -/
def Op.writesMessages : Op → Bool
  | .sendMessage _ | .forwardMessage _ _ _ _ | .editMessage _ _ _ _ | .pinMessage _ _ _ _
  | .deleteMessage _ _ _ _ | .expireDueMessages | .scheduleMessage _
  | .cancelScheduledMessage _ _ _ | .dispatchDueScheduled => true
  | _ => false

def Op.isReaction : Op → Bool
  | .reactMessage _ _ _ _ => true
  | _ => false

section Besides

theorem bystander_requireMembership (c : ConversationId) (actorId : UserId) :
    Uses Bystander (requireMembership c actorId) := uses_requireMembership (fun _ h => h.bystander) c actorId

theorem bystander_getConversation (c : ConversationId) (actorId : UserId) :
    Uses Bystander (getConversation c actorId) := uses_getConversation (fun _ h => h.bystander) c actorId

theorem bystander_assertGroupAdmin (cv : ConversationWithMembers) (actorId : UserId) :
    Uses Bystander (assertGroupAdmin cv actorId) :=
  uses_bind (uses_rejectIf _ _) fun _ => uses_rejectIf _ _

theorem uses_createGroup {G : Call → Prop} (hcreate : ∀ a ids name, G (.createGroupTx a ids name)) (a : UserId)
    (name : Text) (ids : List UserId) : Uses G (createGroup a name ids) :=
  uses_bind (uses_rejectIf _ _) fun _ => uses_bind (uses_rejectIf _ _) fun _ =>
    uses_bind (uses_rejectIf _ _) fun _ => uses_bind (uses_perform (hcreate _ _ _)) fun _ => trivial

theorem bystander_createGroup (a : UserId) (name : Text) (ids : List UserId) :
    Uses Bystander (createGroup a name ids) := uses_createGroup (fun _ _ _ => trivial) a name ids

theorem aside_reactMessage (c : ConversationId) (m : MessageId) (actorId : UserId) (emoji : Text) :
    Uses Aside (reactMessage c m actorId emoji) := by
  refine uses_bind (uses_requireMembership (fun _ h => h.aside) _ _) fun _ => uses_bind (uses_rejectIf _ _) fun _ =>
    uses_bind (uses_perform trivial) fun _ => uses_bind (uses_require _ _) fun _ =>
      uses_bind (uses_rejectIf _ _) fun _ => uses_bind ?_ fun _ =>
        uses_bind (uses_viewOne (fun _ h => h.aside) _ _ _) fun _ => trivial
  refine uses_bind (uses_perform trivial) fun existing => ?_
  cases existing with
  | some existing => exact uses_perform trivial
  | none => exact uses_perform trivial

section Rows

variable {G : Call → Prop} (hread : ∀ c, ReadCall c → G c) (hsave : ∀ m, G (.saveMember m))
include hread hsave

theorem uses_updateMembership (c : ConversationId) (actorId : UserId)
    (update : Time → ConversationMember → ConversationMember) :
    Uses G (updateMembership c actorId update) :=
  uses_bind (uses_requireMembership hread _ _) fun _ => uses_bind (uses_require _ _) fun _ =>
    uses_bind (uses_perform (hread _ trivial)) fun _ => uses_bind (uses_perform (hsave _)) fun _ =>
      uses_getConversation hread _ _

theorem uses_markSeen (hfind : ∀ m c, G (.findMessage m c)) (c : ConversationId) (actorId : UserId)
    (m : Option MessageId) : Uses G (markSeen c actorId m) := by
  refine uses_bind (uses_requireMembership hread _ _) fun cv => uses_bind (uses_require _ _) fun row =>
    uses_bind (uses_perform (hread _ trivial)) fun now => uses_bind ?_ fun _ => uses_bind ?_ fun _ => trivial
  · unfold seenMessage
    split
    · trivial
    · exact uses_bind (uses_perform (hfind _ _)) fun _ => uses_bind (uses_require _ _) fun _ => trivial
  · unfold advanceReadAt
    split
    · exact uses_ite (fun _ => uses_bind (uses_perform (hsave _)) fun _ => trivial) fun _ => trivial
    · exact uses_bind (uses_perform (hsave _)) fun _ => trivial

end Rows

theorem bystander_updateMembership (c : ConversationId) (actorId : UserId)
    (update : Time → ConversationMember → ConversationMember) :
    Uses Bystander (updateMembership c actorId update) :=
  uses_updateMembership (fun _ h => h.bystander) (fun _ => trivial) c actorId update

theorem bystander_markSeen (c : ConversationId) (actorId : UserId) (m : Option MessageId) :
    Uses Bystander (markSeen c actorId m) :=
  uses_markSeen (fun _ h => h.bystander) (fun _ => trivial) (fun _ _ => trivial) c actorId m

theorem bystander_recordAudit (a : UserId) (action : String) (type id : Option Text) (info : AuditMeta) :
    Uses Bystander (recordAudit a action type id info) := uses_recordAudit (fun _ _ _ _ _ => trivial) _ _ _ _ _

theorem bystander_setDisappearingMessages (c : ConversationId) (actorId : UserId) (n : Nat) :
    Uses Bystander (setDisappearingMessages c actorId n) :=
  uses_bind (bystander_requireMembership _ _) fun _ => uses_bind (uses_rejectIf _ _) fun _ =>
    uses_bind (uses_rejectIf _ _) fun _ => uses_bind (uses_perform trivial) fun _ =>
      uses_bind (bystander_recordAudit _ _ _ _ _) fun _ => bystander_getConversation _ _

section AddMembers

variable {G : Call → Prop} (hsave : ∀ m, G (.saveMember m)) (hinsert : ∀ c u role, G (.insertMember c u role))
include hsave hinsert

theorem uses_addEach (cv : ConversationWithMembers) (us : List UserId) : Uses G (addEach cv us) := by
  induction us with
  | nil => trivial
  | cons u us ih =>
    refine uses_bind ?_ fun _ => ih
    unfold addMember
    split
    · exact uses_ite (fun _ => trivial) fun _ => uses_perform (hsave _)
    · exact uses_perform (hinsert _ _ _)

theorem uses_addMembers (hread : ∀ c, ReadCall c → G c) (c : ConversationId) (actorId : UserId)
    (ids : List UserId) : Uses G (addMembers c actorId ids) := by
  refine uses_bind (uses_requireMembership hread _ _) fun _ => uses_bind ?_ fun _ =>
    uses_bind (uses_rejectIf _ _) fun _ => uses_bind (uses_rejectIf _ _) fun _ =>
      uses_bind (uses_addEach hsave hinsert _ _) fun _ => uses_getConversation hread _ _
  exact uses_bind (uses_rejectIf _ _) fun _ => uses_rejectIf _ _

end AddMembers

theorem bystander_addMembers (c : ConversationId) (actorId : UserId) (ids : List UserId) :
    Uses Bystander (addMembers c actorId ids) :=
  uses_addMembers (fun _ => trivial) (fun _ _ _ => trivial) (fun _ h => h.bystander) c actorId ids

section Departures

variable {G : Call → Prop} (hread : ∀ c, ReadCall c → G c) (hsave : ∀ m, G (.saveMember m))
include hread hsave

theorem uses_removeMember (c : ConversationId) (actorId u : UserId) : Uses G (removeMember c actorId u) :=
  uses_bind (uses_requireMembership hread _ _) fun _ =>
    uses_bind (uses_bind (uses_rejectIf _ _) fun _ => uses_rejectIf _ _) fun _ =>
      uses_bind (uses_rejectIf _ _) fun _ => uses_bind (uses_require _ _) fun _ =>
        uses_bind (uses_rejectIf _ _) fun _ => uses_bind (uses_perform (hread _ trivial)) fun _ =>
          uses_bind (uses_perform (hsave _)) fun _ => uses_getConversation hread _ _

theorem uses_setMemberRole (c : ConversationId) (actorId u : UserId)
    (role : Option ConversationMemberRole) : Uses G (setMemberRole c actorId u role) :=
  uses_bind (uses_requireMembership hread _ _) fun _ => uses_bind (uses_rejectIf _ _) fun _ =>
    uses_bind (uses_rejectIf _ _) fun _ => uses_bind (uses_require _ _) fun _ =>
      uses_bind (uses_require _ _) fun _ => uses_bind (uses_rejectIf _ _) fun _ =>
        uses_bind (uses_rejectIf _ _) fun _ => uses_bind (uses_perform (hsave _)) fun _ =>
          uses_getConversation hread _ _

theorem uses_leave (c : ConversationId) (actorId : UserId) : Uses G (leave c actorId) := by
  refine uses_bind (uses_requireMembership hread _ _) fun _ => uses_bind (uses_rejectIf _ _) fun _ =>
    uses_bind (uses_require _ _) fun _ => uses_bind (uses_ite (fun _ => ?_) fun _ => trivial) fun _ =>
      uses_bind (uses_perform (hread _ trivial)) fun _ => uses_bind (uses_perform (hsave _)) fun _ => trivial
  split
  · trivial
  · exact uses_perform (hsave _)

end Departures

theorem uses_deleteGroup {G : Call → Prop} (hread : ∀ c, ReadCall c → G c)
    (hsave : ∀ ms, G (.saveMembers ms)) (hdelete : ∀ c, G (.softDeleteConversation c)) (c : ConversationId)
    (actorId : UserId) : Uses G (deleteGroup c actorId) :=
  uses_bind (uses_requireMembership hread _ _) fun _ => uses_bind (uses_rejectIf _ _) fun _ =>
    uses_bind (uses_rejectIf _ _) fun _ => uses_bind (uses_perform (hread _ trivial)) fun _ =>
      uses_bind (uses_perform (hsave _)) fun _ => uses_bind (uses_perform (hdelete _)) fun _ => trivial

theorem bystander_removeMember (c : ConversationId) (actorId u : UserId) :
    Uses Bystander (removeMember c actorId u) :=
  uses_removeMember (fun _ h => h.bystander) (fun _ => trivial) c actorId u

theorem bystander_setMemberRole (c : ConversationId) (actorId u : UserId)
    (role : Option ConversationMemberRole) : Uses Bystander (setMemberRole c actorId u role) :=
  uses_setMemberRole (fun _ h => h.bystander) (fun _ => trivial) c actorId u role

theorem bystander_leave (c : ConversationId) (actorId : UserId) : Uses Bystander (leave c actorId) :=
  uses_leave (fun _ h => h.bystander) (fun _ => trivial) c actorId

theorem bystander_updateGroup (c : ConversationId) (actorId : UserId) (name : Text) :
    Uses Bystander (updateGroup c actorId name) :=
  uses_bind (bystander_requireMembership _ _) fun _ => uses_bind (bystander_assertGroupAdmin _ _) fun _ =>
    uses_bind (uses_rejectIf _ _) fun _ => uses_bind (uses_perform trivial) fun _ =>
      bystander_getConversation _ _

theorem bystander_deleteGroup (c : ConversationId) (actorId : UserId) :
    Uses Bystander (deleteGroup c actorId) :=
  uses_deleteGroup (fun _ h => h.bystander) (fun _ => trivial) (fun _ => trivial) c actorId

theorem bystander_blockUser (a u : UserId) : Uses Bystander (blockUser a u) := by
  refine uses_bind (uses_rejectIf _ _) fun _ => uses_bind (uses_perform trivial) fun existing => ?_
  cases existing with
  | some block => trivial
  | none => exact uses_bind (uses_perform trivial) fun _ => trivial

theorem bystander_getWorkspaceSettings : Uses Bystander getWorkspaceSettings := by
  refine uses_bind (uses_perform trivial) fun found => ?_
  cases found with
  | some settings => trivial
  | none => exact uses_bind (uses_perform trivial) fun _ => trivial

theorem Op.bystander (op : Op) (h : op.writesMessages = false) (hcreate : ∀ a b, op ≠ .createPrivate a b)
    (hreact : op.isReaction = false) : Uses Bystander op.program := by
  have hread : ∀ c, ReadCall c → Bystander c := fun _ h => h.bystander
  have map {α : Type} {p : M α} (f : α → Response) (h : Uses Bystander p) : Uses Bystander (f <$> p) :=
    uses_bind h fun _ => trivial
  have one {α : Type} (f : α → Response) {c : Call} (g : c.Answer → α) (h : Bystander c) :
      Uses Bystander (f <$> (perform c >>= fun a => ret (g a))) :=
    map f (uses_bind (uses_perform h) fun _ => trivial)
  cases op with
  | createPrivate a b => exact absurd rfl (hcreate a b)
  | createGroup a name ids => exact map _ (bystander_createGroup a name ids)
  | listConversations a page => exact map _ (uses_listConversations hread a page)
  | getConversation c a => exact map _ (bystander_getConversation c a)
  | listMessages c a page => exact map _ (uses_listMessages hread c a page)
  | searchMessages c a query page => exact map _ (uses_searchMessages hread c a query page)
  | searchGlobal a query page => exact map _ (uses_searchGlobal hread a query page)
  | listMedia c a kind page => exact map _ (uses_listMedia hread c a kind page)
  | getMessage c m a => exact map _ (uses_getMessage hread (fun _ _ => trivial) c m a)
  | listPinnedMessages c a => exact map _ (uses_listPinnedMessages hread c a)
  | reactMessage c m a emoji => cases hreact
  | listScheduledMessages c a => exact map _ (uses_listScheduledMessages hread c a)
  | pinConversation c a pinned => exact map _ (bystander_updateMembership c a _)
  | muteConversation c a muted => exact map _ (bystander_updateMembership c a _)
  | markSeen c a m => exact map _ (bystander_markSeen c a m)
  | setDisappearingMessages c a n => exact map _ (bystander_setDisappearingMessages c a n)
  | addMembers c a ids => exact map _ (bystander_addMembers c a ids)
  | removeMember c a u => exact map _ (bystander_removeMember c a u)
  | setMemberRole c a u role => exact map _ (bystander_setMemberRole c a u role)
  | leave c a => exact map _ (bystander_leave c a)
  | updateGroup c a name => exact map _ (bystander_updateGroup c a name)
  | deleteGroup c a => exact map _ (bystander_deleteGroup c a)
  | blockUser a u => exact map _ (bystander_blockUser a u)
  | unblockUser a u => exact one _ _ trivial
  | listBlocks a => exact one _ _ trivial
  | prepareVoiceCall c a => exact map _ (uses_prepareVoiceCall hread c a)
  | getAnalytics => exact map _ (uses_getAnalytics hread)
  | listAuditEvents page => exact one _ _ trivial
  | logAudit a action type id info => exact one _ _ trivial
  | getWorkspaceSettings => exact map _ bystander_getWorkspaceSettings
  | updateWorkspaceSettings a n t p l =>
    exact map _ <| uses_bind (uses_perform trivial) fun _ => uses_bind (uses_perform trivial) fun _ =>
      uses_bind (bystander_recordAudit _ _ _ _ _) fun _ => trivial
  | _ => cases h

theorem Op.aside (op : Op) (h : op.writesMessages = false) (hcreate : ∀ a b, op ≠ .createPrivate a b) :
    Uses Aside op.program := by
  by_cases hreact : op.isReaction = false
  · exact (op.bystander h hcreate hreact).mono (fun _ _ h => h) fun _ h => h.aside
  · cases op with
    | reactMessage c m a emoji => exact uses_bind (aside_reactMessage c m a emoji) fun _ => trivial
    | _ => exact absurd rfl hreact

theorem uses_createPrivate {G : Call → Prop} (hread : ∀ c, ReadCall c → G c)
    (hcreate : ∀ a b key, G (.createPrivateTx a b key)) (a b : UserId) : Uses G (createPrivate a b) := by
  refine uses_bind (uses_rejectIf _ _) fun _ => uses_bind (uses_perform (hread _ trivial)) fun existing => ?_
  cases existing with
  | some existing => exact uses_viewConversation hread existing a
  | none =>
    refine uses_bind (uses_hasBlock hread _ _) fun _ => uses_bind (uses_rejectIf _ _) fun _ =>
      uses_bind (uses_perform (hcreate _ _ _)) fun saved => ?_
    exact uses_bind (uses_blockFlagsForConversation hread saved a) fun _ => trivial

/-- The other operations write neither messages nor scheduled messages. -/
theorem Op.besides (op : Op) (h : op.writesMessages = false) : Uses Besides op.program := by
  by_cases hcreate : ∃ a b, op = .createPrivate a b
  · obtain ⟨a, b, rfl⟩ := hcreate
    exact uses_bind (uses_createPrivate (fun _ h => h.aside.besides) (fun _ _ _ => trivial) a b) fun _ => trivial
  · exact (op.aside h fun a b heq => hcreate ⟨a, b, heq⟩).mono (fun _ _ h => h) fun _ h => h.besides

end Besides

/-! ## Operations that change messages or schedule them -/

section Changes

variable {G : Call → Prop} (hG : ∀ c, Minor c → G c)
include hG

theorem uses_minor {α : Type} {p : M α} (h : Uses ReadCall p) : Uses G p :=
  h.mono (fun _ _ h => h) fun _ h => hG _ h.minor

theorem uses_editMessage (hsave : ∀ m, G (.saveMessage m)) (c : ConversationId) (m : MessageId)
    (actorId : UserId) (body : Text) : Uses G (editMessage c m actorId body) := by
  refine uses_bind (uses_minor hG (uses_requireMembership (fun _ h => h) _ _)) fun _ =>
    uses_bind (uses_perform (hG _ trivial)) fun _ => uses_bind (uses_require _ _) fun _ =>
      uses_bind (uses_rejectIf _ _) fun _ => uses_bind (uses_rejectIf _ _) fun _ =>
        uses_bind (uses_perform (hG _ trivial)) fun _ => uses_bind (uses_rejectIf _ _) fun _ => ?_
  exact uses_bind (uses_rejectIf _ _) fun _ => uses_bind (uses_perform (hG _ trivial)) fun _ =>
    uses_bind (uses_perform (hsave _)) fun _ =>
      uses_bind (uses_minor hG (uses_viewOne (fun _ h => h) _ _ _)) fun _ => trivial

theorem uses_pinMessage (hsave : ∀ m, G (.saveMessage m)) (c : ConversationId) (m : MessageId)
    (actorId : UserId) (pinned : Bool) : Uses G (pinMessage c m actorId pinned) := by
  refine uses_bind (uses_minor hG (uses_requireMembership (fun _ h => h) _ _)) fun _ =>
    uses_bind (uses_perform (hG _ trivial)) fun _ => uses_bind (uses_require _ _) fun _ =>
      uses_bind (uses_rejectIf _ _) fun _ => uses_bind (uses_rejectIf _ _) fun _ =>
        uses_bind (uses_ite (fun _ => uses_ite (fun _ => ?_) fun _ => trivial) fun _ =>
          uses_ite (fun _ => uses_bind (uses_perform (hsave _)) fun _ => trivial) fun _ => trivial)
          fun _ => uses_bind (uses_minor hG (uses_viewOne (fun _ h => h) _ _ _)) fun _ => trivial
  exact uses_bind (uses_perform (hG _ trivial)) fun _ => uses_bind (uses_rejectIf _ _) fun _ =>
    uses_bind (uses_perform (hG _ trivial)) fun _ => uses_bind (uses_perform (hsave _)) fun _ => trivial

theorem uses_deleteMessage (hsave : ∀ m, G (.saveMessage m)) (c : ConversationId) (m : MessageId)
    (actorId : UserId) (forEveryone : Bool) : Uses G (deleteMessage c m actorId forEveryone) := by
  have hview : ∀ (m : Message) (cv : ConversationWithMembers), Uses G (viewOne m cv actorId) :=
    fun _ _ => uses_minor hG (uses_viewOne (fun _ h => h) _ _ _)
  refine uses_bind (uses_minor hG (uses_requireMembership (fun _ h => h) _ _)) fun _ =>
    uses_bind (uses_perform (hG _ trivial)) fun _ => uses_bind (uses_require _ _) fun _ =>
      uses_ite (fun _ => ?_) fun _ => ?_
  · refine uses_bind (uses_rejectIf _ _) fun _ => uses_ite (fun _ => uses_bind (hview _ _) fun _ => trivial)
      fun _ => uses_bind (uses_perform (hG _ trivial)) fun _ => uses_bind (uses_rejectIf _ _) fun _ => ?_
    exact uses_bind (uses_perform (hG _ trivial)) fun _ => uses_bind (uses_perform (hsave _)) fun _ =>
      uses_bind (hview _ _) fun _ => trivial
  · refine uses_bind (uses_bind (uses_perform (hG _ trivial)) fun _ =>
      uses_ite (fun _ => uses_perform (hG _ trivial)) fun _ => trivial) fun _ => ?_
    exact uses_bind (hview _ _) fun _ => trivial

theorem uses_expireDueMessages (hsave : ∀ m, G (.saveMessage m)) : Uses G expireDueMessages := by
  refine uses_bind (uses_perform (hG _ trivial)) fun _ => uses_bind (uses_perform (hG _ trivial)) fun _ =>
    uses_collect fun m _ => uses_bind (uses_perform (hG _ trivial)) fun found => ?_
  cases found with
  | none => exact uses_bind (uses_perform (hsave _)) fun _ => trivial
  | some cv =>
    refine uses_bind (uses_perform (hG _ trivial)) fun _ => uses_bind (uses_perform (hsave _)) fun _ => ?_
    exact uses_bind (uses_loadReplyTo (fun _ h => hG _ h.minor) _) fun _ => trivial

theorem uses_scheduleMessage_of (payload : ScheduleMessage)
    (hinsert : ∀ d : ScheduledDraft, payload.toSend.Composes d.content → G (.insertScheduled d)) :
    Uses G (scheduleMessage payload) := by
  have hread : ∀ c, ReadCall c → G c := fun _ h => hG _ h.minor
  refine uses_bind (uses_rejectIf _ _) fun _ => uses_bind (uses_require _ _) fun requested =>
    uses_unless fun hcall => uses_bind (uses_require _ _) fun _ =>
      uses_bind (uses_perform (hG _ trivial)) fun _ => uses_bind (uses_rejectIf _ _) fun _ =>
        uses_bind (uses_rejectIf _ _) fun _ => uses_bind (uses_requireMembership hread _ _) fun cv => ?_
  refine uses_bind (uses_resolvePrivateDelivery hread _ _) fun _ => uses_bind (uses_rejectIf _ _) fun _ =>
    uses_bind (uses_perform (hG _ trivial)) fun _ => uses_bind (uses_rejectIf _ _) fun _ =>
      uses_bind (uses_checkScheduledReply (fun _ _ => hG _ trivial) _ _) fun _ =>
        uses_bind (uses_perform (hinsert _ ⟨requested, cv.members, _, hcall, rfl⟩)) fun _ => ?_
  exact uses_bind (uses_recordAudit (fun _ _ _ _ _ => hG _ trivial) _ _ _ _ _) fun _ => trivial

theorem uses_scheduleMessage (hinsert : ∀ d, G (.insertScheduled d)) (payload : ScheduleMessage) :
    Uses G (scheduleMessage payload) :=
  uses_scheduleMessage_of hG payload fun d _ => hinsert d

theorem uses_cancelScheduledMessage
    (hsave : ∀ row : ScheduledMessage, row.status = .cancelled → G (.saveScheduled row))
    (c : ConversationId) (id : Nat) (actorId : UserId) : Uses G (cancelScheduledMessage c id actorId) :=
  uses_bind (uses_minor hG (uses_requireMembership (fun _ h => h) _ _)) fun _ =>
    uses_bind (uses_perform (hG _ trivial)) fun _ => uses_bind (uses_require _ _) fun _ =>
      uses_bind (uses_rejectIf _ _) fun _ => uses_bind (uses_perform (hG _ trivial)) fun _ =>
        uses_bind (uses_perform (hsave _ rfl)) fun _ => trivial

end Changes

end Relay.Chat
