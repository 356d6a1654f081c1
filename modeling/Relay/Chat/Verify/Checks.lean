import Relay.Chat.Verify.Reads
import Relay.Chat.Verify.Lawful

/-!
# The checks of the operations that write messages

An operation first checks its request against the database and then writes. `Accepts p s o` says
that the program `p`, run alone in `s`, is rejected with nothing changed when `o` is `none`, and
goes on as the program in `o` otherwise. For each operation its `accept…` function is the checks
alone, and what it returns is all the writing part still needs.
-/

namespace Relay.Chat

open Relay.Lib Relay.Lib.Rows Prog

variable {s : Db}

/-! ## Rejected or going on -/

/-- The program is rejected by one of its checks, or goes on as `o` says. -/
def Accepts {α : Type} (p : M α) (s : Db) : Option (M α) → Prop
  | none => ∃ e, run exec p s = (.error (.rpc e), s)
  | some q => run exec p s = run exec q s

section Accepts

variable {α β γ : Type}

theorem accepts_rejectIf {P Q : Prop} [Decidable P] [Decidable Q] {e : RpcError} {f : Unit → M β}
    {g : Unit → Option (M β)} (hPQ : Q ↔ ¬ P) (h : ¬ P → Accepts (f ()) s (g ())) :
    Accepts (rejectIf P e >>= f) s (guard Q >>= g) := by
  by_cases hP : P
  · have hguard : (guard Q : Option Unit) = none := if_neg fun hQ => hPQ.mp hQ hP
    rw [hguard]
    exact ⟨e, run_rejectIf_pos hP f⟩
  · have hguard : (guard Q : Option Unit) = some () := if_pos (hPQ.mpr hP)
    rw [hguard]
    have hrest := h hP
    change Accepts (rejectIf P e >>= f) s (g ())
    unfold Accepts at hrest ⊢
    rwa [run_rejectIf_neg hP]

theorem accepts_require {a : Option α} {e : RpcError} {f : α → M β} {g : α → Option (M β)}
    (h : ∀ x, a = some x → Accepts (f x) s (g x)) :
    Accepts (require a e >>= f) s (a >>= g) := by
  cases a with
  | none => exact ⟨e, rfl⟩
  | some x => exact h x rfl

/-- A part that reads. -/
theorem accepts_read {p : M α} {a : α} {f : α → M β} {o : Option (M β)}
    (hp : run exec p s = (.ok a, s)) (h : Accepts (f a) s o) : Accepts (p >>= f) s o := by
  unfold Accepts at h ⊢
  rwa [run_bind_ok exec hp]

/-- A part that reads or is rejected. -/
theorem accepts_try {p : M α} {r : Except Failure α} {f : α → M β} {g : α → Option (M β)}
    (hp : run exec p s = (r, s)) (hr : ∀ e, r = .error e → ∃ e', e = .rpc e')
    (h : ∀ a, r = .ok a → Accepts (f a) s (g a)) :
    Accepts (p >>= f) s (r.toOption >>= g) := by
  cases r with
  | error e =>
    obtain ⟨e', rfl⟩ := hr e rfl
    exact ⟨e', run_bind_error exec hp⟩
  | ok a => exact accepts_read hp (h a rfl)

theorem accepts_requireMembership {c : ConversationId} {u : UserId}
    {f : ConversationWithMembers → M β} {g : ConversationWithMembers → Option (M β)}
    (h : ∀ cv, s.membership c u = .ok cv → Accepts (f cv) s (g cv)) :
    Accepts (requireMembership c u >>= f) s ((s.membership c u).toOption >>= g) := by
  refine accepts_try (run_requireMembership c u) (fun e he => ?_) h
  unfold Db.membership at he
  split at he
  · cases he
    exact ⟨_, rfl⟩
  · split at he
    · cases he
      exact ⟨_, rfl⟩
    · cases he

theorem accepts_replyTarget {cv : ConversationWithMembers} {r : Option MessageId}
    {f : Option Message → M β} {g : Option Message → Option (M β)}
    (h : ∀ a, s.target cv.id r = .ok a → Accepts (f a) s (g a)) :
    Accepts (replyTarget cv r >>= f) s ((s.target cv.id r).toOption >>= g) := by
  refine accepts_try (run_replyTarget cv r) (fun e he => ?_) h
  unfold Db.target at he
  split at he
  · cases he
  · split at he
    · cases he
      exact ⟨_, rfl⟩
    · split at he
      · cases he
      · cases he
        exact ⟨_, rfl⟩

theorem accepts_findMessage {m : MessageId} {c : ConversationId} {e : RpcError}
    {f : Message → M β} {g : Message → Option (M β)}
    (h : ∀ x, (s.messages.find? fun row => row.id = m ∧ row.conversationId = c) = some x →
      Accepts (f x) s (g x)) :
    Accepts (perform (.findMessage m c) >>= fun found => require found e >>= f) s
      ((s.messages.find? fun row => row.id = m ∧ row.conversationId = c) >>= g) :=
  accepts_read (run_perform exec _ s) (accepts_require h)

/-- What follows the checks may be shaped into another result. -/
theorem Accepts.map {p : M α} {o : Option (M α)} (f : α → β) (h : Accepts p s o) :
    Accepts (f <$> p) s (o.map (f <$> ·)) := by
  cases o with
  | none =>
    obtain ⟨e, he⟩ := h
    exact ⟨e, run_bind_error exec he⟩
  | some q =>
    change run exec (p >>= fun a => ret (f a)) s = run exec (q >>= fun a => ret (f a)) s
    rw [run_bind, run_bind, show run exec p s = run exec q s from h]

theorem Accepts.of_ok {p : M α} {o : Option (M α)} (h : Accepts p s o) {a : α} {t : Db}
    (hr : run exec p s = (.ok a, t)) : ∃ q, o = some q ∧ run exec q s = (.ok a, t) := by
  cases o with
  | none =>
    obtain ⟨e, he⟩ := h
    rw [he] at hr
    cases hr
  | some q => exact ⟨q, rfl, (show run exec p s = run exec q s from h) ▸ hr⟩

end Accepts

theorem map_bind_option {α β γ : Type} (o : Option α) (f : α → Option β) (g : β → γ) :
    (o >>= f).map g = o >>= fun a => (f a).map g := by
  cases o <;> rfl

theorem exists_map_ok {α β : Type} {f : α → β} {r : Except Failure α} :
    (∃ b, r.map f = .ok b) ↔ ∃ a, r = .ok a := by
  cases r with
  | error e => exact ⟨fun ⟨_, hb⟩ => (nomatch hb), fun ⟨_, ha⟩ => (nomatch ha)⟩
  | ok a => exact ⟨fun _ => ⟨a, rfl⟩, fun _ => ⟨f a, rfl⟩⟩

/-! ## Storing a message -/

/-- A message to be stored, and what the operation returns with it. -/
structure Outgoing where
  conversation : ConversationWithMembers
  draft : MessageDraft
  replyTo : Option Message
  recipientIds : List UserId
  /-- The send is recorded in the audit log. -/
  audited : Bool

/-- The writing part of `sendMessage` and `forwardMessage`. -/
def Outgoing.store (o : Outgoing) : M SendMessageResult := do
  let saved ← perform (.insertMessage o.draft)
  touchConversation o.conversation saved
  if o.audited then
    recordAudit o.draft.senderId "message.sent" (some "conversation".toList)
      (some (idText o.conversation.id)) (.sent saved.id o.draft.type o.draft.undelivered)
    return ⟨toMessageView saved o.conversation.members o.replyTo [] o.draft.senderId,
      o.recipientIds⟩
  else
    return ⟨toMessageView saved o.conversation.members o.replyTo [] o.draft.senderId,
      o.recipientIds⟩

/-- The checks of `sendMessage`. -/
def Db.acceptSend (db : Db) (payload : SendMessage) : Option Outgoing := do
  let attachmentUrl := trimmed payload.attachmentUrl
  let rawBody := Js.trim (payload.body.getD [])
  guard ¬(rawBody = [] ∧ attachmentUrl = none)
  let type ← MessageType.ofText (payload.type.getD "text".toList)
  if type = .call then
    guard (payload.systemCall = true)
    guard (rawBody ≠ [])
    let conversation ← (db.membership payload.conversationId payload.actorId).toOption
    return {
      conversation
      draft :=
        { conversationId := conversation.id
          senderId := payload.actorId
          body := rawBody
          type := .call }
      replyTo := none
      recipientIds := recipientIds conversation
      audited := false }
  else
    let attachmentMime := attachmentMimeOf payload.attachmentMime payload.type
    let type := attachmentType attachmentUrl attachmentMime payload.type type
    let conversation ← (db.membership payload.conversationId payload.actorId).toOption
    let delivery := db.delivery conversation payload.actorId
    guard (delivery.forbidden = false)
    let replyTo ← (db.target conversation.id payload.replyToMessageId).toOption
    return {
      conversation
      draft :=
        { conversationId := conversation.id
          senderId := payload.actorId
          body := bodyOf rawBody type
          type
          replyToMessageId := replyTo.map Message.id
          attachmentUrl
          attachmentMime
          attachmentName := trimmed payload.attachmentName
          attachmentSize := payload.attachmentSize
          mentions := validMentions payload.mentionUserIds payload.actorId conversation.members
          linkPreview := payload.linkPreview
          undelivered := delivery.undelivered
          expiresAt := expiryAt conversation (jsDate db.now) }
      replyTo
      recipientIds := delivery.recipientIds
      audited := true }

theorem accepts_sendMessage (payload : SendMessage) :
    Accepts (sendMessage payload) s ((s.acceptSend payload).map Outgoing.store) := by
  unfold sendMessage Db.acceptSend
  simp only [map_bind_option]
  refine accepts_rejectIf Iff.rfl fun _ => accepts_require fun type _ => ?_
  split
  · simp only [map_bind_option]
    refine accepts_rejectIf (by simp) fun _ => accepts_rejectIf Iff.rfl fun _ =>
      accepts_requireMembership fun cv _ => ?_
    rfl
  · simp only [map_bind_option]
    refine accepts_requireMembership fun cv _ =>
      accepts_read (run_resolvePrivateDelivery cv _) <| accepts_rejectIf (by simp) fun _ =>
        accepts_replyTarget fun replyTo _ => accepts_read (run_perform exec _ s) ?_
    rfl

/-- The checks of `forwardMessage`. -/
def Db.acceptForward (db : Db) (actorId : UserId) (fromConversationId toConversationId :
    ConversationId) (messageId : MessageId) : Option Outgoing := do
  let fromConversation ← (db.membership fromConversationId actorId).toOption
  let toConversation ← (db.membership toConversationId actorId).toOption
  let source ← db.messages.find? fun row =>
    row.id = messageId ∧ row.conversationId = fromConversation.id
  guard (source.deletedForEveryoneAt = none)
  let delivery := db.delivery toConversation actorId
  guard (delivery.forbidden = false)
  return {
    conversation := toConversation
    draft := forwardDraft source toConversation actorId delivery.undelivered (jsDate db.now)
    replyTo := none
    recipientIds := delivery.recipientIds
    audited := false }

theorem accepts_forwardMessage (actorId : UserId) (source target : ConversationId)
    (m : MessageId) :
    Accepts (forwardMessage actorId source target m) s
      ((s.acceptForward actorId source target m).map Outgoing.store) := by
  unfold forwardMessage Db.acceptForward
  simp only [map_bind_option]
  refine accepts_requireMembership fun src _ => accepts_requireMembership fun cv _ =>
    accepts_findMessage fun x _ => accepts_rejectIf (by simp) fun _ =>
      accepts_read (run_resolvePrivateDelivery cv _) <| accepts_rejectIf (by simp) fun _ =>
        accepts_read (run_perform exec _ s) ?_
  rfl

theorem membership_of_toOption {c : ConversationId} {u : UserId} {cv : ConversationWithMembers}
    (h : (s.membership c u).toOption = some cv) : s.membership c u = .ok cv := by
  cases hm : s.membership c u with
  | error e =>
    rw [hm] at h
    cases h
  | ok cv' =>
    rw [hm] at h
    exact congrArg Except.ok (Option.some.inj h)

/-- The conversation an accepted send goes into is one the actor is a member of. -/
theorem acceptSend_eq_some {payload : SendMessage} {o : Outgoing}
    (h : s.acceptSend payload = some o) :
    s.membership payload.conversationId payload.actorId = .ok o.conversation ∧
      o.draft.conversationId = o.conversation.id ∧ o.draft.senderId = payload.actorId := by
  unfold Db.acceptSend at h
  obtain ⟨_, _, h⟩ := Option.bind_eq_some_iff.mp h
  obtain ⟨type, _, h⟩ := Option.bind_eq_some_iff.mp h
  split at h
  · obtain ⟨_, _, h⟩ := Option.bind_eq_some_iff.mp h
    obtain ⟨_, _, h⟩ := Option.bind_eq_some_iff.mp h
    obtain ⟨cv, hcv, h⟩ := Option.bind_eq_some_iff.mp h
    cases h
    exact ⟨membership_of_toOption hcv, rfl, rfl⟩
  · obtain ⟨cv, hcv, h⟩ := Option.bind_eq_some_iff.mp h
    obtain ⟨_, _, h⟩ := Option.bind_eq_some_iff.mp h
    obtain ⟨_, _, h⟩ := Option.bind_eq_some_iff.mp h
    cases h
    exact ⟨membership_of_toOption hcv, rfl, rfl⟩

theorem acceptForward_eq_some {u : UserId} {source target : ConversationId} {m : MessageId}
    {o : Outgoing} (h : s.acceptForward u source target m = some o) :
    s.membership target u = .ok o.conversation ∧
      o.draft.conversationId = o.conversation.id ∧ o.draft.senderId = u := by
  unfold Db.acceptForward at h
  obtain ⟨src, _, h⟩ := Option.bind_eq_some_iff.mp h
  obtain ⟨cv, hcv, h⟩ := Option.bind_eq_some_iff.mp h
  obtain ⟨x, _, h⟩ := Option.bind_eq_some_iff.mp h
  obtain ⟨_, _, h⟩ := Option.bind_eq_some_iff.mp h
  obtain ⟨_, _, h⟩ := Option.bind_eq_some_iff.mp h
  cases h
  exact ⟨membership_of_toOption hcv, rfl, rfl⟩

/-! ## Changing a message -/

/-- A change of a message that has passed the checks: what is written, and the message then
returned to all members. -/
structure Change where
  conversation : ConversationWithMembers
  message : Message
  write : M Unit

/-- The writing part of `editMessage`, `reactMessage` and `pinMessage`. -/
def Change.apply (change : Change) (actorId : UserId) : M SendMessageResult := do
  change.write
  let view ← viewOne change.message change.conversation actorId
  return ⟨view, recipientIds change.conversation⟩

/-- The checks of `editMessage`. -/
def Db.acceptEdit (db : Db) (conversationId : ConversationId) (messageId : MessageId)
    (actorId : UserId) (body : Text) : Option Change := do
  let conversation ← (db.membership conversationId actorId).toOption
  let message ← db.messages.find? fun row =>
    row.id = messageId ∧ row.conversationId = conversation.id
  guard (message.senderId = actorId)
  guard (message.deletedForEveryoneAt = none)
  guard (jsDate db.now ≤ jsDate message.createdAt + ms EDIT_WINDOW_MS)
  guard (Js.trim body ≠ [])
  let message := { message with body := Js.trim body, editedAt := some (jsDate db.now) }
  return ⟨conversation, message, perform (.saveMessage message)⟩

/-- The checks of `reactMessage`. -/
def Db.acceptReact (db : Db) (conversationId : ConversationId) (messageId : MessageId)
    (actorId : UserId) (emoji : Text) : Option Change := do
  let conversation ← (db.membership conversationId actorId).toOption
  guard (emoji ∈ ALLOWED_REACTIONS)
  let message ← db.messages.find? fun row =>
    row.id = messageId ∧ row.conversationId = conversation.id
  guard (message.deletedForEveryoneAt = none)
  return ⟨conversation, message, toggleReaction message.id actorId emoji⟩

/-- The checks of `pinMessage`; a message that is pinned already, or not, is not written. -/
def Db.acceptPin (db : Db) (conversationId : ConversationId) (messageId : MessageId)
    (actorId : UserId) (pinned : Bool) : Option Change := do
  let conversation ← (db.membership conversationId actorId).toOption
  let message ← db.messages.find? fun row =>
    row.id = messageId ∧ row.conversationId = conversation.id
  guard (message.deletedForEveryoneAt = none)
  guard (message.type ≠ .call)
  if pinned then
    if message.pinnedAt = none then
      guard ((db.messages.filter (pinnedIn conversation.id)).length < 3)
      let message := { message with
        pinnedAt := some (jsDate db.now), pinnedByUserId := some actorId }
      return ⟨conversation, message, perform (.saveMessage message)⟩
    else return ⟨conversation, message, return ()⟩
  else
    if message.pinnedAt ≠ none then
      let message := { message with pinnedAt := none, pinnedByUserId := none }
      return ⟨conversation, message, perform (.saveMessage message)⟩
    else return ⟨conversation, message, return ()⟩

section Change

variable {α : Type}

theorem map_apply_bind (o : Option α) (f : α → Option Change) (u : UserId) :
    (o >>= f).map (Change.apply · u) = o >>= fun a => (f a).map (Change.apply · u) := by
  cases o <;> rfl

theorem accepts_editMessage (c : ConversationId) (m : MessageId) (u : UserId) (body : Text) :
    Accepts (editMessage c m u body) s ((s.acceptEdit c m u body).map (Change.apply · u)) := by
  unfold editMessage Db.acceptEdit
  simp only [map_apply_bind]
  refine accepts_requireMembership fun cv _ => accepts_findMessage fun x _ =>
    accepts_rejectIf (by simp) fun _ => accepts_rejectIf (by simp) fun _ =>
      accepts_read (run_perform exec _ s) <| accepts_rejectIf Nat.not_lt.symm fun _ =>
        accepts_rejectIf Iff.rfl fun _ => accepts_read (run_perform exec _ s) ?_
  rfl

theorem accepts_reactMessage (c : ConversationId) (m : MessageId) (u : UserId) (emoji : Text) :
    Accepts (reactMessage c m u emoji) s
      ((s.acceptReact c m u emoji).map (Change.apply · u)) := by
  unfold reactMessage Db.acceptReact
  simp only [map_apply_bind]
  refine accepts_requireMembership fun cv _ => accepts_rejectIf not_not.symm fun _ =>
    accepts_findMessage fun x _ => accepts_rejectIf (by simp) fun _ => ?_
  rfl

theorem accepts_pinMessage (c : ConversationId) (m : MessageId) (u : UserId) (pinned : Bool) :
    Accepts (pinMessage c m u pinned) s ((s.acceptPin c m u pinned).map (Change.apply · u)) := by
  unfold pinMessage Db.acceptPin setPinned
  simp only [map_apply_bind]
  refine accepts_requireMembership fun cv _ => accepts_findMessage fun x _ =>
    accepts_rejectIf (by simp) fun _ => accepts_rejectIf Iff.rfl fun _ => ?_
  cases pinned with
  | true =>
    simp only [if_true]
    split
    · simp only [map_apply_bind, Prog.bind_assoc']
      refine accepts_read (run_perform exec _ s) <| accepts_rejectIf Nat.not_le.symm fun _ =>
        accepts_read (run_perform exec _ s) ?_
      rfl
    · rfl
  | false =>
    simp only [Bool.false_eq_true, if_false]
    split <;> rfl

/-- The database after a reaction is toggled. -/
def Db.toggled (db : Db) (m : MessageId) (u : UserId) (emoji : Text) : Db :=
  match db.messageReactions.find? fun r => r.messageId = m ∧ r.userId = u.canon ∧ r.emoji = emoji with
  | some r => { db with messageReactions := db.messageReactions.filter fun row => row.id ≠ r.id }
  | none => { db with
      messageReactions := db.messageReactions ++ [⟨db.nextId, m, u.canon, emoji, db.now⟩]
      nextId := db.nextId + 1 }

theorem run_toggleReaction_eq (m : MessageId) (u : UserId) (emoji : Text) :
    run exec (toggleReaction m u emoji) s = (.ok (), s.toggled m u emoji) := by
  unfold toggleReaction Db.toggled
  rw [run_read (a := s.messageReactions.find? fun r =>
    r.messageId = m ∧ r.userId = u.canon ∧ r.emoji = emoji) rfl]
  cases hfind : s.messageReactions.find? fun r =>
      r.messageId = m ∧ r.userId = u.canon ∧ r.emoji = emoji with
  | some r => exact run_perform exec _ s
  | none =>
    have hany : (s.messageReactions.any fun r =>
        r.messageId = m ∧ r.userId = u.canon ∧ r.emoji = emoji) = false := by
      rw [List.any_eq_false]
      exact List.find?_eq_none.mp hfind
    change run exec (perform (.insertReaction m u emoji)) s = _
    rw [run_perform]
    simp only [exec, hany]
    rfl

/-- Toggling a reaction cannot fail, and leaves the other tables alone. -/
theorem run_toggleReaction (m : MessageId) (u : UserId) (emoji : Text) :
    ∃ reactions nextId, run exec (toggleReaction m u emoji) s =
      (.ok (), { s with messageReactions := reactions, nextId := nextId }) := by
  rw [run_toggleReaction_eq]
  unfold Db.toggled
  split <;> exact ⟨_, _, rfl⟩

/-- What the checks of `editMessage` have found. -/
theorem acceptEdit_eq_some {c : ConversationId} {m : MessageId} {u : UserId} {body : Text}
    {change : Change} (h : s.acceptEdit c m u body = some change) :
    s.membership c u = .ok change.conversation ∧
      ∃ x ∈ s.messages, x.id = m ∧ x.conversationId = c ∧ x.senderId = u ∧
        x.deletedForEveryoneAt = none ∧
        change.message = { x with body := Js.trim body, editedAt := some (jsDate s.now) } ∧
        change.write = perform (.saveMessage change.message) := by
  unfold Db.acceptEdit at h
  obtain ⟨cv, hcv, h⟩ := Option.bind_eq_some_iff.mp h
  obtain ⟨x, hx, h⟩ := Option.bind_eq_some_iff.mp h
  obtain ⟨_, hsender, h⟩ := Option.bind_eq_some_iff.mp h
  obtain ⟨_, halive, h⟩ := Option.bind_eq_some_iff.mp h
  obtain ⟨_, _, h⟩ := Option.bind_eq_some_iff.mp h
  obtain ⟨_, _, h⟩ := Option.bind_eq_some_iff.mp h
  cases h
  have hcv := membership_of_toOption hcv
  have hp := List.find?_some hx
  simp only [decide_eq_true_eq, Db.membership_id hcv] at hp
  exact ⟨hcv, x, List.mem_of_find?_eq_some hx, hp.1, hp.2, by simpa using hsender,
    by simpa using halive, rfl, rfl⟩

/-- What the checks of `reactMessage` have found. -/
theorem acceptReact_eq_some {c : ConversationId} {m : MessageId} {u : UserId} {emoji : Text}
    {change : Change} (h : s.acceptReact c m u emoji = some change) :
    s.membership c u = .ok change.conversation ∧ change.message ∈ s.messages ∧
      change.message.id = m ∧ change.message.conversationId = c ∧
      change.message.deletedForEveryoneAt = none ∧
      change.write = toggleReaction change.message.id u emoji := by
  unfold Db.acceptReact at h
  obtain ⟨cv, hcv, h⟩ := Option.bind_eq_some_iff.mp h
  obtain ⟨_, _, h⟩ := Option.bind_eq_some_iff.mp h
  obtain ⟨x, hx, h⟩ := Option.bind_eq_some_iff.mp h
  obtain ⟨_, halive, h⟩ := Option.bind_eq_some_iff.mp h
  cases h
  have hcv := membership_of_toOption hcv
  have hp := List.find?_some hx
  simp only [decide_eq_true_eq, Db.membership_id hcv] at hp
  exact ⟨hcv, List.mem_of_find?_eq_some hx, hp.1, hp.2, by simpa using halive, rfl⟩

/-- What the checks of `pinMessage` have found. -/
theorem acceptPin_eq_some {c : ConversationId} {m : MessageId} {u : UserId} {pinned : Bool}
    {change : Change} (h : s.acceptPin c m u pinned = some change) :
    s.membership c u = .ok change.conversation ∧
      ∃ x ∈ s.messages, x.id = m ∧ x.conversationId = c ∧ x.deletedForEveryoneAt = none ∧
        (∃ at' by', change.message = { x with pinnedAt := at', pinnedByUserId := by' }) ∧
        (change.write = perform (.saveMessage change.message) ∨
          change.message = x ∧ change.write = return ()) := by
  unfold Db.acceptPin at h
  obtain ⟨cv, hcv, h⟩ := Option.bind_eq_some_iff.mp h
  obtain ⟨x, hx, h⟩ := Option.bind_eq_some_iff.mp h
  obtain ⟨_, halive, h⟩ := Option.bind_eq_some_iff.mp h
  obtain ⟨_, _, h⟩ := Option.bind_eq_some_iff.mp h
  have hcv := membership_of_toOption hcv
  have hp := List.find?_some hx
  simp only [decide_eq_true_eq, Db.membership_id hcv] at hp
  have hstored := List.mem_of_find?_eq_some hx
  have halive : x.deletedForEveryoneAt = none := by simpa using halive
  split at h
  · split at h
    · obtain ⟨_, _, h⟩ := Option.bind_eq_some_iff.mp h
      cases h
      exact ⟨hcv, x, hstored, hp.1, hp.2, halive, ⟨_, _, rfl⟩, .inl rfl⟩
    · cases h
      exact ⟨hcv, x, hstored, hp.1, hp.2, halive, ⟨_, _, rfl⟩, .inr ⟨rfl, rfl⟩⟩
  · split at h
    · cases h
      exact ⟨hcv, x, hstored, hp.1, hp.2, halive, ⟨_, _, rfl⟩, .inl rfl⟩
    · cases h
      exact ⟨hcv, x, hstored, hp.1, hp.2, halive, ⟨_, _, rfl⟩, .inr ⟨rfl, rfl⟩⟩

/-- A change that writes no message returns the message as it is stored. -/
theorem acceptReact_found {c : ConversationId} {m : MessageId} {u : UserId} {emoji : Text} {change : Change}
    (h : s.acceptReact c m u emoji = some change) :
    (s.messages.find? fun row => row.id = m ∧ row.conversationId = c) = some change.message := by
  unfold Db.acceptReact at h
  obtain ⟨cv, hcv, h⟩ := Option.bind_eq_some_iff.mp h
  obtain ⟨_, _, h⟩ := Option.bind_eq_some_iff.mp h
  obtain ⟨x, hx, h⟩ := Option.bind_eq_some_iff.mp h
  obtain ⟨_, _, h⟩ := Option.bind_eq_some_iff.mp h
  cases h
  rw [Db.membership_id (membership_of_toOption hcv)] at hx
  exact hx

theorem acceptPin_found {c : ConversationId} {m : MessageId} {u : UserId} {pinned : Bool} {change : Change}
    (h : s.acceptPin c m u pinned = some change) :
    change.write = perform (.saveMessage change.message) ∨
      (s.messages.find? fun row => row.id = m ∧ row.conversationId = c) = some change.message ∧
        change.write = return () := by
  unfold Db.acceptPin at h
  obtain ⟨cv, hcv, h⟩ := Option.bind_eq_some_iff.mp h
  obtain ⟨x, hx, h⟩ := Option.bind_eq_some_iff.mp h
  obtain ⟨_, _, h⟩ := Option.bind_eq_some_iff.mp h
  obtain ⟨_, _, h⟩ := Option.bind_eq_some_iff.mp h
  rw [Db.membership_id (membership_of_toOption hcv)] at hx
  split at h
  · split at h
    · obtain ⟨_, _, h⟩ := Option.bind_eq_some_iff.mp h
      cases h
      exact .inl rfl
    · cases h
      exact .inr ⟨hx, rfl⟩
  · split at h
    · cases h
      exact .inl rfl
    · cases h
      exact .inr ⟨hx, rfl⟩

theorem run_apply {change : Change} {u : UserId} {s' : Db}
    (h : run exec change.write s = (.ok (), s')) :
    run exec (change.apply u) s =
      (.ok ⟨s'.viewOf change.message change.conversation.members u,
        recipientIds change.conversation⟩, s') := by
  unfold Change.apply
  rw [run_bind_ok exec h, run_bind_ok exec (run_viewOne _ _ _)]
  rfl

end Change

end Relay.Chat
