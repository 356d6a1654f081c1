import Relay.Chat.Verify.Provenance
import Relay.Lib.Protocol

/-!
# Every row has been asked for

The repository calls of the requests interleave, so a request may write when what it has checked no longer
holds. What it has checked was so when it was loaded, and the rows it writes are made of what it has loaded:
each request only makes calls with a warrant (`Op.justified`). So every row of every database that is reached
is accounted for (`rows_accounted`): each message has been composed by a member of its conversation and
changed by that user only (`messages_accounted`), nobody is a member who was not admitted
(`members_accounted`), and what users leave on messages is theirs (`marks_accounted`).
-/

namespace Relay.Chat

open Relay.Lib Relay.Lib.Rows Prog

variable {α β : Type} {h : History}

/-! ## Programs that keep to the warrants -/

/-- The answers of databases that are accounted for. -/
def History.Answers (h : History) (c : Call) (r : Except Failure c.Answer) : Prop :=
  ∃ db, h.visited db ∧ h.Accounts db ∧ (exec c db).1 = r

/-- The program makes calls with a warrant, and what it returns satisfies `Q`. -/
abbrev Justifies (h : History) (Q : α → Prop) (p : M α) : Prop := Keeps h.Answers h.Warrants Q p

/-- The calls are good, and nothing is said of what is returned. -/
abbrev Justified (h : History) (p : M α) : Prop := Justifies h (fun _ => True) p

theorem justified_ret (a : α) : Justified h (.ret a : M α) := trivial

theorem justified_uses {p : M α} (hp : Uses h.Warrants p) : Justified h p :=
  (hp.mono (fun _ _ _ => trivial) fun _ hc => hc).keeps

theorem ReadCall.warranted {c : Call} (hc : ReadCall c) : h.Warrants c := by
  cases c <;> first | exact trivial | exact hc.elim

theorem justified_bind {Q : α → Prop} {p : M α} {f : α → M β} (hp : Justifies h Q p)
    (hf : ∀ a, Q a → Justified h (f a)) : Justified h (p >>= f) := keeps_bind hp hf

/-- A part that only reads. -/
theorem justified_skip {p : M α} {f : α → M β} (hp : Uses h.Warrants p) (hf : ∀ a, Justified h (f a)) :
    Justified h (p >>= f) := justified_bind (justified_uses hp) fun a _ => hf a

theorem justified_write {c : Call} {f : c.Answer → M β} (hc : h.Warrants c) (hf : ∀ a, Justified h (f a)) :
    Justified h (perform c >>= f) := justified_skip (uses_perform hc) hf

theorem justified_unless {P : Prop} [Decidable P] {e : RpcError} {f : Unit → M β}
    (hf : ¬ P → Justified h (f ())) : Justified h (rejectIf P e >>= f) := by
  unfold rejectIf
  split
  · exact keeps_fail
  · next hP => exact hf hP

theorem justified_require {a : Option α} {e : RpcError} {f : α → M β}
    (hf : ∀ x, a = some x → Justified h (f x)) : Justified h (require a e >>= f) := by
  cases a with
  | none => exact keeps_fail
  | some x => exact hf x rfl

/-- A call, with the database that has answered it. -/
theorem justified_ask {c : Call} {f : c.Answer → M β} (hc : h.Warrants c)
    (hf : ∀ a db, h.visited db → h.Accounts db → (exec c db).1 = .ok a → Justified h (f a)) :
    Justified h (perform c >>= f) :=
  keeps_ask hc fun a ⟨db, hv, hdb, ha⟩ => hf a db hv hdb ha

/-- The clock. -/
theorem justified_now {f : Time → M β} (hf : ∀ t, (h.Once fun db => t = jsDate db.now) → Justified h (f t)) :
    Justified h (perform .newDate >>= f) :=
  justified_ask trivial fun _ db hv _ ht => hf _ ⟨db, hv, (Except.ok.inj ht).symm⟩

theorem justified_attempt {p : M α} (hp : Justified h p) : Justified h p.attempt := keeps_attempt hp

theorem justified_collect {f : α → M (Option β)} {as : List α} (hf : ∀ a ∈ as, Justified h (f a)) :
    Justified h (collect f as) := by
  induction as with
  | nil => exact justified_ret _
  | cons a as ih =>
    refine justified_bind (hf a List.mem_cons_self) fun _ _ => ?_
    exact justified_bind (ih fun b hb => hf b (List.mem_cons_of_mem a hb)) fun _ _ => justified_ret _

theorem justified_recordAudit {u : UserId} (hu : h.Acted u.canon) (action : String) (type id : Option Text)
    (info : AuditMeta) : Justified h (recordAudit u action type id info) :=
  justified_write hu fun _ => justified_ret _

/-! ## What was loaded -/

/-- The conversation as it was loaded for one of its members. -/
def History.Loaded (h : History) (c : ConversationId) (u : UserId) (cv : ConversationWithMembers) : Prop :=
  ∃ db, h.visited db ∧ h.Accounts db ∧ db.membership c u = .ok cv

theorem justified_requireMembership {c : ConversationId} {u : UserId} {f : ConversationWithMembers → M β}
    (hf : ∀ cv, h.Loaded c u cv → Justified h (f cv)) : Justified h (requireMembership c u >>= f) := by
  refine justified_bind (Q := h.Loaded c u) ?_ hf
  refine keeps_ask trivial fun found ⟨db, hv, hdb, hanswer⟩ => ?_
  cases hrow : db.findConversation c with
  | none =>
    obtain rfl : found = none := by simpa [exec, hrow] using hanswer.symm
    exact keeps_fail
  | some row =>
    obtain rfl : found = some (db.withMembers row) := by simpa [exec, hrow] using hanswer.symm
    obtain ⟨-, hid, -⟩ := Db.findConversation_eq_some hrow
    have hmembers : (db.withMembers row).members = db.membersOf c := by rw [← hid]; rfl
    change Keeps _ _ _ (require (findActive (db.withMembers row).members u) _ >>= _)
    rw [hmembers]
    cases hme : findActive (db.membersOf c) u with
    | none => exact keeps_fail
    | some me =>
      refine keeps_ret.mpr ⟨db, hv, hdb, ?_⟩
      simp only [Db.membership, hrow, hme]
      rfl

namespace History.Loaded

variable {c : ConversationId} {u : UserId} {cv : ConversationWithMembers} (hcv : h.Loaded c u cv)
include hcv

theorem id_eq : cv.id = c := by
  obtain ⟨db, _, _, hload⟩ := hcv
  exact Db.membership_id hload

theorem seated : h.Once fun db => db.Sits c u := by
  obtain ⟨db, hv, _, hload⟩ := hcv
  exact ⟨db, hv, .of_membership hload⟩

theorem account : h.ConversationAccount cv.toConversation := by
  obtain ⟨db, _, hdb, hload⟩ := hcv
  exact hdb.conversations _ (Db.findConversation_eq_some (Db.membership_eq_ok hload).1).1

theorem member {m : ConversationMember} (hm : m ∈ cv.members) : h.MemberAccount m ∧ m.conversationId = c := by
  obtain ⟨db, _, hdb, hload⟩ := hcv
  obtain ⟨hmem, hconv, _, _⟩ := mem_loaded _ _ hload hm
  exact ⟨hdb.members m hmem, hconv⟩

/-- The row of the member it was loaded for. -/
theorem own {m : ConversationMember} (hm : findActive cv.members u = some m) :
    h.MemberAccount m ∧ m.conversationId = c ∧ m.userId = u := by
  obtain ⟨hmem, huser, _⟩ := findActive_eq_some hm
  exact ⟨(hcv.member hmem).1, (hcv.member hmem).2, huser⟩

theorem manages (htype : cv.type = .group) {m : ConversationMember} (hm : m ∈ cv.members) (huser : m.userId = u)
    (hrole : isGroupAdmin m.role = true) : h.Once fun db => db.Manages c u := by
  obtain ⟨db, hv, _, hload⟩ := hcv
  obtain ⟨hrow, hmembers, _⟩ := Db.membership_eq_ok hload
  obtain ⟨hstored, hid, _⟩ := Db.findConversation_eq_some hrow
  rw [hmembers] at hm
  exact ⟨db, hv, ⟨_, hstored, hid, htype⟩, m, hm, huser, hrole⟩

theorem owns {m : ConversationMember} (hm : m ∈ cv.members) (huser : m.userId = u) (hrole : m.role = .owner) :
    h.Once fun db => db.Owns c u := by
  obtain ⟨db, hv, _, hload⟩ := hcv
  obtain ⟨_, hmembers, _⟩ := Db.membership_eq_ok hload
  rw [hmembers] at hm
  exact ⟨db, hv, m, hm, huser, hrole⟩

theorem founded (htype : cv.type = .group) (hcreator : cv.createdBy = u) : h.Once fun db => db.Founded c u := by
  obtain ⟨db, hv, _, hload⟩ := hcv
  obtain ⟨hstored, hid, _⟩ := Db.findConversation_eq_some (Db.membership_eq_ok hload).1
  exact ⟨db, hv, _, hstored, hid, htype, hcreator⟩

theorem saw {m : MessageId} (hm : h.Once fun db => ∃ x ∈ db.messages, x.id = m ∧ x.conversationId = c) :
    h.Saw c u m := ⟨hcv.seated, hm⟩

theorem touch (saved : Message) : Justified h (touchConversation cv saved) :=
  justified_uses (uses_perform (hcv.account.of_eq rfl rfl rfl rfl rfl rfl .inl))

end History.Loaded

/-- The message as it was loaded. -/
structure History.Found (h : History) (c : ConversationId) (m : MessageId) (x : Message) : Prop where
  account : h.MessageAccount x
  stored : h.Once fun db => x ∈ db.messages
  id : x.id = m
  inside : x.conversationId = c

theorem History.Found.seen {c : ConversationId} {m : MessageId} {x : Message} (hx : h.Found c m x) :
    h.Once fun db => ∃ y ∈ db.messages, y.id = x.id ∧ y.conversationId = c := by
  obtain ⟨db, hv, hmem⟩ := hx.stored
  exact ⟨db, hv, x, hmem, rfl, hx.inside⟩

theorem justified_findMessage {c : ConversationId} {m : MessageId} {f : Option Message → M β}
    (hf : ∀ found, (∀ x, found = some x → h.Found c m x) → Justified h (f found)) :
    Justified h (perform (.findMessage m c) >>= f) := by
  refine justified_ask trivial fun found db hv hdb hanswer => hf found fun x hx => ?_
  subst hx
  obtain ⟨hmem, hid, hconv⟩ := findMessage_eq_some hanswer
  exact ⟨hdb.messages x hmem, ⟨db, hv, hmem⟩, hid, hconv⟩

theorem justified_loadMessage {c : ConversationId} {m : MessageId} {e : RpcError} {f : Message → M β}
    (hf : ∀ x, h.Found c m x → Justified h (f x)) :
    Justified h (perform (.findMessage m c) >>= fun found => require found e >>= f) :=
  justified_findMessage fun _ hfound => justified_require fun x hx => hf x (hfound x hx)

/-! ## Sending -/

section Operations

variable {c : ConversationId} {u : UserId} {cv : ConversationWithMembers}

theorem justified_insert (hcv : h.Loaded c u cv) {d : MessageDraft} (hd : d.conversationId = cv.id)
    (hsender : d.senderId = u) (hcomposed : h.Composed c u.canon d.content) {f : Message → M β}
    (hf : ∀ saved, Justified h (f saved)) :
    Justified h (perform (.insertMessage d) >>= fun saved => touchConversation cv saved >>= fun _ => f saved) := by
  refine justified_write ⟨?_, ?_⟩ fun saved => justified_bind (hcv.touch saved) fun _ _ => hf saved
  · rw [hd, hcv.id_eq, hsender]
    exact hcv.seated
  · rw [hd, hcv.id_eq, hsender]
    exact hcomposed

theorem justified_sendMessage (payload : SendMessage)
    (hcomposed : ∀ x, payload.Composes x → h.Composed payload.conversationId payload.actorId.canon x)
    (hcalled : payload.systemCall = true →
      h.Composed payload.conversationId payload.actorId.canon (historyLine (Js.trim (payload.body.getD []))))
    (hacted : h.Acted payload.actorId.canon) : Justified h (sendMessage payload) := by
  refine justified_unless fun _ => justified_require fun type _ => ?_
  split
  · refine justified_unless fun hsystem => justified_unless fun _ => justified_requireMembership fun cv hcv => ?_
    refine justified_insert hcv rfl rfl ?_ fun _ => justified_ret _
    exact hcalled (Bool.eq_true_of_not_eq_false hsystem)
  · next htype =>
    refine justified_requireMembership fun cv hcv => ?_
    refine justified_skip (uses_resolvePrivateDelivery (fun _ hc => hc.warranted) _ _) fun delivery =>
      justified_unless fun _ => justified_skip (uses_replyTarget (fun _ _ => trivial) _ _) fun replyTo => ?_
    refine justified_write (c := .newDate) trivial fun now => justified_insert hcv rfl rfl ?_ fun saved => ?_
    · exact hcomposed _ ⟨type, cv.members, replyTo.map Message.id, htype, rfl⟩
    · exact justified_bind (justified_recordAudit hacted _ _ _ _) fun _ _ => justified_ret _

theorem justified_forwardMessage {source target : ConversationId} {m : MessageId}
    (hasked : h.asked (.forwardMessage u source target m)) : Justified h (forwardMessage u source target m) := by
  refine justified_requireMembership fun src hsrc => justified_requireMembership fun cv hcv =>
    justified_loadMessage fun x hx => justified_unless fun halive => ?_
  refine justified_skip (uses_resolvePrivateDelivery (fun _ hc => hc.warranted) _ _) fun delivery =>
    justified_unless fun _ => justified_write (c := .newDate) trivial fun now => ?_
  refine justified_insert hcv rfl rfl ?_ fun _ => justified_ret _
  obtain ⟨-, hstored, rfl, hinside⟩ := hx
  exact .forwarded hasked rfl hsrc.seated hstored (hinside.trans hsrc.id_eq) (not_not.mp halive)

/-! ## Changing messages -/

theorem justified_editMessage {m : MessageId} {body : Text} (hasked : h.asked (.editMessage c m u body)) :
    Justified h (editMessage c m u body) := by
  refine justified_requireMembership fun cv hcv => justified_loadMessage fun x hx =>
    justified_unless fun hsender => justified_unless fun _ => justified_write (c := .newDate) trivial fun _ =>
      justified_unless fun _ => justified_unless fun _ => justified_write (c := .newDate) trivial fun now =>
        justified_write (c := .saveMessage _) ?_ fun _ =>
          justified_skip (uses_viewOne (fun _ hc => hc.warranted) _ _ _) fun _ => justified_ret _
  have hedit : h.asked (.editMessage x.conversationId x.id x.senderId body) := by
    rw [hx.inside, hx.id, hcv.id_eq, not_not.mp hsender]
    exact hasked
  obtain ⟨y, hy, hcontent, -⟩ := hx.account.content
  refine ⟨hx.account.seated, ⟨y, hy, ?_, .inr ⟨body, hedit, rfl⟩⟩, fun _ => ⟨body, hedit⟩, hx.account.pinned,
    fun hdeleted => (hx.account.deleted hdeleted).of_eq rfl rfl rfl⟩
  refine hcontent.imp (fun heq => ?_) (And.imp_right fun heq => ?_) <;>
    exact congrArg (fun z : Content => { z with body := Js.trim body }) heq

/-- A message that only has another pin. -/
theorem messageAccount_pinned {x : Message} (hx : h.MessageAccount x) {at' : Option Time} {by' : Option UserId}
    (hby : ∀ v, by' = some v → h.asked (.pinMessage x.conversationId x.id v true) ∧
      h.Once fun db => db.Sits x.conversationId v) :
    h.MessageAccount { x with pinnedAt := at', pinnedByUserId := by' } :=
  ⟨hx.seated, hx.content, hx.edited, hby, fun hdeleted => (hx.deleted hdeleted).of_eq rfl rfl rfl⟩

theorem justified_pinMessage {m : MessageId} {pinned : Bool} (hasked : h.asked (.pinMessage c m u pinned)) :
    Justified h (pinMessage c m u pinned) := by
  refine justified_requireMembership fun cv hcv => justified_loadMessage fun x hx => justified_unless fun _ =>
    justified_unless fun _ => justified_bind (Q := fun _ => True) ?_ fun _ _ =>
      justified_skip (uses_viewOne (fun _ hc => hc.warranted) _ _ _) fun _ => justified_ret _
  unfold setPinned
  split
  · next hpinned =>
    subst hpinned
    split
    · refine justified_skip (uses_perform (c := .countPinned cv.id) trivial) fun _ => justified_unless fun _ =>
        justified_write (c := .newDate) trivial fun now => justified_write (c := .saveMessage _) ?_ fun _ => justified_ret _
      refine messageAccount_pinned hx.account ?_
      rintro _ ⟨⟩
      rw [hx.inside, hx.id, hcv.id_eq]
      exact ⟨hasked, hcv.seated⟩
    · exact justified_ret _
  · split
    · refine justified_write (c := .saveMessage _) (messageAccount_pinned hx.account ?_) fun _ => justified_ret _
      intro v hv
      cases hv
    · exact justified_ret _

/-- A message that is deleted for everyone. -/
theorem messageAccount_buried {x : Message} (hx : h.MessageAccount x) (hwhy : h.Deleted x) (now : Time)
    (expires : Option Time) : h.MessageAccount { x.bury now with expiresAt := expires } := by
  obtain ⟨y, hy, hcontent, hbody⟩ := hx.content
  refine ⟨hx.seated, ⟨y, hy, .inr ⟨nofun, ?_⟩, hbody⟩, hx.edited, fun v hv => (nomatch hv),
    fun _ => hwhy.of_eq rfl rfl rfl⟩
  rcases hcontent with heq | ⟨-, heq⟩ <;> exact congrArg Content.buried heq

theorem justified_deleteMessage {m : MessageId} {forEveryone : Bool}
    (hasked : h.asked (.deleteMessage c m u forEveryone)) : Justified h (deleteMessage c m u forEveryone) := by
  refine justified_requireMembership fun cv hcv => justified_loadMessage fun x hx => ?_
  cases forEveryone with
  | true =>
    refine justified_unless fun hsender => ?_
    split
    · exact justified_skip (uses_viewOne (fun _ hc => hc.warranted) _ _ _) fun _ => justified_ret _
    · refine justified_write (c := .newDate) trivial fun _ => justified_unless fun _ =>
        justified_write (c := .newDate) trivial fun now => justified_write (c := .saveMessage _) ?_ fun _ =>
          justified_skip (uses_viewOne (fun _ hc => hc.warranted) _ _ _) fun _ => justified_ret _
      refine messageAccount_buried hx.account (.asked ?_) now _
      rw [hx.inside, hx.id, hcv.id_eq, not_not.mp hsender]
      exact hasked
  | false =>
    refine justified_bind (Q := fun _ => True) ?_ fun _ _ =>
      justified_skip (uses_viewOne (fun _ hc => hc.warranted) _ _ _) fun _ => justified_ret _
    refine justified_skip (uses_perform (c := .findHide x.id u) trivial) fun hide => ?_
    split
    · refine justified_uses (uses_perform ?_)
      have hseen := hx.seen
      rw [hx.id, hcv.id_eq] at hseen
      rw [hx.id]
      exact ⟨c, hasked, hcv.saw hseen⟩
    · exact justified_ret _

theorem justified_expireDueMessages (hasked : h.asked .expireDueMessages) : Justified h expireDueMessages := by
  refine justified_now fun now ⟨db₀, hv₀, hnow⟩ => justified_ask trivial fun due db hv hdb hdue =>
    justified_collect fun x hx => ?_
  obtain rfl := Except.ok.inj hdue
  have hrow := List.mem_of_mem_take hx
  rw [orderAsc, List.mem_insertionSort, List.mem_filter] at hrow
  obtain ⟨hmem, hexpires⟩ := hrow
  obtain ⟨t, ht, hle⟩ : ∃ t, x.expiresAt = some t ∧ t ≤ now := by
    cases hx : x.expiresAt with
    | none => simp [hx] at hexpires
    | some t => exact ⟨t, rfl, by simpa [hx] using (Bool.and_eq_true_iff.mp hexpires).1⟩
  have haccount := hdb.messages x hmem
  refine justified_ask trivial fun found _ _ _ _ => ?_
  cases found with
  | none =>
    exact justified_write (c := .saveMessage _) ⟨haccount.seated, haccount.content, haccount.edited,
      haccount.pinned, fun hdeleted => (haccount.deleted hdeleted).of_eq rfl rfl rfl⟩ fun _ => justified_ret _
  | some cv =>
    refine justified_write (c := .newDate) trivial fun now => justified_write (c := .saveMessage _) ?_ fun _ =>
      justified_skip (uses_loadReplyTo (fun _ hc => hc.warranted) _) fun _ => justified_ret _
    exact messageAccount_buried haccount (.expired hasked ⟨db, hv, hmem⟩ rfl ht ⟨db₀, hv₀, le_of_le_of_eq hle hnow⟩) now none

theorem justified_reactMessage {m : MessageId} {emoji : Text} (hasked : h.asked (.reactMessage c m u emoji)) :
    Justified h (reactMessage c m u emoji) := by
  refine justified_requireMembership fun cv hcv => justified_unless fun _ => justified_loadMessage fun x hx =>
    justified_unless fun _ => justified_bind (Q := fun _ => True) ?_ fun _ _ =>
      justified_skip (uses_viewOne (fun _ hc => hc.warranted) _ _ _) fun _ => justified_ret _
  refine justified_skip (uses_perform (c := .findReaction x.id u emoji) trivial) fun existing => ?_
  cases existing with
  | some r => exact justified_uses (uses_perform trivial)
  | none =>
    refine justified_uses (uses_perform ?_)
    have hseen := hx.seen
    rw [hx.id, hcv.id_eq] at hseen
    rw [hx.id]
    exact ⟨c, hasked, hcv.saw hseen⟩

/-! ## Scheduled messages -/

theorem justified_scheduleMessage {payload : ScheduleMessage} (hasked : h.asked (.scheduleMessage payload)) :
    Justified h (scheduleMessage payload) := by
  refine justified_unless fun _ => justified_require fun type htype => justified_unless fun hcall =>
    justified_require fun at' htime => justified_write (c := .newDate) trivial fun _ => justified_unless fun _ =>
      justified_unless fun _ => justified_requireMembership fun cv hcv => ?_
  refine justified_skip (uses_resolvePrivateDelivery (fun _ hc => hc.warranted) _ _) fun delivery =>
    justified_unless fun _ => justified_skip (uses_perform (c := .countPending _ _) trivial) fun _ =>
      justified_unless fun _ => justified_skip (uses_checkScheduledReply (fun _ _ => trivial) _ _) fun _ =>
        justified_write (c := .insertScheduled _) ⟨payload, hasked, hcv.id_eq.symm, rfl, htime, ?_, ?_⟩ fun saved => ?_
  · exact ⟨type, cv.members, payload.replyToMessageId, hcall, rfl⟩
  · dsimp only
    rw [hcv.id_eq]
    exact hcv.seated
  · exact justified_bind (justified_recordAudit ⟨_, _, hasked, rfl, rfl⟩ _ _ _ _) fun _ _ => justified_ret _

theorem justified_cancelScheduledMessage {id : Nat} (hasked : h.asked (.cancelScheduledMessage c id u)) :
    Justified h (cancelScheduledMessage c id u) := by
  refine justified_requireMembership fun cv hcv => justified_ask trivial fun found db hv hdb hfound =>
    justified_require fun row hrow => justified_unless fun hpending => justified_write (c := .newDate) trivial fun now =>
      justified_write (c := .saveScheduled _) ?_ fun _ => justified_ret _
  subst hrow
  have hfind := Except.ok.inj hfound
  have hp := List.find?_some hfind
  simp only [decide_eq_true_eq] at hp
  obtain ⟨rfl, rfl, hsender⟩ := hp
  have haccount := hdb.scheduled row (List.mem_of_find?_eq_some hfind)
  exact ⟨haccount.planned, fun _ => ⟨u, hsender.symm, hasked⟩, fun _ hne => absurd rfl hne⟩

/-- A row that is settled. -/
theorem scheduledAccount_settled {row row' : ScheduledMessage} (hrow : h.ScheduledAccount row) (hdue : h.CameDue row.id)
    (hsame : row' = { row with status := row'.status, sentMessageId := row'.sentMessageId, error := row'.error })
    (hstatus : row'.status ≠ .cancelled) : h.ScheduledAccount row' := by
  rw [hsame]
  exact ⟨hrow.planned, fun hcancelled => absurd hcancelled hstatus, fun _ _ => hdue⟩

theorem justified_settle {row : ScheduledMessage} (hrow : h.ScheduledAccount row) (hdue : h.CameDue row.id)
    (outcome : Except Failure SendMessageResult) : Justified h (settle row outcome) := by
  have hfail : ∀ (sent : Option MessageId) (error : Option Text) (status : ScheduledMessageStatus) (e : Failure),
      Justified h (failScheduled { row with status := status, sentMessageId := sent, error := error } e) :=
    fun _ _ _ _ => justified_write (c := .saveScheduled _) (scheduledAccount_settled hrow hdue rfl nofun)
      fun _ => justified_ret _
  cases outcome with
  | error e => exact hfail row.sentMessageId row.error row.status e
  | ok result =>
    refine justified_bind (justified_attempt (justified_uses
      (uses_perform (scheduledAccount_settled hrow hdue rfl nofun)))) fun saved _ => ?_
    cases saved with
    | ok _ => exact justified_ret _
    | error e => exact hfail _ _ _ e

/-- What was scheduled is composed by its sender. -/
theorem composed_scheduled {row : ScheduledMessage} (hrow : h.ScheduledAccount row) {x : Content}
    (hx : row.toPayload.Composes x) : h.Composed row.conversationId row.senderId.canon x := by
  obtain ⟨payload, hplan⟩ := hrow.planned
  refine .scheduled hplan.asked hplan.conversation ?_ hplan.composes hx
  rw [← hplan.actor, UserId.canon_canon]

theorem justified_dispatchDueScheduled (hasked : h.asked .dispatchDueScheduled) :
    Justified h dispatchDueScheduled := by
  refine justified_now fun now ⟨db₀, hv₀, hnow⟩ => justified_ask trivial fun due db hv hdb hanswer =>
    justified_collect fun row hrow => ?_
  obtain rfl := Except.ok.inj hanswer
  have hmem := List.mem_of_mem_take hrow
  rw [orderAsc, List.mem_insertionSort, List.mem_filter] at hmem
  obtain ⟨hmem, hdue⟩ := hmem
  simp only [decide_eq_true_eq] at hdue
  have haccount := hdb.scheduled row hmem
  have hcame : h.CameDue row.id :=
    ⟨hasked, row, rfl, ⟨db, hv, hmem⟩, ⟨db₀, hv₀, le_of_le_of_eq hdue.2 hnow⟩⟩
  refine justified_skip (uses_perform (c := .claimScheduled row.id) hcame) fun claimed => ?_
  split
  · exact justified_ret _
  · refine justified_bind (justified_attempt (justified_sendMessage row.toPayload
      (fun x hx => composed_scheduled haccount hx) (fun hsystem => ?_) ?_)) fun outcome _ =>
        justified_settle haccount hcame outcome
    · cases hsystem
    · obtain ⟨payload, hplan⟩ := haccount.planned
      refine ⟨_, _, hplan.asked, rfl, ?_⟩
      change payload.actorId.canon = row.senderId.canon
      rw [← hplan.actor, UserId.canon_canon]

/-! ## Conversations and memberships -/

theorem justified_createPrivate {v : UserId} (hasked : h.asked (.createPrivate u v)) :
    Justified h (createPrivate u v) := by
  refine justified_unless fun _ => justified_skip (uses_perform (c := .findPrivateByPairKey _) trivial) fun existing => ?_
  cases existing with
  | some existing => exact justified_uses (uses_viewConversation (fun _ hc => hc.warranted) _ _)
  | none =>
    refine justified_skip (uses_hasBlock (fun _ hc => hc.warranted) _ _) fun _ => justified_unless fun _ =>
      justified_write (c := .createPrivateTx _ _ _) ⟨hasked, rfl⟩ fun saved => ?_
    exact justified_skip (uses_blockFlagsForConversation (fun _ hc => hc.warranted) _ _) fun _ => justified_ret _

theorem justified_createGroup {name : Text} {ids : List UserId} (hasked : h.asked (.createGroup u name ids)) :
    Justified h (createGroup u name ids) := by
  refine justified_unless fun _ => justified_unless fun _ => justified_unless fun _ =>
    justified_write (c := .createGroupTx _ _ _) ⟨name, ids, hasked, rfl, fun v hv => ?_⟩ fun _ => justified_ret _
  exact List.mem_of_mem_filter (List.mem_eraseDups.mp hv)

theorem justified_viewAgain (c : ConversationId) (u : UserId) : Justified h (getConversation c u) :=
  justified_uses (uses_getConversation (fun _ hc => hc.warranted) c u)

/-- The requests that set a mark on the row of their user. -/
theorem justified_updateMembership {update : Time → ConversationMember → ConversationMember}
    (hupdate : ∀ now m, h.MemberAccount m → m.conversationId = c → m.userId = u → h.MemberAccount (update now m)) :
    Justified h (updateMembership c u update) := by
  refine justified_requireMembership fun cv hcv => justified_require fun m hm =>
    justified_write (c := .newDate) trivial fun now => justified_write (c := .saveMember _) ?_ fun _ =>
      justified_viewAgain c u
  obtain ⟨haccount, hconv, huser⟩ := hcv.own hm
  exact hupdate now m haccount hconv huser

theorem justified_pinConversation {pinned : Bool} (hasked : h.asked (.pinConversation c u pinned)) :
    Justified h (pinConversation c u pinned) := by
  refine justified_updateMembership fun now m hm hconv huser => ?_
  refine ⟨hm.admitted, hm.left, hm.owner, hm.admin, hm.muted, fun hpinned => ?_, hm.read⟩
  cases pinned with
  | false => exact absurd rfl hpinned
  | true => exact hconv ▸ huser ▸ hasked

theorem justified_muteConversation {muted : Bool} (hasked : h.asked (.muteConversation c u muted)) :
    Justified h (muteConversation c u muted) := by
  refine justified_updateMembership fun now m hm hconv huser => ?_
  refine ⟨hm.admitted, hm.left, hm.owner, hm.admin, fun hmuted => ?_, hm.pinned, hm.read⟩
  cases muted with
  | false => exact absurd rfl hmuted
  | true => exact hconv ▸ huser ▸ hasked

theorem justified_markSeen {m : Option MessageId} (hasked : h.asked (.markSeen c u m)) :
    Justified h (markSeen c u m) := by
  refine justified_requireMembership fun cv hcv => justified_require fun row hrow =>
    justified_write (c := .newDate) trivial fun now => justified_bind (Q := fun _ => True) ?_ fun _ _ =>
      justified_bind (Q := fun _ => True) ?_ fun _ _ => justified_ret _
  · unfold seenMessage
    split
    · exact justified_ret _
    · exact justified_loadMessage fun _ _ => justified_ret _
  · obtain ⟨haccount, hconv, huser⟩ := hcv.own hrow
    have hsave : Justified h (perform (.saveMember { row with lastReadAt := some now }) >>= fun _ => .ret now) := by
      refine justified_write ⟨haccount.admitted, haccount.left, haccount.owner, haccount.admin, haccount.muted,
        haccount.pinned, fun _ => ⟨m, ?_⟩⟩ fun _ => justified_ret _
      exact hconv ▸ huser ▸ hasked
    unfold advanceReadAt
    split
    · split
      · exact hsave
      · exact justified_ret _
    · exact hsave

/-- A group is changed by one of those who manage it. -/
theorem justified_assertGroupAdmin (hcv : h.Loaded c u cv) {f : Unit → M β}
    (hf : (h.Once fun db => db.Manages c u) → Justified h (f ())) :
    Justified h (assertGroupAdmin cv u >>= f) := by
  unfold assertGroupAdmin
  rw [Prog.bind_assoc']
  refine justified_unless fun htype => justified_unless fun hadmin => hf ?_
  obtain ⟨m, hm, hrole⟩ := (Option.any_eq_true _ _).mp (Bool.eq_true_of_not_eq_false hadmin)
  have hp := List.find?_some hm
  simp only [decide_eq_true_eq] at hp
  exact hcv.manages (not_not.mp htype) (List.mem_of_find?_eq_some hm) hp hrole

theorem justified_setDisappearingMessages {n : Nat} (hasked : h.asked (.setDisappearingMessages c u n)) :
    Justified h (setDisappearingMessages c u n) := by
  refine justified_requireMembership fun cv hcv => justified_unless fun _ => justified_unless fun hadmin => ?_
  have hmanages : h.Once fun db => db.Sits c u ∧ (cv.type = .group → db.Manages c u) := by
    by_cases htype : cv.type = .group
    · obtain ⟨m, hm, hrole⟩ := (Option.any_eq_true _ _).mp
        (Bool.eq_true_of_not_eq_false fun hany => hadmin ⟨htype, hany⟩)
      obtain ⟨hmem, huser, _⟩ := findActive_eq_some hm
      obtain ⟨db, hv, hdb, hload⟩ := hcv
      obtain ⟨hrow, hmembers, _⟩ := Db.membership_eq_ok hload
      obtain ⟨hstored, hid, _⟩ := Db.findConversation_eq_some hrow
      rw [hmembers] at hmem
      exact ⟨db, hv, .of_membership hload, fun _ => ⟨⟨_, hstored, hid, htype⟩, m, hmem, huser, hrole⟩⟩
    · obtain ⟨db, hv, hsits⟩ := hcv.seated
      exact ⟨db, hv, hsits, fun hgroup => absurd hgroup htype⟩
  refine justified_write (c := .saveConversation _) ?_ fun _ =>
    justified_bind (justified_recordAudit ⟨_, _, hasked, rfl, rfl⟩ _ _ _ _) fun _ _ => justified_viewAgain c u
  have haccount := hcv.account
  refine ⟨haccount.created.of_eq rfl rfl rfl, haccount.fresh,
    fun name hname => (haccount.named name hname).of_eq rfl rfl, fun _ => ⟨u, ?_, ?_⟩, haccount.deleted⟩
  · exact hcv.id_eq ▸ hasked
  · exact hcv.id_eq ▸ hmanages

theorem justified_updateGroup {name : Text} (hasked : h.asked (.updateGroup c u name)) :
    Justified h (updateGroup c u name) := by
  refine justified_requireMembership fun cv hcv => justified_assertGroupAdmin hcv fun hmanages =>
    justified_unless fun _ => justified_write (c := .saveConversation _) ?_ fun _ => justified_viewAgain c u
  have haccount := hcv.account
  refine ⟨haccount.created.of_eq rfl rfl rfl, haccount.fresh, ?_, haccount.disappearing, haccount.deleted⟩
  rintro _ ⟨⟩
  refine .renamed (a := u) ?_ ?_
  · exact hcv.id_eq ▸ hasked
  · exact hcv.id_eq ▸ hmanages

theorem justified_addMembers {ids : List UserId} (hasked : h.asked (.addMembers c u ids)) :
    Justified h (addMembers c u ids) := by
  refine justified_requireMembership fun cv hcv => justified_assertGroupAdmin hcv fun hmanages =>
    justified_unless fun _ => justified_unless fun _ => justified_bind (Q := fun _ => True) ?_ fun _ _ =>
      justified_viewAgain c u
  have hids : ∀ v ∈ (ids.filter fun id => id ≠ u).eraseDups, v ∈ ids := fun v hv =>
    List.mem_of_mem_filter (List.mem_eraseDups.mp hv)
  generalize (ids.filter fun id => id ≠ u).eraseDups = us at hids
  induction us with
  | nil => exact justified_ret _
  | cons v us ih =>
    refine justified_bind (Q := fun _ => True) ?_ fun _ _ => ih fun w hw => hids w (List.mem_cons_of_mem v hw)
    unfold addMember
    split
    · next m hfind =>
      split
      · exact justified_ret _
      · obtain ⟨haccount, _⟩ := hcv.member (List.mem_of_find?_eq_some hfind)
        exact justified_uses (uses_perform ⟨haccount.admitted, fun hne => absurd rfl hne, nofun, nofun,
          haccount.muted, haccount.pinned, haccount.read⟩)
    · refine justified_uses (uses_perform ⟨rfl, u, ids, ?_, hids v List.mem_cons_self, ?_⟩)
      · exact hcv.id_eq ▸ hasked
      · exact hcv.id_eq ▸ hmanages

theorem justified_removeMember {v : UserId} (hasked : h.asked (.removeMember c u v)) :
    Justified h (removeMember c u v) := by
  refine justified_requireMembership fun cv hcv => justified_assertGroupAdmin hcv fun hmanages =>
    justified_unless fun _ => justified_require fun m hm => justified_unless fun _ =>
      justified_write (c := .newDate) trivial fun now => justified_write (c := .saveMember _) ?_ fun _ =>
        justified_viewAgain c u
  obtain ⟨hmem, rfl, _⟩ := findActive_eq_some hm
  obtain ⟨haccount, rfl⟩ := hcv.member hmem
  exact ⟨haccount.admitted, fun _ => .removed hasked hmanages, haccount.owner, haccount.admin, haccount.muted,
    haccount.pinned, haccount.read⟩

theorem justified_setMemberRole {v : UserId} {role : Option ConversationMemberRole}
    (hasked : h.asked (.setMemberRole c u v role)) : Justified h (setMemberRole c u v role) := by
  refine justified_requireMembership fun cv hcv => justified_unless fun _ => justified_unless fun howner =>
    justified_require fun r hr => justified_require fun m hm => justified_unless fun _ => justified_unless fun _ =>
      justified_write (c := .saveMember _) ?_ fun _ => justified_viewAgain c u
  obtain ⟨actor, hactor, hrole⟩ := (Option.any_eq_true _ _).mp (Bool.eq_true_of_not_eq_false howner)
  obtain ⟨hmemActor, huser, _⟩ := findActive_eq_some hactor
  have howns := hcv.owns hmemActor huser (of_decide_eq_true hrole)
  obtain ⟨rfl, hr⟩ := Option.filter_eq_some_iff.mp hr
  obtain ⟨hmem, rfl, _⟩ := findActive_eq_some hm
  obtain ⟨haccount, rfl⟩ := hcv.member hmem
  refine ⟨haccount.admitted, haccount.left, fun howner => ?_, fun hadmin => ⟨u, ?_, howns⟩, haccount.muted,
    haccount.pinned, haccount.read⟩
  · dsimp only at howner
    subst howner
    simp at hr
  · dsimp only at hadmin
    exact hadmin ▸ hasked

theorem justified_leave (hasked : h.asked (.leave c u)) : Justified h (leave c u) := by
  refine justified_requireMembership fun cv hcv => justified_unless fun _ => justified_require fun m hm =>
    justified_bind (Q := fun _ => True) ?_ fun _ _ => justified_write (c := .newDate) trivial fun now =>
      justified_write (c := .saveMember _) ?_ fun _ => justified_ret _
  · unfold handOver
    split
    · next howner =>
      obtain ⟨hmem, huser, _⟩ := findActive_eq_some hm
      split
      · exact justified_ret _
      · next next hnext =>
        obtain ⟨haccount, hconv⟩ := hcv.member (nextOwner_mem hnext).1
        refine justified_uses (uses_perform ⟨haccount.admitted, haccount.left, fun _ => .inherited (a := u) ?_ ?_,
          nofun, haccount.muted, haccount.pinned, haccount.read⟩)
        · exact hconv ▸ hasked
        · exact hconv ▸ hcv.owns hmem huser howner
    · exact justified_ret _
  · obtain ⟨haccount, rfl, rfl⟩ := hcv.own hm
    exact ⟨haccount.admitted, fun _ => .left hasked, haccount.owner, haccount.admin, haccount.muted,
      haccount.pinned, haccount.read⟩

theorem justified_deleteGroup (hasked : h.asked (.deleteGroup c u)) : Justified h (deleteGroup c u) := by
  refine justified_requireMembership fun cv hcv => justified_unless fun htype => justified_unless fun hcreator =>
    justified_write (c := .newDate) trivial fun now => ?_
  have hfounded := hcv.founded (not_not.mp htype) (not_not.mp hcreator)
  refine justified_write (c := .saveMembers _) (fun m hm => ?_) fun _ =>
    justified_write (c := .softDeleteConversation _) ⟨u, ?_, ?_⟩ fun _ => justified_ret _
  · obtain ⟨old, hold, rfl⟩ := List.mem_map.mp hm
    obtain ⟨haccount, rfl⟩ := hcv.member hold
    split
    · exact ⟨haccount.admitted, fun _ => .dissolved hasked hfounded, haccount.owner, haccount.admin,
        haccount.muted, haccount.pinned, haccount.read⟩
    · exact haccount
  · exact hcv.id_eq ▸ hasked
  · exact hcv.id_eq ▸ hfounded

/-! ## Blocks, audit and workspace -/

theorem justified_blockUser {v : UserId} (hasked : h.asked (.blockUser u v)) : Justified h (blockUser u v) := by
  refine justified_unless fun _ => justified_skip (uses_perform (c := .findBlock u v) trivial) fun existing => ?_
  cases existing with
  | some block => exact justified_ret _
  | none => exact justified_write (c := .insertBlock u v) hasked fun _ => justified_ret _

theorem justified_getWorkspaceSettings : Justified h getWorkspaceSettings := by
  refine justified_skip (uses_perform (c := .findWorkspace) trivial) fun found => ?_
  cases found with
  | some settings => exact justified_ret _
  | none => exact justified_write (c := .saveWorkspace _) trivial fun _ => justified_ret _

theorem justified_updateWorkspaceSettings {name tagline color : Option Text} {logo : Option (Option Text)}
    (hasked : h.asked (.updateWorkspaceSettings u name tagline color logo)) :
    Justified h (updateWorkspaceSettings u name tagline color logo) :=
  justified_skip (uses_perform (c := .findWorkspace) trivial) fun _ =>
    justified_write (c := .saveWorkspace _) trivial fun _ =>
      justified_bind (justified_recordAudit ⟨_, _, hasked, rfl, rfl⟩ _ _ _ _) fun _ _ => justified_ret _

end Operations

/-! ## Runs -/

theorem justified_map {p : M α} (f : α → β) (hp : Justified h p) : Justified h (f <$> p) :=
  justified_bind hp fun _ _ => justified_ret _

/-- A request that was made only makes calls with a warrant. -/
theorem Op.justified {op : Op} (hasked : h.asked op) : Justified h op.program := by
  have hreads : ∀ c, ReadCall c → h.Warrants c := fun _ hc => hc.warranted
  cases op with
  | createPrivate a b => exact justified_map _ (justified_createPrivate hasked)
  | createGroup a name ids => exact justified_map _ (justified_createGroup hasked)
  | listConversations a page => exact justified_map _ (justified_uses (uses_listConversations hreads a page))
  | getConversation c a => exact justified_map _ (justified_viewAgain c a)
  | listMessages c a page => exact justified_map _ (justified_uses (uses_listMessages hreads c a page))
  | searchMessages c a query page =>
    exact justified_map _ (justified_uses (uses_searchMessages hreads c a query page))
  | searchGlobal a query page => exact justified_map _ (justified_uses (uses_searchGlobal hreads a query page))
  | listMedia c a kind page => exact justified_map _ (justified_uses (uses_listMedia hreads c a kind page))
  | getMessage c m a => exact justified_map _ (justified_uses (uses_getMessage hreads (fun _ _ => trivial) c m a))
  | listPinnedMessages c a => exact justified_map _ (justified_uses (uses_listPinnedMessages hreads c a))
  | sendMessage payload =>
    exact justified_map _ (justified_sendMessage payload (fun x hx => .sent hasked rfl rfl hx)
      (fun hsystem => .called hasked rfl rfl hsystem) ⟨_, _, hasked, rfl, rfl⟩)
  | forwardMessage a source target m => exact justified_map _ (justified_forwardMessage hasked)
  | editMessage c m a body => exact justified_map _ (justified_editMessage hasked)
  | reactMessage c m a emoji => exact justified_map _ (justified_reactMessage hasked)
  | pinMessage c m a pinned => exact justified_map _ (justified_pinMessage hasked)
  | deleteMessage c m a forEveryone => exact justified_map _ (justified_deleteMessage hasked)
  | expireDueMessages => exact justified_map _ (justified_expireDueMessages hasked)
  | scheduleMessage payload => exact justified_map _ (justified_scheduleMessage hasked)
  | listScheduledMessages c a => exact justified_map _ (justified_uses (uses_listScheduledMessages hreads c a))
  | cancelScheduledMessage c id a => exact justified_map _ (justified_cancelScheduledMessage hasked)
  | dispatchDueScheduled => exact justified_map _ (justified_dispatchDueScheduled hasked)
  | pinConversation c a pinned => exact justified_map _ (justified_pinConversation hasked)
  | muteConversation c a muted => exact justified_map _ (justified_muteConversation hasked)
  | markSeen c a m => exact justified_map _ (justified_markSeen hasked)
  | setDisappearingMessages c a n => exact justified_map _ (justified_setDisappearingMessages hasked)
  | addMembers c a ids => exact justified_map _ (justified_addMembers hasked)
  | removeMember c a u => exact justified_map _ (justified_removeMember hasked)
  | setMemberRole c a u role => exact justified_map _ (justified_setMemberRole hasked)
  | leave c a => exact justified_map _ (justified_leave hasked)
  | updateGroup c a name => exact justified_map _ (justified_updateGroup hasked)
  | deleteGroup c a => exact justified_map _ (justified_deleteGroup hasked)
  | blockUser a u => exact justified_map _ (justified_blockUser hasked)
  | unblockUser a u =>
    exact justified_map _ (justified_write (c := .deleteBlock a u) trivial fun _ => justified_ret _)
  | listBlocks a => exact justified_map _ (justified_write (c := .listBlocks a) trivial fun _ => justified_ret _)
  | prepareVoiceCall c a => exact justified_map _ (justified_uses (uses_prepareVoiceCall hreads c a))
  | getAnalytics => exact justified_map _ (justified_uses (uses_getAnalytics hreads))
  | listAuditEvents page =>
    exact justified_map _ (justified_write (c := .listAudit _ _) trivial fun _ => justified_ret _)
  | logAudit a action type id info =>
    exact justified_map _ (justified_write (c := .insertAudit _ _ _ _ _) ⟨_, _, hasked, rfl, rfl⟩
      fun _ => justified_ret _)
  | getWorkspaceSettings => exact justified_map _ justified_getWorkspaceSettings
  | updateWorkspaceSettings a n t p l => exact justified_map _ (justified_updateWorkspaceSettings hasked)

/-- What there is to know of a run of the service. -/
def history (now : Time) (timeZone : Int) (es : List ChatEvent) : History where
  visited := Pool.Visited exec Op.program (fun (d : Nat) db => db.wait d) es ⟨Db.empty now timeZone, []⟩
  asked op := .start op ∈ es

/-- The database interleaved requests get to, from one without rows. -/
def served (now : Time) (timeZone : Int) (es : List ChatEvent) : Db :=
  (Runs.final poolStep es ⟨Db.empty now timeZone, []⟩).store

section Runs

variable (now : Time) (timeZone : Int) (es : List ChatEvent)

theorem accounts_empty : h.Accounts (Db.empty now timeZone) := by
  have hnone : ∀ {γ : Type} (P : γ → Prop), ∀ row ∈ ([] : List γ), P row := fun _ _ hrow =>
    absurd hrow List.not_mem_nil
  exact ⟨hnone _, hnone _, hnone _, hnone _, hnone _, hnone _, hnone _, hnone _⟩

/-- Whatever requests interleave, every row they leave is accounted for. -/
theorem rows_accounted : (history now timeZone es).Accounts (served now timeZone es) := by
  have hprogram : ∀ op, Pool.Event.start op ∈ es →
      Sat (history now timeZone es).Answers (history now timeZone es).Warrants op.program :=
    fun op hop => (Op.justified (h := history now timeZone es) hop).sat
  have hwait : ∀ (d : Nat) db, (history now timeZone es).Accounts db →
      (history now timeZone es).Accounts (db.wait d) := fun d db hdb =>
    ⟨hdb.conversations, hdb.members, hdb.messages, hdb.hides, hdb.reactions, hdb.scheduled, hdb.blocks, hdb.audit⟩
  have hvisited : (history now timeZone es).visited (served now timeZone es) := ⟨es, List.prefix_rfl, rfl⟩
  refine Pool.visited_invariant (accounts_empty now timeZone) (fun op hop => (hprogram op hop).mono ?_ fun _ hc => hc)
    (fun db c hmade hdb hc => hdb.exec hmade.visited hc) hwait hvisited
  exact fun c r ⟨db, hmade, hdb, hr⟩ => ⟨db, hmade.visited, hdb, hr⟩

/-- Whatever requests interleave: a message says what its sender, who was a member at some moment, has asked for,
and is edited, pinned or deleted only where that was asked for by its sender or a member, or where it was due. -/
theorem messages_accounted {m : Message} (hm : m ∈ (served now timeZone es).messages) :
    (history now timeZone es).MessageAccount m := (rows_accounted now timeZone es).messages m hm

/-- Whatever requests interleave: hides, reactions, scheduled messages, blocks and audit events are of the user who
has asked for them. -/
theorem marks_accounted :
    (∀ row ∈ (served now timeZone es).messageHides, (history now timeZone es).HideAccount row) ∧
      (∀ row ∈ (served now timeZone es).messageReactions, (history now timeZone es).ReactionAccount row) ∧
      (∀ row ∈ (served now timeZone es).scheduledMessages, (history now timeZone es).ScheduledAccount row) ∧
      (∀ row ∈ (served now timeZone es).userBlocks, (history now timeZone es).BlockAccount row) ∧
      ∀ row ∈ (served now timeZone es).auditEvents, (history now timeZone es).Acted row.actorId :=
  have h := rows_accounted now timeZone es
  ⟨h.hides, h.reactions, h.scheduled, h.blocks, h.audit⟩

end Runs

/-- The sender leaves the group after the check and before the message is stored. -/
def lateGreeting : List ChatEvent :=
  [.start (.createGroup userA ['g'] [userB]), .advance 0,
    .start (.sendMessage (textMessage userA 0 ['h', 'i'])), .advance 1, .advance 1,
    .start (.leave 0 userA), .advance 2, .advance 2, .advance 2, .advance 2,
    .advance 1, .advance 1, .advance 1]

theorem messages_accounted_late : (history 0 0 lateGreeting).MessageAccount
    (({ conversationId := 0, senderId := userA, body := ['h', 'i'], type := .text } : MessageDraft).toRow 3 0) :=
  messages_accounted 0 0 lateGreeting (by decide +kernel)

/-- The sender is no member any more. -/
example : ((served 0 0 lateGreeting).members.map fun m => (m.userId, m.role, m.leftAt)) =
    [(userA, .owner, some 0), (userB, .owner, none)] := by decide +kernel

end Relay.Chat
