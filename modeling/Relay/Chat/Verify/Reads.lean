import Relay.Chat.Verify.Tables

/-!
# What the reading parts of the service return

Each part of the service that only reads is summarised by the value it computes from the database.
Proofs about an operation use these equations and do not unfold the parts again.
-/

namespace Relay.Chat

open Relay.Lib Prog

variable {α β : Type} {s : Db}

/-! ## Steps -/

theorem run_read {c : Call} {a : c.Answer} (h : exec c s = (.ok a, s)) (f : c.Answer → M β) :
    run exec (perform c >>= f) s = run exec (f a) s := by
  rw [run_bind_ok exec ((run_perform exec c s).trans h)]

theorem run_write {c : Call} {a : c.Answer} {t : Db} (h : exec c s = (.ok a, t))
    (f : c.Answer → M β) : run exec (perform c >>= f) s = run exec (f a) t := by
  rw [run_bind_ok exec ((run_perform exec c s).trans h)]

theorem run_rejectIf (P : Prop) [Decidable P] (e : RpcError) :
    run exec (rejectIf P e) s = (if P then .error (.rpc e) else .ok (), s) := by
  unfold rejectIf
  split <;> rfl

theorem run_rejectIf_neg {P : Prop} [Decidable P] {e : RpcError} (h : ¬ P) (f : Unit → M β) :
    run exec (rejectIf P e >>= f) s = run exec (f ()) s := by
  unfold rejectIf
  rw [if_neg h]
  rfl

theorem run_rejectIf_pos {P : Prop} [Decidable P] {e : RpcError} (h : P) (f : Unit → M β) :
    run exec (rejectIf P e >>= f) s = (.error (.rpc e), s) := by
  unfold rejectIf
  rw [if_pos h]
  rfl

theorem run_require_some {a : α} {e : RpcError} (f : α → M β) :
    run exec (require (some a) e >>= f) s = run exec (f a) s := rfl

theorem run_rejectIf_ok {P : Prop} [Decidable P] {e : RpcError} {f : Unit → M α} {a : α}
    {t : Db} (h : run exec (rejectIf P e >>= f) s = (.ok a, t)) : ¬ P ∧ run exec (f ()) s = (.ok a, t) := by
  by_cases hP : P
  · rw [run_rejectIf_pos hP] at h
    cases h
  · rw [run_rejectIf_neg hP] at h
    exact ⟨hP, h⟩

theorem run_require_ok {o : Option β} {e : RpcError} {f : β → M α} {a : α}
    {t : Db} (h : run exec (require o e >>= f) s = (.ok a, t)) :
    ∃ b, o = some b ∧ run exec (f b) s = (.ok a, t) := by
  cases o with
  | none => cases h
  | some b => exact ⟨b, rfl, h⟩

/-! ## Membership and delivery -/

/-- What `requireMembership` answers. -/
def Db.membership (db : Db) (c : ConversationId) (u : UserId) :
    Except Failure ConversationWithMembers :=
  match db.findConversation c with
  | none => .error (.rpc (RpcErrors.notFound "Conversation"))
  | some row =>
    match findActive (db.membersOf c) u with
    | none => .error (.rpc (RpcErrors.forbidden "You are not a member of this conversation"))
    | some _ => .ok ⟨row, activeMembers (db.membersOf c)⟩

theorem run_requireMembership (c : ConversationId) (u : UserId) :
    run exec (requireMembership c u) s = (s.membership c u, s) := by
  unfold requireMembership Db.membership
  rw [run_read (a := (s.findConversation c).map s.withMembers) rfl]
  cases hc : s.findConversation c with
  | none => rfl
  | some row =>
    have hid := (Db.findConversation_eq_some hc).2.1
    rw [Option.map_some, run_require_some]
    simp only [Db.withMembers, hid]
    cases findActive (s.membersOf c) u <;> rfl

theorem Db.membership_eq_ok {c : ConversationId} {u : UserId} {cv : ConversationWithMembers}
    (h : s.membership c u = .ok cv) :
    s.findConversation c = some cv.toConversation ∧ cv.members = activeMembers (s.membersOf c) ∧
      ∃ m, findActive (s.membersOf c) u = some m := by
  unfold Db.membership at h
  split at h
  · cases h
  · next row hrow =>
    split at h
    · cases h
    · next m hm =>
      cases h
      exact ⟨hrow, rfl, m, hm⟩

theorem Db.membership_id {c : ConversationId} {u : UserId} {cv : ConversationWithMembers}
    (h : s.membership c u = .ok cv) : cv.id = c :=
  (Db.findConversation_eq_some (Db.membership_eq_ok h).1).2.1

/-- `blockerId` has blocked `blockedId`. -/
def Db.hasBlock (db : Db) (blockerId blockedId : UserId) : Bool :=
  decide (0 < (db.blocks blockerId blockedId).length)

theorem run_hasBlock (a b : UserId) : run exec (hasBlock a b) s = (.ok (s.hasBlock a b), s) := rfl

def Db.delivery (db : Db) (cv : ConversationWithMembers) (actorId : UserId) : Delivery :=
  if cv.type ≠ .priv then openDelivery cv
  else
    match findOther cv.members actorId with
    | none => openDelivery cv
    | some other =>
      if db.hasBlock other.userId actorId then ⟨true, false, []⟩
      else if db.hasBlock actorId other.userId then ⟨false, true, [actorId]⟩
      else openDelivery cv

theorem run_resolvePrivateDelivery (cv : ConversationWithMembers) (u : UserId) :
    run exec (resolvePrivateDelivery cv u) s = (.ok (s.delivery cv u), s) := by
  unfold resolvePrivateDelivery Db.delivery
  split
  · rfl
  · cases findOther cv.members u <;> rfl

def Db.blockFlags (db : Db) (cv : ConversationWithMembers) (actorId : UserId) : BlockFlags :=
  if cv.type ≠ .priv then BlockFlags.none
  else
    match findOther cv.members actorId with
    | none => BlockFlags.none
    | some other => ⟨db.hasBlock actorId other.userId, db.hasBlock other.userId actorId⟩

theorem run_blockFlagsForConversation (cv : ConversationWithMembers) (u : UserId) :
    run exec (blockFlagsForConversation cv u) s = (.ok (s.blockFlags cv u), s) := by
  unfold blockFlagsForConversation Db.blockFlags
  split
  · rfl
  · cases findOther cv.members u <;> rfl

theorem run_unreadCounts (u : UserId) (ids : List ConversationId) :
    run exec (unreadCounts u ids) s =
      (.ok (if ids = [] then [] else s.unreadRows u ids), s) := by
  unfold unreadCounts
  split <;> rfl

theorem run_viewConversation (cv : ConversationWithMembers) (u : UserId) :
    run exec (viewConversation cv u) s =
      (.ok (toConversationView cv u (((s.unreadRows u [cv.id]).lookup cv.id).getD 0) none
        (s.blockFlags cv u)), s) := by
  unfold viewConversation
  rw [run_bind_ok exec (show run exec (unreadCountFor u cv.id) s =
    (.ok (((s.unreadRows u [cv.id]).lookup cv.id).getD 0), s) from rfl),
    run_bind_ok exec (run_blockFlagsForConversation cv u)]
  rfl

/-! ## Messages -/

/-- The row a reply points to, by its id alone. -/
def Db.replyRow (db : Db) (m : Message) : Option Message :=
  m.replyToMessageId.bind fun id => db.messages.find? fun row => row.id = id

theorem run_loadReplyTo (m : Message) :
    run exec (loadReplyTo m) s = (.ok (s.replyRow m), s) := by
  unfold loadReplyTo Db.replyRow
  cases m.replyToMessageId <;> rfl

/-- The reactions to one message. -/
def Db.reactionsTo (db : Db) (m : MessageId) : List MessageReaction :=
  db.messageReactions.filter fun r => r.messageId = m

/-- The view of a message with its reply preview and its reactions. -/
def Db.viewOf (db : Db) (m : Message) (members : List ConversationMember) (u : UserId) :
    MessageView :=
  toMessageView m members (db.replyRow m) (db.reactionsTo m.id) u

theorem run_viewOne (m : Message) (cv : ConversationWithMembers) (u : UserId) :
    run exec (viewOne m cv u) s = (.ok (s.viewOf m cv.members u), s) := by
  unfold viewOne
  rw [run_bind_ok exec (run_loadReplyTo m),
    run_read (a := s.messageReactions.filter fun r => r.messageId ∈ [m.id]) rfl]
  simp only [List.mem_singleton]
  rfl

theorem run_loadReplyParents (items : List Message) :
    run exec (loadReplyParents items) s =
      (.ok (s.messages.filter fun m => m.id ∈ items.filterMap Message.replyToMessageId), s) := by
  unfold loadReplyParents
  dsimp only
  split
  · next h =>
    have hnil : items.filterMap Message.replyToMessageId = [] := by
      rw [List.eq_nil_iff_forall_not_mem]
      intro a ha
      have hmem := List.mem_eraseDups.mpr ha
      rw [h] at hmem
      exact List.not_mem_nil hmem
    simp [hnil]
  · rw [run_perform]
    simp only [exec, List.mem_eraseDups]

theorem run_loadReactions (ids : List MessageId) :
    run exec (loadReactionsByMessageIds ids) s =
      (.ok (s.messageReactions.filter fun r => r.messageId ∈ ids), s) := by
  unfold loadReactionsByMessageIds
  split
  · next h => simp [h]
  · rw [run_perform]
    rfl

/-- A reply parent found among the loaded ones is the stored row. -/
theorem replyOf_filter {ids : List MessageId} {item : Message}
    (h : ∀ r, item.replyToMessageId = some r → r ∈ ids) :
    replyOf (s.messages.filter fun m => m.id ∈ ids) item = s.replyRow item := by
  unfold replyOf Db.replyRow
  cases hr : item.replyToMessageId with
  | none => rfl
  | some r =>
    simp only [Option.bind_some, List.find?_filter]
    congr 1
    funext row
    by_cases hid : row.id = r
    · simp [hid, h r hr]
    · simp [hid]

theorem reactionsOf_filter {ids : List MessageId} {m : MessageId} (h : m ∈ ids) :
    reactionsOf (s.messageReactions.filter fun r => r.messageId ∈ ids) m = s.reactionsTo m := by
  unfold reactionsOf Db.reactionsTo
  rw [List.filter_filter]
  congr 1
  funext r
  by_cases hid : r.messageId = m
  · simp [hid, h]
  · simp [hid]

theorem run_viewItems (items : List Message) (members : Message → List ConversationMember)
    (u : UserId) :
    run exec (viewItems items members u) s =
      (.ok (items.map fun item => s.viewOf item (members item) u), s) := by
  unfold viewItems
  rw [run_bind_ok exec (run_loadReplyParents items), run_bind_ok exec (run_loadReactions _)]
  simp only [pure_def, run_ret]
  congr 2
  refine List.map_congr_left fun item hitem => ?_
  rw [replyOf_filter, reactionsOf_filter (List.mem_map_of_mem hitem)]
  · rfl
  · exact fun r hr => List.mem_filterMap.mpr ⟨item, hitem, hr⟩

/-- What `replyTarget` answers. -/
def Db.target (db : Db) (c : ConversationId) : Option MessageId → Except Failure (Option Message)
  | none => .ok none
  | some id =>
    match db.messages.find? fun m => m.id = id ∧ m.conversationId = c with
    | none =>
      .error (.rpc (RpcErrors.badRequest "Reply target must be a message in this conversation"))
    | some m =>
      if m.deletedForEveryoneAt = none then .ok (some m)
      else .error (.rpc (RpcErrors.badRequest "Cannot reply to a message deleted for everyone"))

theorem run_replyTarget (cv : ConversationWithMembers) (r : Option MessageId) :
    run exec (replyTarget cv r) s = (s.target cv.id r, s) := by
  unfold replyTarget Db.target
  cases r with
  | none => rfl
  | some id =>
    dsimp only
    rw [run_read (a := s.messages.find? fun m => m.id = id ∧ m.conversationId = cv.id) rfl]
    cases s.messages.find? fun m => m.id = id ∧ m.conversationId = cv.id with
    | none => rfl
    | some m =>
      rw [run_require_some]
      by_cases hdel : m.deletedForEveryoneAt = none
      · rw [run_rejectIf_neg (not_not.mpr hdel)]
        simp [hdel]
      · rw [run_rejectIf_pos hdel]
        simp [hdel]

theorem Db.target_eq_ok {c : ConversationId} {r : Option MessageId} {o : Option Message}
    (h : s.target c r = .ok o) :
    o.map Message.id = r ∧
      ∀ m, o = some m → m ∈ s.messages ∧ m.conversationId = c ∧ m.deletedForEveryoneAt = none := by
  unfold Db.target at h
  split at h
  · cases h
    exact ⟨rfl, fun _ hm => nomatch hm⟩
  · split at h
    · cases h
    · next id _ m hm =>
      have hp := List.find?_some hm
      simp only [decide_eq_true_eq] at hp
      split at h
      · next hdel =>
        cases h
        refine ⟨by rw [Option.map_some, hp.1], ?_⟩
        rintro m' ⟨⟩
        exact ⟨List.mem_of_find?_eq_some hm, hp.2, hdel⟩
      · cases h

/-- A page of messages as a member of the conversation sees it. -/
def Db.viewPage (db : Db) (f : MessageFilter) (members : List ConversationMember) (u : UserId)
    (page : Page) : PaginatedResult MessageView :=
  buildPaginatedResult
    ((((db.listMessages f).drop page.skip).take page.take).map fun m => db.viewOf m members u)
    (db.listMessages f).length page

/-- Listing a page and viewing its messages. -/
theorem run_viewPage (f : MessageFilter) (page : Page) (members : List ConversationMember)
    (u : UserId) :
    run exec (do
      let (items, total) ← perform (.listMessages f page.skip page.take)
      let views ← viewItems items (fun _ => members) u
      return buildPaginatedResult views total page) s = (.ok (s.viewPage f members u page), s) := by
  rw [run_bind_ok exec (run_perform exec _ s)]
  dsimp only
  rw [run_bind_ok exec (run_viewItems _ _ u)]
  rfl

theorem run_listMessages (c : ConversationId) (u : UserId) (page : Page) :
    run exec (listMessages c u page) s =
      ((s.membership c u).map fun cv =>
        s.viewPage ⟨[c], u, none, none, false⟩ cv.members u page, s) := by
  unfold listMessages
  cases hcv : s.membership c u with
  | error e => rw [run_bind_error exec (hcv ▸ run_requireMembership c u)]; rfl
  | ok cv =>
    rw [run_bind_ok exec (hcv ▸ run_requireMembership c u)]
    exact run_viewPage _ page cv.members u

theorem run_listMedia (c : ConversationId) (u : UserId) (kind : Option MediaKindFilter) (page : Page) :
    run exec (listMedia c u kind page) s =
      ((s.membership c u).map fun cv =>
        s.viewPage ⟨[c], u, none, some (kind.getD .all), true⟩ cv.members u page, s) := by
  unfold listMedia
  cases hcv : s.membership c u with
  | error e => rw [run_bind_error exec (hcv ▸ run_requireMembership c u)]; rfl
  | ok cv =>
    rw [run_bind_ok exec (hcv ▸ run_requireMembership c u)]
    exact run_viewPage _ page cv.members u

end Relay.Chat
