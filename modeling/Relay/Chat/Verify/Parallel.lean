import Relay.Chat.Verify.Twins

/-!
# The operations in two databases that agree

`Twin p q s t`: run in `s` and in `t`, the programs `p` and `q` have the same outcome and leave twin
databases again. The rules follow the shape of the operations: a part that reads, a check, a call
that writes, a loop. Each operation whose actor takes part in no hidden conversation is then walked
through once.
-/

namespace Relay.Chat

open Relay.Lib Relay.Lib.Rows Prog

variable {hidden : ConversationId → Bool} {A : Prop} {u : UserId} {s t : Db}

/-! ## Rules -/

/-- As far as both programs call lawfully, they have the same outcome and leave twin databases. -/
def Twin (hidden : ConversationId → Bool) (A : Prop) (u : UserId) {α : Type} (p q : M α)
    (s t : Db) : Prop :=
  Calls exec Lawful p s → Calls exec Lawful q t → Same exec (Twins hidden A u) p q s t

section Rules

variable {α β : Type} (h : Twins hidden A u s t)
include h

theorem twin_ret (a : α) : Twin hidden A u (.ret a) (.ret a) s t := fun _ _ => ⟨rfl, h⟩

theorem twin_fail (e : Failure) : Twin hidden A u (.fail e : M α) (.fail e) s t :=
  fun _ _ => ⟨rfl, h⟩

/-- Both programs end with what they have read. -/
theorem twin_value {p q : M α} {r : Except Failure α} (hp : run exec p s = (r, s))
    (hq : run exec q t = (r, t)) : Twin hidden A u p q s t := by
  intro _ _
  unfold Same
  rw [hp, hq]
  exact ⟨rfl, h⟩

/-- A part that reads the same on both sides. -/
theorem twin_read {p q : M α} {f g : α → M β} {r : Except Failure α}
    (hp : run exec p s = (r, s)) (hq : run exec q t = (r, t))
    (hfg : ∀ a, r = .ok a → Twin hidden A u (f a) (g a) s t) :
    Twin hidden A u (p >>= f) (q >>= g) s t := by
  intro hcp hcq
  cases r with
  | error e =>
    unfold Same
    rw [run_bind_error exec hp, run_bind_error exec hq]
    exact ⟨rfl, h⟩
  | ok a =>
    have hrest := hfg a rfl (hcp.bind_right hp) (hcq.bind_right hq)
    unfold Same at hrest ⊢
    rw [run_bind_ok exec hp, run_bind_ok exec hq]
    exact hrest

omit h in
/-- A part that succeeds on both sides, with values that may differ. -/
theorem twin_reads {p q : M α} {f g : α → M β} {a b : α} (hp : run exec p s = (.ok a, s))
    (hq : run exec q t = (.ok b, t)) (hfg : Twin hidden A u (f a) (g b) s t) :
    Twin hidden A u (p >>= f) (q >>= g) s t := by
  intro hcp hcq
  have hrest := hfg (hcp.bind_right hp) (hcq.bind_right hq)
  unfold Same at hrest ⊢
  rw [run_bind_ok exec hp, run_bind_ok exec hq]
  exact hrest

/-- Sequencing of parts that write. -/
theorem twin_bind {p q : M α} {f g : α → M β} (hpq : Twin hidden A u p q s t)
    (hfg : ∀ a s' t', run exec p s = (.ok a, s') → run exec q t = (.ok a, t') → s.Grows s' →
      Twins hidden A u s' t' → Twin hidden A u (f a) (g a) s' t') :
    Twin hidden A u (p >>= f) (q >>= g) s t := by
  intro hcp hcq
  refine same_bind (hpq hcp.bind_left hcq.bind_left) fun a s' t' hp hq h' => ?_
  have hgrows : s.Grows s' := by
    have hkeep : ∀ (x : Db) (c : Call), Lawful x c → Inv x ∧ s.Grows x →
        Inv (exec c x).2 ∧ s.Grows (exec c x).2 := fun x c hL hx =>
      ⟨hx.1.exec hL, hx.2.trans (hL.grows hx.1.keyed)⟩
    have hall := hcp.bind_left.preserves hkeep ⟨h.left.inv, .refl s⟩
    rw [hp] at hall
    exact hall.2
  exact hfg a s' t' hp hq hgrows h' (hcp.bind_right hp) (hcq.bind_right hq)

theorem twin_perform {c : Call} (hs : Open hidden s c) (ht : Open hidden t c) :
    Twin hidden A u (perform c) (perform c) s t := by
  intro hcp hcq
  have hexec := h.exec hcp.1 hcq.1 hs ht
  unfold Same
  rw [run_perform, run_perform]
  exact hexec

/-- A call that writes. -/
theorem twin_write {c : Call} {f g : c.Answer → M β} (hs : Open hidden s c)
    (ht : Open hidden t c)
    (hfg : ∀ a s' t', exec c s = (.ok a, s') → exec c t = (.ok a, t') → s.Grows s' →
      Twins hidden A u s' t' → Twin hidden A u (f a) (g a) s' t') :
    Twin hidden A u (perform c >>= f) (perform c >>= g) s t := by
  refine twin_bind h (twin_perform h hs ht) fun a s' t' hp hq => ?_
  rw [run_perform] at hp hq
  exact hfg a s' t' hp hq

theorem twin_rejectIf {P Q : Prop} [Decidable P] [Decidable Q] {e : RpcError}
    {f g : Unit → M β} (hPQ : P ↔ Q) (hfg : ¬ P → Twin hidden A u (f ()) (g ()) s t) :
    Twin hidden A u (rejectIf P e >>= f) (rejectIf Q e >>= g) s t := by
  by_cases hP : P
  · refine twin_read h (r := .error (.rpc e)) ?_ ?_ fun _ ha => nomatch ha
    · rw [run_rejectIf, if_pos hP]
    · rw [run_rejectIf, if_pos (hPQ.mp hP)]
  · refine twin_reads (a := ()) (b := ()) ?_ ?_ (hfg hP)
    · rw [run_rejectIf, if_neg hP]
    · rw [run_rejectIf, if_neg (fun hQ => hP (hPQ.mpr hQ))]

theorem twin_require {a : Option α} {e : RpcError} {f g : α → M β}
    (hfg : ∀ x, a = some x → Twin hidden A u (f x) (g x) s t) :
    Twin hidden A u (require a e >>= f) (require a e >>= g) s t := by
  cases a with
  | none => exact twin_fail h _
  | some x => exact hfg x rfl

/-- The rounds of a loop, with what each knows of the rounds still to come. -/
theorem twin_collect {f : α → M (Option β)} {as : List α} {P : List α → Db → Prop} (hP : P as s)
    (hf : ∀ a as s' t', P (a :: as) s' → Twins hidden A u s' t' →
      Twin hidden A u (f a) (f a) s' t')
    (hkeep : ∀ a as b s' s'', P (a :: as) s' → Inv s' → run exec (f a) s' = (.ok b, s'') →
      s'.Grows s'' → P as s'') :
    Twin hidden A u (collect f as) (collect f as) s t := by
  induction as generalizing s t with
  | nil => exact twin_ret h _
  | cons a as ih =>
    refine twin_bind h (hf a as s t hP h) fun b s' t' hp _ hgrows h' => ?_
    refine twin_bind h' ?_ fun bs s'' t'' _ _ _ h'' => twin_ret h'' _
    exact ih h' (hkeep a as b s s' hP h.left.inv hp hgrows)

omit h in
theorem twin_attempt {p q : M α} (hpq : Twin hidden A u p q s t) :
    Twin hidden A u p.attempt q.attempt s t :=
  fun hcp hcq => (hpq hcp.of_attempt hcq.of_attempt).attempt

omit h in
theorem twin_map {p q : M α} (f : α → β) (hpq : Twins hidden A u s t → Twin hidden A u p q s t)
    (h : Twins hidden A u s t) : Twin hidden A u (f <$> p) (f <$> q) s t :=
  twin_bind h (hpq h) fun _ _ _ _ _ _ h' => twin_ret h' _

end Rules

/-! ## Parts of the operations -/

section Parts

variable {β : Type} (h : Twins hidden A u s t)
include h

/-- The guard of most operations. What it lets through is outside `hidden`. -/
theorem twin_requireMembership {c : ConversationId} {f g : ConversationWithMembers → M β}
    (hfg : ∀ cv, s.membership c u = .ok cv → t.membership c u = .ok cv → cv.id = c →
      hidden c = false → Twin hidden A u (f cv) (g cv) s t) :
    Twin hidden A u (requireMembership c u >>= f) (requireMembership c u >>= g) s t := by
  have heq := h.agree.membership h.left h.right c
  refine twin_read h (run_requireMembership c u) (heq ▸ run_requireMembership c u) fun cv hcv => ?_
  have hvisible : hidden c = false := by
    obtain ⟨_, _, m, hm⟩ := Db.membership_eq_ok hcv
    obtain ⟨hmem, huser, hleft⟩ := findActive_eq_some hm
    obtain ⟨hmem, hconv⟩ := Db.mem_membersOf.mp hmem
    cases hc : hidden c with
    | false => rfl
    | true =>
      refine absurd hleft (h.left.outside m hmem (hconv.symm ▸ hc) ?_)
      rw [← huser, h.left.inv.canon m hmem]
  exact hfg cv hcv (heq ▸ hcv) (Db.membership_id hcv) hvisible

/-- A message that has to be there. -/
theorem twin_findMessage {c : ConversationId} (hc : hidden c = false) {m : MessageId}
    {e : RpcError} {f g : Message → M β}
    (hfg : ∀ x x', x ∈ s.messages → x' ∈ t.messages → x.redact = x'.redact → x.id = m →
      x.conversationId = c → Twin hidden A u (f x) (g x') s t) :
    Twin hidden A u (perform (.findMessage m c) >>= fun found => require found e >>= f)
      (perform (.findMessage m c) >>= fun found => require found e >>= g) s t := by
  refine twin_reads (run_perform exec _ s) (run_perform exec _ t) ?_
  have hfind := h.agree.findMessage m hc
  cases hx : s.messages.find? fun row => row.id = m ∧ row.conversationId = c with
  | none =>
    rw [hx] at hfind
    cases hx' : t.messages.find? fun row => row.id = m ∧ row.conversationId = c with
    | none => exact twin_fail h _
    | some x' =>
      rw [hx'] at hfind
      cases hfind
  | some x =>
    rw [hx] at hfind
    cases hx' : t.messages.find? fun row => row.id = m ∧ row.conversationId = c with
    | none =>
      rw [hx'] at hfind
      cases hfind
    | some x' =>
      rw [hx'] at hfind
      have hp := List.find?_some hx
      simp only [decide_eq_true_eq] at hp
      exact hfg x x' (List.mem_of_find?_eq_some hx) (List.mem_of_find?_eq_some hx')
        (Option.some.inj hfind) hp.1 hp.2

/-- A message that must not be deleted is the same on both sides. -/
theorem twin_rejectDeleted {x x' : Message} (heq : x.redact = x'.redact) {e : RpcError}
    {f g : Unit → M β}
    (hfg : x.deletedForEveryoneAt = none → x = x' → Twin hidden A u (f ()) (g ()) s t) :
    Twin hidden A u (rejectIf (x.deletedForEveryoneAt ≠ none) e >>= f)
      (rejectIf (x'.deletedForEveryoneAt ≠ none) e >>= g) s t := by
  refine twin_rejectIf h (by rw [redact_deletedForEveryoneAt heq]) fun hdel => ?_
  exact hfg (not_not.mp hdel) (eq_of_redact heq (not_not.mp hdel))

theorem twin_recordAudit (actorId : UserId) (action : String) (type id : Option Text)
    (info : AuditMeta) :
    Twin hidden A u (recordAudit actorId action type id info)
      (recordAudit actorId action type id info) s t :=
  twin_write h trivial trivial fun _ _ _ _ _ _ h' => twin_ret h' _

theorem twin_viewConversation {cv : ConversationWithMembers} (hc : hidden cv.id = false) :
    Twin hidden A u (viewConversation cv u) (viewConversation cv u) s t := by
  have hvisible : ∀ c ∈ [cv.id], hidden c = false := fun c hc' => List.mem_singleton.mp hc' ▸ hc
  refine twin_value h (run_viewConversation cv u) ?_
  rw [run_viewConversation, h.agree.blockFlags,
    h.agree.unreadRows h.left.inv.keyed h.right.inv.keyed u hvisible]

theorem twin_getConversation (c : ConversationId) :
    Twin hidden A u (getConversation c u) (getConversation c u) s t :=
  twin_requireMembership h fun _ _ _ hid hc => twin_viewConversation h (hid ▸ hc)

theorem twin_resolvePrivateDelivery {cv : ConversationWithMembers} {f g : Delivery → M β}
    (hfg : ∀ d, s.delivery cv u = d → Twin hidden A u (f d) (g d) s t) :
    Twin hidden A u (resolvePrivateDelivery cv u >>= f) (resolvePrivateDelivery cv u >>= g) s t :=
  twin_reads (run_resolvePrivateDelivery cv u)
    (h.agree.delivery cv u ▸ run_resolvePrivateDelivery cv u) (hfg _ rfl)

theorem twin_replyTarget {cv : ConversationWithMembers} (hc : hidden cv.id = false)
    {r : Option MessageId} {f g : Option Message → M β}
    (hfg : ∀ a, s.target cv.id r = .ok a → Twin hidden A u (f a) (g a) s t) :
    Twin hidden A u (replyTarget cv r >>= f) (replyTarget cv r >>= g) s t :=
  twin_read h (run_replyTarget cv r) (h.agree.target hc r ▸ run_replyTarget cv r) hfg

/-- Reading the clock. -/
theorem twin_newDate {f g : Time → M β} (hfg : ∀ now, Twin hidden A u (f now) (g now) s t) :
    Twin hidden A u (perform .newDate >>= f) (perform .newDate >>= g) s t :=
  twin_reads (a := jsDate s.now) (b := jsDate s.now) (run_perform exec _ s)
    (by rw [run_perform, h.agree.now]; rfl) (hfg _)

theorem twin_touchConversation {cv : ConversationWithMembers} (hc : hidden cv.id = false)
    (saved : Message) :
    Twin hidden A u (touchConversation cv saved) (touchConversation cv saved) s t :=
  twin_perform h hc hc

/-- The view of one message, which may be newer than its row. -/
theorem twin_viewOne {m m' : Message} (heq : m.redact = m'.redact)
    (hc : hidden m.conversationId = false)
    (hreply : ∀ r, m.replyToMessageId = some r → s.HasMessage r m.conversationId)
    (halive : m.deletedForEveryoneAt = none →
      ∃ row ∈ s.messages, row.id = m.id ∧ row.conversationId = m.conversationId ∧
        row.deletedForEveryoneAt = none)
    (cv : ConversationWithMembers) {f g : MessageView → M β}
    (hfg : ∀ view, Twin hidden A u (f view) (g view) s t) :
    Twin hidden A u (viewOne m cv u >>= f) (viewOne m' cv u >>= g) s t := by
  refine twin_reads (run_viewOne m cv u) (b := s.viewOf m cv.members u) ?_ (hfg _)
  rw [run_viewOne, h.agree.viewOf h.left.inv h.right.inv heq hc hreply halive]

/-- The view of a stored message. -/
theorem twin_viewRow {m m' : Message} (heq : m.redact = m'.redact) (hm : m ∈ s.messages)
    (hc : hidden m.conversationId = false) (cv : ConversationWithMembers) {f g : MessageView → M β}
    (hfg : ∀ view, Twin hidden A u (f view) (g view) s t) :
    Twin hidden A u (viewOne m cv u >>= f) (viewOne m' cv u >>= g) s t :=
  twin_viewOne h heq hc (h.left.inv.replies m hm) (fun hdel => ⟨m, hm, rfl, rfl, hdel⟩) cv hfg

theorem twin_viewItems {items items' : List Message}
    (heq : items.map Message.redact = items'.map Message.redact)
    (hitems : ∀ m ∈ items, m ∈ s.messages ∧ hidden m.conversationId = false)
    {members : Message → List ConversationMember}
    (hmembers : ∀ m m', m.redact = m'.redact → members m = members m')
    {f g : List MessageView → M β} (hfg : ∀ views, Twin hidden A u (f views) (g views) s t) :
    Twin hidden A u (viewItems items members u >>= f) (viewItems items' members u >>= g) s t := by
  refine twin_reads (run_viewItems items members u)
    (b := items.map fun m => s.viewOf m (members m) u) ?_ (hfg _)
  rw [run_viewItems, h.agree.viewItems h.left.inv h.right.inv heq hitems members hmembers]

/-- A page of messages. -/
theorem twin_listMessages {f : MessageFilter} (hids : ∀ c ∈ f.conversationIds, hidden c = false)
    (hf : f.onlyAlive = true ∨ f.pattern = none ∧ f.media = none) {skip take : Nat}
    {k k' : List Message × Nat → M β}
    (hk : ∀ items items' total, items.map Message.redact = items'.map Message.redact →
      (∀ m ∈ items, m ∈ s.messages ∧ hidden m.conversationId = false) →
      Twin hidden A u (k (items, total)) (k' (items', total)) s t) :
    Twin hidden A u (perform (.listMessages f skip take) >>= k)
      (perform (.listMessages f skip take) >>= k') s t := by
  have heq := h.agree.listMessages h.left.inv.keyed h.right.inv.keyed hids hf
  have hlength := congrArg List.length heq
  rw [List.length_map, List.length_map] at hlength
  refine twin_reads (run_perform exec _ s) (run_perform exec _ t) ?_
  rw [← hlength]
  refine hk _ _ _ ?_ fun m hm => Agree.mem_listMessages hids hm
  rw [List.map_take, List.map_drop, heq, List.map_take, List.map_drop]

end Parts

/-! ## Reading -/

section Reading

variable (h : Twins hidden A u s t)
include h

/-- The views of a page of messages of one conversation. -/
theorem twin_viewPage {f : MessageFilter} (hids : ∀ c ∈ f.conversationIds, hidden c = false)
    (hf : f.onlyAlive = true ∨ f.pattern = none ∧ f.media = none) (page : Page)
    (members : List ConversationMember) :
    Twin hidden A u
      (do
        let (items, total) ← perform (.listMessages f page.skip page.take)
        let views ← viewItems items (fun _ => members) u
        return buildPaginatedResult views total page)
      (do
        let (items, total) ← perform (.listMessages f page.skip page.take)
        let views ← viewItems items (fun _ => members) u
        return buildPaginatedResult views total page) s t :=
  twin_listMessages h hids hf fun _ _ _ heq hitems =>
    twin_viewItems h heq hitems (fun _ _ _ => rfl) fun _ => twin_ret h _

theorem twin_listMessagesOp (c : ConversationId) (page : Page) :
    Twin hidden A u (listMessages c u page) (listMessages c u page) s t := by
  refine twin_requireMembership h fun cv _ _ _ hc =>
    twin_viewPage h ?_ (.inr ⟨rfl, rfl⟩) page cv.members
  exact fun x hx => List.mem_singleton.mp hx ▸ hc

theorem twin_searchMessages (c : ConversationId) (query : Text) (page : Page) :
    Twin hidden A u (searchMessages c u query page) (searchMessages c u query page) s t := by
  refine twin_requireMembership h fun cv _ _ _ hc => twin_rejectIf h Iff.rfl fun _ =>
    twin_viewPage h ?_ (.inl rfl) page cv.members
  exact fun x hx => List.mem_singleton.mp hx ▸ hc

theorem twin_listMedia (c : ConversationId) (kind : Option MediaKindFilter) (page : Page) :
    Twin hidden A u (listMedia c u kind page) (listMedia c u kind page) s t := by
  refine twin_requireMembership h fun cv _ _ _ hc =>
    twin_viewPage h ?_ (.inl rfl) page cv.members
  exact fun x hx => List.mem_singleton.mp hx ▸ hc

/-- The conversations of the actor are outside `hidden`. -/
theorem visible_memberships {c : ConversationId}
    (hc : c ∈ (s.members.filter fun m => m.userId = u.canon ∧ m.leftAt = none).map
      ConversationMember.conversationId) : hidden c = false := by
  obtain ⟨m, hm, rfl⟩ := List.mem_map.mp hc
  obtain ⟨hmem, hm⟩ := List.mem_filter.mp hm
  simp only [decide_eq_true_eq] at hm
  cases hhid : hidden m.conversationId with
  | false => rfl
  | true => exact absurd hm.2 (h.left.outside m hmem hhid hm.1)

theorem twin_searchGlobal (query : Text) (page : Page) :
    Twin hidden A u (searchGlobal u query page) (searchGlobal u query page) s t := by
  refine twin_rejectIf h Iff.rfl fun _ => ?_
  split
  · exact twin_ret h _
  refine twin_read h (run_perform exec _ s) (r := .ok _) ?_ fun memberships hm => ?_
  · rw [run_perform]
    simp only [exec, h.agree.findMemberships h.left h.right]
  cases hm
  dsimp only
  split
  · exact twin_ret h _
  refine twin_listMessages h (fun c hc => visible_memberships h hc) (.inl rfl)
    fun items items' total heq hitems => ?_
  have hids : items.map Message.conversationId = items'.map Message.conversationId := by
    have hid : Message.conversationId ∘ Message.redact = Message.conversationId :=
      funext fun m => Message.conversationId_of_origin (origin_redact m)
    rw [← hid, ← List.map_map, heq, List.map_map]
  dsimp only
  rw [← hids]
  have hconversations : run exec (loadConversations (items.map Message.conversationId).eraseDups) t =
      ((run exec (loadConversations (items.map Message.conversationId).eraseDups) s).1, t) := by
    unfold loadConversations
    split
    · rfl
    · rw [run_perform, run_perform]
      simp only [exec]
      rw [h.agree.findConversations]
      intro c hc
      obtain ⟨m, hm, rfl⟩ := List.mem_map.mp (List.mem_eraseDups.mp hc)
      exact (hitems m hm).2
  have hquiet : run exec (loadConversations (items.map Message.conversationId).eraseDups) s =
      ((run exec (loadConversations (items.map Message.conversationId).eraseDups) s).1, s) := by
    unfold loadConversations
    split <;> rfl
  refine twin_read h hquiet hconversations fun conversations _ => ?_
  refine twin_viewItems h heq hitems (fun m m' hmm' => ?_) fun views => twin_ret h _
  unfold hitMembers
  rw [Message.conversationId_of_origin (redact_origin hmm')]

theorem twin_getMessage (c : ConversationId) (m : MessageId) :
    Twin hidden A u (getMessage c m u) (getMessage c m u) s t := by
  refine twin_requireMembership h fun cv _ _ _ hc =>
    twin_findMessage h hc fun x x' hx hx' heq hid hconv => ?_
  have hxc : hidden x.conversationId = false := hconv ▸ hc
  have hids := Message.id_of_origin (redact_origin heq)
  refine twin_reads (run_perform exec _ s) (run_perform exec _ t) ?_
  rw [← hids, ← h.agree.findHide h.left.inv.keyed h.right.inv.keyed hx hxc u]
  refine twin_rejectIf h Iff.rfl fun _ => ?_
  refine twin_reads (run_loadReplyParents [x]) (run_loadReplyParents [x']) ?_
  refine twin_reads (run_loadReactions [x.id]) (run_loadReactions [x.id]) ?_
  have hview := h.agree.viewOf_row h.left.inv h.right.inv heq hx hxc cv.members u
  rw [replyOf_filter fun r hr => by simp [hr], replyOf_filter fun r hr => by simp [hr],
    reactionsOf_filter List.mem_cons_self, reactionsOf_filter List.mem_cons_self]
  unfold Db.viewOf at hview
  rw [← hids] at hview
  rw [hview]
  exact twin_ret h _

theorem twin_listPinnedMessages (c : ConversationId) :
    Twin hidden A u (listPinnedMessages c u) (listPinnedMessages c u) s t := by
  refine twin_requireMembership h fun cv _ _ _ hc =>
    twin_reads (run_perform exec _ s) (run_perform exec _ t) ?_
  have heq := h.agree.listPinned h.left.inv.keyed h.right.inv.keyed hc u
  refine twin_value h (run_viewItems _ _ u) ?_
  rw [run_viewItems, ← h.agree.viewItems h.left.inv h.right.inv ?_ ?_ _ fun _ _ _ => rfl]
  · rw [List.map_take, List.map_take, heq]
  · intro m hm
    have hm := List.mem_of_mem_take hm
    rw [orderDesc, List.mem_insertionSort, List.mem_filter, Bool.and_eq_true] at hm
    exact ⟨hm.1, Agree.pinnedIn_eq_true hm.2.1 ▸ hc⟩

omit h in
theorem run_latestMessages (ids : List ConversationId) :
    run exec (latestMessagesByConversation ids u) s =
      (.ok (if ids = [] then [] else s.latestRows u ids), s) := by
  unfold latestMessagesByConversation
  split <;> rfl

theorem twin_blockFlags {β : Type} (cvs : List ConversationWithMembers)
    {f g : List (ConversationId × BlockFlags) → M β}
    (hfg : ∀ flags, Twin hidden A u (f flags) (g flags) s t) :
    Twin hidden A u (blockFlagsForConversations cvs u >>= f)
      (blockFlagsForConversations cvs u >>= g) s t := by
  have hpeers : ∀ peers, (exec (.findPeerBlocks u peers) t) =
      ((exec (.findPeerBlocks u peers) s).1, t) := by
    intro peers
    simp only [exec, h.agree.userBlocks]
  unfold blockFlagsForConversations
  dsimp only
  split
  · exact hfg _
  · rw [Prog.bind_assoc', Prog.bind_assoc']
    exact twin_read h (run_perform exec _ s) ((run_perform exec _ t).trans (hpeers _))
      fun blocks _ => hfg _

theorem twin_listConversations (page : Page) :
    Twin hidden A u (listConversations u page) (listConversations u page) s t := by
  refine twin_read h (run_perform exec _ s) (r := .ok _) ?_ fun memberships hm => ?_
  · rw [run_perform]
    simp only [exec, h.agree.findMemberships h.left h.right]
  cases hm
  dsimp only
  split
  · exact twin_ret h _
  refine twin_read h (run_perform exec _ s) (r := .ok _) ?_ fun items hitems => ?_
  · rw [run_perform]
    simp only [exec]
    rw [h.agree.findConversations fun c hc => visible_memberships h hc]
  cases hitems
  generalize hpage : ((sortConversations _ _).drop page.skip).take page.take = pageItems
  -- the conversations on the page are conversations of the actor
  have hvisible : ∀ c ∈ pageItems.map fun item => item.id, hidden c = false := by
    intro c hc
    obtain ⟨item, hitem, rfl⟩ := List.mem_map.mp hc
    rw [← hpage] at hitem
    have hitem := List.mem_of_mem_drop (List.mem_of_mem_take hitem)
    unfold sortConversations at hitem
    rw [List.mem_insertionSort] at hitem
    obtain ⟨row, hrow, rfl⟩ := List.mem_map.mp hitem
    have hrow := (List.mem_filter.mp hrow).2
    simp only [decide_eq_true_eq] at hrow
    exact visible_memberships h hrow.1
  have hunread := h.agree.unreadRows h.left.inv.keyed h.right.inv.keyed u hvisible
  refine twin_reads (run_unreadCounts u _) (run_unreadCounts u _) ?_
  rw [← hunread]
  refine twin_reads (run_latestMessages _) (run_latestMessages _) ?_
  refine twin_blockFlags h _ fun flags => ?_
  have hlatest : (if pageItems.map (fun item => item.id) = [] then []
        else s.latestRows u (pageItems.map fun item => item.id)).map Message.redact =
      (if pageItems.map (fun item => item.id) = [] then []
        else t.latestRows u (pageItems.map fun item => item.id)).map Message.redact := by
    split
    · rfl
    · exact h.agree.latestRows u hvisible
  generalize (if pageItems.map (fun item => item.id) = [] then []
    else s.latestRows u (pageItems.map fun item => item.id)) = latest at hlatest ⊢
  generalize (if pageItems.map (fun item => item.id) = [] then []
    else t.latestRows u (pageItems.map fun item => item.id)) = latest' at hlatest ⊢
  have hviews : ∀ (item : ConversationWithMembers) (n : Nat) (flags : BlockFlags),
      toConversationView item u n (latest.find? fun m => m.conversationId = item.id) flags =
        toConversationView item u n (latest'.find? fun m => m.conversationId = item.id) flags := by
    intro item n flags
    have hfind : (latest.find? fun m => m.conversationId = item.id).map Message.redact =
        (latest'.find? fun m => m.conversationId = item.id).map Message.redact := by
      rw [← List.head?_filter, ← List.head?_filter, ← List.head?_map, ← List.head?_map,
        filter_map_eq hlatest fun a _ b _ hab => by
          rw [Message.conversationId_of_origin (redact_origin hab)]]
    have hview : ∀ members : List ConversationMember,
        (latest.find? fun m => m.conversationId = item.id).map
            (fun m => toMessageView m members none [] u) =
          (latest'.find? fun m => m.conversationId = item.id).map
            fun m => toMessageView m members none [] u := by
      intro members
      generalize latest.find? (fun m => decide (m.conversationId = item.id)) = o at hfind ⊢
      generalize latest'.find? (fun m => decide (m.conversationId = item.id)) = o' at hfind ⊢
      cases o <;> cases o'
      · rfl
      · cases hfind
      · cases hfind
      · exact congrArg some
          (toMessageView_redact (Option.some.inj hfind) members rfl (fun _ => rfl) u)
    unfold toConversationView
    simp only [hview]
  simp only [hviews]
  exact twin_ret h _

end Reading

/-! ## Sending -/

section Sending

variable (h : Twins hidden A u s t)
include h

theorem twin_sendMessage {payload : SendMessage} (hu : payload.actorId = u) :
    Twin hidden A u (sendMessage payload) (sendMessage payload) s t := by
  subst hu
  refine twin_rejectIf h Iff.rfl fun _ => twin_require h fun type _ => ?_
  split
  · refine twin_rejectIf h Iff.rfl fun _ => twin_rejectIf h Iff.rfl fun _ =>
      twin_requireMembership h fun cv _ _ hid hc => ?_
    have hcv : hidden cv.id = false := hid ▸ hc
    refine twin_write h (c := .insertMessage _) hcv hcv fun saved _ _ _ _ _ h₁ => ?_
    exact twin_bind h₁ (twin_touchConversation h₁ hcv saved) fun _ _ _ _ _ _ h₂ => twin_ret h₂ _
  · refine twin_requireMembership h fun cv _ _ hid hc => ?_
    have hcv : hidden cv.id = false := hid ▸ hc
    refine twin_resolvePrivateDelivery h fun d _ => twin_rejectIf h Iff.rfl fun _ =>
      twin_replyTarget h hcv fun replyTo _ => twin_newDate h fun now => ?_
    refine twin_write h (c := .insertMessage _) hcv hcv fun saved _ _ _ _ _ h₁ => ?_
    refine twin_bind h₁ (twin_touchConversation h₁ hcv saved) fun _ _ _ _ _ _ h₂ => ?_
    exact twin_bind h₂ (twin_recordAudit h₂ _ _ _ _ _) fun _ _ _ _ _ _ h₃ => twin_ret h₃ _

theorem twin_forwardMessage (source target : ConversationId) (m : MessageId) :
    Twin hidden A u (forwardMessage u source target m) (forwardMessage u source target m) s t := by
  refine twin_requireMembership h fun src _ _ hsrc hc =>
    twin_requireMembership h fun cv _ _ hid hc' => ?_
  have hcv : hidden cv.id = false := hid ▸ hc'
  refine twin_findMessage h (hsrc ▸ hc) fun x x' _ _ heq _ _ =>
    twin_rejectDeleted h heq fun _ hxx' => ?_
  subst hxx'
  refine twin_resolvePrivateDelivery h fun d _ => twin_rejectIf h Iff.rfl fun _ =>
    twin_newDate h fun now => ?_
  refine twin_write h (c := .insertMessage _) hcv hcv fun saved _ _ _ _ _ h₁ => ?_
  exact twin_bind h₁ (twin_touchConversation h₁ hcv saved) fun _ _ _ _ _ _ h₂ => twin_ret h₂ _

end Sending

/-! ## Changing a message -/

section Changing

variable (h : Twins hidden A u s t)
include h

omit h in
/-- The row that is saved over one that was alive. -/
theorem open_saveMessage (hs : Inv s) {x x' : Message} (hx : x ∈ s.messages)
    (ho : x'.origin = x.origin) (halive : x.deletedForEveryoneAt = none)
    (hc : hidden x.conversationId = false) : Open hidden s (.saveMessage x') := by
  refine ⟨Message.conversationId_of_origin ho ▸ hc, fun _ row hrow hid => ?_⟩
  rw [hs.keyed.messages.eq_of_id_eq hrow hx (hid.trans (Message.id_of_origin ho))]
  exact halive

/-- Saving a live message that both sides have loaded. -/
theorem twin_saveMessage {β : Type} {x x' : Message} (hx : x ∈ s.messages) (hxt : x ∈ t.messages)
    (ho : x'.origin = x.origin) (halive : x.deletedForEveryoneAt = none)
    (hc : hidden x.conversationId = false) {f g : Unit → M β}
    (hfg : ∀ s' t', x' ∈ s'.messages → s.Grows s' → Twins hidden A u s' t' →
      Twin hidden A u (f ()) (g ()) s' t') :
    Twin hidden A u (perform (.saveMessage x') >>= f) (perform (.saveMessage x') >>= g) s t := by
  refine twin_write h (open_saveMessage h.left.inv hx ho halive hc)
    (open_saveMessage h.right.inv hxt ho halive hc) fun _ s' t' hs' _ hgrows h' => ?_
  refine hfg s' t' ?_ hgrows h'
  cases hs'
  exact List.mem_map.mpr ⟨x, hx, by rw [if_pos (Message.id_of_origin ho).symm]⟩

theorem twin_editMessage (c : ConversationId) (m : MessageId) (body : Text) :
    Twin hidden A u (editMessage c m u body) (editMessage c m u body) s t := by
  refine twin_requireMembership h fun cv _ _ hid hc =>
    twin_findMessage h (hid ▸ hc) fun x x' hx hx' heq _ hconv =>
      twin_rejectIf h (by rw [Message.senderId_of_origin (redact_origin heq)]) fun _ =>
        twin_rejectDeleted h heq fun halive hxx' => ?_
  subst hxx'
  refine twin_newDate h fun now => twin_rejectIf h Iff.rfl fun _ => twin_rejectIf h Iff.rfl fun _ =>
    twin_newDate h fun editedAt => ?_
  have hxc : hidden x.conversationId = false := hconv ▸ hid ▸ hc
  refine twin_saveMessage h hx hx' ?_ halive hxc fun s' t' hmem _ h' => ?_
  · rfl
  · exact twin_viewRow h' rfl hmem hxc cv fun _ => twin_ret h' _

theorem twin_toggleReaction {x : Message} (hx : x ∈ s.messages)
    (hc : hidden x.conversationId = false) (halive : x.deletedForEveryoneAt = none)
    (emoji : Text) :
    Twin hidden A u (toggleReaction x.id u emoji) (toggleReaction x.id u emoji) s t := by
  have hks := h.left.inv.keyed
  have hkt := h.right.inv.keyed
  refine twin_reads (run_perform exec _ s) (run_perform exec _ t) ?_
  rw [← h.agree.findReaction hks hkt hx hc halive u emoji]
  have hshows := h.agree.showsAlive hks hkt hx hc halive
  cases s.messageReactions.find? fun r =>
      r.messageId = x.id ∧ r.userId = u.canon ∧ r.emoji = emoji with
  | none => exact twin_perform h hshows.1 hshows.2
  | some r => exact twin_perform h trivial trivial

theorem twin_reactMessage (c : ConversationId) (m : MessageId) (emoji : Text) :
    Twin hidden A u (reactMessage c m u emoji) (reactMessage c m u emoji) s t := by
  refine twin_requireMembership h fun cv _ _ hid hc => twin_rejectIf h Iff.rfl fun _ =>
    twin_findMessage h (hid ▸ hc) fun x x' hx _ heq _ hconv =>
      twin_rejectDeleted h heq fun halive hxx' => ?_
  subst hxx'
  have hxc : hidden x.conversationId = false := hconv ▸ hid ▸ hc
  refine twin_bind h (twin_toggleReaction h hx hxc halive emoji) fun _ s' t' hs' _ _ h' => ?_
  have hmessages := ((quiet_toggleReaction x.id u emoji).run s).2.2
  rw [hs'] at hmessages
  exact twin_viewRow h' rfl (hmessages ▸ hx) hxc cv fun _ => twin_ret h' _

/-- The message `setPinned` returns is stored, and only its pin may differ from the one given. -/
theorem twin_setPinned {x : Message} (hx : x ∈ s.messages) (hxt : x ∈ t.messages)
    (halive : x.deletedForEveryoneAt = none) (hc : hidden x.conversationId = false)
    (pinned : Bool) :
    Twin hidden A u (setPinned x x.conversationId u pinned) (setPinned x x.conversationId u pinned)
      s t := by
  unfold setPinned
  split
  · split
    · refine twin_reads (run_perform exec _ s) (run_perform exec _ t) ?_
      rw [← h.agree.countPinned hc]
      refine twin_rejectIf h Iff.rfl fun _ => twin_newDate h fun now => ?_
      refine twin_saveMessage h hx hxt ?_ halive hc fun _ _ _ _ h' => twin_ret h' _
      rfl
    · exact twin_ret h _
  · split
    · refine twin_saveMessage h hx hxt ?_ halive hc fun _ _ _ _ h' => twin_ret h' _
      rfl
    · exact twin_ret h _

omit h in
theorem run_setPinned {x y : Message} (hx : x ∈ s.messages) {c : ConversationId} {pinned : Bool}
    {s' : Db} (hrun : run exec (setPinned x c u pinned) s = (.ok y, s')) :
    y ∈ s'.messages ∧ y.conversationId = x.conversationId := by
  have hsave : ∀ y : Message, y.id = x.id →
      y ∈ (exec (.saveMessage y) s).2.messages := fun y hid =>
    List.mem_map.mpr ⟨x, hx, by rw [if_pos hid.symm]⟩
  unfold setPinned at hrun
  split at hrun
  · split at hrun
    · rw [run_read (a := (s.messages.filter (pinnedIn c)).length) rfl] at hrun
      by_cases hcount : 3 ≤ (s.messages.filter (pinnedIn c)).length
      · rw [run_rejectIf_pos hcount] at hrun
        cases hrun
      · rw [run_rejectIf_neg hcount, run_read (a := jsDate s.now) rfl,
          run_write (a := ()) rfl] at hrun
        cases hrun
        exact ⟨hsave _ rfl, rfl⟩
    · cases hrun
      exact ⟨hx, rfl⟩
  · split at hrun
    · rw [run_write (a := ()) rfl] at hrun
      cases hrun
      exact ⟨hsave _ rfl, rfl⟩
    · cases hrun
      exact ⟨hx, rfl⟩

theorem twin_pinMessage (c : ConversationId) (m : MessageId) (pinned : Bool) :
    Twin hidden A u (pinMessage c m u pinned) (pinMessage c m u pinned) s t := by
  refine twin_requireMembership h fun cv _ _ hid hc =>
    twin_findMessage h (hid ▸ hc) fun x x' hx hx' heq _ hconv =>
      twin_rejectDeleted h heq fun halive hxx' => twin_rejectIf h (by rw [hxx']) fun _ => ?_
  subst hxx'
  have hxc : hidden x.conversationId = false := hconv ▸ hid ▸ hc
  rw [← hconv]
  refine twin_bind h (twin_setPinned h hx hx' halive hxc pinned) fun y s' t' hs' _ _ h' => ?_
  obtain ⟨hy, hyc⟩ := run_setPinned hx hs'
  exact twin_viewRow h' rfl hy (hyc ▸ hxc) cv fun _ => twin_ret h' _

theorem twin_hideMessage {x : Message} (hx : x ∈ s.messages)
    (hc : hidden x.conversationId = false) :
    Twin hidden A u (hideMessage x.id u) (hideMessage x.id u) s t := by
  have hks := h.left.inv.keyed
  have hkt := h.right.inv.keyed
  refine twin_reads (run_perform exec _ s) (run_perform exec _ t) ?_
  rw [← h.agree.findHide hks hkt hx hc u]
  have hshows := h.agree.shows hks hkt hx hc
  split
  · exact twin_perform h hshows.1 hshows.2
  · exact twin_ret h _

theorem twin_deleteMessage (c : ConversationId) (m : MessageId) (forEveryone : Bool) :
    Twin hidden A u (deleteMessage c m u forEveryone) (deleteMessage c m u forEveryone) s t := by
  refine twin_requireMembership h fun cv _ _ hid hc =>
    twin_findMessage h (hid ▸ hc) fun x x' hx hx' heq _ hconv => ?_
  have hxc : hidden x.conversationId = false := hconv ▸ hid ▸ hc
  split
  · refine twin_rejectIf h (by rw [Message.senderId_of_origin (redact_origin heq)]) fun _ => ?_
    by_cases halive : x.deletedForEveryoneAt = none
    · have hxx' := eq_of_redact heq halive
      subst hxx'
      rw [if_neg (not_not.mpr halive)]
      refine twin_newDate h fun now => twin_rejectIf h Iff.rfl fun _ =>
        twin_newDate h fun deletedAt => ?_
      refine twin_saveMessage h hx hx' (x.origin_bury deletedAt) halive hxc
        fun s' t' hmem _ h' => ?_
      exact twin_viewRow h' rfl hmem hxc cv fun _ => twin_ret h' _
    · rw [if_pos halive, if_pos (redact_deletedForEveryoneAt heq ▸ halive)]
      exact twin_viewRow h heq hx hxc cv fun _ => twin_ret h _
  · have hids := Message.id_of_origin (redact_origin heq)
    rw [← hids]
    refine twin_bind h (twin_hideMessage h hx hxc) fun _ s' t' hs' _ _ h' => ?_
    have hmessages := ((quiet_hideMessage x.id u).run s).2.2
    rw [hs'] at hmessages
    exact twin_viewRow h' heq (hmessages ▸ hx) hxc cv fun _ => twin_ret h' _

end Changing

/-! ## Scheduled messages -/

section Scheduled

variable (h : Twins hidden A u s t)
include h

theorem twin_checkScheduledReply {cv : ConversationWithMembers} (hc : hidden cv.id = false)
    (r : Option MessageId) :
    Twin hidden A u (checkScheduledReply cv r) (checkScheduledReply cv r) s t := by
  unfold checkScheduledReply
  cases r with
  | none => exact twin_ret h _
  | some id =>
    refine twin_reads (run_perform exec _ s) (run_perform exec _ t) ?_
    have hfind := h.agree.findMessage id hc
    have hall : (s.messages.find? fun row => row.id = id ∧ row.conversationId = cv.id).all
          (fun m => m.deletedForEveryoneAt ≠ none) =
        (t.messages.find? fun row => row.id = id ∧ row.conversationId = cv.id).all
          fun m => m.deletedForEveryoneAt ≠ none := by
      generalize (s.messages.find? fun row => decide (row.id = id ∧ row.conversationId = cv.id)) = o
        at hfind ⊢
      generalize (t.messages.find? fun row => decide (row.id = id ∧ row.conversationId = cv.id)) = o'
        at hfind ⊢
      cases o <;> cases o'
      · rfl
      · cases hfind
      · cases hfind
      · simp [redact_deletedForEveryoneAt (Option.some.inj hfind)]
    refine twin_value h (run_rejectIf _ _) ?_
    rw [run_rejectIf, hall]

theorem twin_scheduleMessage {payload : ScheduleMessage} (hu : payload.actorId = u) :
    Twin hidden A u (scheduleMessage payload) (scheduleMessage payload) s t := by
  subst hu
  refine twin_rejectIf h Iff.rfl fun _ => twin_require h fun type _ => twin_rejectIf h Iff.rfl fun _ =>
    twin_require h fun scheduledFor _ => twin_newDate h fun now => twin_rejectIf h Iff.rfl fun _ =>
      twin_rejectIf h Iff.rfl fun _ => twin_requireMembership h fun cv _ _ hid hc => ?_
  have hcv : hidden cv.id = false := hid ▸ hc
  refine twin_resolvePrivateDelivery h fun d _ => twin_rejectIf h Iff.rfl fun _ => ?_
  refine twin_reads (run_perform exec _ s) (run_perform exec _ t) ?_
  rw [h.agree.scheduled hcv fun row hrow => (of_decide_eq_true hrow).1]
  refine twin_rejectIf h Iff.rfl fun _ =>
    twin_bind h (twin_checkScheduledReply h hcv _) fun _ s₁ t₁ _ _ _ h₁ => ?_
  refine twin_write h₁ (c := .insertScheduled _) hcv hcv fun saved _ _ _ _ _ h₂ => ?_
  exact twin_bind h₂ (twin_recordAudit h₂ _ _ _ _ _) fun _ _ _ _ _ _ h₃ => twin_ret h₃ _

theorem twin_listScheduledMessages (c : ConversationId) :
    Twin hidden A u (listScheduledMessages c u) (listScheduledMessages c u) s t := by
  refine twin_requireMembership h fun cv _ _ hid hc =>
    twin_reads (run_perform exec _ s) (run_perform exec _ t) ?_
  rw [h.agree.scheduled hc fun row hrow => (of_decide_eq_true hrow).1]
  exact twin_ret h _

theorem twin_cancelScheduledMessage (c : ConversationId) (id : Nat) :
    Twin hidden A u (cancelScheduledMessage c id u) (cancelScheduledMessage c id u) s t := by
  refine twin_requireMembership h fun cv _ _ _ hc =>
    twin_reads (run_perform exec _ s) (run_perform exec _ t) ?_
  have hfind : (s.scheduledMessages.find? fun row =>
        row.id = id ∧ row.conversationId = c ∧ row.senderId = u.canon) =
      t.scheduledMessages.find? fun row =>
        row.id = id ∧ row.conversationId = c ∧ row.senderId = u.canon := by
    rw [← List.head?_filter, ← List.head?_filter,
      h.agree.scheduled hc fun row hrow => (of_decide_eq_true hrow).2.1]
  have hstored : ∀ {s : Db} {row : ScheduledMessage}, (s.scheduledMessages.find? fun row =>
      row.id = id ∧ row.conversationId = c ∧ row.senderId = u.canon) = some row →
        row ∈ s.scheduledMessages ∧ row.conversationId = c := by
    intro s row hrow
    have hp := List.find?_some hrow
    simp only [decide_eq_true_eq] at hp
    exact ⟨List.mem_of_find?_eq_some hrow, hp.2.1⟩
  rw [← hfind]
  refine twin_require h fun row hrow => twin_rejectIf h Iff.rfl fun _ => twin_newDate h fun now => ?_
  obtain ⟨hmem, hconv⟩ := hstored hrow
  obtain ⟨hmem', _⟩ := hstored (hfind ▸ hrow)
  refine twin_write h (c := .saveScheduled _) ⟨hconv ▸ hc, fun r hr hid => ?_⟩
    ⟨hconv ▸ hc, fun r hr hid => ?_⟩ fun _ _ _ _ _ _ h' => twin_ret h' _
  · rw [h.left.inv.keyed.scheduled.eq_of_id_eq hr hmem hid, hconv, hc]
  · rw [h.right.inv.keyed.scheduled.eq_of_id_eq hr hmem' hid, hconv, hc]

end Scheduled

/-! ## Memberships and conversations -/

section Memberships

variable (h : Twins hidden A u s t)
include h

omit h in
/-- The members of the conversation an operation has loaded. -/
theorem visible_member {c : ConversationId} {cv : ConversationWithMembers}
    (hcv : s.membership c u = .ok cv) (hc : hidden c = false) {m : ConversationMember}
    (hm : m ∈ cv.members) : hidden m.conversationId = false := by
  rw [(Db.membership_eq_ok hcv).2.1, mem_activeMembers, Db.mem_membersOf] at hm
  rw [hm.1.2, hc]

theorem twin_saveMember {m : ConversationMember} (hc : hidden m.conversationId = false) :
    Twin hidden A u (perform (.saveMember m)) (perform (.saveMember m)) s t :=
  twin_perform h hc hc

theorem twin_updateMembership (c : ConversationId)
    {update : Time → ConversationMember → ConversationMember}
    (ho : ∀ now m, (update now m).conversationId = m.conversationId) :
    Twin hidden A u (updateMembership c u update) (updateMembership c u update) s t := by
  refine twin_requireMembership h fun cv hcv _ _ hc => twin_require h fun m hm =>
    twin_newDate h fun now => ?_
  have hmc := visible_member hcv hc (findActive_eq_some hm).1
  refine twin_bind h (twin_saveMember h (ho now m ▸ hmc)) fun _ _ _ _ _ _ h' => ?_
  exact twin_getConversation h' c

theorem twin_seenMessage {c : ConversationId} (hc : hidden c = false) (m : Option MessageId) :
    Twin hidden A u (seenMessage c m) (seenMessage c m) s t := by
  unfold seenMessage
  cases m with
  | none => exact twin_ret h _
  | some id =>
    refine twin_findMessage h hc fun x x' _ _ heq _ _ => ?_
    rw [Message.id_of_origin (redact_origin heq)]
    exact twin_ret h _

theorem twin_advanceReadAt {m : ConversationMember} (hc : hidden m.conversationId = false)
    (next : Time) : Twin hidden A u (advanceReadAt m next) (advanceReadAt m next) s t := by
  unfold advanceReadAt
  split
  · split
    · exact twin_write h (c := .saveMember _) hc hc fun _ _ _ _ _ _ h' => twin_ret h' _
    · exact twin_ret h _
  · exact twin_write h (c := .saveMember _) hc hc fun _ _ _ _ _ _ h' => twin_ret h' _

theorem twin_markSeen (c : ConversationId) (m : Option MessageId) :
    Twin hidden A u (markSeen c u m) (markSeen c u m) s t := by
  refine twin_requireMembership h fun cv hcv _ hid hc => twin_require h fun member hmember =>
    twin_newDate h fun next => ?_
  have hmc := visible_member hcv hc (findActive_eq_some hmember).1
  refine twin_bind h (twin_seenMessage h (hid ▸ hc) m) fun seen _ _ _ _ _ h₁ => ?_
  exact twin_bind h₁ (twin_advanceReadAt h₁ hmc next) fun _ _ _ _ _ _ h₂ => twin_ret h₂ _

theorem twin_saveConversation {cv : ConversationWithMembers} (hc : hidden cv.id = false) :
    Twin hidden A u (perform (.saveConversation cv)) (perform (.saveConversation cv)) s t :=
  twin_perform h hc hc

theorem twin_setDisappearingMessages (c : ConversationId) (n : Nat) :
    Twin hidden A u (setDisappearingMessages c u n) (setDisappearingMessages c u n) s t := by
  refine twin_requireMembership h fun cv _ _ hid hc => twin_rejectIf h Iff.rfl fun _ =>
    twin_rejectIf h Iff.rfl fun _ => ?_
  have hcv : hidden cv.id = false := hid ▸ hc
  refine twin_bind h (twin_saveConversation h hcv) fun _ _ _ _ _ _ h₁ => ?_
  refine twin_bind h₁ (twin_recordAudit h₁ _ _ _ _ _) fun _ _ _ _ _ _ h₂ => ?_
  exact twin_getConversation h₂ c

theorem twin_assertGroupAdmin {β : Type} {cv : ConversationWithMembers} {f g : Unit → M β}
    (hfg : Twin hidden A u (f ()) (g ()) s t) :
    Twin hidden A u (assertGroupAdmin cv u >>= f) (assertGroupAdmin cv u >>= g) s t := by
  unfold assertGroupAdmin
  rw [Prog.bind_assoc', Prog.bind_assoc']
  exact twin_rejectIf h Iff.rfl fun _ => twin_rejectIf h Iff.rfl fun _ => hfg

theorem twin_addEach {cv : ConversationWithMembers} (hc : hidden cv.id = false)
    (hmembers : ∀ m ∈ cv.members, hidden m.conversationId = false) (ids : List UserId) :
    Twin hidden A u (addEach cv ids) (addEach cv ids) s t := by
  induction ids generalizing s t with
  | nil => exact twin_ret h _
  | cons user ids ih =>
    refine twin_bind h ?_ fun _ _ _ _ _ _ h' => ih h'
    unfold addMember
    split
    · next m hm =>
      split
      · exact twin_ret h _
      · refine twin_saveMember h ?_
        exact hmembers m (List.mem_of_find?_eq_some hm)
    · exact twin_perform h hc hc

theorem twin_addMembers (c : ConversationId) (ids : List UserId) :
    Twin hidden A u (addMembers c u ids) (addMembers c u ids) s t := by
  refine twin_requireMembership h fun cv hcv _ hid hc => twin_assertGroupAdmin h <|
    twin_rejectIf h Iff.rfl fun _ => twin_rejectIf h Iff.rfl fun _ => ?_
  have hcv' : hidden cv.id = false := hid ▸ hc
  refine twin_bind h (twin_addEach h hcv' (fun m hm => visible_member hcv hc hm) _)
    fun _ _ _ _ _ _ h' => ?_
  exact twin_getConversation h' c

theorem twin_removeMember (c : ConversationId) (memberId : UserId) :
    Twin hidden A u (removeMember c u memberId) (removeMember c u memberId) s t := by
  refine twin_requireMembership h fun cv hcv _ hid hc => twin_assertGroupAdmin h <|
    twin_rejectIf h Iff.rfl fun _ => twin_require h fun m hm => twin_rejectIf h Iff.rfl fun _ =>
      twin_newDate h fun now => ?_
  have hmc := visible_member hcv hc (findActive_eq_some hm).1
  refine twin_bind h (twin_saveMember h ?_) fun _ _ _ _ _ _ h' => twin_getConversation h' c
  exact hmc

theorem twin_setMemberRole (c : ConversationId) (memberId : UserId)
    (role : Option ConversationMemberRole) :
    Twin hidden A u (setMemberRole c u memberId role) (setMemberRole c u memberId role) s t := by
  refine twin_requireMembership h fun cv hcv _ hid hc => twin_rejectIf h Iff.rfl fun _ =>
    twin_rejectIf h Iff.rfl fun _ => twin_require h fun role _ => twin_require h fun m hm =>
      twin_rejectIf h Iff.rfl fun _ => twin_rejectIf h Iff.rfl fun _ => ?_
  have hmc := visible_member hcv hc (findActive_eq_some hm).1
  refine twin_bind h (twin_saveMember h ?_) fun _ _ _ _ _ _ h' => twin_getConversation h' c
  exact hmc

theorem twin_leave (c : ConversationId) : Twin hidden A u (leave c u) (leave c u) s t := by
  refine twin_requireMembership h fun cv hcv _ hid hc => twin_rejectIf h Iff.rfl fun _ =>
    twin_require h fun m hm => ?_
  have hmc := visible_member hcv hc (findActive_eq_some hm).1
  refine twin_bind h ?_ fun _ _ _ _ _ _ h₁ => ?_
  · unfold handOver
    split
    · split
      · exact twin_ret h _
      · next next hnext =>
        have hnextc := visible_member hcv hc (nextOwner_mem hnext).1
        refine twin_saveMember h ?_
        exact hnextc
    · exact twin_ret h _
  · refine twin_newDate h₁ fun now => twin_bind h₁ (twin_saveMember h₁ ?_)
      fun _ _ _ _ _ _ h₂ => twin_ret h₂ _
    exact hmc

theorem twin_updateGroup (c : ConversationId) (name : Text) :
    Twin hidden A u (updateGroup c u name) (updateGroup c u name) s t := by
  refine twin_requireMembership h fun cv hcv _ hid hc => twin_assertGroupAdmin h <|
    twin_rejectIf h Iff.rfl fun _ => ?_
  have hcv : hidden cv.id = false := hid ▸ hc
  refine twin_bind h (twin_saveConversation h hcv) fun _ _ _ _ _ _ h' => twin_getConversation h' c

theorem twin_deleteGroup (c : ConversationId) :
    Twin hidden A u (deleteGroup c u) (deleteGroup c u) s t := by
  refine twin_requireMembership h fun cv hcv _ hid hc => twin_rejectIf h Iff.rfl fun _ =>
    twin_rejectIf h Iff.rfl fun _ => twin_newDate h fun now => ?_
  have hcv' : hidden cv.id = false := hid ▸ hc
  have hmembers : ∀ m ∈ cv.members.map fun member =>
      if member.leftAt = none then { member with leftAt := some now } else member,
      hidden m.conversationId = false := by
    intro m' hm'
    obtain ⟨m, hm, rfl⟩ := List.mem_map.mp hm'
    have hmc := visible_member hcv hc hm
    split <;> exact hmc
  refine twin_write h (c := .saveMembers _) hmembers hmembers fun _ _ _ _ _ _ h₁ => ?_
  exact twin_write h₁ (c := .softDeleteConversation _) hcv' hcv' fun _ _ _ _ _ _ h₂ =>
    twin_ret h₂ _

end Memberships

/-! ### New conversations -/

section Creating

/-- No hidden conversation is a private one of the actor. -/
theorem Ready.pairKey (h : Ready hidden u s) (other : UserId) :
    ∀ c ∈ s.conversations, hidden c.id = true → c.deletedAt = none →
      c.pairKey ≠ some (privatePairKey u other) := by
  intro c hc hhid _ hkey
  cases htype : c.type with
  | group =>
    rw [h.inv.groups c hc htype] at hkey
    cases hkey
  | priv =>
    obtain ⟨_, x, y, _, hpair, hmembers⟩ := h.inv.pairs c hc htype
    rw [hpair] at hkey
    have hactor : ∃ m ∈ s.membersOf c.id, m.userId = u.canon ∧ m.leftAt = none := by
      have hmem : (u.canon, none) ∈ (s.membersOf c.id).map fun m => (m.userId, m.leftAt) := by
        rw [hmembers]
        obtain ⟨rfl, _⟩ | ⟨_, rfl⟩ := privatePairKey_eq (Option.some.inj hkey) <;> simp
      obtain ⟨m, hm, heq⟩ := List.mem_map.mp hmem
      exact ⟨m, hm, congrArg Prod.fst heq, congrArg Prod.snd heq⟩
    obtain ⟨m, hm, huser, hleft⟩ := hactor
    obtain ⟨hmem, hconv⟩ := Db.mem_membersOf.mp hm
    exact h.outside m hmem (hconv.symm ▸ hhid) huser hleft

variable (h : Twins hidden A u s t)
include h

theorem twin_createPrivate (other : UserId) :
    Twin hidden A u (createPrivate u other) (createPrivate u other) s t := by
  have hkeys := h.left.pairKey other
  have hkeyt := h.right.pairKey other
  have hrows : s.conversations.filter (fun row =>
        row.pairKey = some (privatePairKey u other) ∧ row.type = .priv ∧ row.deletedAt = none) =
      t.conversations.filter fun row =>
        row.pairKey = some (privatePairKey u other) ∧ row.type = .priv ∧ row.deletedAt = none := by
    refine filter_eq_of_filter_eq h.agree.conversations (fun c hc hq => ?_) fun c hc hq => ?_
    · simp only [decide_eq_true_eq] at hq
      cases hh : hidden c.id with
      | false => rfl
      | true => exact absurd hq.1 (hkeys c hc hh hq.2.2)
    · simp only [decide_eq_true_eq] at hq
      cases hh : hidden c.id with
      | false => rfl
      | true => exact absurd hq.1 (hkeyt c hc hh hq.2.2)
  have hfind : (s.conversations.find? fun row =>
        row.pairKey = some (privatePairKey u other) ∧ row.type = .priv ∧ row.deletedAt = none) =
      t.conversations.find? fun row =>
        row.pairKey = some (privatePairKey u other) ∧ row.type = .priv ∧ row.deletedAt = none := by
    rw [← List.head?_filter, ← List.head?_filter, hrows]
  refine twin_rejectIf h Iff.rfl fun _ =>
    twin_reads (run_perform exec _ s) (run_perform exec _ t) ?_
  rw [← hfind]
  cases hrow : s.conversations.find? fun row =>
      row.pairKey = some (privatePairKey u other) ∧ row.type = .priv ∧ row.deletedAt = none with
  | some row =>
    have hp := List.find?_some hrow
    simp only [decide_eq_true_eq] at hp
    have hc : hidden row.id = false := by
      cases hh : hidden row.id with
      | false => rfl
      | true => exact absurd hp.1 (hkeys row (List.mem_of_find?_eq_some hrow) hh hp.2.2)
    rw [Option.map_some, Option.map_some, ← h.agree.withMembers hc]
    exact twin_viewConversation h hc
  | none =>
    refine twin_reads (run_hasBlock other u) (run_hasBlock other u) ?_
    rw [← h.agree.hasBlock]
    refine twin_rejectIf h Iff.rfl fun _ => ?_
    refine twin_write h (c := .createPrivateTx u other _) hkeys hkeyt fun saved s' t' _ _ _ h' => ?_
    refine twin_reads (run_blockFlagsForConversation saved u) ?_ (twin_ret h' _)
    rw [run_blockFlagsForConversation, h'.agree.blockFlags]

theorem twin_createGroup (name : Text) (ids : List UserId) :
    Twin hidden A u (createGroup u name ids) (createGroup u name ids) s t :=
  twin_rejectIf h Iff.rfl fun _ => twin_rejectIf h Iff.rfl fun _ => twin_rejectIf h Iff.rfl fun _ =>
    twin_write h (c := .createGroupTx _ _ _) trivial trivial fun _ _ _ _ _ _ h' => twin_ret h' _

end Creating

/-! ## Blocks, calls and the workspace -/

section Others

variable (h : Twins hidden A u s t)
include h

theorem twin_blockUser (user : UserId) :
    Twin hidden A u (blockUser u user) (blockUser u user) s t := by
  refine twin_rejectIf h Iff.rfl fun _ =>
    twin_reads (run_perform exec _ s) (run_perform exec _ t) ?_
  rw [← h.agree.blocks]
  cases (s.blocks u user).head? with
  | some block => exact twin_ret h _
  | none =>
    exact twin_write h (c := .insertBlock u user) trivial trivial fun _ _ _ _ _ _ h' =>
      twin_ret h' _

theorem twin_unblockUser (user : UserId) :
    Twin hidden A u (unblockUser u user) (unblockUser u user) s t :=
  twin_write h (c := .deleteBlock u user) trivial trivial fun _ _ _ _ _ _ h' => twin_ret h' _

theorem twin_listBlocks : Twin hidden A u (listBlocks u) (listBlocks u) s t := by
  refine twin_reads (run_perform exec _ s) (run_perform exec _ t) ?_
  rw [h.agree.userBlocks]
  exact twin_ret h _

theorem twin_callPeer (cv : ConversationWithMembers) (member : ConversationMember) :
    Twin hidden A u (callPeer cv u member) (callPeer cv u member) s t := by
  unfold callPeer
  split
  · exact twin_ret h _
  · refine twin_read h (p := isBlockedEitherWay u member.userId)
      (q := isBlockedEitherWay u member.userId) (r := .ok _) rfl ?_ fun blocked _ =>
        twin_rejectIf h Iff.rfl fun _ => twin_ret h _
    rw [h.agree.userBlocks]
    rfl

theorem twin_prepareVoiceCall (c : ConversationId) :
    Twin hidden A u (prepareVoiceCall c u) (prepareVoiceCall c u) s t := by
  refine twin_requireMembership h fun cv _ _ _ _ => twin_rejectIf h Iff.rfl fun _ =>
    twin_rejectIf h Iff.rfl fun _ => ?_
  refine twin_bind h (twin_collect h (P := fun _ _ => True) trivial
    (fun member _ _ _ _ h' => twin_callPeer h' cv member) fun _ _ _ _ _ _ _ _ _ => trivial)
    fun peerIds _ _ _ _ _ h' => ?_
  exact twin_rejectIf h' Iff.rfl fun _ => twin_ret h' _

theorem twin_logAudit (action : Text) (type id info : Option Text) (actorId : UserId) :
    Twin hidden A u (logAudit actorId action type id info) (logAudit actorId action type id info)
      s t :=
  twin_write h (c := .insertAudit _ _ _ _ _) trivial trivial fun _ _ _ _ _ _ h' => twin_ret h' _

theorem twin_listAuditEvents (ha : A) (page : Page) :
    Twin hidden A u (listAuditEvents page) (listAuditEvents page) s t := by
  refine twin_reads (run_perform exec _ s) (run_perform exec _ t) ?_
  rw [h.agree.auditEvents ha]
  exact twin_ret h _

theorem twin_getWorkspaceSettings :
    Twin hidden A u getWorkspaceSettings getWorkspaceSettings s t := by
  refine twin_reads (run_perform exec _ s) (run_perform exec _ t) ?_
  rw [← h.agree.workspaceSettings]
  cases s.workspaceSettings with
  | some settings => exact twin_ret h _
  | none =>
    exact twin_write h (c := .saveWorkspace _) trivial trivial fun _ _ _ _ _ _ h' => twin_ret h' _

theorem twin_updateWorkspaceSettings (n m p : Option Text) (l : Option (Option Text)) :
    Twin hidden A u (updateWorkspaceSettings u n m p l) (updateWorkspaceSettings u n m p l) s t := by
  refine twin_reads (run_perform exec _ s) (run_perform exec _ t) ?_
  rw [← h.agree.workspaceSettings]
  refine twin_write h (c := .saveWorkspace _) trivial trivial fun _ _ _ _ _ _ h₁ => ?_
  exact twin_bind h₁ (twin_recordAudit h₁ _ _ _ _ _) fun _ _ _ _ _ _ h₂ => twin_ret h₂ _

end Others

end Relay.Chat
