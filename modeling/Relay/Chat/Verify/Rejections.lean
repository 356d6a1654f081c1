import Relay.Lib.Atomic
import Relay.Chat.Verify.Saves
import Relay.Chat.Verify.Ownership

/-!
# A rejected request changes nothing

Every operation checks before it writes: its checks only read, and after the first write the only
thing that could still be rejected is a second load of the conversation, for the view of the
response. That load finds what the first one found, since no operation takes away the row of its own
actor and then loads the conversation again (`Sits`). So a run that ends with an error of the
service's own leaves the database as it was (`rejected_unchanged`); a failed repository call, with
what it may leave behind, is another kind of failure.
-/

namespace Relay.Chat

open Relay.Lib Relay.Lib.Rows Prog

/-- One of the service's own errors. -/
def Failure.IsRejection : Failure → Prop
  | .rpc _ => True
  | .query _ => False

/-- A rejection of the program, run alone, leaves the database as it was. -/
abbrev Checked {α : Type} (p : M α) (s : Db) : Prop := Atomic exec Failure.IsRejection p s

/-- The program, run alone, is not rejected. -/
abbrev Passes {α : Type} (p : M α) (s : Db) : Prop := Commits exec Failure.IsRejection p s

/-- A call that fails does so with the error of a constraint. -/
theorem exec_not_rejected (c : Call) (s : Db) :
    ∀ e : Failure, e.IsRejection → (exec c s).1 ≠ .error e := by
  have hviolation : ∀ {α : Type} (q : QueryError) (o : Option (α × Db)) (e : Failure),
      e.IsRejection → (orViolation q s o).1 ≠ .error e := by
    rintro α q (_ | ⟨a, t⟩) (e | e) he h
    · cases h
    · exact he
    · cases h
    · cases h
  intro e he
  cases c with
  | createPrivateTx a b key =>
    simp only [exec]
    split
    · rintro ⟨⟩
      exact he
    · exact hviolation _ _ e he
  | createGroupTx a ids name => exact hviolation _ _ e he
  | saveConversation cv =>
    simp only [exec]
    split
    · intro h
      cases h
    · rintro ⟨⟩
      exact he
  | saveMember m => exact hviolation _ _ e he
  | saveMembers ms => exact hviolation _ _ e he
  | insertMember c u role => exact hviolation _ _ e he
  | insertHide m u =>
    simp only [exec]
    split
    · rintro ⟨⟩
      exact he
    · intro h
      cases h
  | insertReaction m u emoji =>
    simp only [exec]
    split
    · rintro ⟨⟩
      exact he
    · intro h
      cases h
  | insertBlock a b =>
    simp only [exec]
    split
    · rintro ⟨⟩
      exact he
    · intro h
      cases h
  | _ =>
    intro h
    cases h

variable {α β : Type} {s : Db}

/-! ## Checks and writes -/

theorem passes_perform (c : Call) : Passes (perform c) s := commits_perform (exec_not_rejected c s)

theorem passes_of_ok {p : M α} {a : α} {t : Db} (h : run exec p s = (.ok a, t)) : Passes p s := by
  intro e _
  rw [h]
  exact fun h => nomatch h

theorem passes_viewOne (m : Message) (cv : ConversationWithMembers) (u : UserId) :
    Passes (viewOne m cv u) s := passes_of_ok (run_viewOne m cv u)

theorem passes_recordAudit (a : UserId) (action : String) (type id : Option Text)
    (info : AuditMeta) : Passes (recordAudit a action type id info) s :=
  commits_bind (passes_perform _) fun _ _ _ => commits_ret _

theorem passes_collect {f : α → M (Option β)} (hf : ∀ a t, Passes (f a) t) (as : List α) (s : Db) :
    Passes (collect f as) s := by
  induction as generalizing s with
  | nil => exact commits_ret _
  | cons a as ih =>
    exact commits_bind (hf a s) fun _ t _ => commits_bind (ih t) fun _ _ _ => commits_ret _

theorem passes_attempt (p : M α) : Passes p.attempt s := passes_of_ok (run_attempt exec p s)

/-- A program of reads. -/
theorem idle_of_uses {p : M α} (h : Uses (fun c => ∀ s, (exec c s).2 = s) p) : Idle exec p :=
  Idle.of_sat h

theorem checked_rejectIf {P : Prop} [Decidable P] {e : RpcError} {f : Unit → M β}
    (h : ¬ P → Checked (f ()) s) : Checked (rejectIf P e >>= f) s := by
  refine atomic_read (by rw [run_rejectIf]) fun _ hrun => ?_
  rw [run_rejectIf] at hrun
  split at hrun
  · cases hrun
  · next hP => exact h hP

theorem checked_require {a : Option α} {e : RpcError} {f : α → M β}
    (h : ∀ x, a = some x → Checked (f x) s) : Checked (require a e >>= f) s := by
  cases a with
  | none => exact atomic_fail _
  | some x => exact h x rfl

/-- A call that leaves the database as it is. -/
theorem checked_read {c : Call} {a : c.Answer} {f : c.Answer → M β} (hc : exec c s = (.ok a, s))
    (h : Checked (f a) s) : Checked (perform c >>= f) s := by
  refine atomic_read ((congrArg Prod.snd (run_perform exec c s)).trans (congrArg Prod.snd hc))
    fun b hb => ?_
  rw [run_perform, hc] at hb
  cases hb
  exact h

theorem checked_requireMembership {c : ConversationId} {u : UserId}
    {f : ConversationWithMembers → M β}
    (h : ∀ cv, s.membership c u = .ok cv → Checked (f cv) s) :
    Checked (requireMembership c u >>= f) s := by
  refine atomic_read (by rw [run_requireMembership]) fun cv hrun => h cv ?_
  rw [run_requireMembership] at hrun
  exact congrArg Prod.fst hrun

theorem checked_assertGroupAdmin {cv : ConversationWithMembers} {u : UserId} {f : Unit → M β}
    (h : Checked (f ()) s) : Checked (assertGroupAdmin cv u >>= f) s := by
  unfold assertGroupAdmin
  rw [Prog.bind_assoc']
  exact checked_rejectIf fun _ => checked_rejectIf fun _ => h

/-- An operation given as its checks and what follows them. -/
theorem Accepts.checked {p : M α} {o : Option (M α)} (h : Accepts p s o)
    (hq : ∀ q, o = some q → Passes q s) : Checked p s := by
  cases o with
  | none =>
    obtain ⟨e, he⟩ := h
    intro _ _ _
    rw [he]
  | some q =>
    intro e he
    rw [show run exec p s = run exec q s from h]
    exact (hq q rfl).atomic e he

/-- The result of an operation as a response. -/
theorem checked_map {p : M α} (f : α → β) (h : Checked p s) : Checked (f <$> p) s :=
  atomic_bind h fun _ _ _ => commits_ret _

/-! ## Loading the conversation again -/

/-- The conversation is there and the user has an active row in it. -/
def Db.Sits (db : Db) (c : ConversationId) (u : UserId) : Prop :=
  (db.findConversation c).isSome ∧
    ∃ m ∈ db.members, m.conversationId = c ∧ m.userId = u ∧ m.leftAt = none

theorem Db.Sits.of_membership {c : ConversationId} {u : UserId} {cv : ConversationWithMembers}
    (h : s.membership c u = .ok cv) : s.Sits c u := by
  obtain ⟨hrow, _, m, hm⟩ := Db.membership_eq_ok h
  obtain ⟨hmem, huser, hleft⟩ := findActive_eq_some hm
  obtain ⟨hmem, hconv⟩ := Db.mem_membersOf.mp hmem
  exact ⟨by rw [hrow]; rfl, m, hmem, hconv, huser, hleft⟩

theorem Db.Sits.getConversation {c : ConversationId} {u : UserId} (h : s.Sits c u) :
    Passes (getConversation c u) s := by
  obtain ⟨hrow, m, hmem, hconv, huser, hleft⟩ := h
  obtain ⟨row, hrow⟩ := Option.isSome_iff_exists.mp hrow
  have hactive : (findActive (s.membersOf c) u).isSome = true := by
    unfold findActive
    rw [List.find?_isSome]
    exact ⟨m, Db.mem_membersOf.mpr ⟨hmem, hconv⟩, by simp [huser, hleft]⟩
  obtain ⟨m', hm'⟩ := Option.isSome_iff_exists.mp hactive
  have hload : s.membership c u = .ok ⟨row, activeMembers (s.membersOf c)⟩ := by
    unfold Db.membership
    rw [hrow, hm']
  unfold Chat.getConversation
  refine commits_bind (passes_of_ok (hload ▸ run_requireMembership c u)) fun cv t _ => ?_
  exact passes_of_ok (run_viewConversation cv u)

theorem Db.Sits.saveConversation {c : ConversationId} {u : UserId} (h : s.Sits c u)
    {d : Conversation} {ms : List ConversationMember} {t : Db}
    (ht : exec (.saveConversation ⟨d, ms⟩) s = (.ok (), t)) (hdel : d.deletedAt = none) :
    t.Sits c u := by
  simp only [exec] at ht
  split at ht
  · cases ht
    refine ⟨?_, h.2⟩
    obtain ⟨row, hrow⟩ := Option.isSome_iff_exists.mp h.1
    obtain ⟨hmem, hid, hrowdel⟩ := Db.findConversation_eq_some hrow
    unfold Db.findConversation
    rw [List.find?_isSome]
    refine ⟨_, List.mem_map_of_mem hmem, ?_⟩
    split
    · next hsaved => simp [← hid, hsaved.1, hdel]
    · simp [hid, hrowdel]
  · cases ht

/-- A new row takes no row away. -/
theorem Db.Sits.insertMember {c c' : ConversationId} {u v : UserId} {role : ConversationMemberRole}
    (h : s.Sits c u) {t : Db} (ht : exec (.insertMember c' v role) s = (.ok (), t)) : t.Sits c u := by
  simp only [exec] at ht
  cases hrow : s.insertMember c' v role with
  | none =>
    rw [hrow] at ht
    cases ht
  | some t' =>
    rw [hrow] at ht
    cases ht
    rw [Db.insertMember_eq_some hrow]
    obtain ⟨hconv, m, hm, hrest⟩ := h
    exact ⟨hconv, m, List.mem_append_left _ hm, hrest⟩

/-- A save of a member row takes the actor's row away only if it is that row. -/
theorem Db.Sits.saveMember {c : ConversationId} {u : UserId} (h : s.Sits c u)
    {m : ConversationMember}
    (hm : ∀ r ∈ s.members, r.id = m.id → r.conversationId = c → r.userId = u → r.leftAt = none →
      m.conversationId = c ∧ m.userId = u ∧ m.leftAt = none)
    {t : Db} (ht : exec (.saveMember m) s = (.ok (), t)) : t.Sits c u := by
  simp only [exec, Db.saveMember] at ht
  split at ht
  · cases ht
  · cases ht
    obtain ⟨hrow, r, hr, hconv, huser, hleft⟩ := h
    refine ⟨hrow, ?_⟩
    by_cases hid : r.id = m.id
    · obtain ⟨hconv', huser', hleft'⟩ := hm r hr hid hconv huser hleft
      exact ⟨m, mem_replaceRow_iff.mpr (.inl ⟨rfl, r, hr, hid⟩), hconv', huser', hleft'⟩
    · exact ⟨r, mem_replaceRow_iff.mpr (.inr ⟨hr, hid⟩), hconv, huser, hleft⟩

/-- A save of the row of another member. -/
theorem Db.Sits.saveOther (hkeyed : WellKeyed s) {c : ConversationId} {u v : UserId}
    {cv : ConversationWithMembers} (hcv : s.membership c u = .ok cv) {target : ConversationMember}
    (htarget : findActive cv.members v = some target) (hne : v ≠ u) {m : ConversationMember}
    {t : Db} (ht : exec (.saveMember m) s = (.ok (), t)) (hid : m.id = target.id) : t.Sits c u := by
  obtain ⟨hmem, huser, _⟩ := findActive_eq_some htarget
  rw [(Db.membership_eq_ok hcv).2.1] at hmem
  obtain ⟨hstored, _⟩ := Db.mem_membersOf.mp (mem_activeMembers.mp hmem).1
  refine (Db.Sits.of_membership hcv).saveMember (fun r hr hrid _ hruser _ => ?_) ht
  -- the row that is saved is not the actor's
  rw [hkeyed.members.eq_of_id_eq hr hstored (hrid.trans hid)] at hruser
  exact absurd (huser.symm.trans hruser) hne

/-! ## Conversations -/

theorem checked_createPrivate (a b : UserId) : Checked (createPrivate a b) s := by
  refine checked_rejectIf fun _ => checked_read rfl ?_
  split
  · exact (passes_of_ok (run_viewConversation _ a)).atomic
  · refine atomic_read rfl fun blocked _ => checked_rejectIf fun _ => ?_
    refine atomic_bind (passes_perform _).atomic fun saved t _ => ?_
    exact commits_bind (passes_of_ok (run_blockFlagsForConversation saved a)) fun _ _ _ => commits_ret _

theorem checked_createGroup (a : UserId) (name : Text) (ids : List UserId) :
    Checked (createGroup a name ids) s := by
  refine checked_rejectIf fun _ => checked_rejectIf fun _ => checked_rejectIf fun _ => ?_
  exact atomic_bind (passes_perform _).atomic fun _ _ _ => commits_ret _

theorem checked_updateMembership (c : ConversationId) (u : UserId)
    {update : Time → ConversationMember → ConversationMember}
    (hkeep : ∀ now m, (update now m).conversationId = m.conversationId ∧
      (update now m).userId = m.userId ∧ (update now m).leftAt = m.leftAt) :
    Checked (updateMembership c u update) s := by
  refine checked_requireMembership fun cv hcv => checked_require fun m hm => checked_read rfl ?_
  obtain ⟨hmem, huser, hleft⟩ := findActive_eq_some hm
  rw [(Db.membership_eq_ok hcv).2.1] at hmem
  obtain ⟨_, hconv⟩ := Db.mem_membersOf.mp (mem_activeMembers.mp hmem).1
  refine atomic_bind (passes_perform _).atomic fun _ t ht => ?_
  rw [run_perform] at ht
  obtain ⟨hconv', huser', hleft'⟩ := hkeep (jsDate s.now) m
  refine ((Db.Sits.of_membership hcv).saveMember (fun _ _ _ _ _ _ => ?_) ht).getConversation
  exact ⟨hconv'.trans hconv, huser'.trans huser, hleft'.trans hleft⟩

theorem checked_setDisappearingMessages (c : ConversationId) (u : UserId) (n : Nat) :
    Checked (setDisappearingMessages c u n) s := by
  refine checked_requireMembership fun cv hcv => checked_rejectIf fun _ => checked_rejectIf fun _ => ?_
  refine atomic_bind (passes_perform _).atomic fun _ t ht => ?_
  rw [run_perform] at ht
  have hdel := (Db.findConversation_eq_some (Db.membership_eq_ok hcv).1).2.2
  have hsits : t.Sits c u := (Db.Sits.of_membership hcv).saveConversation ht hdel
  exact commits_bind (passes_recordAudit _ _ _ _ _) fun _ t' ht' => by
    cases ht'
    exact Db.Sits.getConversation hsits

theorem checked_updateGroup (c : ConversationId) (u : UserId) (name : Text) :
    Checked (updateGroup c u name) s := by
  refine checked_requireMembership fun cv hcv => checked_assertGroupAdmin <| checked_rejectIf fun _ => ?_
  refine atomic_bind (passes_perform _).atomic fun _ t ht => ?_
  rw [run_perform] at ht
  have hdel := (Db.findConversation_eq_some (Db.membership_eq_ok hcv).1).2.2
  exact ((Db.Sits.of_membership hcv).saveConversation ht hdel).getConversation

theorem passes_addEach (cv : ConversationWithMembers) (us : List UserId) : Passes (addEach cv us) s := by
  induction us generalizing s with
  | nil => exact commits_ret _
  | cons v us ih =>
    refine commits_bind ?_ fun _ _ _ => ih
    unfold addMember
    split
    · split
      · exact commits_ret _
      · exact passes_perform _
    · exact passes_perform _

theorem Db.Sits.addEach {c : ConversationId} {u : UserId} {cv : ConversationWithMembers}
    (hactive : ∀ m ∈ cv.members, m.leftAt = none) {us : List UserId} (h : s.Sits c u) {t : Db}
    (ht : run exec (addEach cv us) s = (.ok (), t)) : t.Sits c u := by
  induction us generalizing s with
  | nil =>
    cases ht
    exact h
  | cons v us ih =>
    obtain ⟨_, t', hfirst, hrest⟩ := run_bind_inv exec ht
    refine ih ?_ hrest
    unfold addMember at hfirst
    split at hfirst
    · next existing hfind =>
      rw [if_pos (hactive existing (List.mem_of_find?_eq_some hfind))] at hfirst
      cases hfirst
      exact h
    · rw [run_perform] at hfirst
      exact h.insertMember hfirst

theorem checked_addMembers (c : ConversationId) (u : UserId) (ids : List UserId) :
    Checked (addMembers c u ids) s := by
  refine checked_requireMembership fun cv hcv => checked_assertGroupAdmin <| checked_rejectIf fun _ =>
    checked_rejectIf fun _ => ?_
  have hactive : ∀ m ∈ cv.members, m.leftAt = none := fun m hm => by
    rw [(Db.membership_eq_ok hcv).2.1] at hm
    exact (mem_activeMembers.mp hm).2
  exact atomic_bind (passes_addEach cv _).atomic fun _ t ht =>
    ((Db.Sits.of_membership hcv).addEach hactive ht).getConversation

theorem checked_removeMember (hkeyed : WellKeyed s) (c : ConversationId) (u v : UserId) :
    Checked (removeMember c u v) s := by
  refine checked_requireMembership fun cv hcv => checked_assertGroupAdmin <| checked_rejectIf fun hne =>
    checked_require fun m hm => checked_rejectIf fun _ => checked_read rfl ?_
  refine atomic_bind (passes_perform _).atomic fun _ t ht => ?_
  rw [run_perform] at ht
  exact (Db.Sits.saveOther hkeyed hcv hm hne ht rfl).getConversation

theorem checked_setMemberRole (hkeyed : WellKeyed s) (c : ConversationId) (u v : UserId)
    (role : Option ConversationMemberRole) : Checked (setMemberRole c u v role) s := by
  refine checked_requireMembership fun cv hcv => checked_rejectIf fun _ => checked_rejectIf fun _ =>
    checked_require fun role _ => checked_require fun m hm => checked_rejectIf fun _ =>
      checked_rejectIf fun hne => ?_
  refine atomic_bind (passes_perform _).atomic fun _ t ht => ?_
  rw [run_perform] at ht
  obtain ⟨_, huser, _⟩ := findActive_eq_some hm
  exact (Db.Sits.saveOther hkeyed hcv hm (huser ▸ hne) ht rfl).getConversation

theorem checked_leave (c : ConversationId) (u : UserId) : Checked (leave c u) s := by
  refine checked_requireMembership fun cv _ => checked_rejectIf fun _ => checked_require fun m _ => ?_
  have hhand : Passes (handOver m cv u) s := by
    unfold handOver
    split
    · split
      · exact commits_ret _
      · exact passes_perform _
    · exact commits_ret _
  exact atomic_bind hhand.atomic fun _ _ _ => commits_bind (passes_perform _) fun _ _ _ =>
    commits_bind (passes_perform _) fun _ _ _ => commits_ret _

theorem checked_deleteGroup (c : ConversationId) (u : UserId) : Checked (deleteGroup c u) s := by
  refine checked_requireMembership fun cv _ => checked_rejectIf fun _ => checked_rejectIf fun _ =>
    checked_read rfl ?_
  exact atomic_bind (passes_perform _).atomic fun _ _ _ =>
    commits_bind (passes_perform _) fun _ _ _ => commits_ret _

theorem checked_markSeen (c : ConversationId) (u : UserId) (m : Option MessageId) :
    Checked (markSeen c u m) s := by
  refine checked_requireMembership fun cv _ => checked_require fun row _ => checked_read rfl ?_
  have hseen : Idle exec (seenMessage cv.id m) := by
    unfold seenMessage
    split
    · exact fun _ => rfl
    · exact idle_of_uses <| uses_bind (uses_perform fun _ => rfl) fun _ =>
        uses_bind (uses_require _ _) fun _ => trivial
  refine atomic_read (hseen s) fun _ _ => ?_
  have hadvance : Passes (advanceReadAt row (jsDate s.now)) s := by
    unfold advanceReadAt
    split
    · split
      · exact commits_bind (passes_perform _) fun _ _ _ => commits_ret _
      · exact commits_ret _
    · exact commits_bind (passes_perform _) fun _ _ _ => commits_ret _
  exact atomic_bind hadvance.atomic fun _ _ _ => commits_ret _

/-! ## Messages -/

theorem passes_store (o : Outgoing) : Passes o.store s := by
  refine commits_bind (passes_perform _) fun saved t _ => commits_bind (passes_perform _) fun _ t' _ => ?_
  split
  · exact commits_bind (passes_recordAudit _ _ _ _ _) fun _ _ _ => commits_ret _
  · exact commits_ret _

theorem checked_sendMessage (payload : SendMessage) : Checked (sendMessage payload) s := by
  refine (accepts_sendMessage payload).checked fun q hq => ?_
  obtain ⟨o, _, rfl⟩ := Option.map_eq_some_iff.mp hq
  exact passes_store o

theorem checked_forwardMessage (u : UserId) (source target : ConversationId) (m : MessageId) :
    Checked (forwardMessage u source target m) s := by
  refine (accepts_forwardMessage u source target m).checked fun q hq => ?_
  obtain ⟨o, _, rfl⟩ := Option.map_eq_some_iff.mp hq
  exact passes_store o

/-- The writing part of a change, when its write is not rejected. -/
theorem Change.passes {change : Change} (h : Passes change.write s) (u : UserId) :
    Passes (change.apply u) s :=
  commits_bind h fun _ _ _ => commits_bind (passes_viewOne _ _ _) fun _ _ _ => commits_ret _

theorem checked_editMessage (c : ConversationId) (m : MessageId) (u : UserId) (body : Text) :
    Checked (editMessage c m u body) s := by
  refine (accepts_editMessage c m u body).checked fun q hq => ?_
  obtain ⟨change, hchange, rfl⟩ := Option.map_eq_some_iff.mp hq
  obtain ⟨_, _, _, _, _, _, _, _, hwrite⟩ := acceptEdit_eq_some hchange
  exact Change.passes (hwrite ▸ passes_perform _) u

theorem checked_reactMessage (c : ConversationId) (m : MessageId) (u : UserId) (emoji : Text) :
    Checked (reactMessage c m u emoji) s := by
  refine (accepts_reactMessage c m u emoji).checked fun q hq => ?_
  obtain ⟨change, hchange, rfl⟩ := Option.map_eq_some_iff.mp hq
  obtain ⟨_, _, _, _, _, hwrite⟩ := acceptReact_eq_some hchange
  obtain ⟨reactions, nextId, hrun⟩ := run_toggleReaction change.message.id u emoji (s := s)
  exact Change.passes (hwrite ▸ passes_of_ok hrun) u

theorem checked_pinMessage (c : ConversationId) (m : MessageId) (u : UserId) (pinned : Bool) :
    Checked (pinMessage c m u pinned) s := by
  refine (accepts_pinMessage c m u pinned).checked fun q hq => ?_
  obtain ⟨change, hchange, rfl⟩ := Option.map_eq_some_iff.mp hq
  obtain ⟨_, _, _, _, _, _, _, hwrite | ⟨_, hwrite⟩⟩ := acceptPin_eq_some hchange
  · exact Change.passes (hwrite ▸ passes_perform _) u
  · exact Change.passes (hwrite ▸ commits_ret _) u

theorem checked_deleteMessage (c : ConversationId) (m : MessageId) (u : UserId) (forEveryone : Bool) :
    Checked (deleteMessage c m u forEveryone) s := by
  refine checked_requireMembership fun cv _ => checked_read rfl <| checked_require fun x _ => ?_
  cases forEveryone with
  | true =>
    refine checked_rejectIf fun _ => ?_
    split
    · exact atomic_bind (passes_viewOne _ _ _).atomic fun _ _ _ => commits_ret _
    · refine checked_read rfl <| checked_rejectIf fun _ => checked_read rfl ?_
      exact atomic_bind (passes_perform _).atomic fun _ _ _ =>
        commits_bind (passes_viewOne _ _ _) fun _ _ _ => commits_ret _
  | false =>
    have hhide : Passes (hideMessage x.id u) s := by
      refine commits_bind (passes_perform _) fun _ _ _ => ?_
      split
      · exact passes_perform _
      · exact commits_ret _
    exact atomic_bind hhide.atomic fun _ _ _ =>
      commits_bind (passes_viewOne _ _ _) fun _ _ _ => commits_ret _

theorem passes_expireDueMessages : Passes expireDueMessages s := by
  refine commits_bind (passes_perform _) fun _ _ _ => commits_bind (passes_perform _) fun due t _ => ?_
  refine passes_collect (fun m t => commits_bind (passes_perform _) fun found t' _ => ?_) due t
  cases found with
  | none => exact commits_bind (passes_perform _) fun _ _ _ => commits_ret _
  | some cv =>
    exact commits_bind (passes_perform _) fun _ _ _ => commits_bind (passes_perform _) fun _ _ _ =>
      commits_bind (passes_of_ok (run_loadReplyTo _)) fun _ _ _ => commits_ret _

/-! ## Scheduled messages -/

theorem checked_scheduleMessage (payload : ScheduleMessage) : Checked (scheduleMessage payload) s := by
  refine checked_rejectIf fun _ => checked_require fun type _ => checked_rejectIf fun _ =>
    checked_require fun scheduledFor _ => checked_read rfl <| checked_rejectIf fun _ =>
      checked_rejectIf fun _ => checked_requireMembership fun cv _ => ?_
  refine atomic_read (by rw [run_resolvePrivateDelivery]) fun delivery _ => checked_rejectIf fun _ =>
    checked_read rfl <| checked_rejectIf fun _ => ?_
  have hreply : Idle exec (checkScheduledReply cv payload.replyToMessageId) :=
    idle_of_uses (uses_checkScheduledReply (fun _ _ _ => rfl) _ _)
  refine atomic_read (hreply s) fun _ _ => atomic_bind (passes_perform _).atomic fun saved _ _ => ?_
  exact commits_bind (passes_recordAudit _ _ _ _ _) fun _ _ _ => commits_ret _

theorem checked_cancelScheduledMessage (c : ConversationId) (id : Nat) (u : UserId) :
    Checked (cancelScheduledMessage c id u) s := by
  refine checked_requireMembership fun cv _ => checked_read rfl <| checked_require fun row _ =>
    checked_rejectIf fun _ => checked_read rfl ?_
  exact atomic_bind (passes_perform _).atomic fun _ _ _ => commits_ret _

theorem passes_dispatchDueScheduled : Passes dispatchDueScheduled s := by
  refine commits_bind (passes_perform _) fun _ _ _ => commits_bind (passes_perform _) fun due t _ => ?_
  refine passes_collect (fun row t => commits_bind (passes_perform _) fun claimed t' _ => ?_) due t
  split
  · exact commits_ret _
  · have hfail : ∀ (row : ScheduledMessage) (e : Failure) (t : Db), Passes (failScheduled row e) t :=
      fun _ _ _ => commits_bind (passes_perform _) fun _ _ _ => commits_ret _
    refine commits_bind (passes_attempt _) fun outcome _ _ => ?_
    cases outcome with
    | ok result =>
      refine commits_bind (passes_attempt _) fun saved t _ => ?_
      cases saved with
      | ok _ => exact commits_ret _
      | error e => exact hfail _ e t
    | error e => exact hfail _ e _

/-! ## Every operation -/

theorem checked_blockUser (a u : UserId) : Checked (blockUser a u) s := by
  refine checked_rejectIf fun _ => checked_read rfl ?_
  split
  · exact atomic_ret _
  · exact atomic_bind (passes_perform _).atomic fun _ _ _ => commits_ret _

theorem passes_getWorkspaceSettings : Passes getWorkspaceSettings s := by
  refine commits_bind (passes_perform _) fun found _ _ => ?_
  cases found with
  | none => exact commits_bind (passes_perform _) fun _ _ _ => commits_ret _
  | some settings => exact commits_ret _

theorem Op.checked (hkeyed : WellKeyed s) (op : Op) : Checked op.program s := by
  have hread : ∀ c, ReadCall c → ∀ s, (exec c s).2 = s := fun _ h => h.exec
  have idle {α : Type} {p : M α} (f : α → Response) (h : Uses (fun c => ∀ s, (exec c s).2 = s) p) :
      Checked (f <$> p) s := checked_map f (idle_of_uses h).atomic
  have write {α : Type} (f : α → Response) (c : Call) (g : c.Answer → α) :
      Checked (f <$> (perform c >>= fun a => ret (g a))) s :=
    checked_map f (atomic_bind (passes_perform c).atomic fun _ _ _ => commits_ret _)
  cases op with
  | createPrivate a b => exact checked_map _ (checked_createPrivate a b)
  | createGroup a name ids => exact checked_map _ (checked_createGroup a name ids)
  | listConversations a page => exact idle _ (uses_listConversations hread a page)
  | getConversation c a => exact idle _ (uses_getConversation hread c a)
  | listMessages c a page => exact idle _ (uses_listMessages hread c a page)
  | searchMessages c a query page => exact idle _ (uses_searchMessages hread c a query page)
  | searchGlobal a query page => exact idle _ (uses_searchGlobal hread a query page)
  | listMedia c a kind page => exact idle _ (uses_listMedia hread c a kind page)
  | getMessage c m a => exact idle _ (uses_getMessage hread (fun _ _ _ => rfl) c m a)
  | listPinnedMessages c a => exact idle _ (uses_listPinnedMessages hread c a)
  | sendMessage payload => exact checked_map _ (checked_sendMessage payload)
  | forwardMessage a source target m => exact checked_map _ (checked_forwardMessage a source target m)
  | editMessage c m a body => exact checked_map _ (checked_editMessage c m a body)
  | reactMessage c m a emoji => exact checked_map _ (checked_reactMessage c m a emoji)
  | pinMessage c m a pinned => exact checked_map _ (checked_pinMessage c m a pinned)
  | deleteMessage c m a forEveryone => exact checked_map _ (checked_deleteMessage c m a forEveryone)
  | expireDueMessages => exact checked_map _ passes_expireDueMessages.atomic
  | scheduleMessage payload => exact checked_map _ (checked_scheduleMessage payload)
  | listScheduledMessages c a => exact idle _ (uses_listScheduledMessages hread c a)
  | cancelScheduledMessage c id a => exact checked_map _ (checked_cancelScheduledMessage c id a)
  | dispatchDueScheduled => exact checked_map _ passes_dispatchDueScheduled.atomic
  | pinConversation c a pinned =>
    exact checked_map _ (checked_updateMembership c a fun _ _ => ⟨rfl, rfl, rfl⟩)
  | muteConversation c a muted =>
    exact checked_map _ (checked_updateMembership c a fun _ _ => ⟨rfl, rfl, rfl⟩)
  | markSeen c a m => exact checked_map _ (checked_markSeen c a m)
  | setDisappearingMessages c a n => exact checked_map _ (checked_setDisappearingMessages c a n)
  | addMembers c a ids => exact checked_map _ (checked_addMembers c a ids)
  | removeMember c a u => exact checked_map _ (checked_removeMember hkeyed c a u)
  | setMemberRole c a u role => exact checked_map _ (checked_setMemberRole hkeyed c a u role)
  | leave c a => exact checked_map _ (checked_leave c a)
  | updateGroup c a name => exact checked_map _ (checked_updateGroup c a name)
  | deleteGroup c a => exact checked_map _ (checked_deleteGroup c a)
  | blockUser a u => exact checked_map _ (checked_blockUser a u)
  | unblockUser a u => exact write _ (.deleteBlock a u) _
  | listBlocks a => exact write _ (.listBlocks a) _
  | prepareVoiceCall c a => exact idle _ (uses_prepareVoiceCall hread c a)
  | getAnalytics => exact idle _ (uses_getAnalytics hread)
  | listAuditEvents page => exact write _ (.listAudit page.skip page.take) _
  | logAudit a action type id info => exact write _ (.insertAudit a action type id _) _
  | getWorkspaceSettings => exact checked_map _ passes_getWorkspaceSettings.atomic
  | updateWorkspaceSettings a n t p l =>
    refine checked_map _ (checked_read rfl ?_)
    exact atomic_bind (passes_perform _).atomic fun _ _ _ =>
      commits_bind (passes_recordAudit _ _ _ _ _) fun _ _ _ => commits_ret _

/-- An operation that rejects its request leaves the database as it was. -/
theorem rejected_unchanged (hs : Reachable s) (op : Op) {e : RpcError}
    (h : (op.run s).1 = .error (.rpc e)) : (op.run s).2 = s :=
  Op.checked hs.inv.keyed op (.rpc e) trivial h

/-- The owner of a group cannot be removed by an admin of it. -/
theorem rejected_unchanged_removeOwner :
    ((Op.removeMember 0 userB userA).run (threeMembers.serve [.setMemberRole 0 userA userB (some .admin)])).2 =
      threeMembers.serve [.setMemberRole 0 userA userB (some .admin)] :=
  rejected_unchanged (((reachable_empty 0 0).serve _).serve _) (.removeMember 0 userB userA)
    (e := RpcErrors.forbidden "The group owner cannot be removed") (by decide)

end Relay.Chat
