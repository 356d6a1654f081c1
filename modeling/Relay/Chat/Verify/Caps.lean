import Relay.Chat.Verify.Handover

/-!
# Limits that are checked before the write

A chat has at most 3 pinned messages, a sender at most 20 pending scheduled messages in a chat, and a group
at most 50 active members. The requests count first and write later. `capped_iff` says which interleavings
keep the limits, and `CapOp.run_capped` that a request served alone keeps them.
-/

namespace Relay.Chat

open Relay.Lib Relay.Lib.Rows Prog

/-! ## The limits -/

/-- The pinned messages of a conversation that are not deleted for everyone. -/
def Db.pinned (db : Db) (c : ConversationId) : List Message := db.messages.filter (pinnedIn c)

def pendingOf (c : ConversationId) (u : UserId) (row : ScheduledMessage) : Bool :=
  row.conversationId = c ∧ row.senderId = u.canon ∧ row.status = .pending

def Db.pending (db : Db) (c : ConversationId) (u : UserId) : List ScheduledMessage :=
  db.scheduledMessages.filter (pendingOf c u)

def seatedIn (c : ConversationId) (m : ConversationMember) : Bool := m.conversationId = c ∧ m.leftAt = none

structure Db.Capped (db : Db) : Prop where
  pins : ∀ c, (db.pinned c).length ≤ 3
  scheduled : ∀ c u, (db.pending c u).length ≤ MAX_PENDING_SCHEDULED_PER_CHAT
  members : ∀ c, db.IsGroup c → (db.seats c).length ≤ MAX_GROUP_MEMBERS

/-- A call that takes a place finds one: the check made before the call would pass now. -/
def Fits (db : Db) : Call → Prop
  | .saveMessage m =>
    Takes Message.id m db.messages (pinnedIn m.conversationId) → (db.pinned m.conversationId).length < 3
  | .insertScheduled d => (db.pending d.conversationId d.senderId).length < MAX_PENDING_SCHEDULED_PER_CHAT
  | .saveMember m =>
    db.memberTaken m = false → Takes ConversationMember.id m db.members (seatedIn m.conversationId) →
      db.IsGroup m.conversationId → (db.seats m.conversationId).length < MAX_GROUP_MEMBERS
  | .insertMember c u role =>
    db.insertMember c u role ≠ none → db.IsGroup c → (db.seats c).length < MAX_GROUP_MEMBERS
  | _ => True

/-! ## The requests -/

inductive CapOp where
  | pin (c : ConversationId) (m : MessageId) (actorId : UserId) (pinned : Bool)
  | schedule (payload : ScheduleMessage)
  | cancel (c : ConversationId) (scheduled : Nat) (actorId : UserId)
  | addMembers (c : ConversationId) (actorId : UserId) (memberIds : List UserId)

def CapOp.op : CapOp → Op
  | .pin c m a pinned => .pinMessage c m a pinned
  | .schedule payload => .scheduleMessage payload
  | .cancel c id a => .cancelScheduledMessage c id a
  | .addMembers c a ids => .addMembers c a ids

/-- The calls of these requests. -/
def CapCall : Call → Prop
  | .saveMessage _ | .insertScheduled _ | .saveMember _ | .insertMember _ _ _ => True
  | .saveScheduled row => row.status = .cancelled
  | c => Minor c

theorem Minor.capCall {c : Call} (h : Minor c) : CapCall c := by
  cases c <;> first | exact trivial | exact h.elim

theorem CapOp.uses (op : CapOp) : Uses CapCall op.op.program := by
  have hminor : ∀ c, Minor c → CapCall c := fun _ h => h.capCall
  have map {α : Type} {p : M α} (f : α → Response) (h : Uses CapCall p) : Uses CapCall (f <$> p) :=
    uses_bind h fun _ => trivial
  cases op with
  | pin c m a pinned => exact map _ (uses_pinMessage hminor (fun _ => trivial) c m a pinned)
  | schedule payload => exact map _ (uses_scheduleMessage hminor (fun _ => trivial) payload)
  | cancel c id a => exact map _ (uses_cancelScheduledMessage hminor (fun _ h => h) c id a)
  | addMembers c a ids =>
    exact map _ (uses_addMembers (fun _ => trivial) (fun _ _ _ => trivial) (fun _ h => h.minor.capCall) c a ids)

/-! ## One call -/

section Calls

variable {s t : Db}

theorem seats_eq (db : Db) (c : ConversationId) : db.seats c = db.members.filter (seatedIn c) := by
  unfold Db.seats Db.membersOf activeMembers
  rw [List.filter_filter]
  refine List.filter_congr fun m _ => ?_
  simp [seatedIn, Bool.and_comm]

theorem isGroup_congr (h : t.conversations = s.conversations) (c : ConversationId) :
    t.IsGroup c ↔ s.IsGroup c := by
  unfold Db.IsGroup
  rw [h]

theorem pinnedIn_of {c : ConversationId} {m : Message} (h : pinnedIn c m = true) : m.conversationId = c := by
  simp only [pinnedIn, Bool.and_eq_true, beq_iff_eq] at h
  exact h.1.1

theorem seatedIn_iff {c : ConversationId} {m : ConversationMember} :
    seatedIn c m = true ↔ m.conversationId = c ∧ m.leftAt = none := decide_eq_true_iff

/-- Only the three tables matter. -/
theorem Db.Capped.of_same (h : s.Capped) (hm : t.messages = s.messages)
    (hs : t.scheduledMessages = s.scheduledMessages) (hu : t.members = s.members)
    (hc : t.conversations = s.conversations) : t.Capped where
  pins := by
    unfold Db.pinned
    rw [hm]
    exact h.pins
  scheduled := by
    unfold Db.pending
    rw [hs]
    exact h.scheduled
  members c hgroup := by
    rw [seats_eq, hu, ← seats_eq]
    exact h.members c ((isGroup_congr hc c).mp hgroup)

theorem capped_saveMessage (hkeyed : WellKeyed s) (h : s.Capped) (m : Message) :
    (exec (.saveMessage m) s).2.Capped ↔ Fits s (.saveMessage m) := by
  constructor
  · intro ht
    exact (filter_replaceRow_le_iff hkeyed.messages.nodup (h.pins _)).mp (ht.pins m.conversationId)
  · intro hfits
    refine ⟨fun c => (filter_replaceRow_le_iff hkeyed.messages.nodup (h.pins c)).mpr fun htakes => ?_,
      h.scheduled, h.members⟩
    obtain rfl := pinnedIn_of htakes.1
    exact hfits htakes

theorem capped_insertScheduled (h : s.Capped) (d : ScheduledDraft) :
    (exec (.insertScheduled d) s).2.Capped ↔ Fits s (.insertScheduled d) := by
  constructor
  · intro ht
    refine (filter_concat_le_iff (h.scheduled d.conversationId d.senderId)).mp (ht.scheduled _ _) ?_
    exact decide_eq_true ⟨rfl, rfl, rfl⟩
  · intro hfits
    refine ⟨h.pins, fun c u => (filter_concat_le_iff (h.scheduled c u)).mpr fun hrow => ?_, h.members⟩
    obtain ⟨hc, hu, -⟩ := of_decide_eq_true hrow
    have heq : s.pending c u = s.pending d.conversationId d.senderId := by
      unfold Db.pending pendingOf
      rw [← hc, ← hu]
      rfl
    change (s.pending c u).length < _
    rw [heq]
    exact hfits

/-- The members of a group after a row was written. -/
theorem capped_members (h : s.Capped) {rows : List ConversationMember} {n : Nat} :
    { s with members := rows, nextId := n }.Capped ↔
      ∀ c, s.IsGroup c → (rows.filter (seatedIn c)).length ≤ MAX_GROUP_MEMBERS := by
  constructor
  · intro ht c hgroup
    have hle := ht.members c hgroup
    rwa [seats_eq] at hle
  · intro hle
    refine ⟨h.pins, h.scheduled, fun c hgroup => ?_⟩
    rw [seats_eq]
    exact hle c hgroup

theorem capped_saveMember (hkeyed : WellKeyed s) (h : s.Capped) (m : ConversationMember) :
    (exec (.saveMember m) s).2.Capped ↔ Fits s (.saveMember m) := by
  have hle : ∀ c, s.IsGroup c → (s.members.filter (seatedIn c)).length ≤ MAX_GROUP_MEMBERS :=
    fun c hgroup => seats_eq s c ▸ h.members c hgroup
  cases htaken : s.memberTaken m with
  | true =>
    have hexec : (exec (.saveMember m) s).2 = s := by simp [exec, Db.saveMember, htaken, orViolation]
    rw [hexec]
    exact iff_of_true h fun hfree => Bool.noConfusion (htaken.symm.trans hfree)
  | false =>
    have hexec : (exec (.saveMember m) s).2 =
        { s with members := replaceRow ConversationMember.id m s.members, nextId := s.nextId } := by
      simp [exec, Db.saveMember, htaken, orViolation]
    rw [hexec, capped_members h]
    constructor
    · intro ht _ htakes hgroup
      rw [seats_eq]
      exact (filter_replaceRow_le_iff hkeyed.members.nodup (hle _ hgroup)).mp (ht _ hgroup) htakes
    · intro hfits c hgroup
      refine (filter_replaceRow_le_iff hkeyed.members.nodup (hle c hgroup)).mpr fun htakes => ?_
      obtain ⟨rfl, -⟩ := seatedIn_iff.mp htakes.1
      rw [← seats_eq]
      exact hfits htaken htakes hgroup

theorem capped_insertMember (h : s.Capped) (c : ConversationId) (u : UserId) (role : ConversationMemberRole) :
    (exec (.insertMember c u role) s).2.Capped ↔ Fits s (.insertMember c u role) := by
  cases hinsert : s.insertMember c u role with
  | none =>
    have hexec : (exec (.insertMember c u role) s).2 = s := by simp [exec, hinsert, orViolation]
    rw [hexec]
    exact iff_of_true h fun hsome => absurd hinsert hsome
  | some t =>
    have hexec : (exec (.insertMember c u role) s).2 = t := by simp [exec, hinsert, orViolation]
    rw [hexec, Db.insertMember_eq_some hinsert, capped_members h]
    constructor
    · intro ht _ hgroup
      have hle := h.members c hgroup
      rw [seats_eq] at hle ⊢
      exact (filter_concat_le_iff hle).mp (ht c hgroup) (seatedIn_iff.mpr ⟨rfl, rfl⟩)
    · intro hfits c' hgroup
      have hle := h.members c' hgroup
      rw [seats_eq] at hle
      refine (filter_concat_le_iff hle).mpr fun hrow => ?_
      obtain ⟨rfl, -⟩ := seatedIn_iff.mp hrow
      rw [← seats_eq]
      exact hfits (by simp [hinsert]) hgroup

/-- A call keeps the limits exactly when it fits. -/
theorem capped_exec (hkeyed : WellKeyed s) (h : s.Capped) {c : Call} (hc : CapCall c) :
    (exec c s).2.Capped ↔ Fits s c := by
  cases c with
  | saveMessage m => exact capped_saveMessage hkeyed h m
  | insertScheduled d => exact capped_insertScheduled h d
  | saveMember m => exact capped_saveMember hkeyed h m
  | insertMember c u role => exact capped_insertMember h c u role
  | saveScheduled row =>
    refine iff_of_true ⟨h.pins, fun c u => ?_, h.members⟩ trivial
    refine (filter_replaceRow_le_iff hkeyed.scheduled.nodup (h.scheduled c u)).mpr fun htakes => ?_
    have hrow := (of_decide_eq_true htakes.1).2.2
    rw [show row.status = .cancelled from hc] at hrow
    cases hrow
  | insertHide m u =>
    refine iff_of_true ?_ trivial
    simp only [exec]
    split
    · exact h
    · exact h.of_same rfl rfl rfl rfl
  | insertAudit a action type id info => exact iff_of_true (h.of_same rfl rfl rfl rfl) trivial
  | findMessage m c => exact iff_of_true h trivial
  | findScheduled id c u => exact iff_of_true h trivial
  | _ =>
    first
    | exact hc.elim
    | exact iff_of_true h trivial

end Calls

/-! ## A request served alone -/

section Alone

variable {s : Db} {α β : Type}

theorem Minor.fits {c : Call} (h : Minor c) (s : Db) : Fits s c := by
  cases c <;> first | exact trivial | exact h.elim

theorem calls_minor {p : M α} (h : Uses Minor p) (s : Db) : Calls exec Fits p s := by
  induction p generalizing s with
  | ret a => trivial
  | fail e => trivial
  | call c k ih => exact ⟨h.1.fits s, ih _ (h.2 _ trivial) _⟩

/-- A part that reads. -/
theorem calls_read {p : M α} {f : α → M β} (h : Uses ReadCall p)
    (hf : ∀ a, run exec p s = (.ok a, s) → Calls exec Fits (f a) s) : Calls exec Fits (p >>= f) s := by
  have hsame : (run exec p s).2 = s :=
    Sat.preserves (I := fun t => t = s) (fun t c hc ht => (hc.exec t).trans ht) h rfl
  refine calls_bind (calls_minor (h.mono (fun _ _ h => h) fun _ h => h.minor) s) fun a t ha => ?_
  obtain rfl : t = s := (congrArg Prod.snd ha).symm.trans hsame
  exact hf a ha

/-- A call that reads, and its answer. -/
theorem calls_answer {c : Call} {a : c.Answer} {f : c.Answer → M β} (hc : Minor c) (ha : exec c s = (.ok a, s))
    (hf : Calls exec Fits (f a) s) : Calls exec Fits (perform c >>= f) s := by
  refine calls_bind (calls_perform (hc.fits s)) fun b t hb => ?_
  rw [run_perform, ha] at hb
  cases hb
  exact hf

theorem calls_unless {P : Prop} [Decidable P] {e : RpcError} {f : Unit → M α}
    (hf : ¬ P → Calls exec Fits (f ()) s) : Calls exec Fits (rejectIf P e >>= f) s := by
  unfold rejectIf
  split
  · trivial
  · next h => exact hf h

theorem calls_require {a : Option α} {e : RpcError} {f : α → M β}
    (hf : ∀ x, a = some x → Calls exec Fits (f x) s) : Calls exec Fits (require a e >>= f) s := by
  cases a with
  | none => trivial
  | some x => exact hf x rfl

theorem calls_pinMessage (c : ConversationId) (m : MessageId) (u : UserId) (pinned : Bool) :
    Calls exec Fits (pinMessage c m u pinned) s := by
  refine calls_read (uses_requireMembership (fun _ h => h) _ _) fun cv _ => ?_
  refine calls_answer trivial rfl (calls_require fun message hfound => calls_unless fun _ => calls_unless fun _ => ?_)
  have hrow : message.id = m ∧ message.conversationId = cv.id := by simpa using List.find?_some hfound
  have hview : ∀ message' t, Calls exec Fits (viewOne message' cv u >>= fun view =>
      return (⟨view, recipientIds cv⟩ : SendMessageResult)) t := by
    intro message' t
    refine calls_minor ?_ t
    exact uses_bind (uses_viewOne (fun _ h => h.minor) _ _ _) fun _ => trivial
  refine calls_bind ?_ fun message' t _ => hview message' t
  unfold setPinned
  split
  · split
    · refine calls_answer trivial rfl (calls_unless fun hfew => calls_answer trivial rfl ?_)
      refine calls_bind (calls_perform fun _ => ?_) fun _ _ _ => trivial
      rw [hrow.2]
      exact Nat.lt_of_not_le hfew
    · trivial
  · split
    · refine calls_bind (calls_perform fun htakes => ?_) fun _ _ _ => trivial
      have hpinned := htakes.1
      simp [pinnedIn] at hpinned
    · trivial

theorem calls_scheduleMessage (payload : ScheduleMessage) : Calls exec Fits (scheduleMessage payload) s := by
  refine calls_unless fun _ => calls_require fun type _ => calls_unless fun _ => calls_require fun time _ =>
    calls_answer trivial rfl (calls_unless fun _ => calls_unless fun _ => ?_)
  refine calls_read (uses_requireMembership (fun _ h => h) _ _) fun cv _ => ?_
  refine calls_read (uses_resolvePrivateDelivery (fun _ h => h) _ _) fun delivery _ => calls_unless fun _ => ?_
  refine calls_answer trivial rfl (calls_unless fun hfew => ?_)
  have hread : ∀ t, run exec (checkScheduledReply cv payload.replyToMessageId) s = (.ok (), t) → t = s := by
    intro t ht
    unfold checkScheduledReply at ht
    split at ht
    · cases ht
      rfl
    · rw [run_bind_ok exec (run_perform exec _ s)] at ht
      unfold rejectIf at ht
      split at ht
      · cases ht
      · cases ht
        rfl
  refine calls_bind (calls_minor (uses_checkScheduledReply (fun _ _ => trivial) _ _) s) fun _ t ht => ?_
  obtain rfl := hread t ht
  refine calls_bind (calls_perform (Nat.lt_of_not_le hfew)) fun saved t' _ => calls_minor ?_ t'
  exact uses_bind (uses_recordAudit (fun _ _ _ _ _ => trivial) _ _ _ _ _) fun _ => trivial

/-- One more row of a conversation at most. -/
theorem seats_addMember (hkeyed : WellKeyed s) (cv : ConversationWithMembers) (u : UserId) :
    ((run exec (addMember cv u) s).2.seats cv.id).length ≤ (s.seats cv.id).length + 1 := by
  unfold addMember
  split
  · next existing _ =>
    split
    · exact Nat.le_succ _
    · rw [run_perform, seats_eq, seats_eq]
      simp only [exec]
      cases ht : s.saveMember { existing with leftAt := none, role := .member } with
      | none => exact Nat.le_succ _
      | some t =>
        rw [Db.saveMember_eq_some ht]
        exact filter_replaceRow_le hkeyed.members.nodup
  · rw [run_perform, seats_eq, seats_eq]
    simp only [exec]
    cases ht : s.insertMember cv.id u .member with
    | none => exact Nat.le_succ _
    | some t =>
      rw [Db.insertMember_eq_some ht]
      exact filter_concat_le

/-- As long as there is room for all that are still to come. -/
theorem calls_addEach {cv : ConversationWithMembers} (hmembers : ∀ m ∈ cv.members, m.conversationId = cv.id)
    (us : List UserId) (hkeyed : WellKeyed s) (hroom : (s.seats cv.id).length + us.length ≤ MAX_GROUP_MEMBERS) :
    Calls exec Fits (addEach cv us) s := by
  induction us generalizing s with
  | nil => trivial
  | cons u us ih =>
    rw [List.length_cons] at hroom
    have hlt : (s.seats cv.id).length < MAX_GROUP_MEMBERS := by omega
    refine calls_bind ?_ fun _ t ht => ih ?_ ?_
    · unfold addMember
      split
      · next existing hfound =>
        split
        · trivial
        · refine calls_perform fun _ _ _ => ?_
          rw [hmembers existing (List.mem_of_find?_eq_some hfound)]
          exact hlt
      · exact calls_perform fun _ _ => hlt
    · have hkeeps := (calls_true (addMember cv u) s).preserves (I := WellKeyed) (fun _ c _ h => h.exec c) hkeyed
      rwa [ht] at hkeeps
    · have hle := seats_addMember hkeyed cv u
      rw [ht] at hle
      dsimp only at hle
      omega

theorem calls_addMembers (hkeyed : WellKeyed s) (c : ConversationId) (u : UserId) (ids : List UserId) :
    Calls exec Fits (addMembers c u ids) s := by
  refine calls_read (uses_requireMembership (fun _ h => h) _ _) fun cv hcv => ?_
  have hload : cv.members = s.seats cv.id := by
    rw [run_requireMembership] at hcv
    have hok := congrArg Prod.fst hcv
    rw [(Db.membership_eq_ok hok).2.1, Db.membership_id hok]
    rfl
  have hmembers : ∀ m ∈ cv.members, m.conversationId = cv.id := fun m hm =>
    (Db.mem_seats.mp (hload ▸ hm)).2.1
  have hactive : activeMembers cv.members = s.seats cv.id := by
    rw [hload]
    exact List.filter_eq_self.mpr fun m hm => decide_eq_true (Db.mem_seats.mp hm).2.2
  refine calls_read (uses_bind (uses_rejectIf _ _) fun _ => uses_rejectIf _ _) fun _ _ => calls_unless fun _ =>
    calls_unless fun hfew => ?_
  refine calls_bind (calls_addEach hmembers _ hkeyed ?_) fun _ t _ =>
    calls_minor (uses_getConversation (fun _ h => h.minor) _ _) t
  rw [hactive] at hfew
  exact Nat.le_of_not_lt hfew

/-- A request served alone counts and writes in the same state. -/
theorem CapOp.calls (hkeyed : WellKeyed s) (op : CapOp) : Calls exec Fits op.op.program s := by
  have map {α : Type} {p : M α} (f : α → Response) (h : Calls exec Fits p s) : Calls exec Fits (f <$> p) s :=
    calls_bind h fun _ _ _ => trivial
  cases op with
  | pin c m a pinned => exact map _ (calls_pinMessage c m a pinned)
  | schedule payload => exact map _ (calls_scheduleMessage payload)
  | cancel c id a =>
    have hfits : Uses (fun c => ∀ s, Fits s c) (cancelScheduledMessage c id a) :=
      uses_cancelScheduledMessage (fun _ h => h.fits) (fun _ _ _ => trivial) c id a
    exact map _ (Calls.mono (fun s c h => h.2 s) ((calls_true _ s).and_sat hfits))
  | addMembers c a ids => exact map _ (calls_addMembers hkeyed c a ids)

/-- Served alone, a request keeps the limits. -/
theorem CapOp.run_capped (hkeyed : WellKeyed s) (h : s.Capped) (op : CapOp) : (op.op.run s).2.Capped := by
  have hcalls := (op.calls hkeyed).and_sat op.uses
  have hkeeps : ∀ s c, Fits s c ∧ CapCall c → WellKeyed s ∧ s.Capped →
      WellKeyed (exec c s).2 ∧ (exec c s).2.Capped :=
    fun s c hc hs => ⟨hs.1.exec c, (capped_exec hs.1 hs.2 hc.2).mpr hc.1⟩
  exact (Calls.preserves hkeeps hcalls ⟨hkeyed, h⟩).2

end Alone

/-! ## Runs -/

/-- The requests being served and the time that passes. -/
def capStep : Pool.Event CapOp Nat → ChatPool → ChatPool :=
  Pool.step exec (fun o => o.op.program) fun d db => Db.wait db d

/-- Which interleavings of any number of these requests keep the limits throughout. -/
theorem capped_iff {s : Db} (hs : Reachable s) (es : List (Pool.Event CapOp Nat)) :
    Runs.Always capStep (fun p => p.store.Capped) es ⟨s, []⟩ ↔
      s.Capped ∧ Runs.Along capStep (Pool.Executes Fits) es ⟨s, []⟩ := by
  have hkeep : ∀ s c, WellKeyed s → CapCall c → WellKeyed (exec c s).2 := fun s c h _ => h.exec c
  have hpass : ∀ (d : Nat) s, WellKeyed s → WellKeyed (s.wait d) := fun d s h => h.wait d
  have hwait : ∀ (d : Nat) s, Db.Capped s → (s.wait d).Capped := fun d s h => h.of_same rfl rfl rfl rfl
  exact Pool.always_iff_executes CapOp.uses hkeep hpass (fun s c hkeyed h hc => capped_exec hkeyed h hc) hwait
    hs.inv.keyed es

/-- A chat of A and B with four messages. -/
def fourMessages : Db := (Db.empty 0 0).serve
  (.createPrivate userA userB :: List.replicate 4 (.sendMessage (textMessage userA 0 ['h', 'i'])))

theorem reachable_fourMessages : Reachable fourMessages := (reachable_empty 0 0).serve _

/-- A pins the four messages; each request has counted before the first one writes. -/
def fourPins : List (Pool.Event CapOp Nat) :=
  [.start (.pin 0 3 userA true), .start (.pin 0 5 userA true), .start (.pin 0 7 userA true),
    .start (.pin 0 9 userA true)] ++
    (List.replicate 3 [.advance 0, .advance 1, .advance 2, .advance 3]).flatten ++
    [.advance 0, .advance 0, .advance 1, .advance 1, .advance 2, .advance 2, .advance 3, .advance 3]

theorem capped_fourMessages : fourMessages.Capped where
  pins c := by
    have hnone : ∀ m ∈ fourMessages.messages, m.pinnedAt = none := by decide +kernel
    have hnil : fourMessages.pinned c = [] := List.filter_eq_nil_iff.mpr fun m hm => by simp [pinnedIn, hnone m hm]
    rw [hnil]
    decide
  scheduled c u := Nat.le_trans (List.length_filter_le _ _) (by decide +kernel)
  members c _ := by
    rw [seats_eq]
    exact Nat.le_trans (List.length_filter_le _ _) (by decide +kernel)

/-- The first pin alone. -/
def onePin : List (Pool.Event CapOp Nat) := .start (.pin 0 3 userA true) :: List.replicate 5 (.advance 0)

theorem capped_iff_onePin :
    Runs.Always capStep (fun p => p.store.Capped) onePin ⟨fourMessages, []⟩ ↔
      fourMessages.Capped ∧ Runs.Along capStep (Pool.Executes Fits) onePin ⟨fourMessages, []⟩ :=
  capped_iff reachable_fourMessages onePin

/-- All four requests count no pinned message, and all four pin theirs. -/
theorem capped_fails :
    ¬ ∀ (s : Db) (es : List (Pool.Event CapOp Nat)), Reachable s → s.Capped →
      Runs.Always capStep (fun p => p.store.Capped) es ⟨s, []⟩ := by
  intro h
  have hfinal := (h fourMessages fourPins reachable_fourMessages capped_fourMessages).final.pins 0
  have hfour : ((Runs.final capStep fourPins ⟨fourMessages, []⟩).store.pinned 0).length = 4 := by decide +kernel
  rw [hfour] at hfinal
  cases Nat.not_lt.mpr hfinal (by decide)

end Relay.Chat
