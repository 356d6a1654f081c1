import Relay.Chat.Verify.Lawful
import Relay.Chat.Verify.Reads

/-!
# One private conversation for each pair of users

A pair key is made of the ids as a request spells them, and users are compared by value. `onePerPair_iff`
says which runs keep one conversation for a pair: those in which every request spells the two ids as the
request did that created it.
-/

namespace Relay.Chat

open Relay.Lib Relay.Lib.Prog

/-! ## The conversation of a pair -/

/-- `x` and `y` are the users `a` and `b`, in either order and any spelling. -/
def SamePair (a b x y : UserId) : Prop :=
  (x.canon = a.canon ∧ y.canon = b.canon) ∨ (x.canon = b.canon ∧ y.canon = a.canon)

instance (a b x y : UserId) : Decidable (SamePair a b x y) := inferInstanceAs (Decidable (_ ∨ _))

theorem SamePair.swap {a b x y : UserId} (h : SamePair a b x y) : SamePair a b y x :=
  h.symm.imp And.symm And.symm

/-- Two requests with the same key are about the same two users. -/
theorem SamePair.of_key {a b x y x' y' : UserId} (h : SamePair a b x y)
    (hkey : privatePairKey x y = privatePairKey x' y') : SamePair a b x' y' := by
  obtain ⟨rfl, rfl⟩ | ⟨rfl, rfl⟩ := privatePairKey_eq hkey
  · exact h
  · exact h.swap

/-- A private conversation, not deleted, with the two users as its members. -/
def Db.IsPairOf (db : Db) (a b : UserId) (c : Conversation) : Prop :=
  c ∈ db.conversations ∧ c.type = .priv ∧ c.deletedAt = none ∧
    ∃ x y, SamePair a b x y ∧ (db.membersOf c.id).map ConversationMember.userId = [x.canon, y.canon]

/-- The request was made for the pair. -/
def Conversation.Origin.MadeFor (o : Conversation.Origin) (a b : UserId) : Prop :=
  ∃ x y, SamePair a b x y ∧ o.pairKey = some (privatePairKey x y)

/-- The private conversations, by what is written once. -/
def Db.privates (db : Db) : List Conversation.Origin :=
  (db.conversations.map Conversation.origin).filter fun o => o.type = .priv

section Privates

variable {s t : Db} {a b x y : UserId}

theorem mem_privates {o : Conversation.Origin} :
    o ∈ s.privates ↔ ∃ c ∈ s.conversations, c.origin = o ∧ c.type = .priv := by
  unfold Db.privates
  rw [List.mem_filter, List.mem_map]
  constructor
  · rintro ⟨⟨c, hc, rfl⟩, htype⟩
    exact ⟨c, hc, rfl, of_decide_eq_true htype⟩
  · rintro ⟨c, hc, rfl, htype⟩
    exact ⟨⟨c, hc, rfl⟩, decide_eq_true htype⟩

theorem privates_of_origins (h : t.conversations.map Conversation.origin =
    s.conversations.map Conversation.origin) : t.privates = s.privates := by
  unfold Db.privates
  rw [h]

/-- The members of a private conversation are the users of its key. -/
theorem isPairOf_iff (h : Inv s) {c : Conversation} :
    s.IsPairOf a b c ↔ c ∈ s.conversations ∧ c.type = .priv ∧ c.origin.MadeFor a b := by
  constructor
  · rintro ⟨hc, htype, -, x, y, hpair, hmembers⟩
    obtain ⟨-, x', y', -, hkey, hrows⟩ := h.pairs c hc htype
    have husers := congrArg (List.map Prod.fst) hrows
    rw [List.map_map] at husers
    have heq := hmembers.symm.trans husers
    simp only [List.map_cons, List.map_nil, List.cons.injEq, and_true] at heq
    refine ⟨hc, htype, x', y', ?_, hkey⟩
    unfold SamePair at hpair ⊢
    rw [← heq.1, ← heq.2]
    exact hpair
  · rintro ⟨hc, htype, x, y, hpair, hkey⟩
    obtain ⟨hdel, x', y', -, hkey', hrows⟩ := h.pairs c hc htype
    have husers := congrArg (List.map Prod.fst) hrows
    rw [List.map_map] at husers
    have heq : privatePairKey x y = privatePairKey x' y' := Option.some.inj (hkey.symm.trans hkey')
    exact ⟨hc, htype, hdel, x', y', hpair.of_key heq, husers⟩

/-- The pair has at most one conversation. -/
def Db.OnePair (db : Db) (a b : UserId) : Prop :=
  ∀ o ∈ db.privates, ∀ o' ∈ db.privates, o.MadeFor a b → o'.MadeFor a b → o.id = o'.id

theorem onePair_iff (h : Inv s) :
    s.OnePair a b ↔ ∀ c c', s.IsPairOf a b c → s.IsPairOf a b c' → c.id = c'.id := by
  constructor
  · intro hone c c' hc hc'
    obtain ⟨hmem, htype, hmade⟩ := (isPairOf_iff h).mp hc
    obtain ⟨hmem', htype', hmade'⟩ := (isPairOf_iff h).mp hc'
    exact hone _ (mem_privates.mpr ⟨c, hmem, rfl, htype⟩) _ (mem_privates.mpr ⟨c', hmem', rfl, htype'⟩)
      hmade hmade'
  · intro hone o ho o' ho' hmade hmade'
    obtain ⟨c, hmem, rfl, htype⟩ := mem_privates.mp ho
    obtain ⟨c', hmem', rfl, htype'⟩ := mem_privates.mp ho'
    exact hone c c' ((isPairOf_iff h).mpr ⟨hmem, htype, hmade⟩)
      ((isPairOf_iff h).mpr ⟨hmem', htype', hmade'⟩)

end Privates

/-! ## Requests that create no private conversation -/

def Unpairing (c : Call) : Prop := ∀ a b key, c ≠ .createPrivateTx a b key

theorem Aside.unpairing {c : Call} (h : Aside c) : Unpairing c := by
  rintro a b key rfl
  exact h.elim

/-- Only `createPrivate` creates private conversations. -/
theorem Op.unpairing (op : Op) (h : ∀ a b, op ≠ .createPrivate a b) : Uses Unpairing op.program := by
  have hG : ∀ c, Aside c → Unpairing c := fun _ h => h.unpairing
  have hminor : ∀ c, Minor c → Unpairing c := fun _ h => h.aside.unpairing
  have hread : ∀ c, ReadCall c → Unpairing c := fun _ h => h.aside.unpairing
  have map {α : Type} {p : M α} (f : α → Response) (h : Uses Unpairing p) : Uses Unpairing (f <$> p) :=
    uses_bind h fun _ => trivial
  have hsaved : ∀ m, Unpairing (.saveMessage m) := fun _ => nofun
  have hfind : ∀ m c, Unpairing (.findMessage m c) := fun _ _ => nofun
  have hinsert : ∀ d, Unpairing (.insertMessage d) := fun _ => nofun
  have htouch : ∀ c, Unpairing (.saveConversation c) := fun _ => nofun
  have haudit : ∀ a action type id info, Unpairing (.insertAudit a action type id info) :=
    fun _ _ _ _ _ => nofun
  by_cases hop : op.writesMessages = false
  · exact (op.aside hop h).mono (fun _ _ h => h) hG
  · cases op with
    | sendMessage payload =>
      exact map _ (uses_sendMessage hread payload hfind (fun d _ => hinsert d) htouch haudit)
    | forwardMessage a source target m =>
      exact map _ (uses_forwardMessage hread hfind hinsert htouch a source target m)
    | editMessage c m a body => exact map _ (uses_editMessage hminor hsaved c m a body)
    | pinMessage c m a pinned => exact map _ (uses_pinMessage hminor hsaved c m a pinned)
    | deleteMessage c m a forEveryone => exact map _ (uses_deleteMessage hminor hsaved c m a forEveryone)
    | expireDueMessages => exact map _ (uses_expireDueMessages hminor hsaved)
    | scheduleMessage payload => exact map _ (uses_scheduleMessage hminor (fun _ => nofun) payload)
    | cancelScheduledMessage c id a =>
      exact map _ (uses_cancelScheduledMessage hminor (fun _ _ => nofun) c id a)
    | dispatchDueScheduled =>
      exact map _ (uses_dispatchDueScheduled hread hfind (fun d _ _ => hinsert d) htouch haudit
        (fun _ => nofun) fun _ _ => nofun)
    | _ => exact absurd rfl hop

section Calls

variable {s : Db}

/-- The other calls leave the private conversations alone. -/
theorem exec_privates {c : Call} (h : WellKeyed s) (hc : Lawful s c) (hu : Unpairing c) :
    (exec c s).2.privates = s.privates := by
  have hquiet : ∀ c, QuietCall c → (exec c s).2.privates = s.privates := fun c hq =>
    privates_of_origins (congrArg (List.map Conversation.origin) (hq.exec s).1)
  cases c with
  | createPrivateTx a b key => exact absurd rfl (hu a b key)
  | createGroupTx a ids name =>
    refine after_createGroupTx (P := fun t => t.privates = s.privates) rfl fun t ht => ?_
    obtain ⟨rows, rfl, _, _⟩ := Db.insertMembers_eq_some ht
    simp [Db.privates, Db.insertConversation, Conversation.origin, List.filter_append]
  | saveConversation c =>
    simp only [exec]
    split
    · refine privates_of_origins ?_
      rw [List.map_map]
      exact List.map_congr_left fun row hrow => origin_savedRow h hc.1 hrow
    · rfl
  | softDeleteConversation id =>
    refine privates_of_origins ?_
    simp only [exec, List.map_map]
    refine List.map_congr_left fun row _ => ?_
    simp only [Function.comp_apply]
    split <;> rfl
  | saveMember m =>
    refine after_saveMember (P := fun t => t.privates = s.privates) rfl fun t ht => ?_
    rw [Db.saveMember_eq_some ht]
    rfl
  | saveMembers ms =>
    refine after_saveMembers (P := fun t => t.privates = s.privates) rfl fun t ht => ?_
    obtain ⟨rows, rfl, _⟩ := Db.saveMembers_eq_some ht
    rfl
  | insertMember id u role =>
    refine after_insertMember (P := fun t => t.privates = s.privates) rfl fun t ht => ?_
    rw [Db.insertMember_eq_some ht]
    rfl
  | insertMessage d => rfl
  | saveMessage m => rfl
  | _ => exact hquiet _ trivial

theorem run_privates (h : Inv s) (op : Op) (hop : ∀ a b, op ≠ .createPrivate a b) :
    (op.run s).2.privates = s.privates := by
  have hcall : ∀ t c, Lawful t c ∧ Unpairing c → Inv t ∧ t.privates = s.privates →
      Inv (exec c t).2 ∧ (exec c t).2.privates = s.privates := fun t c hL ht =>
    ⟨ht.1.exec hL.1, (exec_privates ht.1.keyed hL.1 hL.2).trans ht.2⟩
  exact (((op.calls h).and_sat (op.unpairing hop)).preserves hcall ⟨h, rfl⟩).2

/-! ## The request that does -/

/-- The conversation stored under a key. -/
def Db.underKey (db : Db) (key : Text) : Option Conversation :=
  db.conversations.find? fun row => row.pairKey = some key ∧ row.type = .priv ∧ row.deletedAt = none

theorem underKey_eq_some {key : Text} {c : Conversation} (h : s.underKey key = some c) :
    c ∈ s.conversations ∧ c.type = .priv ∧ c.pairKey = some key := by
  have hmatch := List.find?_some h
  simp only [decide_eq_true_eq] at hmatch
  exact ⟨List.mem_of_find?_eq_some h, hmatch.2.1, hmatch.1⟩

theorem underKey_none (h : Inv s) {key : Text} (hnone : s.underKey key = none) :
    ∀ c ∈ s.conversations, c.type = .priv → c.pairKey ≠ some key := by
  intro c hc htype hkey
  refine List.find?_eq_none.mp hnone c hc ?_
  simp only [decide_eq_true_eq]
  exact ⟨hkey, htype, (h.pairs c hc htype).deletedAt⟩

/-- No group has a pair key, so the index refuses a key exactly when a private conversation has it. -/
theorem pairKeyTaken_iff (h : Inv s) {key : Text} :
    s.pairKeyTaken key = true ↔ ∃ c, s.underKey key = some c := by
  constructor
  · intro htaken
    obtain ⟨row, hrow, hkey⟩ := List.any_eq_true.mp htaken
    simp only [Bool.and_eq_true, decide_eq_true_eq] at hkey
    by_contra hnone
    have hnone : s.underKey key = none := Option.eq_none_iff_forall_ne_some.mpr fun c hc => hnone ⟨c, hc⟩
    cases htype : row.type with
    | priv => exact underKey_none h hnone row hrow htype hkey.1
    | group =>
      rw [h.groups row hrow htype] at hkey
      cases hkey.1
  · rintro ⟨c, hc⟩
    obtain ⟨hmem, htype, hkey⟩ := underKey_eq_some hc
    refine List.any_eq_true.mpr ⟨c, hmem, ?_⟩
    simp only [Bool.and_eq_true, decide_eq_true_eq]
    exact ⟨hkey, (h.pairs c hmem htype).deletedAt⟩

/-- The row `createPrivate` inserts. -/
def newPrivate (db : Db) (a b : UserId) : Conversation :=
  ⟨db.nextId, .priv, none, a.canon, some (privatePairKey a b), none, 0, db.now, db.now, none⟩

theorem exec_createPrivateTx_taken (h : Inv s) {a b : UserId} {key : Text} {c : Conversation}
    (hc : s.underKey key = some c) :
    exec (.createPrivateTx a b key) s =
      (.error (.query (.uniqueViolation "UQ_conversations_pairKey_active")), s) := by
  simp only [exec, (pairKeyTaken_iff h).mpr ⟨c, hc⟩, if_true]

/-- The two members of a new conversation can be inserted when they are two users. -/
theorem insertMembers_pair (h : Inv s) {a b : UserId} (hne : a.canon ≠ b.canon) :
    ∃ t, (s.insertConversation .priv none a (some (privatePairKey a b))).insertMembers s.nextId
        [(a, .member), (b, .member)] = some t ∧
      t.conversations = s.conversations ++ [newPrivate s a b] ∧ t.userBlocks = s.userBlocks := by
  have hnil := h.membersOf_nextId
  have hfresh : ∀ m ∈ s.members, m.conversationId ≠ s.nextId := by
    intro m hm hid
    have hmem := Db.mem_membersOf.mpr ⟨hm, hid⟩
    rw [hnil] at hmem
    cases hmem
  have hfirst : ∀ db : Db, db.members = s.members → ∀ m : ConversationMember,
      m.conversationId = s.nextId → db.memberTaken m = false := by
    intro db hdb m hm
    unfold Db.memberTaken
    rw [hdb, Bool.and_eq_false_iff]
    refine .inr (List.any_eq_false.mpr fun row hrow => ?_)
    simp only [Bool.and_eq_true, decide_eq_true_eq, not_and]
    rintro ⟨⟨_, hconv⟩, _⟩
    exact absurd (hconv.trans hm) (hfresh row hrow)
  let created := s.insertConversation .priv none a (some (privatePairKey a b))
  let row : ConversationMember :=
    ⟨s.nextId + 1, s.nextId, a.canon, .member, s.now, none, none, none, none⟩
  let db₁ : Db := { created with members := s.members ++ [row], nextId := s.nextId + 2 }
  have h₁ : created.insertMember s.nextId a .member = some db₁ :=
    if_neg (Bool.eq_false_iff.mp (hfirst created rfl _ rfl))
  let row' : ConversationMember :=
    ⟨s.nextId + 2, s.nextId, b.canon, .member, s.now, none, none, none, none⟩
  have hsecond : db₁.memberTaken row' = false := by
    have hold := hfirst s rfl row' rfl
    unfold Db.memberTaken at hold ⊢
    rw [show db₁.members = s.members ++ [row] from rfl, List.any_append, Bool.and_or_distrib_left, hold]
    simp [row, row', hne]
  have h₂ : db₁.insertMember s.nextId b .member =
      some { db₁ with members := db₁.members ++ [row'], nextId := s.nextId + 3 } :=
    if_neg (Bool.eq_false_iff.mp hsecond)
  have hboth : created.insertMembers s.nextId [(a, .member), (b, .member)] =
      some { db₁ with members := db₁.members ++ [row'], nextId := s.nextId + 3 } := by
    simp only [Db.insertMembers, h₁, h₂]
  exact ⟨_, hboth, rfl, rfl⟩

theorem exec_createPrivateTx (h : Inv s) {a b : UserId} (hne : a.canon ≠ b.canon)
    (hnone : s.underKey (privatePairKey a b) = none) :
    ∃ cv t, exec (.createPrivateTx a b (privatePairKey a b)) s = (.ok cv, t) ∧ cv.id = s.nextId ∧
      t.conversations = s.conversations ++ [newPrivate s a b] ∧ t.userBlocks = s.userBlocks := by
  obtain ⟨t, ht, hconversations, hblocks⟩ := insertMembers_pair h hne
  have htaken : ¬ s.pairKeyTaken (privatePairKey a b) = true := by
    rw [pairKeyTaken_iff h, hnone]
    exact fun ⟨_, hc⟩ => nomatch hc
  have hfound : t.findConversation s.nextId = some (newPrivate s a b) := by
    unfold Db.findConversation
    rw [hconversations, List.find?_append]
    have hold : (s.conversations.find? fun row => row.id = s.nextId ∧ row.deletedAt = none) = none := by
      refine List.find?_eq_none.mpr fun row hrow => ?_
      simp only [decide_eq_true_eq, not_and]
      exact fun hid => absurd hid (Nat.ne_of_lt (h.keyed.conversations.lt row hrow))
    rw [hold]
    simp [newPrivate]
  refine ⟨t.withMembers (newPrivate s a b), t, ?_, rfl, hconversations, hblocks⟩
  simp only [exec]
  rw [if_neg htaken, ht, Option.bind_some, hfound]
  rfl

/-- Nobody has a private conversation with himself, however he spells his id. -/
theorem exec_createPrivateTx_self {a b : UserId} (heq : a.canon = b.canon) (key : Text) :
    ∃ e, exec (.createPrivateTx a b key) s = (.error e, s) := by
  simp only [exec]
  split
  · exact ⟨_, rfl⟩
  · cases ht : (s.insertConversation .priv none a (some key)).insertMembers s.nextId
        [(a, .member), (b, .member)] with
    | none => exact ⟨_, rfl⟩
    | some t =>
      simp only [Db.insertMembers] at ht
      split at ht
      · cases ht
      · next db₁ h₁ =>
        rw [Db.insertMember_eq_some h₁] at ht
        simp [Db.insertMember, Db.memberTaken, Db.insertConversation, heq] at ht

/-! ## Runs of `createPrivate` -/

/-- What `createPrivate` does with the answer of its lookup. -/
def afterLookup (a b : UserId) : Option ConversationWithMembers → M ConversationView
  | some existing => viewConversation existing a
  | none => do
    let blocked ← hasBlock b a
    rejectIf (blocked = true) (RpcErrors.forbidden "You cannot start a chat with this user")
    let saved ← perform (.createPrivateTx a b (privatePairKey a b))
    let flags ← blockFlagsForConversation saved a
    return toConversationView saved a 0 none flags

theorem createPrivate_eq (a b : UserId) :
    createPrivate a b =
      (rejectIf (a = b) (RpcErrors.badRequest "You cannot start a private chat with yourself") >>= fun _ =>
        perform (.findPrivateByPairKey (privatePairKey a b)) >>= afterLookup a b) := by
  unfold createPrivate
  refine bind_congr fun _ => bind_congr fun existing => ?_
  cases existing <;> rfl

/-- A request finds the conversation, is refused or fails, or creates the conversation. -/
theorem createPrivate_cases (h : Inv s) (a b : UserId) :
    (∃ c view, s.underKey (privatePairKey a b) = some c ∧ view.id = c.id ∧
      (Op.createPrivate a b).run s = (.ok (.conversation view), s)) ∨
    (∃ e, (s.hasBlock b a = true ∨ a.canon = b.canon) ∧ (Op.createPrivate a b).run s = (.error e, s)) ∨
    (∃ view t, s.hasBlock b a = false ∧ a.canon ≠ b.canon ∧ s.underKey (privatePairKey a b) = none ∧
      view.id = s.nextId ∧ (Op.createPrivate a b).run s = (.ok (.conversation view), t) ∧
      t.conversations = s.conversations ++ [newPrivate s a b]) := by
  have hrun : ∀ r t, run exec (createPrivate a b) s = (r, t) →
      (Op.createPrivate a b).run s = (r.map Response.conversation, t) := by
    intro r t hrt
    have hmap := run_map exec Response.conversation (createPrivate a b) s
    rw [hrt] at hmap
    exact hmap
  by_cases hself : a = b
  · have hreject : run exec (createPrivate a b) s = (.error (.rpc (RpcErrors.badRequest
        "You cannot start a private chat with yourself")), s) := run_rejectIf_pos hself _
    exact .inr (.inl ⟨_, .inr (congrArg UserId.canon hself), hrun _ _ hreject⟩)
  have hlookup : run exec (createPrivate a b) s =
      run exec (afterLookup a b ((s.underKey (privatePairKey a b)).map s.withMembers)) s := by
    rw [createPrivate_eq, run_rejectIf_neg hself]
    exact run_bind_ok _ (run_perform _ _ _)
  cases hfound : s.underKey (privatePairKey a b) with
  | some c =>
    rw [hfound] at hlookup
    exact .inl ⟨c, _, rfl, rfl, hrun _ _ (hlookup.trans (run_viewConversation _ _))⟩
  | none =>
    rw [hfound] at hlookup
    have hblock : run exec (createPrivate a b) s = run exec (do
        rejectIf (s.hasBlock b a = true) (RpcErrors.forbidden "You cannot start a chat with this user")
        let saved ← perform (.createPrivateTx a b (privatePairKey a b))
        let flags ← blockFlagsForConversation saved a
        return toConversationView saved a 0 none flags : M ConversationView) s :=
      hlookup.trans (run_bind_ok _ (run_hasBlock b a))
    cases hblocked : s.hasBlock b a with
    | true =>
      have hreject := hblock.trans (run_rejectIf_pos hblocked _)
      exact .inr (.inl ⟨_, .inl rfl, hrun _ _ hreject⟩)
    | false =>
      have hinsert := hblock.trans (run_rejectIf_neg (Bool.eq_false_iff.mp hblocked) _)
      by_cases hsame : a.canon = b.canon
      · obtain ⟨e, he⟩ := exec_createPrivateTx_self (s := s) hsame (privatePairKey a b)
        refine .inr (.inl ⟨e, .inr hsame, hrun (.error e) s (hinsert.trans ?_)⟩)
        exact run_bind_error _ ((run_perform _ _ _).trans he)
      · obtain ⟨cv, t, htx, hid, hconversations, -⟩ := exec_createPrivateTx h hsame hfound
        have hview : run exec (createPrivate a b) s =
            (.ok (toConversationView cv a 0 none (t.blockFlags cv a)), t) := by
          rw [hinsert, run_bind_ok _ ((run_perform _ _ _).trans htx)]
          exact run_bind_ok _ (run_blockFlagsForConversation cv a)
        exact .inr (.inr ⟨_, t, rfl, hsame, rfl, hid, hrun _ _ hview, hconversations⟩)

end Calls

/-! ## Sequential runs -/

/-- A request served alone, or time that passes. -/
inductive Turn where
  | serve (op : Op)
  | wait (d : Nat)

/-- The database, and every request served so far with its answer. -/
structure Served where
  db : Db
  answers : List (Op × Except Failure Response)

def Served.step : Turn → Served → Served
  | .serve op, w => ⟨(op.run w.db).2, w.answers ++ [(op, (op.run w.db).1)]⟩
  | .wait d, w => ⟨w.db.wait d, w.answers⟩

/-- A `createPrivate` was answered with a conversation. -/
def Served.Answered (w : Served) (x y : UserId) (c : ConversationId) : Prop :=
  ∃ view, (Op.createPrivate x y, .ok (.conversation view)) ∈ w.answers ∧ view.id = c

/-- The requests of the pair got one conversation, the pair has no other, and no other pair got it. -/
structure OnePerPair (a b : UserId) (w : Served) : Prop where
  same : ∀ x y x' y' c c', SamePair a b x y → SamePair a b x' y' → w.Answered x y c →
    w.Answered x' y' c' → c = c'
  one : ∀ c c', w.db.IsPairOf a b c → w.db.IsPairOf a b c' → c.id = c'.id
  own : ∀ x y x' y' c c', SamePair a b x y → ¬ SamePair a b x' y' → w.Answered x y c →
    w.Answered x' y' c' → c ≠ c'

/-- A request of the pair is made by a user the other one has blocked, or it spells the two ids as the
request did that created the conversation they have. -/
def SpelledAlike (a b : UserId) (w : Served) : Turn → Prop
  | .serve (.createPrivate x y) => SamePair a b x y → w.db.hasBlock y x = true ∨
      ∀ c, w.db.IsPairOf a b c → c.pairKey = some (privatePairKey x y)
  | _ => True

/-- Every answer is the conversation stored under the key of its request. -/
structure Recorded (w : Served) : Prop where
  inv : Inv w.db
  answers : ∀ x y c, w.Answered x y c →
    ∃ o ∈ w.db.privates, o.id = c ∧ o.pairKey = some (privatePairKey x y)

section Sequential

variable {w : Served} {a b : UserId}

/-- A private conversation is determined by its id. -/
theorem privates_inj {s : Db} (h : Inv s) {o o' : Conversation.Origin} (ho : o ∈ s.privates)
    (ho' : o' ∈ s.privates) (hid : o.id = o'.id) : o = o' := by
  obtain ⟨c, hc, rfl, -⟩ := mem_privates.mp ho
  obtain ⟨c', hc', rfl, -⟩ := mem_privates.mp ho'
  rw [h.keyed.conversations.eq_of_id_eq hc hc' hid]

theorem onePerPair_iff_onePair (h : Recorded w) : OnePerPair a b w ↔ w.db.OnePair a b := by
  refine ⟨fun hone => (onePair_iff h.inv).mpr hone.one, fun hone => ?_⟩
  refine ⟨fun x y x' y' c c' hxy hxy' hc hc' => ?_, (onePair_iff h.inv).mp hone,
    fun x y x' y' c c' hxy hnot hc hc' heq => ?_⟩
  · obtain ⟨o, ho, rfl, hkey⟩ := h.answers x y c hc
    obtain ⟨o', ho', rfl, hkey'⟩ := h.answers x' y' c' hc'
    exact hone o ho o' ho' ⟨x, y, hxy, hkey⟩ ⟨x', y', hxy', hkey'⟩
  · obtain ⟨o, ho, rfl, hkey⟩ := h.answers x y c hc
    obtain ⟨o', ho', hid, hkey'⟩ := h.answers x' y' c' hc'
    rw [privates_inj h.inv ho ho' (heq.trans hid.symm)] at hkey
    exact hnot (hxy.of_key (Option.some.inj (hkey.symm.trans hkey')))

theorem answered_append {w : Served} {db : Db} {op : Op} {r : Except Failure Response} {x y : UserId}
    {c : ConversationId} (h : (⟨db, w.answers ++ [(op, r)]⟩ : Served).Answered x y c) :
    w.Answered x y c ∨ op = .createPrivate x y ∧ ∃ view, r = .ok (.conversation view) ∧ view.id = c := by
  obtain ⟨view, hmem, hid⟩ := h
  rcases List.mem_append.mp hmem with hmem | hmem
  · exact .inl ⟨view, hmem, hid⟩
  · obtain ⟨hop, hr⟩ := Prod.mk.inj (List.mem_singleton.mp hmem)
    exact .inr ⟨hop.symm, view, hr.symm, hid⟩

/-- The private conversations after a request that creates one. -/
theorem privates_created {s t : Db} {x y : UserId}
    (h : t.conversations = s.conversations ++ [newPrivate s x y]) :
    t.privates = s.privates ++ [(newPrivate s x y).origin] := by
  unfold Db.privates
  rw [h, List.map_append, List.filter_append]
  rfl

theorem Recorded.step (h : Recorded w) (turn : Turn) : Recorded (Served.step turn w) := by
  cases turn with
  | wait d => exact ⟨h.inv.wait d, h.answers⟩
  | serve op =>
    refine ⟨h.inv.run op, fun x y c hc => ?_⟩
    by_cases hop : ∃ a b, op = .createPrivate a b
    · obtain ⟨a, b, rfl⟩ := hop
      have hold : ∀ {t : Db}, w.db.privates ⊆ t.privates → w.Answered x y c →
          ∃ o ∈ t.privates, o.id = c ∧ o.pairKey = some (privatePairKey x y) := by
        intro t hsub hans
        obtain ⟨o, ho, hid⟩ := h.answers x y c hans
        exact ⟨o, hsub ho, hid⟩
      obtain ⟨row, view, hfound, hview, hrun⟩ | ⟨e, -, hrun⟩ |
          ⟨view, t, -, -, -, hview, hrun, hconversations⟩ := createPrivate_cases h.inv a b
      · simp only [Served.step, hrun] at hc ⊢
        obtain hans | ⟨hop, view', hr, hid⟩ := answered_append hc
        · exact hold (fun _ ho => ho) hans
        · cases hop
          cases hr
          obtain ⟨hmem, htype, hkey⟩ := underKey_eq_some hfound
          exact ⟨row.origin, mem_privates.mpr ⟨row, hmem, rfl, htype⟩, hview.symm.trans hid, hkey⟩
      · simp only [Served.step, hrun] at hc ⊢
        obtain hans | ⟨hop, view', hr, hid⟩ := answered_append hc
        · exact hold (fun _ ho => ho) hans
        · cases hr
      · simp only [Served.step, hrun] at hc ⊢
        rw [privates_created hconversations]
        obtain hans | ⟨hop, view', hr, hid⟩ := answered_append hc
        · obtain ⟨o, ho, hid⟩ := h.answers x y c hans
          exact ⟨o, List.mem_append_left _ ho, hid⟩
        · cases hop
          cases hr
          exact ⟨_, List.mem_append_right _ (List.mem_singleton_self _), hview.symm.trans hid, rfl⟩
    · have hsame := run_privates h.inv op fun a b heq => hop ⟨a, b, heq⟩
      simp only [Served.step, hsame] at hc ⊢
      obtain hans | ⟨hop', -⟩ := answered_append hc
      · exact h.answers x y c hans
      · exact absurd ⟨x, y, hop'⟩ hop

/-- Both users of a pair that has a conversation. -/
theorem ne_of_isPairOf {s : Db} (h : Inv s) {c : Conversation} (hc : s.IsPairOf a b c) : a.canon ≠ b.canon := by
  obtain ⟨hmem, htype, x, y, hpair, hkey⟩ := (isPairOf_iff h).mp hc
  obtain ⟨-, x', y', hne, hkey', -⟩ := h.pairs c hmem htype
  have hpair' : SamePair a b x' y' := hpair.of_key (Option.some.inj (hkey.symm.trans hkey'))
  rintro heq
  obtain ⟨hx, hy⟩ | ⟨hx, hy⟩ := hpair'
  · exact hne (hx.trans (heq.trans hy.symm))
  · exact hne (hx.trans (heq.symm.trans hy.symm))

/-- With a new conversation the pair has one exactly when it had none or the new one is not theirs. -/
theorem onePair_created {s t : Db} {x y : UserId} (h : Inv s) (hone : s.OnePair a b)
    (hconversations : t.conversations = s.conversations ++ [newPrivate s x y]) :
    t.OnePair a b ↔ (SamePair a b x y → ∀ o ∈ s.privates, ¬ o.MadeFor a b) := by
  have hprivates := privates_created hconversations
  constructor
  · intro honet hpair o ho hmade
    have hid := honet o (hprivates ▸ List.mem_append_left _ ho) (newPrivate s x y).origin
      (hprivates ▸ List.mem_append_right _ (List.mem_singleton_self _)) hmade ⟨x, y, hpair, rfl⟩
    obtain ⟨c, hc, rfl, -⟩ := mem_privates.mp ho
    exact Nat.ne_of_lt (h.keyed.conversations.lt c hc) hid
  · intro hnone o ho o' ho' hmade hmade'
    have hnew : ∀ o, o ∈ s.privates ∨ o = (newPrivate s x y).origin → o.MadeFor a b →
        SamePair a b x y → o = (newPrivate s x y).origin := fun o ho hmade hpair =>
      ho.resolve_left fun ho => hnone hpair o ho hmade
    have hold : ∀ o, o ∈ s.privates ∨ o = (newPrivate s x y).origin → o.MadeFor a b →
        ¬ SamePair a b x y → o ∈ s.privates := by
      rintro o (ho | rfl) ⟨x', y', hpair, hkey⟩ hnot
      · exact ho
      · exact absurd (hpair.of_key (Option.some.inj hkey).symm) hnot
    rw [hprivates, List.mem_append, List.mem_singleton] at ho ho'
    by_cases hpair : SamePair a b x y
    · rw [hnew o ho hmade hpair, hnew o' ho' hmade' hpair]
    · exact hone o (hold o ho hmade hpair) o' (hold o' ho' hmade' hpair) hmade hmade'

/-- A turn keeps one conversation for the pair exactly when it spells their ids alike. -/
theorem onePair_step (h : Recorded w) (hone : w.db.OnePair a b) (turn : Turn) :
    (Served.step turn w).db.OnePair a b ↔ SpelledAlike a b w turn := by
  cases turn with
  | wait d => exact iff_of_true hone trivial
  | serve op =>
    by_cases hop : ∃ x y, op = .createPrivate x y
    · obtain ⟨x, y, rfl⟩ := hop
      obtain ⟨row, view, hfound, -, hrun⟩ | ⟨e, hwhy, hrun⟩ |
          ⟨view, t, hblock, hne, hnone, -, hrun, hconversations⟩ := createPrivate_cases h.inv x y
      · simp only [Served.step, hrun]
        refine iff_of_true hone fun hpair => .inr fun c hc => ?_
        obtain ⟨hmem, htype, hkey⟩ := underKey_eq_some hfound
        have hrow : w.db.IsPairOf a b row := (isPairOf_iff h.inv).mpr ⟨hmem, htype, x, y, hpair, hkey⟩
        have hid := (onePair_iff h.inv).mp hone c row hc hrow
        rw [h.inv.keyed.conversations.eq_of_id_eq hc.1 hmem hid, hkey]
      · simp only [Served.step, hrun]
        refine iff_of_true hone fun hpair => hwhy.imp_right fun hself c hc => ?_
        refine absurd ?_ (ne_of_isPairOf h.inv hc)
        obtain ⟨hx, hy⟩ | ⟨hx, hy⟩ := hpair
        · exact hx.symm.trans (hself.trans hy)
        · exact hy.symm.trans (hself.symm.trans hx)
      · simp only [Served.step, hrun]
        rw [onePair_created h.inv hone hconversations]
        refine imp_congr_right fun hpair => ?_
        have hfree : ∀ c, w.db.IsPairOf a b c → c.pairKey ≠ some (privatePairKey x y) := fun c hc =>
          underKey_none h.inv hnone c hc.1 hc.2.1
        rw [hblock]
        constructor
        · intro hempty
          refine .inr fun c hc => ?_
          obtain ⟨hmem, htype, hmade⟩ := (isPairOf_iff h.inv).mp hc
          exact absurd hmade (hempty _ (mem_privates.mpr ⟨c, hmem, rfl, htype⟩))
        · rintro (hblocked | hkeys) o ho hmade
          · cases hblocked
          · obtain ⟨c, hmem, rfl, htype⟩ := mem_privates.mp ho
            have hc := (isPairOf_iff h.inv).mpr ⟨hmem, htype, hmade⟩
            exact hfree c hc (hkeys c hc)
    · have hsame := run_privates h.inv op fun a b heq => hop ⟨a, b, heq⟩
      refine iff_of_true ?_ ?_
      · simp only [Served.step, Db.OnePair, hsame]
        exact hone
      · cases op <;> first | trivial | exact absurd ⟨_, _, rfl⟩ hop

/-- Which sequential runs keep one conversation for a pair of users. -/
theorem onePerPair_iff (a b : UserId) (turns : List Turn) (now : Time) (timeZone : Int) :
    Runs.Always Served.step (OnePerPair a b) turns ⟨Db.empty now timeZone, []⟩ ↔
      Runs.Along Served.step (SpelledAlike a b) turns ⟨Db.empty now timeZone, []⟩ := by
  have hstart : Recorded ⟨Db.empty now timeZone, []⟩ :=
    ⟨inv_empty now timeZone, fun _ _ _ ⟨_, hmem, _⟩ => nomatch hmem⟩
  refine Runs.always_iff_along (fun w turn h => h.step turn) (fun w turn h hone => ?_) hstart
    ((onePerPair_iff_onePair hstart).mpr fun o ho => nomatch ho)
  rw [onePerPair_iff_onePair (h.step turn)]
  exact onePair_step h ((onePerPair_iff_onePair h).mp hone) turn

end Sequential

/-- Another spelling of `userB`. -/
def userBigB : UserId := ⟨['B'], Eq.refl true⟩

def aliceTwice : List Turn := [.serve (.createPrivate userA userB), .serve (.createPrivate userA userBigB)]

/-- The two spellings of one id get two conversations. -/
theorem onePerPair_fails :
    ¬ Runs.Always Served.step (OnePerPair userA userB) aliceTwice ⟨Db.empty 0 0, []⟩ := by
  intro h
  have hfinal := h.final
  let w := Runs.final Served.step aliceTwice ⟨Db.empty 0 0, []⟩
  have hfirst : w.db.IsPairOf userA userB
      ⟨0, .priv, none, userA, some "a:b".toList, none, 0, 0, 0, none⟩ :=
    ⟨by decide +kernel, rfl, rfl, userA, userB, by decide, by decide +kernel⟩
  have hsecond : w.db.IsPairOf userA userB
      ⟨3, .priv, none, userA, some "B:a".toList, none, 0, 0, 0, none⟩ :=
    ⟨by decide +kernel, rfl, rfl, userA, userBigB, by decide, by decide +kernel⟩
  cases hfinal.one _ _ hfirst hsecond

end Relay.Chat
