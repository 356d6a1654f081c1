import Relay.Lib.Toggle
import Relay.Chat.Verify.Seen
import Relay.Chat.Verify.Twins

/-!
# Reactions

`reactMessage` looks for the row of the user, the message and the emoji, and removes it or inserts one. So the
rows of a message are its keys, toggled by the requests that succeed (`reactionKeys_serve`), and the views
count them by emoji (`reactions_of_toggles`).
-/

namespace Relay.Chat

open Relay.Lib Relay.Lib.Rows Prog

variable {s t : Db} {u a : UserId} {emoji : Text}

/-! ## Who writes reactions -/

/-- Calls that write no reactions. -/
def Unreacting : Call → Prop
  | .insertReaction _ _ _ | .removeReaction _ => False
  | _ => True

theorem Bystander.unreacting {c : Call} (h : Bystander c) : Unreacting c := by
  cases c <;> first | exact trivial | exact h.elim

/-- Only `reactMessage` writes reactions. -/
theorem Op.unreacting (op : Op) (h : op.isReaction = false) : Uses Unreacting op.program := by
  have hminor : ∀ c, Minor c → Unreacting c := fun _ h => h.bystander.unreacting
  have hread : ∀ c, ReadCall c → Unreacting c := fun _ h => h.bystander.unreacting
  have map {α : Type} {p : M α} (f : α → Response) (h : Uses Unreacting p) : Uses Unreacting (f <$> p) :=
    uses_bind h fun _ => trivial
  by_cases hcreate : ∃ a b, op = .createPrivate a b
  · obtain ⟨a, b, rfl⟩ := hcreate
    exact map _ (uses_createPrivate hread (fun _ _ _ => trivial) a b)
  by_cases hop : op.writesMessages = false
  · exact (op.bystander hop (fun a b heq => hcreate ⟨a, b, heq⟩) h).mono (fun _ _ h => h) fun _ h => h.unreacting
  cases op with
  | sendMessage payload =>
    exact map _ (uses_sendMessage hread payload (fun _ _ => trivial) (fun _ _ => trivial) (fun _ => trivial)
      fun _ _ _ _ _ => trivial)
  | forwardMessage a source target m =>
    exact map _ (uses_forwardMessage hread (fun _ _ => trivial) (fun _ => trivial) (fun _ => trivial) a source
      target m)
  | editMessage c m a body => exact map _ (uses_editMessage hminor (fun _ => trivial) c m a body)
  | pinMessage c m a pinned => exact map _ (uses_pinMessage hminor (fun _ => trivial) c m a pinned)
  | deleteMessage c m a forEveryone =>
    exact map _ (uses_deleteMessage hminor (fun _ => trivial) c m a forEveryone)
  | expireDueMessages => exact map _ (uses_expireDueMessages hminor fun _ => trivial)
  | scheduleMessage payload => exact map _ (uses_scheduleMessage hminor (fun _ => trivial) payload)
  | cancelScheduledMessage c id a =>
    exact map _ (uses_cancelScheduledMessage hminor (fun _ _ => trivial) c id a)
  | dispatchDueScheduled =>
    exact map _ (uses_dispatchDueScheduled hread (fun _ _ => trivial) (fun _ _ _ => trivial) (fun _ => trivial)
      (fun _ _ _ _ _ => trivial) (fun _ => trivial) fun _ _ => trivial)
  | _ => exact absurd rfl hop

theorem exec_messageReactions {c : Call} (h : Unreacting c) (s : Db) :
    (exec c s).2.messageReactions = s.messageReactions := by
  by_cases hseating : SeatingCall c
  · obtain ⟨_, _, _, heq⟩ := hseating.exec s
    rw [heq]
  · cases c with
    | insertHide m u =>
      simp only [exec]
      split <;> rfl
    | insertBlock a b =>
      simp only [exec]
      split <;> rfl
    | _ => first | rfl | exact h.elim | exact (hseating trivial).elim

theorem run_messageReactions (op : Op) (h : op.isReaction = false) (s : Db) :
    (op.run s).2.messageReactions = s.messageReactions := by
  refine Sat.preserves (I := fun v : Db => v.messageReactions = s.messageReactions) ?_ (op.unreacting h) rfl
  intro v c hc hv
  exact (exec_messageReactions hc v).trans hv

/-! ## The ids of the rows -/

theorem keyed_reactions_exec (c : Call) (h : Keyed MessageReaction.id s.messageReactions s.nextId) :
    Keyed MessageReaction.id (exec c s).2.messageReactions (exec c s).2.nextId := by
  have hother : Unreacting c → Keyed MessageReaction.id (exec c s).2.messageReactions (exec c s).2.nextId := by
    intro hc
    rw [exec_messageReactions hc]
    exact h.mono (nextId_le_exec c s)
  cases c with
  | insertReaction m u emoji =>
    simp only [exec]
    split
    · exact h
    · exact h.concat rfl
  | removeReaction r =>
    have hsub : (s.messageReactions.filter fun row => row.id ≠ r.id).Sublist s.messageReactions :=
      List.filter_sublist
    exact ⟨h.nodup.sublist (hsub.map _), fun row hrow => h.lt row (hsub.subset hrow)⟩
  | _ => exact hother trivial

theorem Reachable.reactionsKeyed (hs : Reachable s) :
    Keyed MessageReaction.id s.messageReactions s.nextId := by
  obtain ⟨now, timeZone, es, rfl⟩ := hs
  exact Pool.stable (I := fun v : Db => Keyed MessageReaction.id v.messageReactions v.nextId)
    (fun c v h => keyed_reactions_exec c h)
    (fun (d : Nat) v h => show Keyed MessageReaction.id (v.wait d).messageReactions (v.wait d).nextId from h)
    (p := ⟨Db.empty now timeZone, []⟩) .nil es

/-! ## The messages of the rows -/

/-- Reactions are to stored messages. -/
def Db.Anchored (s : Db) : Prop := ∀ r ∈ s.messageReactions, ∃ x ∈ s.messages, x.id = r.messageId

/-- No message row goes away. -/
def Db.MessagesStay (s t : Db) : Prop := ∀ x ∈ s.messages, ∃ y ∈ t.messages, y.id = x.id

theorem Db.MessagesStay.refl (s : Db) : s.MessagesStay s := fun x hx => ⟨x, hx, rfl⟩

theorem Db.MessagesStay.trans {v : Db} (h : s.MessagesStay t) (h' : t.MessagesStay v) : s.MessagesStay v := by
  intro x hx
  obtain ⟨y, hy, hyx⟩ := h x hx
  obtain ⟨z, hz, hzy⟩ := h' y hy
  exact ⟨z, hz, hzy.trans hyx⟩

theorem messagesStay_exec (c : Call) (s : Db) : s.MessagesStay (exec c s).2 := by
  intro x hx
  by_cases hinsert : ∃ d, c = .insertMessage d
  · obtain ⟨d, rfl⟩ := hinsert
    exact ⟨x, List.mem_append_left _ hx, rfl⟩
  by_cases hsave : ∃ m, c = .saveMessage m
  · obtain ⟨m, rfl⟩ := hsave
    refine ⟨_, List.mem_map_of_mem hx, ?_⟩
    split
    · next hid => exact hid.symm
    · rfl
  · rw [exec_messages (fun d h => hinsert ⟨d, h⟩) (fun m h => hsave ⟨m, h⟩)]
    exact ⟨x, hx, rfl⟩

/-- The call reacts to a stored message, if it reacts at all. -/
def Anchors (s : Db) (c : Call) : Prop :=
  ∀ m u emoji, c = .insertReaction m u emoji → ∃ x ∈ s.messages, x.id = m

theorem Unreacting.anchors {c : Call} (h : Unreacting c) (s : Db) : Anchors s c := by
  rintro m u emoji rfl
  exact h.elim

theorem Db.Anchored.exec {c : Call} (h : s.Anchored) (hc : Anchors s c) : (exec c s).2.Anchored := by
  have hother : Unreacting c → (Chat.exec c s).2.Anchored := by
    intro hc r hr
    rw [exec_messageReactions hc] at hr
    obtain ⟨x, hx, hid⟩ := h r hr
    obtain ⟨y, hy, hyx⟩ := messagesStay_exec c s x hx
    exact ⟨y, hy, hyx.trans hid⟩
  cases c with
  | insertReaction m u emoji =>
    have hstored := hc m u emoji rfl
    simp only [Chat.exec]
    split
    · exact h
    · intro r hr
      obtain hr | hr := List.mem_append.mp hr
      · exact h r hr
      · rw [List.mem_singleton.mp hr]
        exact hstored
  | removeReaction r => exact fun row hrow => h row (List.mem_of_mem_filter hrow)
  | _ => exact hother trivial

theorem guards_unreacting {α : Type} {p : M α} (h : Uses Unreacting p) (s : Db) :
    Guards exec Db.Anchored Db.MessagesStay Anchors (fun _ _ => True) p s :=
  guards_of_sat (fun v _ _ hc => ⟨hc.anchors v, trivial⟩) h s

/-- The message a reaction is inserted for has been loaded. -/
theorem guards_reactMessage (c : ConversationId) (m : MessageId) (u : UserId) (emoji : Text) (s : Db) :
    Guards exec Db.Anchored Db.MessagesStay Anchors (fun _ _ => True) (reactMessage c m u emoji) s := by
  have hread : ∀ c, ReadCall c → Unreacting c := fun _ h => h.bystander.unreacting
  refine guards_bind (guards_unreacting (uses_requireMembership hread c u) s) fun cv s₁ _ => ?_
  refine guards_bind (guards_unreacting (uses_rejectIf _ _) s₁) fun _ s₂ _ => ?_
  refine guards_bind (Q := fun found v => ∀ x, found = some x → x ∈ v.messages) (guards_perform ?_) ?_
  · intro v _ _
    refine ⟨Unreacting.anchors (c := .findMessage m cv.id) trivial v, fun found hfound x hx => ?_⟩
    cases hfound
    exact List.mem_of_find?_eq_some hx
  intro found s₃ hfound
  cases found with
  | none => trivial
  | some x =>
    have hx := hfound x rfl
    refine guards_bind (Q := fun _ v => x ∈ v.messages) (p := rejectIf (x.deletedForEveryoneAt ≠ none) _) ?_ ?_
    · unfold rejectIf
      split
      · trivial
      · exact hx
    intro _ s₄ hx
    refine guards_bind (Q := fun _ _ => True) (p := toggleReaction x.id u emoji) ?_ fun _ s₅ _ => ?_
    case refine_2 =>
      have hrest : Uses Unreacting (viewOne x cv u >>= fun view => ret ⟨view, recipientIds cv⟩ : M SendMessageResult) :=
        uses_bind (uses_viewOne hread x cv u) fun _ => trivial
      exact guards_unreacting hrest s₅
    refine guards_bind (Q := fun _ v => ∃ y ∈ v.messages, y.id = x.id) (guards_perform ?_) ?_
    · intro v _ hle
      exact ⟨Unreacting.anchors (c := .findReaction x.id u emoji) trivial v, fun _ _ => hle x hx⟩
    intro existing s₆ hstored
    cases existing with
    | some r =>
      refine guards_perform fun v _ _ => ⟨?_, fun _ _ => trivial⟩
      rintro m u emoji ⟨⟩
    | none =>
      refine guards_perform fun v _ hle => ⟨?_, fun _ _ => trivial⟩
      rintro _ _ _ ⟨⟩
      obtain ⟨y, hy, hid⟩ := hstored
      obtain ⟨z, hz, hzy⟩ := hle y hy
      exact ⟨z, hz, hzy.trans hid⟩

theorem Reachable.anchored (hs : Reachable s) : s.Anchored := by
  obtain ⟨now, timeZone, es, rfl⟩ := hs
  have hempty : (Db.empty now timeZone).Anchored := fun _ h => absurd h List.not_mem_nil
  refine Pool.invariant (I := Db.Anchored) (L := Anchors) Db.MessagesStay.refl (fun _ _ _ h h' => h.trans h')
    (fun v c h hc => ⟨Db.Anchored.exec (c := c) h hc, messagesStay_exec c v⟩)
    (fun (d : Nat) v h => show (v.wait d).Anchored ∧ v.MessagesStay (v.wait d) from ⟨h, .refl v⟩)
    (fun op v _ => ?_) hempty es
  cases hop : op.isReaction with
  | false => exact guards_unreacting (op.unreacting hop) v
  | true =>
    cases op with
    | reactMessage c m a emoji =>
      exact guards_bind (guards_reactMessage c m a emoji v) fun _ _ _ => trivial
    | _ => cases hop

/-! ## Toggling -/

/-- What a row says of its message. -/
def MessageReaction.key (r : MessageReaction) : UserId × Text := (r.userId, r.emoji)

def Db.reactionKeys (db : Db) (m : MessageId) : List (UserId × Text) :=
  (db.reactionsTo m).map MessageReaction.key

/-- The key that the request toggles on the message, if it is a reaction to it and succeeds. -/
def Op.toggles (m : MessageId) (db : Db) : Op → List (UserId × Text)
  | .reactMessage c m' u emoji =>
    if m' = m ∧ ((Op.reactMessage c m' u emoji).run db).1.isOk then [(u, emoji)] else []
  | _ => []

/-- The keys that requests, served one after the other, toggle on the message. -/
def Db.toggles (m : MessageId) : List Op → Db → List (UserId × Text)
  | [], _ => []
  | op :: ops, db => op.toggles m db ++ toggles m ops (op.run db).2

section Toggled

variable {m : MessageId}

theorem mem_reactionKeys : (u, emoji) ∈ s.reactionKeys m ↔
    ∃ r ∈ s.messageReactions, r.messageId = m ∧ r.userId = u ∧ r.emoji = emoji := by
  simp only [Db.reactionKeys, Db.reactionsTo, MessageReaction.key, List.mem_map, List.mem_filter,
    decide_eq_true_eq, Prod.mk.injEq, and_assoc]

variable (hkeyed : Keyed MessageReaction.id s.messageReactions s.nextId)
include hkeyed

/-- The row that is removed is the only one with its key. -/
theorem reactionKeys_toggled (hnodup : (s.reactionKeys m).Nodup) (u : UserId) (emoji : Text) :
    (s.toggled m u emoji).reactionKeys m = toggle (s.reactionKeys m) (u.canon, emoji) := by
  unfold Db.toggled toggle
  cases hfind : s.messageReactions.find? fun r =>
      r.messageId = m ∧ r.userId = u.canon ∧ r.emoji = emoji with
  | none =>
    have hnone := List.find?_eq_none.mp hfind
    have habsent : (u.canon, emoji) ∉ s.reactionKeys m := by
      intro h
      obtain ⟨r, hr, hkey⟩ := mem_reactionKeys.mp h
      exact hnone r hr (decide_eq_true hkey)
    rw [if_neg habsent]
    simp [Db.reactionKeys, Db.reactionsTo, MessageReaction.key]
  | some r =>
    have hr := List.mem_of_find?_eq_some hfind
    have hrow := List.find?_some hfind
    rw [decide_eq_true_eq] at hrow
    rw [if_pos (mem_reactionKeys.mpr ⟨r, hr, hrow⟩)]
    have hkey : r.key = (u.canon, emoji) := Prod.ext hrow.2.1 hrow.2.2
    have hmine : r ∈ s.reactionsTo m := List.mem_filter.mpr ⟨hr, decide_eq_true hrow.1⟩
    have honly : ∀ x ∈ s.reactionsTo m, (x.id = r.id ↔ x.key = (u.canon, emoji)) := by
      intro x hx
      rw [← hkey]
      constructor
      · intro hid
        rw [hkeyed.eq_of_id_eq (List.mem_of_mem_filter hx) hr hid]
      · intro hsame
        rw [List.inj_on_of_nodup_map hnodup hx hmine hsame]
    unfold Db.reactionKeys Db.reactionsTo
    rw [List.filter_filter, List.filter_map]
    have hswap : ∀ x : MessageReaction, (decide (x.messageId = m) && decide (x.id ≠ r.id)) =
        (decide (x.id ≠ r.id) && decide (x.messageId = m)) := fun x => Bool.and_comm _ _
    simp only [hswap]
    rw [← List.filter_filter]
    refine congrArg _ (List.filter_congr fun x hx => ?_)
    simpa using honly x hx

theorem reactionKeys_toggled_of_ne {m' : MessageId} (hne : m' ≠ m) (u : UserId) (emoji : Text) :
    (s.toggled m' u emoji).reactionKeys m = s.reactionKeys m := by
  unfold Db.toggled Db.reactionKeys Db.reactionsTo
  cases hfind : s.messageReactions.find? fun r =>
      r.messageId = m' ∧ r.userId = u.canon ∧ r.emoji = emoji with
  | none => simp [hne]
  | some r =>
    have hr := List.mem_of_find?_eq_some hfind
    have hrow := List.find?_some hfind
    rw [decide_eq_true_eq] at hrow
    simp only [List.filter_filter]
    refine congrArg _ (List.filter_congr fun x hx => ?_)
    by_cases hm : x.messageId = m
    · have hid : x.id ≠ r.id := by
        intro hid
        have hsame := hkeyed.eq_of_id_eq hx hr hid
        rw [hsame, hrow.1] at hm
        exact hne hm
      simp [hm, hid]
    · simp [hm]

end Toggled

/-! ## Requests -/

theorem canon_of_membership (hs : Reachable s) {c : ConversationId} {cv : ConversationWithMembers}
    (h : s.membership c u = .ok cv) : u.canon = u := by
  obtain ⟨_, _, me, hme⟩ := Db.membership_eq_ok h
  obtain ⟨hmem, huser, _⟩ := findActive_eq_some hme
  obtain ⟨hstored, _⟩ := Db.mem_membersOf.mp hmem
  exact huser ▸ hs.inv.canon me hstored

/-- A reaction that succeeds toggles its key, by a user whose id is as it is stored; one that fails changes
nothing. -/
theorem run_reactMessage_cases (hs : Reachable s) (c : ConversationId) (m : MessageId) (u : UserId) (emoji : Text) :
    (((Op.reactMessage c m u emoji).run s).1.isOk = true ∧ u.canon = u ∧
        ((Op.reactMessage c m u emoji).run s).2 = s.toggled m u emoji) ∨
      (((Op.reactMessage c m u emoji).run s).1.isOk = false ∧ ((Op.reactMessage c m u emoji).run s).2 = s) := by
  have haccepts := (accepts_reactMessage (s := s) c m u emoji).map Response.sent
  unfold Op.run
  simp only [Op.program]
  cases haccept : s.acceptReact c m u emoji with
  | none =>
    rw [haccept] at haccepts
    obtain ⟨e, he⟩ := haccepts
    rw [he]
    exact .inr ⟨rfl, rfl⟩
  | some change =>
    rw [haccept] at haccepts
    obtain ⟨hcv, _, hid, _, _, hwrite⟩ := acceptReact_eq_some haccept
    have hrun : run exec change.write s = (.ok (), s.toggled m u emoji) := by
      rw [hwrite, hid]
      exact run_toggleReaction_eq m u emoji
    have happly := run_bind_ok exec (f := fun result => ret (Response.sent result)) (run_apply (u := u) hrun)
    refine .inl ?_
    rw [show run exec (Response.sent <$> reactMessage c m u emoji) s = _ from haccepts.trans happly]
    exact ⟨rfl, canon_of_membership hs hcv, rfl⟩

/-- What one request does to the keys of a message. -/
theorem reactionKeys_run (hs : Reachable s) {m : MessageId} (hnodup : (s.reactionKeys m).Nodup) (op : Op) :
    ((op.run s).2).reactionKeys m = (op.toggles m s).foldl toggle (s.reactionKeys m) := by
  cases hop : op.isReaction with
  | false =>
    have hnone : op.toggles m s = [] := by
      cases op with
      | reactMessage c m' u emoji => cases hop
      | _ => rfl
    rw [hnone]
    unfold Db.reactionKeys Db.reactionsTo
    rw [run_messageReactions op hop]
    rfl
  | true =>
    cases op with
    | reactMessage c m' u emoji =>
      simp only [Op.toggles]
      obtain ⟨hok, hcanon, hrun⟩ | ⟨hok, hrun⟩ := run_reactMessage_cases hs c m' u emoji
      · rw [hrun, hok]
        by_cases hm : m' = m
        · subst hm
          have hkeys := reactionKeys_toggled hs.reactionsKeyed hnodup u emoji
          rw [hcanon] at hkeys
          simpa using hkeys
        · simpa [hm] using reactionKeys_toggled_of_ne hs.reactionsKeyed hm u emoji
      · rw [hrun, hok]
        simp
    | _ => cases hop

/-- The keys of a message after requests served one after the other, by induction on the requests. -/
theorem reactionKeys_serve (hs : Reachable s) {m : MessageId} (hnodup : (s.reactionKeys m).Nodup) (ops : List Op) :
    (s.serve ops).reactionKeys m = (s.toggles m ops).foldl toggle (s.reactionKeys m) := by
  induction ops generalizing s with
  | nil => rfl
  | cons op ops ih =>
    have hstep := reactionKeys_run hs hnodup op
    have hnodup' : ((op.run s).2.reactionKeys m).Nodup := by
      rw [hstep]
      exact nodup_foldl_toggle hnodup _
    have hrest := ih (hs.run op) hnodup'
    rw [hstep, ← List.foldl_append] at hrest
    exact hrest

/-! ## Views -/

/-- The counts of a view, when the rows have the toggled keys. -/
theorem buildReactionViews_toggled {rows : List MessageReaction} {ks : List (UserId × Text)}
    (hrows : rows.map MessageReaction.key = toggleAll ks) (a : UserId) :
    ((buildReactionViews rows a).map MessageReactionView.emoji).Nodup ∧
    (∀ emoji, emoji ∈ (buildReactionViews rows a).map MessageReactionView.emoji ↔ (toggledBy ks emoji).Nonempty) ∧
    ∀ r ∈ buildReactionViews rows a, r.count = (toggledBy ks r.emoji).card ∧
      (r.reactedByMe = true ↔ Odd (ks.count (a, r.emoji))) := by
  have hemojis : (buildReactionViews rows a).map MessageReactionView.emoji =
      (rows.map MessageReaction.emoji).eraseDups := by
    unfold buildReactionViews
    rw [List.map_map]
    exact List.map_id'' (fun _ => rfl) _
  have hkey : ∀ u emoji, (∃ r ∈ rows, r.userId = u ∧ r.emoji = emoji) ↔ (u, emoji) ∈ toggleAll ks := by
    intro u emoji
    rw [← hrows, List.mem_map]
    simp only [MessageReaction.key, Prod.mk.injEq]
  refine ⟨?_, fun emoji => ?_, fun r hr => ?_⟩
  · rw [hemojis]
    exact Js.nodup_eraseDups _
  · rw [hemojis, List.mem_eraseDups, List.mem_map]
    constructor
    · rintro ⟨r, hr, rfl⟩
      exact ⟨r.userId, mem_toggledBy.mpr ((hkey _ _).mp ⟨r, hr, rfl, rfl⟩)⟩
    · rintro ⟨u, hu⟩
      obtain ⟨r, hr, _, he⟩ := (hkey u emoji).mpr (mem_toggledBy.mp hu)
      exact ⟨r, hr, he⟩
  · obtain ⟨emoji, _, rfl⟩ := List.mem_map.mp hr
    constructor
    · have hlength := length_toggleAll_filter ks emoji
      rw [← hrows, List.filter_map, List.length_map] at hlength
      exact hlength
    · rw [← mem_toggleAll, ← hkey]
      simp only [List.any_eq_true, List.mem_filter, decide_eq_true_eq]
      constructor
      · rintro ⟨r, ⟨hr, he⟩, hu⟩
        exact ⟨r, hr, hu, he⟩
      · rintro ⟨r, hr, hu, he⟩
        exact ⟨r, ⟨hr, he⟩, hu⟩

/-- The user is given the view of the message: by a read, or in the answer to the reaction that has just been
served. -/
def Db.Gives (db : Db) (a : UserId) (m : Message) (view : MessageView) : Prop :=
  db.Presents a m view ∨
    ∃ before emoji recipientIds,
      (Op.reactMessage m.conversationId m.id a emoji).run before = (.ok (.sent ⟨view, recipientIds⟩), db)

theorem viewOf_of_gives (hs : Reachable s) {m : Message} (hm : m ∈ s.messages) {view : MessageView}
    (h : s.Gives a m view) : ∃ members, view = s.viewOf m members a := by
  obtain h | ⟨before, emoji, recipientIds, h⟩ := h
  · obtain ⟨cv, _, hview⟩ := viewOf_of_presents hs.inv.keyed hm h
    exact ⟨cv.members, hview⟩
  · obtain ⟨result, t, hrun, hsent⟩ := run_bind_inv exec (p := reactMessage m.conversationId m.id a emoji)
      (f := fun result => ret (Response.sent result)) h
    cases hsent
    obtain ⟨cv, x, _, hx, _, hresult⟩ := reactMessage_shows hrun
    rw [find?_message hs.inv.keyed hm] at hx
    cases hx
    exact ⟨cv.members, congrArg SendMessageResult.view hresult⟩

/-- A message is sent while requests are served one after the other, and is not deleted at the end. In every view
of it, an emoji is listed once, with the number of users who toggled it an odd number of times, or not at all
if there are none; `reactedByMe` says whether the user is one of them. -/
theorem reactions_of_toggles (hs : Reachable s) {m : Message} (hnew : ∀ x ∈ s.messages, x.id ≠ m.id)
    (ops : List Op) (hm : m ∈ (s.serve ops).messages) (halive : m.deletedForEveryoneAt = none)
    {view : MessageView} (hview : (s.serve ops).Gives a m view) :
    (view.reactions.map MessageReactionView.emoji).Nodup ∧
    (∀ emoji, emoji ∈ view.reactions.map MessageReactionView.emoji ↔
      (toggledBy (s.toggles m.id ops) emoji).Nonempty) ∧
    ∀ r ∈ view.reactions, r.count = (toggledBy (s.toggles m.id ops) r.emoji).card ∧
      (r.reactedByMe = true ↔ Odd ((s.toggles m.id ops).count (a, r.emoji))) := by
  have hfresh : s.reactionKeys m.id = [] := by
    rw [List.eq_nil_iff_forall_not_mem]
    intro k hk
    obtain ⟨r, hr, hmessage, _⟩ := mem_reactionKeys.mp hk
    obtain ⟨x, hx, hid⟩ := hs.anchored r hr
    exact hnew x hx (hid.trans hmessage)
  have hkeys := reactionKeys_serve hs (m := m.id) (hfresh ▸ List.nodup_nil) ops
  rw [hfresh] at hkeys
  obtain ⟨members, rfl⟩ := viewOf_of_gives (hs.serve ops) hm hview
  have hreactions : ((s.serve ops).viewOf m members a).reactions =
      buildReactionViews ((s.serve ops).reactionsTo m.id) a := by
    simp [Db.viewOf, toMessageView, halive]
  rw [hreactions]
  exact buildReactionViews_toggled hkeys a

/-- A sends B a message; both react to it with one emoji, and A takes the reaction back. -/
def groupReactions : List Op :=
  [.createGroup userA ['g'] [userB], .sendMessage (textMessage userA 0 ['h', 'i']),
    .reactMessage 0 3 userA "👍".toList, .reactMessage 0 3 userB "👍".toList,
    .reactMessage 0 3 userA "👍".toList]

theorem reactions_of_toggles_group :
    ((((Db.empty 300 0).serve groupReactions).sentView).reactions.map MessageReactionView.emoji).Nodup ∧
    (∀ emoji, emoji ∈ (((Db.empty 300 0).serve groupReactions).sentView).reactions.map MessageReactionView.emoji ↔
      (toggledBy ((Db.empty 300 0).toggles 3 groupReactions) emoji).Nonempty) ∧
    ∀ r ∈ (((Db.empty 300 0).serve groupReactions).sentView).reactions,
      r.count = (toggledBy ((Db.empty 300 0).toggles 3 groupReactions) r.emoji).card ∧
      (r.reactedByMe = true ↔ Odd (((Db.empty 300 0).toggles 3 groupReactions).count (userA, r.emoji))) := by
  have hnew : ∀ x ∈ (Db.empty 300 0).messages, x.id ≠ sentMessage.id := fun _ h => absurd h List.not_mem_nil
  have hview : ((Db.empty 300 0).serve groupReactions).Gives userA sentMessage
      ((Db.empty 300 0).serve groupReactions).sentView := .inl (.inl rfl)
  exact reactions_of_toggles (reachable_empty 300 0) hnew groupReactions (by decide +kernel) rfl hview

example : (((Db.empty 300 0).serve groupReactions).sentView).reactions = [⟨"👍".toList, 1, false⟩] := by
  decide +kernel

end Relay.Chat
