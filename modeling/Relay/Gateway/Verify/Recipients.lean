import Relay.Chat.Verify.Reads
import Relay.Gateway.ChatController

/-!
# What a handler sends, and to whom

One lemma for each handler of the gateway that shows conversations or messages: the log it leaves, given what
the chat service answers. Attached presence is read in the state after the request to the chat service.
-/

namespace Relay.Gateway.ChatController

open Relay.Lib Relay.Chat

variable {s t : State} {α β : Type}

/-! ## Steps -/

theorem sendChat_ok {p : Chat.M α} {a : α} {db : Db} (h : Prog.run Chat.exec p s.db = (.ok a, db)) :
    sendChat p s = (.ok a, { s with db := db }) := by
  unfold sendChat
  rw [h]
  rfl

theorem sendChat_error {p : Chat.M α} {e : Failure} {db : Db}
    (h : Prog.run Chat.exec p s.db = (.error e, db)) :
    sendChat p s = (.error (.chat e), { s with db := db }) := by
  unfold sendChat
  rw [h]
  rfl

theorem run_call {c : Call} {a : c.Answer} (h : exec c s = (.ok a, t)) (f : c.Answer → M β) :
    Prog.run exec (perform c >>= f) s = Prog.run exec (f a) t := by
  rw [Prog.run_bind_ok exec ((Prog.run_perform exec c s).trans h)]

theorem run_call_error {c : Call} {e : Exception} (h : exec c s = (.error e, t))
    (f : c.Answer → M β) : Prog.run exec (perform c >>= f) s = (.error e, t) := by
  rw [Prog.run_bind_error exec ((Prog.run_perform exec c s).trans h)]

theorem run_respond (u : UserId) (data : Payload) :
    Prog.run exec (respond u data) s = (.ok (), s.send [u] data) := rfl

theorem run_emitToMembers (event : Payload) (v : ConversationId) (ids : List UserId) :
    Prog.run exec (emitToMembers event v ids) s =
      (.ok (), s.send (s.listeners (roomsOf v ids)) event) := rfl

/-- A request to the chat service that is answered with a conversation. -/
theorem run_conversation (r : ConversationRequest) (f : ConversationView → M β) :
    (∃ e db, Prog.run Chat.exec r.program s.db = (.error e, db) ∧
        Prog.run exec (perform (.conversation r) >>= f) s = (.error (.chat e), { s with db := db })) ∨
      ∃ view db, Prog.run Chat.exec r.program s.db = (.ok view, db) ∧
        Prog.run exec (perform (.conversation r) >>= f) s = Prog.run exec (f view) { s with db := db } := by
  rcases h : Prog.run Chat.exec r.program s.db with ⟨e | view, db⟩
  · exact .inl ⟨e, db, rfl, run_call_error (c := .conversation r) (sendChat_error h) f⟩
  · exact .inr ⟨view, db, rfl, run_call (c := .conversation r) (sendChat_ok h) f⟩

theorem run_assertUsersExist (us : List UserId) :
    Prog.run exec (assertUsersExist us) s = (.ok (), s) := by
  induction us with
  | nil => rfl
  | cons u us ih =>
    have hone : Prog.run exec (assertUserExists u) s = (.ok (), s) := rfl
    rw [assertUsersExist, Prog.run_bind_ok exec hone, ih]

theorem run_hiddenAmong (us : List UserId) :
    Prog.run exec (hiddenAmong us) s = (.ok (us.filter (· ∈ s.lastSeenHidden)), s) := by
  induction us with
  | nil => rfl
  | cons u us ih =>
    rw [hiddenAmong, run_call (s := s) (a := decide (u ∉ s.lastSeenHidden)) rfl, Prog.run_bind_ok exec ih]
    by_cases hu : u ∈ s.lastSeenHidden
    · simp [hu]
    · simp [hu]

/-! ## Presence -/

/-- A conversation with the presence of its members. -/
def State.withPresence (s : State) (c : ConversationView) : ConversationView :=
  { c with
    members := c.members.map fun member =>
      { member with
        status := (s.presenceOf member.userId).status
        lastSeenAt := (s.presenceOf member.userId).lastSeenAt } }

/-- The users among the given ones whose last-seen time is hidden are found by the filter. -/
theorem find_presenceOf {us : List UserId} {u : UserId} (hu : u ∈ us) :
    (us.map s.presenceOf).find? (fun p => p.userId = u) = some (s.presenceOf u) := by
  induction us with
  | nil => cases hu
  | cons w us ih =>
    rw [List.map_cons, List.find?_cons]
    by_cases hw : w = u
    · subst hw
      simp [State.presenceOf, Presence.view]
    · have hne : decide ((s.presenceOf w).userId = u) = false := decide_eq_false hw
      rw [hne]
      exact ih ((List.mem_cons.mp hu).resolve_left fun h => hw h.symm)

theorem attachPresence_eq {us : List UserId} {c : ConversationView}
    (h : ∀ u ∈ viewMemberIds c, u ∈ us) :
    attachPresence (us.map s.presenceOf) c = s.withPresence c := by
  unfold attachPresence State.withPresence
  congr 1
  refine List.map_congr_left fun member hmember => ?_
  rw [find_presenceOf (h member.userId (List.mem_map_of_mem hmember))]
  rfl

theorem run_attachToConversation (c : ConversationView) :
    Prog.run exec (attachToConversation c) s = (.ok (s.withPresence c), s) := by
  have hcover : ∀ u ∈ viewMemberIds c, u ∈ allMemberIds [c] := by
    intro u hu
    exact List.mem_eraseDups.mpr (List.mem_flatMap.mpr ⟨c, List.mem_singleton_self c, hu⟩)
  unfold attachToConversation
  rw [run_call (s := s) (a := (allMemberIds [c]).map s.presenceOf) rfl, ← attachPresence_eq hcover]
  rfl

theorem run_attachToConversations (cs : List ConversationView) :
    Prog.run exec (attachToConversations cs) s = (.ok (cs.map s.withPresence), s) := by
  unfold attachToConversations
  rw [run_call (s := s) (a := (allMemberIds cs).map s.presenceOf) rfl]
  have hmap : cs.map (attachPresence ((allMemberIds cs).map s.presenceOf)) =
      cs.map s.withPresence := by
    refine List.map_congr_left fun c hc => attachPresence_eq fun u hu => ?_
    exact List.mem_eraseDups.mpr (List.mem_flatMap.mpr ⟨c, hc, hu⟩)
  rw [← hmap]
  rfl

/-- The conversations with the hidden last-seen times taken out. -/
def State.strip (s : State) (cs : List ConversationView) : List ConversationView :=
  cs.map (stripLastSeen ((lastSeenUserIds cs).filter (· ∈ s.lastSeenHidden)))

theorem run_applyLastSeenPrivacy (cs : List ConversationView) :
    Prog.run exec (applyLastSeenPrivacy cs) s = (.ok (s.strip cs), s) := by
  unfold applyLastSeenPrivacy
  rw [Prog.run_bind_ok exec (run_hiddenAmong _)]
  rfl

def State.stripOne (s : State) (c : ConversationView) : ConversationView :=
  stripLastSeen ((lastSeenUserIds [c]).filter (· ∈ s.lastSeenHidden)) c

theorem run_applyLastSeenPrivacyTo (c : ConversationView) :
    Prog.run exec (applyLastSeenPrivacyTo c) s = (.ok (s.stripOne c), s) := by
  unfold applyLastSeenPrivacyTo
  rw [Prog.run_bind_ok exec (run_hiddenAmong _)]
  rfl

theorem viewMemberIds_withPresence (c : ConversationView) :
    viewMemberIds (s.withPresence c) = viewMemberIds c := by
  simp [viewMemberIds, State.withPresence]

theorem viewMemberIds_stripOne (c : ConversationView) :
    viewMemberIds (s.stripOne c) = viewMemberIds c := by
  simp only [viewMemberIds, State.stripOne, stripLastSeen, List.map_map]
  refine List.map_congr_left fun member _ => ?_
  rw [Function.comp_apply]
  split <;> rfl

/-! ## The logs -/

/-- The clients of the members who are told that the conversation is updated. -/
def State.toldUpdate (s : State) (shown : ConversationView) : List (UserId × Payload) :=
  (s.listeners (roomsOf shown.id (viewMemberIds shown))).map fun w => (w, .conversationUpdated shown)

/-- What a handler sends when the chat service answers with a conversation, and nothing otherwise; `shown`
takes the state after the request and the answer. -/
def State.Sends (s : State) (p : M Unit) (r : ConversationRequest)
    (log : State → ConversationView → List (UserId × Payload)) : Prop :=
  (∃ e db, Prog.run Chat.exec r.program s.db = (.error e, db) ∧ (s.handle p).db = db ∧
      (s.handle p).sent = []) ∨
    ∃ view db, Prog.run Chat.exec r.program s.db = (.ok view, db) ∧ (s.handle p).db = db ∧
      (s.handle p).sent = log { s with db := db, sent := [] } view

theorem State.Sends.of_run {r : ConversationRequest} {f : ConversationView → M Unit}
    {log : State → ConversationView → List (UserId × Payload)}
    (h : ∀ view db, (Prog.run exec (f view) { s with db := db, sent := [] }).2.db = db ∧
      (Prog.run exec (f view) { s with db := db, sent := [] }).2.sent =
        log { s with db := db, sent := [] } view) :
    s.Sends (perform (.conversation r) >>= f) r log := by
  unfold State.Sends State.handle
  rcases run_conversation (s := { s with sent := [] }) r f with
    ⟨e, db, hchat, hrun⟩ | ⟨view, db, hchat, hrun⟩
  · exact .inl ⟨e, db, hchat, by rw [hrun], by rw [hrun]⟩
  · obtain ⟨hdb, hsent⟩ := h view db
    exact .inr ⟨view, db, hchat, by rw [hrun]; exact hdb, by rw [hrun]; exact hsent⟩

/-- What comes before the request and changes nothing does not matter. -/
theorem handle_after {p : M α} {a : α} {f : α → M Unit}
    (h : Prog.run exec p { s with sent := [] } = (.ok a, { s with sent := [] })) :
    s.handle (p >>= f) = s.handle (f a) := by
  unfold State.handle
  rw [Prog.run_bind_ok exec h]

theorem State.Sends.of_handle {p q : M Unit} {r : ConversationRequest}
    {log : State → ConversationView → List (UserId × Payload)} (h : s.handle p = s.handle q)
    (hq : s.Sends q r log) : s.Sends p r log := by
  unfold State.Sends at hq ⊢
  rwa [h]

theorem sends_showConversation (u : UserId) (r : ConversationRequest) :
    s.Sends (showConversation u r) r fun t view =>
      [(u, .conversation (t.stripOne (t.withPresence view)))] := by
  refine .of_run fun view db => ?_
  rw [Prog.run_bind_ok exec (run_attachToConversation view),
    Prog.run_bind_ok exec (run_applyLastSeenPrivacyTo _), run_respond]
  exact ⟨rfl, rfl⟩

theorem sends_createPrivate {u b : UserId} (hne : b ≠ u) :
    s.Sends (createPrivate u b) (.createPrivate u b) fun t view =>
      [(u, .conversation (t.withPresence view))] := by
  unfold createPrivate
  rw [if_neg hne]
  refine .of_handle (handle_after rfl) (.of_run fun view db => ?_)
  rw [Prog.run_bind_ok exec (run_attachToConversation view), run_respond]
  exact ⟨rfl, rfl⟩

/-- The members are told, then the user gets the response. -/
theorem run_publish (u : UserId) (c : ConversationView) :
    Prog.run exec (broadcastConversationUpdated c (viewMemberIds c) >>= fun _ =>
      respond u (.conversation c)) s =
        (.ok (), { s with sent := s.sent ++ s.toldUpdate c ++ [(u, .conversation c)] }) := by
  unfold broadcastConversationUpdated
  rw [Prog.run_bind_ok exec (run_emitToMembers _ _ _), run_respond]
  rfl

theorem sends_createGroup (u : UserId) (name : Text) (ids : List UserId) :
    s.Sends (createGroup u name ids) (.createGroup u name ids) fun t view =>
      t.toldUpdate (t.withPresence view) ++ [(u, .conversation (t.withPresence view))] := by
  refine .of_handle (handle_after (run_assertUsersExist _)) (.of_run fun view db => ?_)
  rw [Prog.run_bind_ok exec (run_attachToConversation view), run_call rfl, run_publish]
  exact ⟨rfl, rfl⟩

theorem sends_addMembers (u : UserId) (v : ConversationId) (ids : List UserId) :
    s.Sends (addMembers u v ids) (.addMembers v u ids) fun t view =>
      t.toldUpdate (t.withPresence view) ++ [(u, .conversation (t.withPresence view))] := by
  refine .of_handle (handle_after (run_assertUsersExist _)) (.of_run fun view db => ?_)
  rw [Prog.run_bind_ok exec (run_attachToConversation view), run_call rfl, run_publish]
  exact ⟨rfl, rfl⟩

theorem sends_updateGroup (u : UserId) (v : ConversationId) (name : Text) :
    s.Sends (updateGroup u v name) (.updateGroup v u name) fun t view =>
      t.toldUpdate (t.withPresence view) ++ [(u, .conversation (t.withPresence view))] := by
  refine .of_run fun view db => ?_
  rw [Prog.run_bind_ok exec (run_attachToConversation view), run_publish]
  exact ⟨rfl, rfl⟩

theorem sends_setDisappearing (u : UserId) (v : ConversationId) (n : Nat) :
    s.Sends (setDisappearing u v n) (.setDisappearingMessages v u n) fun t view =>
      t.toldUpdate (t.stripOne (t.withPresence view)) ++
        [(u, .conversation (t.stripOne (t.withPresence view)))] := by
  refine .of_run fun view db => ?_
  rw [Prog.run_bind_ok exec (run_attachToConversation view),
    Prog.run_bind_ok exec (run_applyLastSeenPrivacyTo _), run_call rfl, run_publish]
  exact ⟨rfl, rfl⟩

theorem sends_setMemberRole (u : UserId) (v : ConversationId) (b : UserId)
    (role : Option ConversationMemberRole) :
    s.Sends (setMemberRole u v b role) (.setMemberRole v u b role) fun t view =>
      t.toldUpdate (t.stripOne (t.withPresence view)) ++
        [(u, .conversation (t.stripOne (t.withPresence view)))] := by
  refine .of_run fun view db => ?_
  rw [Prog.run_bind_ok exec (run_attachToConversation view),
    Prog.run_bind_ok exec (run_applyLastSeenPrivacyTo _), run_publish]
  exact ⟨rfl, rfl⟩

theorem sends_removeMember (u : UserId) (v : ConversationId) (b : UserId) :
    s.Sends (removeMember u v b) (.removeMember v u b) fun t view =>
      t.toldUpdate (t.withPresence view) ++
        ((t.listeners [.user b]).map fun w => (w, .removedFromGroup v)) ++
        [(u, .conversation (t.withPresence view))] := by
  refine .of_run fun view db => ?_
  rw [Prog.run_bind_ok exec (run_attachToConversation view), run_call rfl]
  unfold broadcastConversationUpdated
  rw [Prog.run_bind_ok exec (run_emitToMembers _ _ _), run_call rfl, run_call rfl, run_respond]
  exact ⟨rfl, rfl⟩

/-- A changed message is sent to its recipients and returned. -/
theorem handle_changeMessage (u : UserId) (v : ConversationId) (r : MessageRequest) :
    (∃ e db, Prog.run Chat.exec r.program s.db = (.error e, db) ∧
        (s.handle (changeMessage u v r)).db = db ∧ (s.handle (changeMessage u v r)).sent = []) ∨
      ∃ result db, Prog.run Chat.exec r.program s.db = (.ok result, db) ∧
        (s.handle (changeMessage u v r)).db = db ∧
        (s.handle (changeMessage u v r)).sent =
          (s.listeners (roomsOf result.view.conversationId result.recipientIds)).map
            (fun w => (w, .chatMessage result.view)) ++ [(u, .message result.view)] := by
  unfold changeMessage State.handle
  rcases h : Prog.run Chat.exec r.program s.db with ⟨e | result, db⟩
  · refine .inl ⟨e, db, rfl, ?_⟩
    rw [run_call_error (c := .message r) (sendChat_error (s := { s with sent := [] }) h)]
    exact ⟨rfl, rfl⟩
  · refine .inr ⟨result, db, rfl, ?_⟩
    rw [run_call (c := .message r) (sendChat_ok (s := { s with sent := [] }) h), run_call rfl]
    unfold broadcastMessage
    rw [Prog.run_bind_ok exec (run_emitToMembers _ _ _), run_respond]
    exact ⟨rfl, rfl⟩

theorem handle_listConversations (u : UserId) (page : Page) :
    (s.handle (listConversations u page)).db =
        (Prog.run Chat.exec (Chat.listConversations u page) s.db).2 ∧
      ((s.handle (listConversations u page)).sent = [] ∨
        ∃ (t : State) (data : PaginatedResult ConversationView), t.lastSeenHidden = s.lastSeenHidden ∧
          (s.handle (listConversations u page)).sent =
            [(u, .conversations { data with items := t.strip (data.items.map t.withPresence) })]) := by
  unfold listConversations State.handle
  rcases h : Prog.run Chat.exec (Chat.listConversations u page) s.db with ⟨e | data, db⟩
  · rw [run_call_error (c := .listConversations u page)
      (sendChat_error (s := { s with sent := [] }) h)]
    exact ⟨rfl, .inl rfl⟩
  · rw [run_call (c := .listConversations u page) (sendChat_ok (s := { s with sent := [] }) h),
      Prog.run_bind_ok exec (run_attachToConversations _),
      Prog.run_bind_ok exec (run_applyLastSeenPrivacy _), run_respond]
    exact ⟨rfl, .inr ⟨{ s with db := db, sent := [] }, data, rfl, rfl⟩⟩

/-- The presence of a user, with a hidden last-seen time taken out. -/
def State.shownPresence (s : State) (u : UserId) : PresenceView :=
  if (s.presenceOf u).status ≠ .offline ∨ (s.presenceOf u).lastSeenAt = none then s.presenceOf u
  else if u ∈ s.lastSeenHidden then { s.presenceOf u with lastSeenAt := none }
  else s.presenceOf u

theorem handle_getPresence (u userId : UserId) :
    s.handle (getPresence u userId) =
      { s with sent := [(u, .presence (s.shownPresence userId))] } := by
  unfold State.handle getPresence
  rw [run_call (a := [s.presenceOf userId]) rfl]
  have hstrip : Prog.run exec (stripLastSeenIfHidden (s.presenceOf userId)) { s with sent := [] } =
      (.ok (s.shownPresence userId), { s with sent := [] }) := by
    unfold stripLastSeenIfHidden State.shownPresence
    split
    · rfl
    · rw [run_call (a := decide (userId ∉ s.lastSeenHidden)) rfl]
      by_cases hu : userId ∈ s.lastSeenHidden
      · simp [hu]
      · simp [hu]
  rw [List.head?_cons, Option.getD_some, Prog.run_bind_ok exec hstrip]
  rfl

/-! ## Leaving a group -/

/-- The members before, as the gateway knows them. -/
def State.previousIds (s : State) (u : UserId) (v : ConversationId) : Option (List UserId) :=
  match s.cachedIds v with
  | some ids => some ids
  | none =>
    match (Prog.run Chat.exec (Chat.getConversation v u) s.db).1 with
    | .ok view => some (viewMemberIds view)
    | .error _ => none

/-- What the remaining members are sent: the conversation as the first of them sees it. -/
def State.toldRemaining (s : State) (v : ConversationId) : List UserId → List (UserId × Payload)
  | [] => []
  | first :: rest =>
    match (Prog.run Chat.exec (Chat.getConversation v first) s.db).1 with
    | .ok view =>
      (s.listeners (roomsOf view.id (first :: rest))).map fun w =>
        (w, .conversationUpdated (s.withPresence view))
    | .error _ => []

/-- Reading a conversation leaves the database as it is. -/
theorem run_getConversation_eq (db : Db) (v : ConversationId) (u : UserId) :
    ∃ r, Prog.run Chat.exec (Chat.getConversation v u) db = (r, db) := by
  unfold Chat.getConversation
  have hm := run_requireMembership (s := db) v u
  rcases hcv : db.membership v u with e | cv
  · rw [hcv] at hm
    exact ⟨_, Prog.run_bind_error _ hm⟩
  · rw [hcv] at hm
    exact ⟨_, (Prog.run_bind_ok _ hm).trans (run_viewConversation cv u)⟩

theorem run_previousIds (u : UserId) (v : ConversationId) :
    (∃ e, Prog.run exec (previousIds u v) s = (.error e, s)) ∧ s.previousIds u v = none ∨
      ∃ ids, Prog.run exec (previousIds u v) s = (.ok ids, s) ∧ s.previousIds u v = some ids := by
  unfold ChatController.previousIds State.previousIds
  rw [run_call (s := s) (a := s.cachedIds v) rfl]
  rcases s.cachedIds v with _ | ids
  · obtain ⟨r, hr⟩ := run_getConversation_eq s.db v u
    simp only [hr]
    rcases r with e | view
    · refine .inl ⟨⟨.chat e, ?_⟩, rfl⟩
      exact run_call_error (c := .conversation (.getConversation v u)) (sendChat_error hr) _
    · refine .inr ⟨viewMemberIds view, ?_, rfl⟩
      rw [run_call (c := .conversation (.getConversation v u)) (sendChat_ok hr)]
      rfl
  · exact .inr ⟨ids, rfl, rfl⟩

theorem run_tellRemaining (v : ConversationId) (ids : List UserId) :
    Prog.run exec (tellRemaining v ids) s =
      (.ok (), { s with sent := s.sent ++ s.toldRemaining v ids }) := by
  cases ids with
  | nil => simp [tellRemaining, State.toldRemaining]
  | cons first rest =>
    obtain ⟨r, hr⟩ := run_getConversation_eq s.db v first
    unfold tellRemaining State.toldRemaining
    rw [Prog.run_bind, Prog.run_attempt]
    simp only [hr]
    rcases r with e | view
    · rw [run_call_error (c := .conversation (.getConversation v first)) (sendChat_error hr)]
      simp
    · rw [run_call (c := .conversation (.getConversation v first)) (sendChat_ok hr),
        Prog.run_bind_ok exec (run_attachToConversation view)]
      rfl

/-- The clients in the rooms of users are those of the users. -/
theorem listeners_users (v : ConversationId) {ids : List UserId} (h : ids ≠ []) :
    s.listeners (roomsOf v ids) = (s.clients.map Client.userId).filter (· ∈ ids) := by
  unfold State.listeners roomsOf
  rw [if_pos (List.length_pos_iff.mpr h), List.filter_map]
  congr 1
  refine List.filter_congr fun client _ => ?_
  rw [List.any_map, Function.comp_apply, Bool.eq_iff_iff]
  simp only [List.any_eq_true, Function.comp_apply, Client.isIn, decide_eq_true_eq]
  exact ⟨fun ⟨u, hu, heq⟩ => heq ▸ hu, fun hu => ⟨_, hu, rfl⟩⟩

/-- What the remaining members are sent does not depend on caches and conversation rooms. -/
theorem toldRemaining_congr (hdb : t.db = s.db) (hpresence : t.presence = s.presence)
    (hclients : t.clients.map Client.userId = s.clients.map Client.userId) (v : ConversationId)
    (ids : List UserId) : t.toldRemaining v ids = s.toldRemaining v ids := by
  cases ids with
  | nil => rfl
  | cons first rest =>
    unfold State.toldRemaining
    simp only [hdb, listeners_users _ (List.cons_ne_nil first rest), hclients]
    have hshown : ∀ c, t.withPresence c = s.withPresence c := by
      intro c
      simp only [State.withPresence, State.presenceOf, hdb, hpresence]
    simp only [hshown]

theorem handle_leave (u : UserId) (v : ConversationId) :
    (s.handle (leave u v)).sent = [] ∧
        (s.previousIds u v = none ∧ (s.handle (leave u v)).db = s.db ∨
          ∃ e db, Prog.run Chat.exec (Chat.leave v u) s.db = (.error e, db) ∧
            (s.handle (leave u v)).db = db) ∨
      ∃ ids left db, s.previousIds u v = some ids ∧
        Prog.run Chat.exec (Chat.leave v u) s.db = (.ok left, db) ∧
        (s.handle (leave u v)).db = db ∧
        (s.handle (leave u v)).sent =
          ((s.listeners [.user u]).map fun w => (w, .removedFromGroup v)) ++
            State.toldRemaining { s with db := db } v (ids.filter (· ≠ u)) ++ [(u, .left left)] := by
  unfold leave State.handle
  rcases run_previousIds (s := { s with sent := [] }) u v with ⟨⟨e, he⟩, hnone⟩ | ⟨ids, hids, hsome⟩
  · rw [Prog.run_bind_error exec he]
    exact .inl ⟨rfl, .inl ⟨hnone, rfl⟩⟩
  rw [Prog.run_bind_ok exec hids]
  rcases h : Prog.run Chat.exec (Chat.leave v u) s.db with ⟨e | left, db⟩
  · rw [run_call_error (c := .leave v u) (sendChat_error (s := { s with sent := [] }) h)]
    exact .inl ⟨rfl, .inr ⟨e, db, rfl, rfl⟩⟩
  refine .inr ⟨ids, left, db, hsome, rfl, ?_⟩
  rw [run_call (c := .leave v u) (sendChat_ok (s := { s with sent := [] }) h)]
  simp only
  rw [run_call (c := .setMemberIds v _) rfl, run_call (c := .emit _ _) rfl,
    run_call (c := .forceLeaveConversationRoom v u) rfl,
    Prog.run_bind_ok exec (run_tellRemaining _ _), run_respond]
  refine ⟨rfl, ?_⟩
  refine congrArg (fun l => ((s.listeners [.user u]).map fun w => (w, Payload.removedFromGroup v)) ++
    l ++ [(u, Payload.left left)]) (toldRemaining_congr ?_ ?_ ?_ v (ids.filter (· ≠ u)))
  · rfl
  · rfl
  · simp only [State.moveClients, List.map_map]
    refine List.map_congr_left fun client _ => ?_
    simp only [Function.comp_apply]
    split <;> rfl

/-! ## The sockets -/

theorem run_tellPeers (p : PresenceView) (us : List UserId) :
    Prog.run exec (tellPeers p us) s = (.ok (), { s with
      sent := s.sent ++ us.flatMap fun u =>
        (s.listeners [.user u]).map fun w => (w, .chatPresence p none) }) := by
  induction us generalizing s with
  | nil => simp [tellPeers]
  | cons u us ih =>
    rw [tellPeers, run_call (c := .emit _ _) rfl, ih]
    simp only [State.send, List.flatMap_cons, List.append_assoc]
    rfl

/-- The peers who hear that a user went offline. -/
def State.peerIds (s : State) (u : UserId) (vs : List ConversationId) : List UserId :=
  vs.flatMap fun v => ((s.cachedIds v).getD []).filter (· ≠ u)

theorem run_fanOutPresence (p : PresenceView) (peerIds : List UserId) (vs : List ConversationId) :
    Prog.run exec (fanOutPresence p peerIds vs) s = (.ok (), { s with
      sent := s.sent ++ (vs.flatMap fun v =>
          (s.listeners [.conversation v]).map fun w => (w, .chatPresence p (some v))) ++
        (peerIds ++ s.peerIds p.userId vs).eraseDups.flatMap fun u =>
          (s.listeners [.user u]).map fun w => (w, .chatPresence p none) }) := by
  induction vs generalizing s peerIds with
  | nil =>
    rw [fanOutPresence, run_tellPeers]
    simp [State.peerIds]
  | cons v vs ih =>
    rw [fanOutPresence, run_call (c := .emit _ _) rfl, run_call (c := .getMemberIds v) rfl, ih]
    simp only [State.send, State.peerIds, List.flatMap_cons, List.append_assoc]
    rfl

/-- The users whose clients hear that a user went offline. -/
def State.hearsOffline (s : State) (u : UserId) (vs : List ConversationId) : List UserId :=
  vs.flatMap (fun v => s.listeners [.conversation v]) ++
    (s.peerIds u vs).eraseDups.flatMap fun w => s.listeners [.user w]

theorem mem_fanOut {p : PresenceView} {vs : List ConversationId} {w : UserId} {payload : Payload}
    (h : (w, payload) ∈ (vs.flatMap fun v =>
          (s.listeners [.conversation v]).map fun w => (w, Payload.chatPresence p (some v))) ++
        (s.peerIds p.userId vs).eraseDups.flatMap fun u =>
          (s.listeners [.user u]).map fun w => (w, Payload.chatPresence p none)) :
    w ∈ s.hearsOffline p.userId vs ∧ ∃ v, payload = .chatPresence p v := by
  rcases List.mem_append.mp h with h | h
  · obtain ⟨v, hv, h⟩ := List.mem_flatMap.mp h
    obtain ⟨w', hw, heq⟩ := List.mem_map.mp h
    cases heq
    exact ⟨List.mem_append_left _ (List.mem_flatMap.mpr ⟨v, hv, hw⟩), _, rfl⟩
  · obtain ⟨u, hu, h⟩ := List.mem_flatMap.mp h
    obtain ⟨w', hw, heq⟩ := List.mem_map.mp h
    cases heq
    exact ⟨List.mem_append_right _ (List.mem_flatMap.mpr ⟨u, hu, hw⟩), _, rfl⟩

theorem fanOut_of_hears {p : PresenceView} {vs : List ConversationId} {w : UserId}
    (h : w ∈ s.hearsOffline p.userId vs) :
    ∃ v, (w, .chatPresence p v) ∈ (vs.flatMap fun v =>
          (s.listeners [.conversation v]).map fun w => (w, Payload.chatPresence p (some v))) ++
        (s.peerIds p.userId vs).eraseDups.flatMap fun u =>
          (s.listeners [.user u]).map fun w => (w, Payload.chatPresence p none) := by
  rcases List.mem_append.mp h with h | h
  · obtain ⟨v, hv, hw⟩ := List.mem_flatMap.mp h
    exact ⟨some v, List.mem_append_left _ (List.mem_flatMap.mpr ⟨v, hv, List.mem_map_of_mem hw⟩)⟩
  · obtain ⟨u, hu, hw⟩ := List.mem_flatMap.mp h
    exact ⟨none, List.mem_append_right _ (List.mem_flatMap.mpr ⟨u, hu, List.mem_map_of_mem hw⟩)⟩

theorem handle_disconnect (client : Client) :
    (s.handle (handleDisconnect client)).db = s.db ∧
      (s.handle (handleDisconnect client)).sent =
        let p := (s.presence.disconnect s.db.now client.userId client.id).1
        if p.status = .offline then
          (client.conversationIds.flatMap fun v =>
              (s.listeners [.conversation v]).map fun w => (w, .chatPresence p (some v))) ++
            (s.peerIds p.userId client.conversationIds).eraseDups.flatMap fun u =>
              (s.listeners [.user u]).map fun w => (w, .chatPresence p none)
        else [] := by
  unfold State.handle handleDisconnect
  rw [run_call (c := .disconnect _ _) rfl]
  simp only
  split
  · rw [run_fanOutPresence]
    exact ⟨rfl, rfl⟩
  · exact ⟨rfl, rfl⟩

/-- A payload that shows nobody's last-seen time, sent by the handlers of the sockets. -/
def Announces (payload : Payload) : Prop := ∃ u v, payload = .chatPresence ⟨u, .online, none⟩ v

theorem handle_connect (id : SocketId) (u : UserId) :
    (s.handle (handleConnection id u)).db = s.db ∧
      ∀ d ∈ (s.handle (handleConnection id u)).sent, Announces d.2 := by
  unfold State.handle handleConnection
  rw [run_call (c := .addClient _) rfl, run_call (c := .connect u id) rfl]
  split
  · refine ⟨rfl, fun d hd => ?_⟩
    obtain ⟨w, _, rfl⟩ := List.mem_map.mp hd
    exact ⟨u, none, rfl⟩
  · exact ⟨rfl, fun d hd => nomatch hd⟩

theorem handle_joinConversation (id : SocketId) (v : ConversationId) :
    (s.handle (joinConversation id v)).db = s.db ∧
      ∀ d ∈ (s.handle (joinConversation id v)).sent, Announces d.2 := by
  unfold State.handle joinConversation
  rw [run_call (c := .client id) rfl]
  dsimp only
  generalize List.find? _ s.clients = found
  rcases found with _ | client
  · exact ⟨rfl, fun d hd => nomatch hd⟩
  simp only
  obtain ⟨r, hr⟩ := run_getConversation_eq s.db v client.userId
  rcases r with e | view
  · rw [run_call_error (c := .conversation (.getConversation v client.userId))
      (sendChat_error (s := { s with sent := [] }) hr)]
    exact ⟨rfl, fun d hd => nomatch hd⟩
  · rw [run_call (c := .conversation (.getConversation v client.userId))
      (sendChat_ok (s := { s with sent := [] }) hr), run_call (c := .setMemberIds v _) rfl,
      run_call (c := .joinRoom id v) rfl, run_emitToMembers]
    refine ⟨rfl, fun d hd => ?_⟩
    obtain ⟨w, _, rfl⟩ := List.mem_map.mp hd
    exact ⟨client.userId, some v, rfl⟩

theorem handle_heartbeat (id : SocketId) :
    (s.handle (heartbeat id)).db = s.db ∧ (s.handle (heartbeat id)).sent = [] := by
  unfold State.handle heartbeat
  rw [run_call (c := .client id) rfl]
  dsimp only
  generalize List.find? _ s.clients = found
  rcases found with _ | client
  · exact ⟨rfl, rfl⟩
  · exact ⟨rfl, rfl⟩

/-- No handler changes who hides the last-seen time. -/
theorem lastSeenHidden_handle (p : M Unit) : (s.handle p).lastSeenHidden = s.lastSeenHidden := by
  refine (Prog.calls_true p { s with sent := [] }).preserves
    (I := fun t => t.lastSeenHidden = s.lastSeenHidden) (fun t c _ ht => ?_) rfl
  cases c <;> exact ht

end Relay.Gateway.ChatController
