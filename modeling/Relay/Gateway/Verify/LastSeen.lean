import Relay.Lib.Runs
import Relay.Gateway.Verify.Recipients

/-!
# Hidden last-seen times

A user may hide the time they were last seen. The gateway attaches that time to every conversation it shows
and takes it out again in some endpoints; in others, and when it tells others that a user went offline, it
does not. `unseen_iff` says which runs show a hidden time to nobody else.
-/

namespace Relay.Gateway.ChatController

open Relay.Lib Relay.Chat

variable {s t : State}

/-! ## What a payload shows -/

/-- The conversation has a last-seen time of the user. -/
def ShowsLastSeen (c : ConversationView) (u : UserId) : Prop :=
  ∃ m ∈ c.members, m.userId = u ∧ m.lastSeenAt ≠ none

def Payload.Shows (u : UserId) : Payload → Prop
  | .conversation c => ShowsLastSeen c u
  | .conversations page => ∃ c ∈ page.items, ShowsLastSeen c u
  | .presence p => p.userId = u ∧ p.lastSeenAt ≠ none
  | .conversationUpdated c => ShowsLastSeen c u
  | .chatPresence p _ => p.userId = u ∧ p.lastSeenAt ≠ none
  | .message _ | .left _ | .chatMessage _ | .removedFromGroup _ => False

/-- Nobody was sent the last-seen time of another user who hides it. -/
def Unseen (s : State) : Prop :=
  ∀ d ∈ s.sent, ∀ u, d.2.Shows u → u ≠ d.1 → u ∉ s.lastSeenHidden

theorem showsLastSeen_withPresence {c : ConversationView} {u : UserId} :
    ShowsLastSeen (s.withPresence c) u ↔
      u ∈ viewMemberIds c ∧ (s.presenceOf u).lastSeenAt ≠ none := by
  simp only [ShowsLastSeen, State.withPresence, viewMemberIds, List.mem_map]
  constructor
  · rintro ⟨_, ⟨m, hm, rfl⟩, rfl, h⟩
    exact ⟨⟨m, hm, rfl⟩, h⟩
  · rintro ⟨⟨m, hm, rfl⟩, h⟩
    exact ⟨_, ⟨m, hm, rfl⟩, rfl, h⟩

theorem offline_of_lastSeenAt {u : UserId} (h : (s.presenceOf u).lastSeenAt ≠ none) :
    (s.presenceOf u).status = .offline := by
  unfold State.presenceOf Presence.view at h ⊢
  split at h
  · exact absurd rfl h
  · next hoff => exact if_neg hoff

/-- The stripped conversations show no hidden time. -/
theorem not_hidden_of_strip {cs : List ConversationView} {c : ConversationView} {u : UserId}
    (hc : c ∈ cs.map s.withPresence)
    (h : ShowsLastSeen (stripLastSeen
      ((lastSeenUserIds (cs.map s.withPresence)).filter (· ∈ s.lastSeenHidden)) c) u) :
    u ∉ s.lastSeenHidden := by
  intro hu
  obtain ⟨c₀, hc₀, rfl⟩ := List.mem_map.mp hc
  obtain ⟨m', hm', hid, hseen⟩ := h
  obtain ⟨m, hm, rfl⟩ := List.mem_map.mp hm'
  split at hseen
  · exact hseen rfl
  next hout =>
  rw [if_neg hout] at hid
  refine hout (List.mem_filter.mpr ⟨List.mem_eraseDups.mpr ?_, ?_⟩)
  · refine List.mem_flatMap.mpr ⟨_, hc, List.mem_map.mpr ⟨m, List.mem_filter.mpr ⟨hm, ?_⟩, rfl⟩⟩
    obtain ⟨m₀, _, rfl⟩ := List.mem_map.mp hm
    simp only [decide_eq_true_eq]
    exact ⟨offline_of_lastSeenAt hseen, hseen⟩
  · rw [hid]
    exact decide_eq_true hu

theorem not_hidden_of_stripOne {c : ConversationView} {u : UserId}
    (h : ShowsLastSeen (s.stripOne (s.withPresence c)) u) : u ∉ s.lastSeenHidden := by
  have hc : s.withPresence c ∈ [c].map s.withPresence := List.mem_singleton_self _
  exact not_hidden_of_strip hc h

theorem not_hidden_of_shownPresence {u w : UserId} (hid : (s.shownPresence w).userId = u)
    (h : (s.shownPresence w).lastSeenAt ≠ none) : u ∉ s.lastSeenHidden := by
  unfold State.shownPresence at hid h
  split at h
  · next hplain =>
    rcases hplain with hplain | hplain
    · exact absurd (offline_of_lastSeenAt h) hplain
    · exact absurd hplain h
  · next hplain =>
    rw [if_neg hplain] at hid
    split at h
    · exact absurd rfl h
    · next hout =>
      rw [if_neg hout] at hid
      exact hid ▸ hout

/-! ## The steps that show no hidden time to others -/

/-- The user hides a last-seen time that the gateway has. -/
def Exposed (s : State) (u : UserId) : Prop :=
  u ∈ s.lastSeenHidden ∧ (s.presenceOf u).lastSeenAt ≠ none

instance (s : State) (u : UserId) : Decidable (Exposed s u) := by
  unfold Exposed
  infer_instance

/-- Whoever gets to see the conversation with the presence of its members finds no exposed user but
themselves. -/
def Discreet (s : State) (c : ConversationView) (recipientIds : List UserId) : Prop :=
  ∀ w ∈ recipientIds, ∀ u ∈ viewMemberIds c, Exposed s u → u = w

instance (s : State) (c : ConversationView) (ids : List UserId) : Decidable (Discreet s c ids) := by
  unfold Discreet
  infer_instance

/-- The answer of the chat service is shown as it is, to the user and to the clients of the members if they
are told. -/
def Shares (s : State) (u : UserId) (r : ConversationRequest) (tells : Bool) : Prop :=
  match Prog.run Chat.exec r.program s.db with
  | (.error _, _) => True
  | (.ok view, db) =>
    Discreet { s with db := db } view
      (u :: if tells then s.listeners (roomsOf view.id (viewMemberIds view)) else [])

instance (s : State) (u : UserId) (r : ConversationRequest) (tells : Bool) :
    Decidable (Shares s u r tells) := by
  unfold Shares
  split <;> infer_instance

/-- The first of the remaining members gets an answer, which all of them are shown. -/
def SharesRemaining (s : State) (v : ConversationId) : List UserId → Prop
  | [] => True
  | first :: rest =>
    match (Prog.run Chat.exec (Chat.getConversation v first) s.db).1 with
    | .ok view => Discreet s view (s.listeners (roomsOf view.id (first :: rest)))
    | .error _ => True

instance (s : State) (v : ConversationId) (ids : List UserId) : Decidable (SharesRemaining s v ids) := by
  unfold SharesRemaining
  split
  · infer_instance
  · split <;> infer_instance

/-- A step shows no hidden last-seen time: of the endpoints that show a conversation as it is, those that
answer with one show no exposed user to anybody else, and a user who hides the time and goes offline has
nobody who hears of it. -/
def Hides (s : State) : Event → Prop
  | .request (.createPrivate u b) => b ≠ u → Shares s u (.createPrivate u b) false
  | .request (.createGroup u name ids) => Shares s u (.createGroup u name ids) true
  | .request (.addMembers u v ids) => Shares s u (.addMembers v u ids) true
  | .request (.removeMember u v b) => Shares s u (.removeMember v u b) true
  | .request (.updateGroup u v name) => Shares s u (.updateGroup v u name) true
  | .request (.leave u v) =>
    match s.previousIds u v, Prog.run Chat.exec (Chat.leave v u) s.db with
    | some ids, (.ok _, db) => SharesRemaining { s with db := db } v (ids.filter (· ≠ u))
    | _, _ => True
  | .disconnect id =>
    match s.clients.find? fun client => client.id = id with
    | none => True
    | some client =>
      (s.presence.disconnect s.db.now client.userId id).1.status = .offline →
        client.userId ∈ s.lastSeenHidden →
          ∀ w ∈ State.hearsOffline { s with clients := s.clients.filter fun client => client.id ≠ id }
            client.userId client.conversationIds, w = client.userId
  | _ => True

instance (s : State) (e : Event) : Decidable (Hides s e) := by
  unfold Hides
  split
  all_goals try infer_instance
  · split <;> infer_instance
  · split <;> infer_instance

/-! ## One step -/

theorem unseen_of_sent (hs : t.lastSeenHidden = s.lastSeenHidden)
    (h : ∀ d ∈ t.sent, ∀ u, d.2.Shows u → u ≠ d.1 → u ∉ s.lastSeenHidden) : Unseen t := by
  intro d hd u hu hne
  rw [hs]
  exact h d hd u hu hne

theorem unseen_of_nil (h : t.sent = []) : Unseen t := by
  intro d hd
  rw [h] at hd
  cases hd

/-- The payloads that show no last-seen time at all. -/
theorem not_shows_of_announces {payload : Payload} (h : Announces payload) (u : UserId) :
    ¬ payload.Shows u := by
  obtain ⟨w, v, rfl⟩ := h
  exact fun hshows => hshows.2 rfl

theorem unseen_of_announces (h : ∀ d ∈ t.sent, Announces d.2) : Unseen t :=
  fun d hd u hu => absurd hu (not_shows_of_announces (h d hd) u)

/-- One user is sent what hides the hidden times. -/
theorem unseen_of_one {w : UserId} {payload : Payload} (hs : t.lastSeenHidden = s.lastSeenHidden)
    (hsent : t.sent = [(w, payload)]) (h : ∀ u, payload.Shows u → u ∉ s.lastSeenHidden) :
    Unseen t := by
  refine unseen_of_sent hs fun d hd u hu _ => ?_
  rw [hsent, List.mem_singleton] at hd
  subst hd
  exact h u hu

/-- A log that shows one conversation to some users, and nothing else. -/
theorem discreetFor_iff {c : ConversationView} {ids : List UserId} {log : List (UserId × Payload)}
    (hlog : ∀ d ∈ log, (∃ w ∈ ids, d.1 = w ∧ ∀ u, d.2.Shows u ↔ ShowsLastSeen (s.withPresence c) u) ∨
      ∀ u, ¬ d.2.Shows u)
    (hall : ∀ w ∈ ids, ∃ payload, (w, payload) ∈ log ∧
      ∀ u, payload.Shows u ↔ ShowsLastSeen (s.withPresence c) u) :
    (∀ d ∈ log, ∀ u, d.2.Shows u → u ≠ d.1 → u ∉ s.lastSeenHidden) ↔ Discreet s c ids := by
  constructor
  · intro h w hw u hu ⟨hhid, hseen⟩
    obtain ⟨payload, hmem, hshows⟩ := hall w hw
    by_contra hne
    exact h _ hmem u ((hshows u).mpr (showsLastSeen_withPresence.mpr ⟨hu, hseen⟩)) hne hhid
  · intro h d hd u hu hne hhid
    rcases hlog d hd with ⟨w, hw, rfl, hshows⟩ | hno
    · obtain ⟨hmem, hseen⟩ := showsLastSeen_withPresence.mp ((hshows u).mp hu)
      exact hne (h _ hw u hmem ⟨hhid, hseen⟩)
    · exact hno u hu

/-- The log of an endpoint that tells the members and answers the user. -/
theorem discreet_published (u : UserId) (c : ConversationView) (extra : List (UserId × Payload))
    (hextra : ∀ d ∈ extra, ∀ u, ¬ d.2.Shows u) :
    (∀ d ∈ s.toldUpdate (s.withPresence c) ++ extra ++ [(u, Payload.conversation (s.withPresence c))],
        ∀ x, d.2.Shows x → x ≠ d.1 → x ∉ s.lastSeenHidden) ↔
      Discreet s c (u :: s.listeners (roomsOf c.id (viewMemberIds c))) := by
  have htold : s.toldUpdate (s.withPresence c) =
      (s.listeners (roomsOf c.id (viewMemberIds c))).map fun w =>
        (w, Payload.conversationUpdated (s.withPresence c)) := by
    unfold State.toldUpdate
    rw [viewMemberIds_withPresence]
    rfl
  rw [htold]
  refine discreetFor_iff (fun d hd => ?_) fun w hw => ?_
  · rcases List.mem_append.mp hd with hd | hd
    · rcases List.mem_append.mp hd with hd | hd
      · obtain ⟨w, hw, rfl⟩ := List.mem_map.mp hd
        exact .inl ⟨w, List.mem_cons_of_mem u hw, rfl, fun _ => Iff.rfl⟩
      · exact .inr (hextra d hd)
    · rw [List.mem_singleton] at hd
      subst hd
      exact .inl ⟨u, List.mem_cons_self, rfl, fun _ => Iff.rfl⟩
  · rcases List.mem_cons.mp hw with rfl | hw
    · exact ⟨_, List.mem_append_right _ (List.mem_singleton_self _), fun _ => Iff.rfl⟩
    · exact ⟨_, List.mem_append_left _ (List.mem_append_left _ (List.mem_map_of_mem hw)),
        fun _ => Iff.rfl⟩

/-- An endpoint that tells the members and answers the user with the conversation as it is. -/
theorem unseen_publish_iff {p : M Unit} {u : UserId} {r : ConversationRequest}
    (extra : State → List (UserId × Payload)) (hextra : ∀ t, ∀ d ∈ extra t, ∀ u, ¬ d.2.Shows u)
    (h : s.Sends p r fun t view => t.toldUpdate (t.withPresence view) ++ extra t ++
      [(u, .conversation (t.withPresence view))]) :
    Unseen (s.handle p) ↔ Shares s u r true := by
  unfold Shares
  rcases h with ⟨e, db, hrun, _, hsent⟩ | ⟨view, db, hrun, _, hsent⟩
  · rw [hrun]
    exact iff_of_true (unseen_of_nil hsent) trivial
  · rw [hrun]
    unfold Unseen
    rw [hsent, lastSeenHidden_handle]
    exact discreet_published u view _ (hextra _)

theorem unseen_publish_plain_iff {p : M Unit} {u : UserId} {r : ConversationRequest}
    (h : s.Sends p r fun t view => t.toldUpdate (t.withPresence view) ++
      [(u, .conversation (t.withPresence view))]) :
    Unseen (s.handle p) ↔ Shares s u r true := by
  refine unseen_publish_iff (fun _ => []) (fun _ d hd => nomatch hd) ?_
  simpa only [List.append_nil] using h

/-- An endpoint that shows a stripped conversation. -/
theorem unseen_of_sends {p : M Unit} {r : ConversationRequest}
    {log : State → ConversationView → List (UserId × Payload)} (h : s.Sends p r log)
    (hlog : ∀ (t : State) view, ∀ d ∈ log t view, ∀ u, d.2.Shows u → u ∉ t.lastSeenHidden) :
    Unseen (s.handle p) := by
  rcases h with ⟨e, db, _, _, hsent⟩ | ⟨view, db, _, _, hsent⟩
  · exact unseen_of_nil hsent
  · refine unseen_of_sent (lastSeenHidden_handle p) fun d hd u hu _ => ?_
    rw [hsent] at hd
    exact hlog { s with db := db, sent := [] } view d hd u hu

theorem unseen_show (u : UserId) (r : ConversationRequest) :
    Unseen (s.handle (showConversation u r)) := by
  refine unseen_of_sends (sends_showConversation u r) fun t view d hd x hx => ?_
  rw [List.mem_singleton] at hd
  subst hd
  exact not_hidden_of_stripOne hx

theorem not_hidden_of_publishStripped {u x : UserId} {c : ConversationView} {d : UserId × Payload}
    (hd : d ∈ t.toldUpdate (t.stripOne (t.withPresence c)) ++
      [(u, Payload.conversation (t.stripOne (t.withPresence c)))])
    (hx : d.2.Shows x) : x ∉ t.lastSeenHidden := by
  rcases List.mem_append.mp hd with hd | hd
  · obtain ⟨w, _, rfl⟩ := List.mem_map.mp hd
    exact not_hidden_of_stripOne hx
  · rw [List.mem_singleton] at hd
    subst hd
    exact not_hidden_of_stripOne hx

theorem unseen_changeMessage (u : UserId) (v : ConversationId) (r : MessageRequest) :
    Unseen (s.handle (changeMessage u v r)) := by
  rcases handle_changeMessage (s := s) u v r with ⟨_, _, _, _, hsent⟩ | ⟨result, _, _, _, hsent⟩
  · exact unseen_of_nil hsent
  · intro d hd x hx
    rw [hsent] at hd
    rcases List.mem_append.mp hd with hd | hd
    · obtain ⟨w, _, rfl⟩ := List.mem_map.mp hd
      exact hx.elim
    · rw [List.mem_singleton] at hd
      subst hd
      exact hx.elim

theorem unseen_leave_iff (u : UserId) (v : ConversationId) :
    Unseen (s.handle (leave u v)) ↔ Hides s (.request (.leave u v)) := by
  unfold Hides
  rcases handle_leave (s := s) u v with ⟨hsent, ⟨hnone, _⟩ | ⟨e, db, he, _⟩⟩ |
    ⟨ids, left, db, hsome, hok, _, hsent⟩
  · simp only [hnone]
    exact iff_of_true (unseen_of_nil hsent) trivial
  · simp only [he]
    refine iff_of_true (unseen_of_nil hsent) ?_
    split
    · next heq => cases heq
    · trivial
  simp only [hsome, hok]
  unfold Unseen
  rw [hsent, lastSeenHidden_handle]
  have hquiet : ∀ d ∈ (s.listeners [.user u]).map (fun w => (w, Payload.removedFromGroup v)),
      ∀ x, ¬ d.2.Shows x := by
    intro d hd x
    obtain ⟨w, _, rfl⟩ := List.mem_map.mp hd
    exact id
  have hsplit : (∀ d ∈ (s.listeners [.user u]).map (fun w => (w, Payload.removedFromGroup v)) ++
        State.toldRemaining { s with db := db } v (ids.filter (· ≠ u)) ++ [(u, Payload.left left)],
        ∀ x, d.2.Shows x → x ≠ d.1 → x ∉ s.lastSeenHidden) ↔
      ∀ d ∈ State.toldRemaining { s with db := db } v (ids.filter (· ≠ u)),
        ∀ x, d.2.Shows x → x ≠ d.1 → x ∉ s.lastSeenHidden := by
    constructor
    · exact fun h d hd => h d (List.mem_append_left _ (List.mem_append_right _ hd))
    · intro h d hd x hx
      rcases List.mem_append.mp hd with hd | hd
      · rcases List.mem_append.mp hd with hd | hd
        · exact absurd hx (hquiet d hd x)
        · exact h d hd x hx
      · rw [List.mem_singleton] at hd
        subst hd
        exact hx.elim
  rw [hsplit]
  generalize ids.filter (· ≠ u) = remaining
  cases remaining with
  | nil => exact iff_of_true (by simp [State.toldRemaining]) trivial
  | cons first rest =>
    simp only [State.toldRemaining, SharesRemaining]
    rcases (Prog.run Chat.exec (Chat.getConversation v first) db).1 with e | view
    · exact iff_of_true (by simp) trivial
    · refine discreetFor_iff (s := { s with db := db }) (fun d hd => ?_) fun w hw => ?_
      · obtain ⟨w, hw, rfl⟩ := List.mem_map.mp hd
        exact .inl ⟨w, hw, rfl, fun _ => Iff.rfl⟩
      · exact ⟨_, List.mem_map_of_mem hw, fun _ => Iff.rfl⟩

theorem disconnect_fst (p : Presence) (now : Time) (u : UserId) (id : SocketId) :
    (p.disconnect now u id).1.userId = u ∧
      ((p.disconnect now u id).1.status = .offline → (p.disconnect now u id).1.lastSeenAt ≠ none) := by
  unfold Presence.disconnect
  simp only
  split
  · exact ⟨rfl, fun h => nomatch h⟩
  · exact ⟨rfl, fun _ => nofun⟩

theorem unseen_disconnect_iff (id : SocketId) :
    Unseen (s.disconnect id) ↔ Hides s (.disconnect id) := by
  simp only [State.disconnect, Hides]
  generalize hfind : List.find? _ s.clients = found
  rcases found with _ | client
  · exact iff_of_true (unseen_of_nil rfl) trivial
  have hid : client.id = id := by simpa using List.find?_some hfind
  simp only
  obtain ⟨_, hsent⟩ := handle_disconnect
    (s := { s with clients := s.clients.filter fun client => client.id ≠ id }) client
  unfold Unseen
  rw [hsent, lastSeenHidden_handle, hid]
  obtain ⟨huser, hseen⟩ := disconnect_fst s.presence s.db.now client.userId id
  simp only
  by_cases hoff : (s.presence.disconnect s.db.now client.userId id).1.status = .offline
  swap
  · rw [if_neg hoff]
    exact iff_of_true (by simp) fun h => absurd h hoff
  rw [if_pos hoff]
  constructor
  · intro h _ hhid w hw
    rw [← huser] at hw
    obtain ⟨v, hmem⟩ := fanOut_of_hears hw
    by_contra hne
    exact h _ hmem client.userId ⟨huser, hseen hoff⟩ (fun heq => hne heq.symm) hhid
  · intro h d hd u hu hne hhid
    obtain ⟨w, payload⟩ := d
    obtain ⟨hw, v, rfl⟩ := mem_fanOut hd
    obtain ⟨rfl, _⟩ := hu
    rw [huser] at hw hne hhid
    exact hne (h hoff hhid w hw).symm

theorem unseen_createPrivate_iff (u b : UserId) :
    Unseen (s.handle (createPrivate u b)) ↔ Hides s (.request (.createPrivate u b)) := by
  by_cases hne : b = u
  · refine iff_of_true (unseen_of_nil ?_) fun h => absurd hne h
    unfold State.handle createPrivate
    rw [if_pos hne]
    rfl
  have hiff : Unseen (s.handle (createPrivate u b)) ↔ Shares s u (.createPrivate u b) false := by
    unfold Shares
    rcases sends_createPrivate (s := s) hne with ⟨e, db, hrun, _, hsent⟩ | ⟨view, db, hrun, _, hsent⟩
    · rw [hrun]
      exact iff_of_true (unseen_of_nil hsent) trivial
    · rw [hrun]
      unfold Unseen
      rw [hsent, lastSeenHidden_handle]
      refine discreetFor_iff (s := { s with db := db }) (fun d hd => ?_) fun w hw => ?_
      · rw [List.mem_singleton] at hd
        subst hd
        exact .inl ⟨u, List.mem_cons_self, rfl, fun _ => Iff.rfl⟩
      · obtain rfl := List.mem_singleton.mp hw
        exact ⟨_, List.mem_singleton_self _, fun _ => Iff.rfl⟩
  exact hiff.trans ⟨fun h _ => h, fun h => h hne⟩

theorem unseen_step_iff (e : Event) : Unseen (step e s) ↔ Hides s e := by
  cases e with
  | request r =>
    cases r with
    | createPrivate u b => exact unseen_createPrivate_iff u b
    | createGroup u name ids =>
      exact unseen_publish_plain_iff (sends_createGroup u name ids)
    | addMembers u v ids =>
      exact unseen_publish_plain_iff (sends_addMembers u v ids)
    | updateGroup u v name =>
      exact unseen_publish_plain_iff (sends_updateGroup u v name)
    | removeMember u v b =>
      refine unseen_publish_iff
        (fun t => (t.listeners [.user b]).map fun w => (w, .removedFromGroup v)) (fun t d hd x => ?_)
        (sends_removeMember u v b)
      obtain ⟨w, _, rfl⟩ := List.mem_map.mp hd
      exact id
    | leave u v => exact unseen_leave_iff u v
    | listConversations u page =>
      refine iff_of_true ?_ trivial
      rcases (handle_listConversations (s := s) u page).2 with hsent | ⟨t, data, ht, hsent⟩
      · exact unseen_of_nil hsent
      · refine unseen_of_one (lastSeenHidden_handle _) hsent fun x hx => ?_
        obtain ⟨_, hstripped, hx⟩ := hx
        obtain ⟨c, hc, rfl⟩ := List.mem_map.mp hstripped
        rw [← ht]
        exact not_hidden_of_strip hc hx
    | getPresence u w =>
      refine iff_of_true (unseen_of_one (lastSeenHidden_handle _)
        (congrArg State.sent (handle_getPresence u w)) fun x hx => ?_) trivial
      exact not_hidden_of_shownPresence hx.1 hx.2
    | getConversation u v => exact iff_of_true (unseen_show u _) trivial
    | muteConversation u v muted => exact iff_of_true (unseen_show u _) trivial
    | pinConversation u v pinned => exact iff_of_true (unseen_show u _) trivial
    | setDisappearing u v n =>
      exact iff_of_true (unseen_of_sends (sends_setDisappearing u v n)
        fun _ _ _ hd _ hx => not_hidden_of_publishStripped hd hx) trivial
    | setMemberRole u v b role =>
      exact iff_of_true (unseen_of_sends (sends_setMemberRole u v b role)
        fun _ _ _ hd _ hx => not_hidden_of_publishStripped hd hx) trivial
    | editMessage u v m body => exact iff_of_true (unseen_changeMessage u v _) trivial
    | reactMessage u v m emoji => exact iff_of_true (unseen_changeMessage u v _) trivial
    | pinMessage u v m pinned => exact iff_of_true (unseen_changeMessage u v _) trivial
    | connect id u => exact iff_of_true (unseen_of_announces (handle_connect id u).2) trivial
    | joinConversation id v =>
      exact iff_of_true (unseen_of_announces (handle_joinConversation id v).2) trivial
    | leaveConversationRoom id v => exact iff_of_true (unseen_of_nil rfl) trivial
    | heartbeat id => exact iff_of_true (unseen_of_nil (handle_heartbeat id).2) trivial
  | disconnect id => exact unseen_disconnect_iff id
  | updateProfile u showLastSeen => exact iff_of_true (unseen_of_nil rfl) trivial
  | setMemberIds v ids => exact iff_of_true (unseen_of_nil rfl) trivial
  | chat op => exact iff_of_true (unseen_of_nil rfl) trivial
  | elapse d => exact iff_of_true (unseen_of_nil rfl) trivial

/-! ## Whole runs -/

/-- In a run of the gateway nobody is sent a last-seen time that its user hides, exactly when each step
hides them. -/
theorem unseen_iff (es : List Event) (s : State) :
    Runs.Always step Unseen es { s with sent := [] } ↔
      Runs.Along step Hides es { s with sent := [] } :=
  Runs.always_iff_along (J := fun _ => True) (fun _ _ _ => trivial)
    (fun _ e _ _ => unseen_step_iff e) trivial (unseen_of_nil rfl)

def userA : UserId := ⟨['a'], Eq.refl true⟩
def userB : UserId := ⟨['b'], Eq.refl true⟩

/-- A gateway and a chat service that nobody has used. -/
def State.initial : State := ⟨Db.empty 0 0, [], ⟨∅, ∅, ∅⟩, ∅, [], []⟩

/-- B hides the last-seen time and goes offline. -/
def gone : List Event :=
  [.updateProfile userB false, .request (.connect 0 userB), .disconnect 0]

/-- A opens a private chat with B, and is shown when B was seen last. -/
theorem unseen_fails : ¬ ∀ es, Runs.Always step Unseen es State.initial := by
  intro h
  have hfinal := (h (gone ++ [.request (.createPrivate userA userB)])).final
  rw [Runs.final_append] at hfinal
  have hno : ¬ Hides (Runs.final step gone State.initial) (.request (.createPrivate userA userB)) := by
    decide +kernel
  exact hno ((unseen_step_iff _).mp hfinal)

end Relay.Gateway.ChatController
