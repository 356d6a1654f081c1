import Relay.Chat.Verify.Timeline

/-!
# The search over all conversations

`searchGlobal` asks one query about all conversations of the user and loads the conversations of a page by
themselves. What it shows is what `searchMessages` shows conversation by conversation, with the conversation as
`getConversation` shows it (`searchGlobal_read`).
-/

namespace Relay.Chat

open Relay.Lib Relay.Lib.Rows Prog

variable {s : Db} {c : ConversationId} {u : UserId} {cv : ConversationWithMembers}

/-! ## The conversation of a hit -/

/-- The conversation as a search loads it. -/
def Db.hitRow (db : Db) (c : ConversationId) : Option ConversationWithMembers :=
  (db.findConversation c).map db.withMembers

def Db.hitMembers (db : Db) (c : ConversationId) : List ConversationMember :=
  ((db.hitRow c).map fun cv => activeMembers cv.members).getD []

def Db.hitConversation (db : Db) (c : ConversationId) : GlobalSearchConversationView :=
  ((db.hitRow c).map fun cv =>
    ⟨cv.id, cv.type, cv.name, (activeMembers cv.members).map ConversationMember.userId⟩).getD ⟨c, .priv, none, []⟩

/-- A message as a hit. -/
def Db.hitOf (db : Db) (u : UserId) (m : Message) : GlobalSearchHitView :=
  ⟨db.viewOf m (db.hitMembers m.conversationId) u, db.hitConversation m.conversationId⟩

/-- What a conversation view tells of the conversation in a hit. -/
def ConversationView.asHit (view : ConversationView) : GlobalSearchConversationView :=
  ⟨view.id, view.type, view.name, view.members.map ConversationMemberView.userId⟩

theorem find?_conversationsIn {ids : List ConversationId} (h : c ∈ ids) :
    ((s.conversationsIn ids).find? fun cv => cv.id = c) = s.hitRow c := by
  unfold Db.conversationsIn Db.hitRow Db.findConversation
  rw [List.find?_map, List.find?_filter]
  congr 2
  funext row
  by_cases hid : row.id = c
  · simp [Db.withMembers, hid, h]
  · simp [Db.withMembers, hid]

theorem hitMembers_conversationsIn {ids : List ConversationId} {m : Message} (h : m.conversationId ∈ ids) :
    hitMembers (s.conversationsIn ids) m = s.hitMembers m.conversationId := by
  unfold hitMembers Db.hitMembers
  rw [find?_conversationsIn h]
  cases s.hitRow m.conversationId <;> rfl

theorem hitConversation_conversationsIn {ids : List ConversationId} {view : MessageView}
    (h : view.conversationId ∈ ids) :
    hitConversation (s.conversationsIn ids) view = s.hitConversation view.conversationId := by
  unfold hitConversation Db.hitConversation
  rw [find?_conversationsIn h]
  cases s.hitRow view.conversationId <;> rfl

/-- A member finds the conversation that `requireMembership` loads. -/
theorem hitRow_eq (hcv : s.membership c u = .ok cv) :
    s.hitRow c = some ⟨cv.toConversation, s.membersOf c⟩ := by
  obtain ⟨hrow, _, _⟩ := Db.membership_eq_ok hcv
  have hid : cv.id = c := Db.membership_id hcv
  simp [Db.hitRow, hrow, Db.withMembers, hid]

theorem hitMembers_eq (hcv : s.membership c u = .ok cv) : s.hitMembers c = cv.members := by
  obtain ⟨_, hmembers, _⟩ := Db.membership_eq_ok hcv
  simp [Db.hitMembers, hitRow_eq hcv, hmembers]

theorem hitConversation_eq (hcv : s.membership c u = .ok cv) :
    ∃ view, run exec (getConversation c u) s = (.ok view, s) ∧ s.hitConversation c = view.asHit := by
  refine ⟨_, run_getConversation hcv, ?_⟩
  obtain ⟨_, hmembers, _⟩ := Db.membership_eq_ok hcv
  simp [Db.hitConversation, hitRow_eq hcv, ConversationView.asHit, toConversationView, hmembers,
    activeMembers_activeMembers]

/-- The conversation is one of those the search asks about. -/
theorem Db.Sits.mem_conversationIds (h : s.Sits c u) (hu : u.canon = u) : c ∈ s.conversationIds u := by
  obtain ⟨_, m, hm, hconv, huser, hleft⟩ := h
  exact List.mem_map.mpr ⟨m, List.mem_filter.mpr ⟨hm, by simp [huser, hleft, hu]⟩, hconv⟩

/-! ## The search -/

/-- The query of the search. -/
def globalFilter (s : Db) (u : UserId) (query : Text) : MessageFilter :=
  ⟨s.conversationIds u, u, some (searchPattern query), none, true⟩

theorem run_searchGlobal {query : Text} (hquery : 2 ≤ (Js.trim query).length) :
    Pages s (searchGlobal u query) ((s.listMessages (globalFilter s u (Js.trim query))).map (s.hitOf u)) := by
  intro page
  have hne : Js.trim query ≠ [] := List.ne_nil_of_length_pos (Nat.lt_of_lt_of_le Nat.zero_lt_two hquery)
  unfold searchGlobal
  rw [run_rejectIf_neg hne, if_neg (Nat.not_lt.mpr hquery), run_bind_ok exec (run_perform exec _ s)]
  dsimp only
  split
  · next hnone =>
    have hrows : s.listMessages (globalFilter s u (Js.trim query)) = [] := by
      rw [List.eq_nil_iff_forall_not_mem]
      intro m hm
      have hm := (List.mem_filter.mp ((List.mem_insertionSort _).mp hm)).2
      simp [Db.filterMatches, globalFilter, show s.conversationIds u = [] from hnone] at hm
    simp [hrows]
  · rw [run_bind_ok exec (run_perform exec _ s)]
    dsimp only
    rw [run_bind_ok exec (run_loadConversations _), run_bind_ok exec (run_viewItems _ _ u)]
    have hitems : ∀ items : List Message, ((items.map fun item => s.viewOf item
        (hitMembers (s.conversationsIn (items.map Message.conversationId).eraseDups) item) u).map fun view =>
          (⟨view, hitConversation (s.conversationsIn (items.map Message.conversationId).eraseDups) view⟩ :
            GlobalSearchHitView)) = items.map (s.hitOf u) := by
      intro items
      rw [List.map_map]
      refine List.map_congr_left fun m hm => ?_
      have hid : m.conversationId ∈ (items.map Message.conversationId).eraseDups :=
        List.mem_eraseDups.mpr (List.mem_map_of_mem hm)
      simp only [Function.comp_apply, Db.hitOf]
      rw [hitMembers_conversationsIn hid, hitConversation_conversationsIn hid]
      rfl
    simp only [pure_def, run_ret, List.length_map]
    rw [hitems, ← List.map_drop, ← List.map_take]
    rfl

/-- The rows of the search in one conversation are those of `searchMessages`. -/
theorem filter_globalFilter (hsits : c ∈ s.conversationIds u) (query : Text) :
    (s.listMessages (globalFilter s u query)).filter (fun m => m.conversationId = c) =
      s.listMessages ⟨[c], u, some (searchPattern query), none, true⟩ := by
  unfold Db.listMessages
  rw [filter_orderDesc, List.filter_filter]
  congr 1
  refine List.filter_congr fun m _ => ?_
  by_cases hid : m.conversationId = c
  · simp [Db.filterMatches, globalFilter, hid, hsits]
  · simp [Db.filterMatches, hid]

/-- The hits of a search: each message once, newest first, of conversations the user has an active membership
in. Where the user is a member, they are what `searchMessages` shows, with the conversation as `getConversation`
shows it. -/
structure GlobalHits (s : Db) (u : UserId) (query : Text) (hits : List GlobalSearchHitView) : Prop where
  once : (hits.map fun hit => hit.message.id).Nodup
  newest : hits.Pairwise fun a b => b.message.createdAt ≤ a.message.createdAt
  mine : ∀ hit ∈ hits, hit.message.conversationId ∈ s.conversationIds u
  inEach : ∀ c, s.Sits c u → Pages s (searchMessages c u query)
    ((hits.filter fun hit => hit.message.conversationId = c).map GlobalSearchHitView.message)
  conversation : ∀ c, s.Sits c u → ∃ view, run exec (getConversation c u) s = (.ok view, s) ∧
    ∀ hit ∈ hits, hit.message.conversationId = c → hit.conversation = view.asHit

/-- The search over all conversations pages through hits that agree with the searches of each of them. -/
theorem searchGlobal_read (hs : Reachable s) {query : Text} (hquery : 2 ≤ (Js.trim query).length) :
    ∃ hits, Pages s (searchGlobal u query) hits ∧ GlobalHits s u query hits := by
  have hperm : (s.listMessages (globalFilter s u (Js.trim query))).Perm
      (s.messages.filter (s.filterMatches (globalFilter s u (Js.trim query)))) := List.perm_insertionSort _ _
  refine ⟨_, run_searchGlobal hquery, ?_, ?_, ?_, fun c hsits => ?_, fun c hsits => ?_⟩
  · have hnodup : ((s.listMessages (globalFilter s u (Js.trim query))).map Message.id).Nodup := by
      rw [(hperm.map Message.id).nodup_iff]
      exact hs.inv.keyed.messages.nodup.sublist (List.filter_sublist.map _)
    rw [List.map_map]
    exact hnodup
  · rw [List.pairwise_map]
    exact (pairwise_orderDesc Message.createdAt _).imp fun h => jsDate_mono h
  · intro hit hhit
    obtain ⟨m, hm, rfl⟩ := List.mem_map.mp hhit
    have hm := (List.mem_filter.mp (hperm.subset hm)).2
    simp only [Db.filterMatches, globalFilter, Bool.and_eq_true] at hm
    exact of_decide_eq_true hm.1.1.1.1.1
  · obtain ⟨cv, hcv⟩ := hsits.loaded
    have hmine : c ∈ s.conversationIds u := hsits.mem_conversationIds (canon_of_membership hs hcv)
    have hne : Js.trim query ≠ [] := List.ne_nil_of_length_pos (Nat.lt_of_lt_of_le Nat.zero_lt_two hquery)
    intro page
    have hrows : (((s.listMessages (globalFilter s u (Js.trim query))).map (s.hitOf u)).filter fun hit =>
          hit.message.conversationId = c).map GlobalSearchHitView.message =
            (s.listMessages ⟨[c], u, some (searchPattern (Js.trim query)), none, true⟩).map fun m =>
              s.viewOf m cv.members u := by
      rw [List.filter_map, List.map_map, ← filter_globalFilter hmine]
      refine List.map_congr_left fun m hm => ?_
      have hid : m.conversationId = c := of_decide_eq_true (List.mem_filter.mp hm).2
      simp only [Function.comp_apply, Db.hitOf, hid, hitMembers_eq hcv]
    rw [hrows, run_searchMessages hne, hcv, ← List.map_drop, ← List.map_take, List.length_map]
    rfl
  · obtain ⟨cv, hcv⟩ := hsits.loaded
    obtain ⟨view, hview, hconversation⟩ := hitConversation_eq hcv
    refine ⟨view, hview, fun hit hhit hid => ?_⟩
    obtain ⟨m, _, rfl⟩ := List.mem_map.mp hhit
    rw [← hconversation, ← hid]
    rfl

/-- The query is found in two conversations. -/
def greetedTwice : List Op :=
  [.createGroup userA ['g'] [userB], .createGroup userB ['h'] [userA],
    .sendMessage (textMessage userA 0 ['h', 'i']), .sendMessage (textMessage userB 3 ['H', 'i', 'p'])]

theorem searchGlobal_read_greetedTwice :
    ∃ hits, Pages ((Db.empty 0 0).serve greetedTwice) (searchGlobal userA [' ', 'h', 'i']) hits ∧
      GlobalHits ((Db.empty 0 0).serve greetedTwice) userA [' ', 'h', 'i'] hits :=
  searchGlobal_read ((reachable_empty 0 0).serve greetedTwice) (by decide)

example : (itemsOf (run exec (searchGlobal userA [' ', 'h', 'i'] (Page.nth Nat.zero_lt_two 0))
    ((Db.empty 0 0).serve greetedTwice)).1).map (fun hit => (hit.message.id, hit.message.conversationId)) =
      [(6, 0), (8, 3)] := by decide +kernel

end Relay.Chat
