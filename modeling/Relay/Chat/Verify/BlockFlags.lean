import Relay.Chat.Verify.Lawful
import Relay.Chat.Verify.Reads

/-!
# Block flags of a page of conversations

`blockFlagsForConversations` finds the blocks between the actor and all other parties with one query and
looks each conversation up in two sets. For an actor and members in the spelling of the database it answers
for every conversation what `blockFlagsForConversation` answers for it alone (`blockFlags_agree`).
-/

namespace Relay.Chat

open Relay.Lib Prog

variable {s : Db} {cvs : List ConversationWithMembers} {cv : ConversationWithMembers} {u : UserId}

/-- All entries of a key have one value. -/
theorem lookup_of_forall {κ ν : Type} [DecidableEq κ] {entries : List (κ × ν)} {k : κ} {v : ν}
    (hsome : ∃ v', (k, v') ∈ entries) (hall : ∀ v', (k, v') ∈ entries → v' = v) : entries.lookup k = some v := by
  cases hlookup : entries.lookup k with
  | none =>
    obtain ⟨v', hmem⟩ := hsome
    have hne := List.lookup_eq_none_iff.mp hlookup _ hmem
    simp at hne
  | some v' =>
    obtain ⟨before, after, rfl, _⟩ := List.lookup_eq_some_iff.mp hlookup
    rw [hall v' (List.mem_append_right _ List.mem_cons_self)]

theorem mem_privatePeers {c : ConversationId} {w : UserId} :
    (c, w) ∈ privatePeers cvs u ↔
      ∃ cv ∈ cvs, cv.type = .priv ∧ cv.id = c ∧ ∃ other, findOther cv.members u = some other ∧ other.userId = w := by
  unfold privatePeers
  simp only [List.mem_filterMap, List.mem_filter, decide_eq_true_eq, Option.map_eq_some_iff, Prod.mk.injEq]
  constructor
  · rintro ⟨cv, ⟨hcv, htype⟩, other, hother, hid, hw⟩
    exact ⟨cv, hcv, htype, hid, other, hother, hw⟩
  · rintro ⟨cv, hcv, htype, hid, other, hother, hw⟩
    exact ⟨cv, ⟨hcv, htype⟩, other, hother, hid, hw⟩

/-- The blocks between the actor and the parties. -/
def Db.peerBlocks (db : Db) (u : UserId) (ws : List UserId) : List UserBlock :=
  db.userBlocks.filter fun b => (b.blockerId = u.canon ∧ b.blockedId ∈ ws.map UserId.canon) ∨
    (b.blockerId ∈ ws.map UserId.canon ∧ b.blockedId = u.canon)

theorem hasBlock_iff {a b : UserId} (ha : a.canon = a) (hb : b.canon = b) :
    s.hasBlock a b = true ↔ ∃ row ∈ s.userBlocks, row.blockerId = a ∧ row.blockedId = b := by
  unfold Db.hasBlock Db.blocks
  rw [decide_eq_true_eq, List.length_pos_iff_exists_mem, ha, hb]
  simp only [List.mem_filter, decide_eq_true_eq]

/-- The entry the batch sets for one of the parties. -/
def Db.peerFlags (db : Db) (u : UserId) (ws : List UserId) (w : UserId) : BlockFlags where
  blockedByMe := w ∈ ((db.peerBlocks u ws).filter fun b => b.blockerId = u).map UserBlock.blockedId
  blockedMe := w ∈ ((db.peerBlocks u ws).filter fun b => b.blockedId = u).map UserBlock.blockerId

theorem peerFlags_eq (hu : u.canon = u) {ws : List UserId} {w : UserId} (hw : w ∈ ws) (hcanon : w.canon = w) :
    s.peerFlags u ws w = ⟨s.hasBlock u w, s.hasBlock w u⟩ := by
  have hasked : w ∈ ws.map UserId.canon := List.mem_map.mpr ⟨w, hw, hcanon⟩
  unfold Db.peerFlags
  rw [BlockFlags.mk.injEq]
  constructor
  · rw [Bool.eq_iff_iff, hasBlock_iff hu hcanon, decide_eq_true_eq]
    simp only [Db.peerBlocks, hu, List.mem_map, List.mem_filter, decide_eq_true_eq]
    constructor
    · rintro ⟨b, ⟨⟨hb, _⟩, hblocker⟩, hblocked⟩
      exact ⟨b, hb, hblocker, hblocked⟩
    · rintro ⟨b, hb, rfl, rfl⟩
      exact ⟨b, ⟨⟨hb, .inl ⟨rfl, List.mem_map.mp hasked⟩⟩, rfl⟩, rfl⟩
  · rw [Bool.eq_iff_iff, hasBlock_iff hcanon hu, decide_eq_true_eq]
    simp only [Db.peerBlocks, hu, List.mem_map, List.mem_filter, decide_eq_true_eq]
    constructor
    · rintro ⟨b, ⟨⟨hb, _⟩, hblocked⟩, hblocker⟩
      exact ⟨b, hb, hblocker, hblocked⟩
    · rintro ⟨b, hb, rfl, rfl⟩
      exact ⟨b, ⟨⟨hb, .inr ⟨List.mem_map.mp hasked, rfl⟩⟩, rfl⟩, rfl⟩

/-! ## The map -/

/-- The other parties the query asks for. -/
def peerIds (cvs : List ConversationWithMembers) (u : UserId) : List UserId :=
  ((privatePeers cvs u).map Prod.snd).eraseDups

/-- First an entry for every conversation, then one for each with another party; the last one set counts. -/
theorem run_blockFlags_page (s : Db) (cvs : List ConversationWithMembers) (u : UserId) :
    run exec (blockFlagsForConversations cvs u) s =
      (.ok (((privatePeers cvs u).map fun peer => (peer.1, s.peerFlags u (peerIds cvs u) peer.2)).reverse ++
        cvs.map fun item => (item.id, BlockFlags.none)), s) := by
  unfold blockFlagsForConversations
  dsimp only
  split
  · next hnil =>
    rw [hnil]
    rfl
  · rfl

/-- The entries set for a conversation with another party. -/
theorem blockFlags_of_peer (hu : u.canon = u) (hmembers : ∀ cv ∈ cvs, ∀ m ∈ cv.members, m.userId.canon = m.userId)
    (hsame : ∀ cv ∈ cvs, ∀ cv' ∈ cvs, cv.id = cv'.id → cv = cv') (hcv : cv ∈ cvs) {w : UserId}
    (hpeer : (cv.id, w) ∈ privatePeers cvs u) : s.peerFlags u (peerIds cvs u) w = s.blockFlags cv u := by
  obtain ⟨cv', hcv', htype, hid, other, hother, rfl⟩ := mem_privatePeers.mp hpeer
  obtain rfl := hsame cv' hcv' cv hcv hid
  have hcanon := hmembers cv' hcv' other (List.mem_of_find?_eq_some hother)
  have hasked : other.userId ∈ peerIds cvs u := List.mem_eraseDups.mpr (List.mem_map_of_mem hpeer)
  unfold Db.blockFlags
  rw [if_neg (not_not.mpr htype), hother]
  exact peerFlags_eq hu hasked hcanon

/-- A conversation without another party. -/
theorem blockFlags_of_not_peer (hcv : cv ∈ cvs) (hpeer : ∀ w, (cv.id, w) ∉ privatePeers cvs u) :
    s.blockFlags cv u = BlockFlags.none := by
  unfold Db.blockFlags
  split
  · rfl
  · next htype =>
    cases hother : findOther cv.members u with
    | none => rfl
    | some other =>
      exact absurd (mem_privatePeers.mpr ⟨cv, hcv, not_not.mp htype, rfl, other, hother, rfl⟩) (hpeer other.userId)

/-- For an actor and members spelled as in the database: the batch answers for each conversation of the list
what the single lookup answers. -/
theorem blockFlags_agree (s : Db) (hu : u.canon = u)
    (hmembers : ∀ cv ∈ cvs, ∀ m ∈ cv.members, m.userId.canon = m.userId)
    (hsame : ∀ cv ∈ cvs, ∀ cv' ∈ cvs, cv.id = cv'.id → cv = cv') :
    ∃ flags, run exec (blockFlagsForConversations cvs u) s = (.ok flags, s) ∧
      ∀ cv ∈ cvs, ∃ flag, flags.lookup cv.id = some flag ∧
        run exec (blockFlagsForConversation cv u) s = (.ok flag, s) := by
  refine ⟨_, run_blockFlags_page s cvs u, fun cv hcv =>
    ⟨s.blockFlags cv u, ?_, run_blockFlagsForConversation cv u⟩⟩
  rw [List.lookup_append]
  by_cases hpeer : ∃ w, (cv.id, w) ∈ privatePeers cvs u
  · obtain ⟨w, hw⟩ := hpeer
    have hset : ((privatePeers cvs u).map fun peer =>
        (peer.1, s.peerFlags u (peerIds cvs u) peer.2)).reverse.lookup cv.id = some (s.blockFlags cv u) := by
      refine lookup_of_forall ⟨_, List.mem_reverse.mpr (List.mem_map_of_mem hw)⟩ fun v hv => ?_
      obtain ⟨peer, hmem, heq⟩ := List.mem_map.mp (List.mem_reverse.mp hv)
      obtain ⟨hid, rfl⟩ := Prod.mk.inj heq
      exact blockFlags_of_peer hu hmembers hsame hcv (hid ▸ hmem)
    rw [hset]
    rfl
  · rw [not_exists] at hpeer
    have hunset : ((privatePeers cvs u).map fun peer =>
        (peer.1, s.peerFlags u (peerIds cvs u) peer.2)).reverse.lookup cv.id = none := by
      rw [List.lookup_eq_none_iff]
      intro e he
      obtain ⟨peer, hmem, rfl⟩ := List.mem_map.mp (List.mem_reverse.mp he)
      rw [bne_iff_ne]
      intro heq
      exact hpeer peer.2 (heq ▸ hmem)
    have hinit : (cvs.map fun item => (item.id, BlockFlags.none)).lookup cv.id = some BlockFlags.none := by
      refine lookup_of_forall ⟨_, List.mem_map_of_mem hcv⟩ fun v hv => ?_
      obtain ⟨_, _, heq⟩ := List.mem_map.mp hv
      exact (Prod.mk.inj heq).2.symm
    rw [hunset, hinit, blockFlags_of_not_peer hcv hpeer]
    rfl

/-- A private chat in which A has blocked B, and a group. -/
def blockedChats : Db := (Db.empty 0 0).serve
  [.createPrivate userA userB, .createGroup userA ['g'] [userB, userC], .blockUser userA userB]

theorem blockFlags_agree_blockedChats :
    ∃ flags, run exec (blockFlagsForConversations (blockedChats.conversations.map blockedChats.withMembers) userA)
        blockedChats = (.ok flags, blockedChats) ∧
      ∀ cv ∈ blockedChats.conversations.map blockedChats.withMembers, ∃ flag, flags.lookup cv.id = some flag ∧
        run exec (blockFlagsForConversation cv userA) blockedChats = (.ok flag, blockedChats) :=
  blockFlags_agree blockedChats (by decide) (by decide +kernel) (by decide +kernel)

end Relay.Chat
