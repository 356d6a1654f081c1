import Relay.Lib.Js
import Relay.Chat.Verify.Lawful
import Relay.Gateway.ChatGateway
import Relay.Gateway.Verify.CallEdits

/-!
# The shape of a stored session

`WellFormed` is what the id lists of every stored session satisfy when calls are created from what
`prepareVoiceCall` returns (`sessions_wellFormed`). A call is connected from the moment on that a second
user joins it, and it never goes back to ringing (`connected_iff_met`).
-/

namespace Relay.Gateway.CallSession

open Relay.Lib

variable {order : Redis → List CallId} {s : Redis} {x y : VoiceCallSession} {op : Op}

/-! ## Connected calls -/

/-- Before the call is connected its host is alone in it. -/
structure Phased (x : VoiceCallSession) : Prop where
  active : x.status = .active ↔ x.connectedAt ≠ none
  alone : x.connectedAt = none → x.joinedIds = [x.hostId]

def AllPhased (s : Redis) : Prop := ∀ c x, s.session c = some x → Phased x

theorem two_le_length {us : List UserId} {u v : UserId} (hu : u ∈ us) (hv : v ∈ us) (huv : u ≠ v) :
    2 ≤ us.length := by
  have hpair : [u, v].Nodup := by simpa using huv
  refine (hpair.subperm fun w hw => ?_).length_le
  rcases List.mem_cons.mp hw with rfl | hw
  · exact hu
  · rw [List.mem_singleton.mp hw]
    exact hv

theorem mem_joined {u w : UserId} {now : Time} :
    w ∈ (joined x u now).joinedIds ↔ w ∈ x.joinedIds ∨ w = u := by
  simp [joined, List.mem_eraseDups]

/-- Whoever joins a live call finds somebody there. -/
theorem two_joined (hx : Live x) {u : UserId} (hu : u ∉ x.joinedIds) (now : Time) :
    ∃ w, w ∈ (joined x u now).joinedIds ∧ u ∈ (joined x u now).joinedIds ∧ w ≠ u := by
  obtain ⟨w, hw⟩ := List.exists_mem_of_ne_nil _ hx.joined_ne_nil
  refine ⟨w, mem_joined.mpr (.inl hw), mem_joined.mpr (.inr rfl), ?_⟩
  rintro rfl
  exact hu hw

theorem connectedAt_joined (hx : Live x) {u : UserId} (hu : u ∉ x.joinedIds) (now : Time) :
    (joined x u now).connectedAt ≠ none := by
  obtain ⟨w, hw, hu', hne⟩ := two_joined hx hu now
  have hlen : 2 ≤ (joined x u now).joinedIds.length := two_le_length hw hu' hne
  simp only [joined] at hlen ⊢
  by_cases hc : x.connectedAt = none
  · rw [if_pos ⟨hc, hlen⟩]
    exact Option.some_ne_none _
  · rw [if_neg fun h => hc h.1]
    exact hc

/-- A lone user who is not the one taken out stays alone. -/
theorem alone_filter {h u : UserId} (hrest : [h].filter (· ≠ u) ≠ []) :
    h ≠ u ∧ [h].filter (· ≠ u) = [h] := by
  by_cases hhu : h = u
  · simp [hhu] at hrest
  · exact ⟨hhu, by simp [hhu]⟩

theorem Phased.of_eq (h : Phased x) (heq : (y.status, y.connectedAt, y.joinedIds, y.hostId) =
    (x.status, x.connectedAt, x.joinedIds, x.hostId)) : Phased y := by
  obtain ⟨hstatus, hat, hjoined, hhost⟩ : y.status = x.status ∧ y.connectedAt = x.connectedAt ∧
      y.joinedIds = x.joinedIds ∧ y.hostId = x.hostId := by simpa using heq
  refine ⟨?_, fun h0 => ?_⟩
  · rw [hstatus, hat]
    exact h.active
  · rw [hjoined, hhost]
    exact h.alone (hat ▸ h0)

theorem Phased.edited (h : Phased x) (hx : Live x) (hedit : Edited s x op y) : Phased y := by
  cases hedit with
  | accept _ hout =>
    have hat := connectedAt_joined hx hout s.now
    exact ⟨iff_of_true rfl hat, fun h0 => absurd h0 hat⟩
  | decline => exact h.of_eq rfl
  | @leave u _ hrest _ =>
    refine ⟨h.active, fun h0 => ?_⟩
    simp only [left] at hrest ⊢
    rw [h.alone h0] at hrest ⊢
    exact (alone_filter hrest).2
  | @revoke u _ hrest _ =>
    have hphased : x.connectedAt = none → x.hostId ≠ u ∧ (revoked x u).joinedIds = [x.hostId] := by
      intro h0
      simp only [revoked] at hrest ⊢
      rw [h.alone h0] at hrest ⊢
      exact alone_filter hrest
    unfold replaceHost
    split
    · next hhost => exact ⟨h.active, fun h0 => absurd hhost (hphased h0).1⟩
    · exact ⟨h.active, fun h0 => (hphased h0).2⟩
  | invite =>
    obtain ⟨_, _, _, heq, _⟩ := inviteAll_eq (s := s) (x := x) x.callId [] _
    rw [heq]
    exact h.of_eq rfl
  | mark =>
    obtain ⟨_, _, heq⟩ := markAll_eq (x := x) false _
    rw [heq]
    exact h.of_eq rfl
  | hold hok =>
    obtain ⟨_, _, _, _, rfl⟩ := controls_held _ _ _ _ hok
    exact h.of_eq rfl
  | mute hok =>
    obtain ⟨_, _, _, _, rfl⟩ := controls_forceMute _ _ _ _ hok
    exact h.of_eq rfl
  | share hok =>
    obtain ⟨_, _, _, _, rfl⟩ := controls_screenShare _ _ _ _ hok
    exact h.of_eq rfl

theorem AllPhased.step (hs : Coherent s) (h : AllPhased s) : AllPhased (step order op s) := by
  intro c y hy
  rcases step_session_cases hs hy with hold | ⟨_, input, hopens⟩ | ⟨x, hx, hedit⟩
  · exact h c y hold
  · rw [hopens.eq]
    exact ⟨by simp [CreateCall.newSession], fun _ => rfl⟩
  · exact (h c x hx).edited (hs.live hx) hedit

theorem allPhased_final (order : Redis → List CallId) (ops : List Op) :
    AllPhased (Runs.final (CallSession.step order) ops Redis.empty) := by
  have h : Runs.Always (CallSession.step order) (fun s => Coherent s ∧ AllPhased s) ops
      Redis.empty :=
    .of_step (fun _ op hs => ⟨Coherent.step hs.1 op, hs.2.step hs.1⟩) ⟨coherent_empty, nofun⟩
  exact h.final.2

/-- Two users are connected to the call. -/
def Met (c : CallId) (s : Redis) : Prop :=
  ∃ x u w, s.session c = some x ∧ u ∈ x.joinedIds ∧ w ∈ x.joinedIds ∧ u ≠ w

theorem nextId_le_step (hs : Coherent s) (op : Op) : s.nextId ≤ (step order op s).nextId := by
  rw [step_eq_apply hs]
  exact Plan.nextId_le_apply _ _

variable (order) in
theorem nextId_le_final (hs : Coherent s) (ops : List Op) :
    s.nextId ≤ (Runs.final (step order) ops s).nextId := by
  induction ops generalizing s with
  | nil => exact Nat.le_refl _
  | cons op ops ih => exact Nat.le_trans (nextId_le_step hs op) (ih (Coherent.step hs op))

/-- An accept adds a user; no other edit does, nor does it change how far the call has come. -/
theorem Edited.joins (hedit : Edited s x op y) :
    (∃ u, u ∉ x.joinedIds ∧ y = joined x u s.now) ∨
      y.connectedAt = x.connectedAt ∧ y.joinedIds ⊆ x.joinedIds := by
  cases hedit with
  | accept _ hout => exact .inl ⟨_, hout, rfl⟩
  | decline => exact .inr ⟨rfl, fun _ hw => hw⟩
  | leave => exact .inr ⟨rfl, fun _ hw => List.mem_of_mem_filter hw⟩
  | revoke =>
    unfold replaceHost
    split
    · exact .inr ⟨rfl, fun _ hw => List.mem_of_mem_filter hw⟩
    · exact .inr ⟨rfl, fun _ hw => List.mem_of_mem_filter hw⟩
  | invite =>
    obtain ⟨_, _, _, heq, _⟩ := inviteAll_eq (s := s) (x := x) x.callId [] _
    rw [heq]
    exact .inr ⟨rfl, fun _ hw => hw⟩
  | mark =>
    obtain ⟨_, _, heq⟩ := markAll_eq (x := x) false _
    rw [heq]
    exact .inr ⟨rfl, fun _ hw => hw⟩
  | hold hok =>
    obtain ⟨_, _, _, _, rfl⟩ := controls_held _ _ _ _ hok
    exact .inr ⟨rfl, fun _ hw => hw⟩
  | mute hok =>
    obtain ⟨_, _, _, _, rfl⟩ := controls_forceMute _ _ _ _ hok
    exact .inr ⟨rfl, fun _ hw => hw⟩
  | share hok =>
    obtain ⟨_, _, _, _, rfl⟩ := controls_screenShare _ _ _ _ hok
    exact .inr ⟨rfl, fun _ hw => hw⟩

/-- A call is connected exactly when two users were connected to it at some moment of the run. -/
theorem connected_iff_met (order : Redis → List CallId) (ops : List Op) {c : CallId}
    {x : VoiceCallSession} (hx : (Runs.final (step order) ops Redis.empty).session c = some x) :
    x.connectedAt ≠ none ↔
      ∃ past, past <+: ops ∧ Met c (Runs.final (step order) past Redis.empty) := by
  induction ops using List.reverseRecOn generalizing c x with
  | nil => cases hx
  | append_singleton ops op ih =>
    have hs := coherent_final order ops
    have hnow : Runs.final (step order) (ops ++ [op]) Redis.empty =
        step order op (Runs.final (step order) ops Redis.empty) := Runs.final_append _ _ _ _
    -- A moment of the longer run is one of the shorter run, or its last.
    have hsplit : (∃ past, past <+: ops ++ [op] ∧ Met c (Runs.final (step order) past Redis.empty)) ↔
        Met c (Runs.final (step order) (ops ++ [op]) Redis.empty) ∨
          ∃ past, past <+: ops ∧ Met c (Runs.final (step order) past Redis.empty) := by
      simp only [List.prefix_concat_iff, or_and_right, exists_or, exists_eq_left]
    have hlast : Met c (Runs.final (step order) ops Redis.empty) →
        ∃ past, past <+: ops ∧ Met c (Runs.final (step order) past Redis.empty) :=
      fun h => ⟨ops, List.prefix_rfl, h⟩
    rw [hsplit, hnow]
    rw [hnow] at hx
    rcases step_session_cases hs hx with hold | ⟨rfl, input, hopens⟩ | ⟨y, hy, hedit⟩
    · rw [ih hold]
      refine ⟨.inr, fun h => h.elim (fun ⟨z, u, w, hz, hu⟩ => hlast ?_) id⟩
      rw [hx] at hz
      cases hz
      exact ⟨x, u, w, hold, hu⟩
    · -- The id of a new call has named no call before.
      rw [hopens.eq] at hx ⊢
      refine iff_of_false (fun h => h rfl) ?_
      rintro (⟨z, u, w, hz, hu, hw, hne⟩ | ⟨past, ⟨rest, rfl⟩, z, _, _, hz, _⟩)
      · rw [hx] at hz
        cases hz
        exact hne ((List.mem_singleton.mp hu).trans (List.mem_singleton.mp hw).symm)
      · have hpast := coherent_final order past
        have hle := nextId_le_final order hpast rest
        rw [← Runs.final_append] at hle
        exact Nat.lt_irrefl _ (Nat.lt_of_lt_of_le (hpast.lt_nextId hz) hle)
    · rcases hedit.joins with ⟨u, hout, rfl⟩ | ⟨hat, hsub⟩
      · obtain ⟨w, hw, hu, hne⟩ := two_joined (hs.live hy) hout
          (Runs.final (step order) ops Redis.empty).now
        exact iff_of_true (connectedAt_joined (hs.live hy) hout _) (.inl ⟨_, w, u, hx, hw, hu, hne⟩)
      · rw [hat, ih hy]
        refine ⟨.inr, fun h => h.elim (fun ⟨z, u, w, hz, hu, hw, hne⟩ => hlast ?_) id⟩
        rw [hx] at hz
        cases hz
        exact ⟨y, u, w, hy, hsub hu, hsub hw, hne⟩

/-! ## The id lists -/

/-- What the lists of a stored session satisfy. -/
structure WellFormed (x : VoiceCallSession) : Prop where
  not_ended : x.status ≠ .ended
  members_nodup : x.memberIds.Nodup
  joined_nodup : x.joinedIds.Nodup
  joined_ne_nil : x.joinedIds ≠ []
  joined_sub : x.joinedIds ⊆ x.memberIds
  host_mem : x.hostId ∈ x.memberIds
  not_declined : ∀ u ∈ x.joinedIds, u ∉ x.declinedIds
  not_left : ∀ u ∈ x.joinedIds, u ∉ x.leftIds
  group_size : x.kind = .group → x.memberIds.length ≤ 8
  private_size : x.kind = .priv → x.memberIds.length = 2

def AllWellFormed (s : Redis) : Prop := ∀ c x, s.session c = some x → WellFormed x

/-- The soft timeout marks nobody who is connected. -/
theorem not_joined_of_marked (changed : Bool) (us : List UserId) {w : UserId}
    (hw : w ∈ (markAll x changed us).1.leftIds) : w ∈ x.leftIds ∨ w ∉ x.joinedIds := by
  induction us generalizing x changed with
  | nil => exact .inl hw
  | cons u us ih =>
    unfold markAll at hw
    split at hw
    · exact ih changed hw
    next hout =>
    split at hw
    · exact ih changed hw
    · rcases ih true hw with hw | hw
      · rcases List.mem_append.mp hw with hw | hw
        · exact .inl hw
        · simp only [Bool.or_eq_true, List.contains_eq_mem, decide_eq_true_eq, not_or] at hout
          rw [List.mem_singleton.mp hw]
          exact .inr hout.1
      · exact .inr hw

/-- Edits of other fields than the lists. -/
theorem WellFormed.of_eq (h : WellFormed x) (hy : Live y)
    (heq : (y.kind, y.memberIds, y.joinedIds, y.declinedIds, y.leftIds) =
      (x.kind, x.memberIds, x.joinedIds, x.declinedIds, x.leftIds)) : WellFormed y := by
  obtain ⟨hkind, hmembers, hjoined, hdeclined, hleft⟩ : y.kind = x.kind ∧
      y.memberIds = x.memberIds ∧ y.joinedIds = x.joinedIds ∧ y.declinedIds = x.declinedIds ∧
        y.leftIds = x.leftIds := by simpa using heq
  refine ⟨hy.not_ended, ?_, ?_, hy.joined_ne_nil, hy.joined_sub, hy.host_mem, ?_, ?_, ?_, ?_⟩
  · exact hmembers ▸ h.members_nodup
  · exact hjoined ▸ h.joined_nodup
  · rw [hjoined, hdeclined]
    exact h.not_declined
  · rw [hjoined, hleft]
    exact h.not_left
  · rw [hkind, hmembers]
    exact h.group_size
  · rw [hkind, hmembers]
    exact h.private_size

/-- Edit by edit: each restores every clause. -/
theorem WellFormed.edited (h : WellFormed x) (hx : Live x) (hedit : Edited s x op y) :
    WellFormed y := by
  have hy := (hedit.edits hx).live
  cases hedit with
  | @accept u hmem hout =>
    refine ⟨hy.not_ended, h.members_nodup, Js.nodup_eraseDups _, hy.joined_ne_nil, hy.joined_sub,
      hy.host_mem, fun w hw => ?_, fun w hw => ?_, h.group_size, h.private_size⟩
    · intro hdeclined
      obtain ⟨hdeclined, hne⟩ := List.mem_filter.mp hdeclined
      rcases mem_joined.mp hw with hw | rfl
      · exact h.not_declined w hw hdeclined
      · exact of_decide_eq_true hne rfl
    · intro hleft
      obtain ⟨hleft, hne⟩ := List.mem_filter.mp hleft
      rcases mem_joined.mp hw with hw | rfl
      · exact h.not_left w hw hleft
      · exact of_decide_eq_true hne rfl
  | @decline u hmem hout hkind =>
    refine ⟨hy.not_ended, h.members_nodup, h.joined_nodup, hy.joined_ne_nil, hy.joined_sub,
      hy.host_mem, fun w hw hdeclined => ?_, h.not_left, h.group_size, h.private_size⟩
    rcases List.mem_append.mp (List.mem_eraseDups.mp hdeclined) with hdeclined | hwu
    · exact h.not_declined w hw hdeclined
    · exact hout (List.mem_singleton.mp hwu ▸ hw)
  | @leave u hmem hrest hkind =>
    refine ⟨hy.not_ended, h.members_nodup, h.joined_nodup.filter _, hy.joined_ne_nil, hy.joined_sub,
      hy.host_mem, fun w hw => h.not_declined w (List.mem_of_mem_filter hw), fun w hw hleft => ?_,
      h.group_size, h.private_size⟩
    obtain ⟨hw, hwu⟩ := List.mem_filter.mp hw
    rcases List.mem_append.mp (List.mem_eraseDups.mp hleft) with hleft | heq
    · exact h.not_left w hw hleft
    · exact of_decide_eq_true hwu (List.mem_singleton.mp heq)
  | @revoke u hmem hrest hkind =>
    have hlists : (replaceHost (revoked x u) u).memberIds = x.memberIds.filter (· ≠ u) ∧
        (replaceHost (revoked x u) u).joinedIds = x.joinedIds.filter (· ≠ u) ∧
        (replaceHost (revoked x u) u).declinedIds = x.declinedIds.filter (· ≠ u) ∧
        (replaceHost (revoked x u) u).leftIds = (x.leftIds ++ [u]).eraseDups ∧
        (replaceHost (revoked x u) u).kind = x.kind := by
      unfold replaceHost
      split <;> exact ⟨rfl, rfl, rfl, rfl, rfl⟩
    obtain ⟨hmembers, hjoined, hdeclined, hleft, hkind'⟩ := hlists
    refine ⟨hy.not_ended, ?_, ?_, hy.joined_ne_nil, hy.joined_sub, hy.host_mem, ?_, ?_, ?_, ?_⟩
    · rw [hmembers]
      exact h.members_nodup.filter _
    · rw [hjoined]
      exact h.joined_nodup.filter _
    · rw [hjoined, hdeclined]
      exact fun w hw hd => h.not_declined w (List.mem_of_mem_filter hw) (List.mem_of_mem_filter hd)
    · rw [hjoined, hleft]
      intro w hw hwleft
      obtain ⟨hw, hwu⟩ := List.mem_filter.mp hw
      rcases List.mem_append.mp (List.mem_eraseDups.mp hwleft) with hwleft | heq
      · exact h.not_left w hw hwleft
      · exact of_decide_eq_true hwu (List.mem_singleton.mp heq)
    · rw [hkind', hmembers]
      exact fun hk => Nat.le_trans (List.length_filter_le _ _) (h.group_size hk)
    · rw [hkind']
      exact fun hk => absurd hk hkind
  | @invite actor userIds allowed hkind hactor =>
    obtain ⟨memberIds, declinedIds, leftIds, heq, hdeclined, hleft, hnodup, hlen⟩ :=
      inviteAll_eq (s := s) (x := x) x.callId []
        (userIds.eraseDups.filter fun u => u ∈ allowed ∧ u ≠ actor)
    rw [heq] at hy ⊢
    exact ⟨hy.not_ended, hnodup h.members_nodup, h.joined_nodup, hy.joined_ne_nil, hy.joined_sub,
      hy.host_mem, fun w hw hd => h.not_declined w hw (hdeclined hd),
      fun w hw hl => h.not_left w hw (hleft hl), fun hk => hlen (h.group_size hk),
      fun hk => nomatch hkind.symm.trans hk⟩
  | @mark userIds =>
    have hmarked := fun w => not_joined_of_marked (x := x) (w := w) false userIds
    obtain ⟨ids, _, heq⟩ := markAll_eq (x := x) false userIds
    rw [heq] at hy hmarked ⊢
    refine ⟨hy.not_ended, h.members_nodup, h.joined_nodup, hy.joined_ne_nil, hy.joined_sub,
      hy.host_mem, h.not_declined, fun w hw hl => ?_, h.group_size, h.private_size⟩
    rcases hmarked w hl with hl | hout
    · exact h.not_left w hw hl
    · exact hout hw
  | hold hok =>
    obtain ⟨_, _, _, _, rfl⟩ := controls_held _ _ _ _ hok
    exact h.of_eq hy rfl
  | mute hok =>
    obtain ⟨_, _, _, _, rfl⟩ := controls_forceMute _ _ _ _ hok
    exact h.of_eq hy rfl
  | share hok =>
    obtain ⟨_, _, _, _, rfl⟩ := controls_screenShare _ _ _ _ hok
    exact h.of_eq hy rfl

/-! ## What a call is created from -/

/-- The input is what `inviteCall` makes of an answer of `prepareVoiceCall`, each of whose reads has met
some database the chat service reaches. -/
def PreparedInput (input : CreateCall) : Prop :=
  ∃ (v : ConversationId) (u : UserId) (media : Option CallMedia) (prepared : Chat.PrepareVoiceCallResult),
    Prog.Returns (fun c r => ∃ db, Chat.Reachable db ∧ (Chat.exec c db).1 = r)
      (Chat.prepareVoiceCall v u) prepared ∧
    input = ⟨prepared.conversationId, ChatGateway.callKind prepared.kind, u, prepared.memberIds, media⟩

section Prepared

variable {α : Type} {A : (c : Chat.Call) → Except Chat.Failure c.Answer → Prop}

theorem returns_require_inv {o : Option α} {e : RpcError} {a : α}
    (h : Prog.Returns A (Chat.require o e) a) : o = some a := by
  cases o with
  | none => exact h.elim
  | some b => exact congrArg some h

theorem returns_rejectIf_inv {p : Prop} [Decidable p] {e : RpcError} {a : Unit}
    (h : Prog.Returns A (Chat.rejectIf p e) a) : ¬ p := by
  intro hp
  unfold Chat.rejectIf at h
  rw [if_pos hp] at h
  exact h

end Prepared

theorem CreateCall.members_of_mem {input : CreateCall} (h : input.hostId ∈ input.memberIds) :
    input.members = input.memberIds.eraseDups := by
  unfold CreateCall.members
  exact if_pos (List.mem_eraseDups.mpr h)

/-- The members of a prepared call are few enough in a group, and two in a private chat. -/
theorem PreparedInput.size {input : CreateCall} (h : PreparedInput input) :
    (input.kind = .group → input.members.length ≤ 8) ∧
      (input.kind = .priv → input.members.length = 2) := by
  obtain ⟨v, u, media, prepared, hreturns, rfl⟩ := h
  unfold Chat.prepareVoiceCall at hreturns
  obtain ⟨cv, hmembership, h⟩ := Prog.returns_bind_inv hreturns
  obtain ⟨_, _, h⟩ := Prog.returns_bind_inv h
  obtain ⟨_, hsize, h⟩ := Prog.returns_bind_inv h
  obtain ⟨_, _, h⟩ := Prog.returns_bind_inv h
  obtain ⟨_, _, h⟩ := Prog.returns_bind_inv h
  cases h
  have hsize := returns_rejectIf_inv hsize
  unfold Chat.requireMembership at hmembership
  obtain ⟨found, hfound, h⟩ := Prog.returns_bind_inv hmembership
  obtain ⟨loaded, hloaded, h⟩ := Prog.returns_bind_inv h
  obtain ⟨m, hm, h⟩ := Prog.returns_bind_inv h
  cases h
  obtain rfl := returns_require_inv hloaded
  obtain ⟨db, hdb, hfound⟩ := Prog.returns_perform_inv hfound
  obtain ⟨row, hrow, rfl⟩ := Option.map_eq_some_iff.mp (Except.ok.inj hfound)
  obtain ⟨hmem, rfl, hleft⟩ := Chat.findActive_eq_some (returns_require_inv hm)
  simp only [Chat.activeMembers_activeMembers] at hsize ⊢
  have hhost : m.userId ∈
      (Chat.activeMembers (db.withMembers row).members).map Chat.ConversationMember.userId :=
    List.mem_map_of_mem (Chat.mem_activeMembers.mpr ⟨hmem, hleft⟩)
  rw [CreateCall.members_of_mem hhost]
  refine ⟨fun hk => ?_, fun hk => ?_⟩
  · have hgroup : row.type = .group := by
      cases htype : row.type with
      | group => rfl
      | priv =>
        simp only [Chat.Db.withMembers, htype, ChatGateway.callKind] at hk
        cases hk
    have hfew := Nat.le_of_not_lt fun hmany => hsize ⟨hgroup, hmany⟩
    refine Nat.le_trans (Js.length_eraseDups_le _) ?_
    rw [List.length_map]
    exact hfew
  · have hpriv : row.type = .priv := by
      cases htype : row.type with
      | priv => rfl
      | group =>
        simp only [Chat.Db.withMembers, htype, ChatGateway.callKind] at hk
        cases hk
    -- A private chat has the two active members of its pair key.
    obtain ⟨_, a, b, hne, _, hpair⟩ :=
      hdb.inv.pairs row (Chat.Db.findConversation_eq_some hrow).1 hpriv
    have hactive : ∀ r ∈ db.membersOf row.id, r.leftAt = none := by
      intro r hr
      have hr' := List.mem_map_of_mem (f := fun r => (r.userId, r.leftAt)) hr
      rw [hpair] at hr'
      simp only [List.mem_cons, Prod.mk.injEq, List.not_mem_nil, or_false] at hr'
      exact hr'.elim And.right And.right
    have hall : Chat.activeMembers (db.withMembers row).members = db.membersOf row.id :=
      List.filter_eq_self.mpr fun r hr => decide_eq_true (hactive r hr)
    have hids : (db.membersOf row.id).map Chat.ConversationMember.userId = [a.canon, b.canon] := by
      have h := congrArg (List.map Prod.fst) hpair
      rwa [List.map_map] at h
    have hnodup : [a.canon, b.canon].Nodup := by simpa using hne
    rw [hall, hids, Js.eraseDups_of_nodup hnodup]
    rfl

theorem wellFormed_newSession {input : CreateCall} (h : PreparedInput input) (callId : CallId)
    (now : Time) : WellFormed (input.newSession callId now) where
  not_ended := nofun
  members_nodup := by
    unfold CreateCall.newSession CreateCall.members
    simp only
    split
    · exact Js.nodup_eraseDups _
    · next hout =>
      exact List.nodup_append.mpr ⟨Js.nodup_eraseDups _, List.nodup_singleton _, fun a ha b hb => by
        rw [List.mem_singleton.mp hb]
        rintro rfl
        exact hout ha⟩
  joined_nodup := List.nodup_singleton _
  joined_ne_nil := List.cons_ne_nil _ _
  joined_sub := fun w hw => by
    rw [List.mem_singleton.mp hw]
    exact mem_members input
  host_mem := mem_members input
  not_declined := fun _ _ => List.not_mem_nil
  not_left := fun _ _ => List.not_mem_nil
  group_size := h.size.1
  private_size := h.size.2

theorem AllWellFormed.step (hs : Coherent s) (h : AllWellFormed s)
    (hop : ∀ input, op = .createCall input → PreparedInput input) :
    AllWellFormed (step order op s) := by
  intro c y hy
  rcases step_session_cases hs hy with hold | ⟨_, input, hopens⟩ | ⟨x, hx, hedit⟩
  · exact h c y hold
  · rw [hopens.eq]
    exact wellFormed_newSession (hop input hopens.op_eq) _ _
  · exact (h c x hx).edited (hs.live hx) hedit

/-- In a run whose calls are created from what `prepareVoiceCall` returned, every stored session is well
formed; and it is active exactly when its connection time is set, which is exactly when two users were
connected to it at some moment of the run. -/
theorem sessions_wellFormed (order : Redis → List CallId) (ops : List Op)
    (hops : ∀ input, .createCall input ∈ ops → PreparedInput input) {c : CallId}
    {x : VoiceCallSession} (hx : (Runs.final (step order) ops Redis.empty).session c = some x) :
    WellFormed x ∧ (x.status = .active ↔ x.connectedAt ≠ none) ∧
      (x.connectedAt ≠ none ↔
        ∃ past, past <+: ops ∧ Met c (Runs.final (step order) past Redis.empty)) := by
  have hall : Runs.Always (step order) (fun s => Coherent s ∧ AllWellFormed s) ops Redis.empty := by
    refine .of_along (P := fun _ op => ∀ input, op = .createCall input → PreparedInput input)
      (fun s op hs hop => ⟨Coherent.step hs.1 op, hs.2.step hs.1 hop⟩) ⟨coherent_empty, nofun⟩ ?_
    refine .of_mem fun op hop input heq => hops input ?_
    rw [← heq]
    exact hop
  exact ⟨hall.final.2 c x hx, (allPhased_final order ops c x hx).active,
    connected_iff_met order ops hx⟩

/-- What an answered request was prepared from. -/
theorem preparedInput_of_run {db : Chat.Db} (hdb : Chat.Reachable db) {v : ConversationId}
    {u : UserId} {prepared : Chat.PrepareVoiceCallResult}
    (h : (Prog.run Chat.exec (Chat.prepareVoiceCall v u) db).1 = .ok prepared)
    (media : Option CallMedia) :
    PreparedInput
      ⟨prepared.conversationId, ChatGateway.callKind prepared.kind, u, prepared.memberIds, media⟩ := by
  refine ⟨v, u, media, prepared, Prog.returns_of_run ?_ h, rfl⟩
  have hreads : Prog.Calls Chat.exec (fun _ c => Chat.ReadCall c) (Chat.prepareVoiceCall v u) db :=
    Prog.Calls.mono (fun _ _ h => h.2)
      (Prog.Calls.and_sat (Prog.calls_true _ db) (Chat.uses_prepareVoiceCall (fun _ h => h) v u))
  refine (hreads.and_inv (I := fun s => s = db) (fun s c hc hs => (hc.exec s).trans hs) rfl).mono
    fun s c h => ?_
  exact ⟨db, hdb, by rw [h.1]⟩

/-- A and B have a private chat. -/
def pairChat : Chat.Db := ((Chat.Op.createPrivate userA userB).run (Chat.Db.empty 0 0)).2

theorem reachable_pairChat : Chat.Reachable pairChat := (Chat.reachable_empty 0 0).run _

/-- A calls B, who answers. -/
def answeredCall : List Op := [.createCall ⟨0, .priv, userA, [userA, userB], none⟩, .accept 0 userB]

def answeredSession : VoiceCallSession where
  callId := 0
  conversationId := 0
  kind := .priv
  media := .audio
  hostId := userA
  memberIds := [userA, userB]
  joinedIds := [userA, userB]
  declinedIds := []
  leftIds := []
  onHold := false
  heldBy := none
  forceMuted := false
  screenSharerId := none
  status := .active
  createdAt := 0
  connectedAt := some 0

theorem sessions_wellFormed_answeredCall :
    WellFormed answeredSession ∧ (answeredSession.status = .active ↔ answeredSession.connectedAt ≠ none) ∧
      (answeredSession.connectedAt ≠ none ↔
        ∃ past, past <+: answeredCall ∧ Met 0 (Runs.final (step keyOrder) past Redis.empty)) := by
  refine sessions_wellFormed keyOrder answeredCall ?_ (by decide)
  intro input hinput
  have hinput : input = ⟨0, .priv, userA, [userA, userB], none⟩ := by
    simpa [answeredCall] using hinput
  rw [hinput]
  have hprepared : (Prog.run Chat.exec (Chat.prepareVoiceCall 0 userA) pairChat).1 =
      .ok ⟨0, .priv, [userB], [userA, userB]⟩ := by decide
  exact preparedInput_of_run reachable_pairChat hprepared none

end Relay.Gateway.CallSession
