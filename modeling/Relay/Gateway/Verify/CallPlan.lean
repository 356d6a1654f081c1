import Relay.Lib.Runs
import Relay.Gateway.CallSession

/-!
# What one call operation does to the keys

In a store where the conversation index and the sessions agree (`Coherent`), a call operation does
at most four things: it drops busy keys, ends one call, draws one call id and stores one session.
`plan` says which, from the store alone, and `step_eq_apply` shows that the service does exactly
that. The invariants of the busy keys are then about plans.
-/

namespace Relay.Gateway.CallSession

open Relay.Lib

/-! ## Operations and runs -/

inductive Op where
  | createCall (input : CreateCall)
  | accept (c : CallId) (u : UserId)
  | decline (c : CallId) (u : UserId)
  | leave (c : CallId) (u : UserId)
  | revokeUserFromConversation (v : ConversationId) (u : UserId)
  | inviteMore (c : CallId) (actor : UserId) (userIds allowedMemberIds : List UserId)
  | markUnansweredAsLeft (c : CallId) (userIds : List UserId)
  | setHold (c : CallId) (actor : UserId) (onHold : Bool)
  | setForceMute (c : CallId) (actor : UserId) (muted : Bool)
  | setScreenShare (c : CallId) (actor : UserId) (active : Bool)
  | clearUserBusy (u : UserId) (c : Option CallId)
  | «end» (c : CallId)
  | get (c : CallId)
  | getByConversation (v : ConversationId)
  | getActiveCallIdForUser (u : UserId)
  /-- Time passes between two operations. -/
  | elapse (d : Time)

variable (order : Redis → List CallId)

/-- The store after one operation of the service, run alone. -/
def step : Op → Redis → Redis
  | .createCall input, s => (Prog.run (exec order) (createCall input) s).2
  | .accept c u, s => (Prog.run (exec order) (accept c u) s).2
  | .decline c u, s => (Prog.run (exec order) (decline c u) s).2
  | .leave c u, s => (Prog.run (exec order) (leave c u) s).2
  | .revokeUserFromConversation v u, s =>
    (Prog.run (exec order) (revokeUserFromConversation v u) s).2
  | .inviteMore c actor userIds allowed, s =>
    (Prog.run (exec order) (inviteMore c actor userIds allowed) s).2
  | .markUnansweredAsLeft c userIds, s =>
    (Prog.run (exec order) (markUnansweredAsLeft c userIds) s).2
  | .setHold c actor onHold, s => (Prog.run (exec order) (setHold c actor onHold) s).2
  | .setForceMute c actor muted, s => (Prog.run (exec order) (setForceMute c actor muted) s).2
  | .setScreenShare c actor active, s =>
    (Prog.run (exec order) (setScreenShare c actor active) s).2
  | .clearUserBusy u c, s => (Prog.run (exec order) (clearUserBusy u c) s).2
  | .end c, s => (Prog.run (exec order) («end» c) s).2
  | .get c, s => (Prog.run (exec order) (get c) s).2
  | .getByConversation v, s => (Prog.run (exec order) (getByConversation v) s).2
  | .getActiveCallIdForUser u, s => (Prog.run (exec order) (getActiveCallIdForUser u) s).2
  | .elapse d, s => { s with now := s.now + d }

/-! ## Coherent stores -/

/-- A session as the service keeps it: not ended, someone connected, all of them invited. -/
structure Live (x : VoiceCallSession) : Prop where
  not_ended : x.status ≠ .ended
  joined_ne_nil : x.joinedIds ≠ []
  joined_sub : x.joinedIds ⊆ x.memberIds
  host_mem : x.hostId ∈ x.memberIds

/-- Sessions are live and stored under their own id, and the conversation index names exactly
them. -/
structure Coherent (s : Redis) : Prop where
  callId_eq : ∀ {c x}, s.session c = some x → x.callId = c
  lt_nextId : ∀ {c x}, s.session c = some x → c < s.nextId
  live : ∀ {c x}, s.session c = some x → Live x
  index : ∀ {v c}, s.convo v = some c ↔ ∃ x, s.session c = some x ∧ x.conversationId = v

theorem coherent_empty : Coherent Redis.empty where
  callId_eq h := by cases h
  lt_nextId h := by cases h
  live h := by cases h
  index := by simp

/-- The live call of a conversation. -/
def Redis.callOf (s : Redis) (v : ConversationId) : Option VoiceCallSession :=
  (s.convo v).bind s.session

theorem Coherent.callOf_eq_some {s : Redis} (h : Coherent s) {v : ConversationId}
    {x : VoiceCallSession} :
    s.callOf v = some x ↔ s.session x.callId = some x ∧ x.conversationId = v := by
  unfold Redis.callOf
  constructor
  · intro hx
    obtain ⟨c, hc, hsession⟩ := Option.bind_eq_some_iff.mp hx
    obtain ⟨y, hy, hv⟩ := h.index.mp hc
    rw [hsession] at hy
    cases hy
    rw [h.callId_eq hsession]
    exact ⟨hsession, hv⟩
  · rintro ⟨hx, rfl⟩
    rw [h.index.mpr ⟨x, hx, rfl⟩]
    exact hx

/-- Draws a call id if `mints`, and lets the time `d` pass. -/
def Redis.advance (s : Redis) (mints : Bool) (d : Time) : Redis :=
  { s with nextId := if mints then s.nextId + 1 else s.nextId, now := s.now + d }

/-! ## The reads of a coherent store change nothing -/

section Reads

variable {order} {s : Redis}

theorem run_getSession (c : CallId) :
    Prog.run (exec order) (getSession c) s = (.ok (s.session c), s) := rfl

theorem run_getActiveCallIdForUser (u : UserId) :
    Prog.run (exec order) (getActiveCallIdForUser u) s = (.ok (s.busy u), s) := rfl

theorem run_getConvo (v : ConversationId) :
    Prog.run (exec order) (getConvo v) s = (.ok (s.convo v), s) := rfl

theorem run_scan : Prog.run (exec order) scan s = (.ok (order s), s) := rfl

theorem run_pipeline (cmds : List Cmd) :
    Prog.run (exec order) (pipeline cmds) s = (.ok (), applyAll s cmds) := rfl

theorem run_command (cmd : Cmd) :
    Prog.run (exec order) (command cmd) s = (.ok (), cmd.apply s) := rfl

theorem run_randomUUID :
    Prog.run (exec order) randomUUID s = (.ok s.nextId, s.advance true 0) := rfl

theorem run_newDate : Prog.run (exec order) newDate s = (.ok s.now, s) := rfl

theorem run_persist (x : VoiceCallSession) :
    Prog.run (exec order) (persist x) s = (.ok (), applyAll s (persistCmds x)) := rfl

theorem run_get (h : Coherent s) (c : CallId) :
    Prog.run (exec order) (get c) s = (.ok (s.session c), s) := by
  unfold get
  rw [Prog.run_bind_ok _ (run_getSession c)]
  rcases hx : s.session c with _ | x
  · rfl
  · have hconvo : s.convo x.conversationId = some c := h.index.mpr ⟨x, hx, rfl⟩
    simp only [ne_eq, (h.live hx).not_ended, not_false_eq_true, if_true]
    rw [Prog.run_bind_ok _ (run_getConvo _), hconvo]
    simp

theorem run_findIn (h : Coherent s) {v : ConversationId} (hv : s.convo v = none)
    (cs : List CallId) : Prog.run (exec order) (findIn v cs) s = (.ok none, s) := by
  induction cs with
  | nil => rfl
  | cons c cs ih =>
    unfold findIn
    rw [Prog.run_bind_ok _ (run_getSession c)]
    rcases hx : s.session c with _ | x
    · exact ih
    · have hne : x.conversationId ≠ v := by
        intro hxv
        rw [h.index.mpr ⟨x, hx, hxv⟩] at hv
        cases hv
      simp only [hne, false_and, if_false]
      exact ih

theorem run_getByConversation (h : Coherent s) (v : ConversationId) :
    Prog.run (exec order) (getByConversation v) s = (.ok (s.callOf v), s) := by
  unfold getByConversation Redis.callOf
  rw [Prog.run_bind_ok _ (run_getConvo v)]
  rcases hc : s.convo v with _ | c
  · simp only [findSessionByConversation]
    rw [Prog.run_bind_ok _ run_scan]
    exact run_findIn h hc _
  · obtain ⟨x, hx, hxv⟩ := h.index.mp hc
    simp only
    rw [Prog.run_bind_ok _ (run_get h c), hx]
    simp [hxv, (h.live hx).not_ended, hx]

theorem run_clearUserBusy_self (u : UserId) (c : CallId) :
    Prog.run (exec order) (clearUserBusy u (some c)) s =
      (.ok (), if s.busy u = some c then Cmd.apply s (.delUser u) else s) := by
  unfold clearUserBusy
  rw [Prog.run_bind_ok _ (run_getActiveCallIdForUser u)]
  rcases hb : s.busy u with _ | current
  · rfl
  · by_cases hc : current = c
    · simp [hc, run_command]
    · simp [hc]

theorem run_clearUserBusy_none (u : UserId) :
    Prog.run (exec order) (clearUserBusy u none) s =
      (.ok (), if s.busy u = none then s else Cmd.apply s (.delUser u)) := by
  unfold clearUserBusy
  rw [Prog.run_bind_ok _ (run_getActiveCallIdForUser u)]
  rcases hb : s.busy u with _ | current
  · rfl
  · rfl

theorem run_end (h : Coherent s) (c : CallId) :
    Prog.run (exec order) («end» c) s =
      match s.session c with
      | none => (.ok none, s)
      | some x => (.ok (some { x with status := .ended }), applyAll s (endCmds c x)) := by
  unfold «end»
  rw [Prog.run_bind_ok _ (run_get h c)]
  rcases hx : s.session c with _ | x
  · rfl
  · simp only
    rw [Prog.run_bind_ok _ (run_pipeline _)]
    rfl

end Reads

/-! ## The four effects -/

namespace Redis

/-- Drops the busy keys of the users. -/
def release (s : Redis) (us : List UserId) : Redis := applyAll s (us.map .delUser)

/-- Ends a stored call. -/
def finish (s : Redis) (x : VoiceCallSession) : Redis := applyAll s (endCmds x.callId x)

/-- Stores a session and rewrites the busy keys of its members. -/
def store (s : Redis) (x : VoiceCallSession) : Redis := applyAll s (persistCmds x)

variable (s : Redis) (us : List UserId) (x : VoiceCallSession) (c : CallId) (u : UserId)
  (v : ConversationId) (m : Bool) (d : Time)

@[simp] theorem session_advance : (s.advance m d).session c = s.session c := rfl

@[simp] theorem busy_advance : (s.advance m d).busy u = s.busy u := rfl

@[simp] theorem convo_advance : (s.advance m d).convo v = s.convo v := rfl

theorem now_advance : (s.advance m d).now = s.now + d := rfl

theorem nextId_advance : (s.advance m d).nextId = if m then s.nextId + 1 else s.nextId := rfl

@[simp] theorem release_nil : s.release [] = s := rfl

theorem release_cons : s.release (u :: us) = (Cmd.apply s (.delUser u)).release us := rfl

@[simp] theorem session_release : (s.release us).session c = s.session c :=
  session_userCmds (fun _ => none) us s c

@[simp] theorem convo_release : (s.release us).convo v = s.convo v :=
  convo_userCmds (fun _ => none) us s v

@[simp] theorem busy_release : (s.release us).busy u = if u ∈ us then none else s.busy u :=
  busy_userCmds (fun _ => none) us s u

@[simp] theorem nextId_release : (s.release us).nextId = s.nextId := nextId_applyAll s _

@[simp] theorem now_release : (s.release us).now = s.now := now_applyAll s _

@[simp] theorem session_finish :
    (s.finish x).session c = if c = x.callId then none else s.session c := by
  simp only [finish, endCmds, applyAll_cons]
  exact (session_userCmds (fun _ => none) x.memberIds _ c).trans (by simp)

@[simp] theorem convo_finish :
    (s.finish x).convo v = if v = x.conversationId then none else s.convo v := by
  simp only [finish, endCmds, applyAll_cons]
  exact (convo_userCmds (fun _ => none) x.memberIds _ v).trans (by simp)

@[simp] theorem busy_finish :
    (s.finish x).busy u = if u ∈ x.memberIds then none else s.busy u := by
  simp only [finish, endCmds, applyAll_cons]
  exact (busy_userCmds (fun _ => none) x.memberIds _ u).trans (by simp)

@[simp] theorem nextId_finish : (s.finish x).nextId = s.nextId := nextId_applyAll s _

@[simp] theorem now_finish : (s.finish x).now = s.now := now_applyAll s _

/-- The busy keys `persist` writes, as one function of the user. -/
theorem persistCmds_eq : persistCmds x =
    .setSession x :: .setConvo x.conversationId x.callId ::
      x.memberIds.map fun u => userCmd u (if u ∈ busyIds x then some x.callId else none) := by
  unfold persistCmds
  congr 3
  funext u
  split <;> rfl

@[simp] theorem session_store :
    (s.store x).session c = if c = x.callId then some x else s.session c := by
  rw [store, persistCmds_eq, applyAll_cons, applyAll_cons, session_userCmds]
  simp

variable {s c x} in
/-- After a session is stored, a session that is found is this one or was there before. -/
theorem session_store_cases {y : VoiceCallSession} (hy : (s.store x).session c = some y) :
    (c = x.callId ∧ y = x) ∨ (c ≠ x.callId ∧ s.session c = some y) := by
  rw [session_store] at hy
  split at hy
  · exact .inl ⟨‹_›, (Option.some.inj hy).symm⟩
  · exact .inr ⟨‹_›, hy⟩

@[simp] theorem convo_store :
    (s.store x).convo v = if v = x.conversationId then some x.callId else s.convo v := by
  rw [store, persistCmds_eq, applyAll_cons, applyAll_cons, convo_userCmds]
  simp

@[simp] theorem busy_store :
    (s.store x).busy u =
      if u ∈ x.memberIds then if u ∈ busyIds x then some x.callId else none else s.busy u := by
  rw [store, persistCmds_eq, applyAll_cons, applyAll_cons, busy_userCmds]
  simp

@[simp] theorem nextId_store : (s.store x).nextId = s.nextId := nextId_applyAll s _

/-- Writing the conversation index once more changes nothing. -/
theorem store_setConvo :
    Cmd.apply (s.store x) (.setConvo x.conversationId x.callId) = s.store x := by
  rw [store, persistCmds_eq, applyAll_cons, applyAll_cons, applyAll_userCmds]
  simp only [Cmd.apply, AList.insert_insert]

end Redis

/-! ## Plans -/

/-- What one operation does to the keys, in this order. -/
structure Plan where
  /-- The users whose busy key is dropped. -/
  releases : List UserId := []
  /-- The stored session that is ended. -/
  ends : Option VoiceCallSession := none
  /-- Whether a call id is drawn. -/
  mints : Bool := false
  /-- The session that is stored. -/
  stores : Option VoiceCallSession := none
  elapses : Time := 0

/-- The store before the plan's session is stored. -/
def Plan.before (p : Plan) (s : Redis) : Redis :=
  match p.ends with
  | none => (s.release p.releases).advance p.mints p.elapses
  | some x => ((s.release p.releases).finish x).advance p.mints p.elapses

def Plan.apply (p : Plan) (s : Redis) : Redis :=
  match p.stores with
  | none => p.before s
  | some x => (p.before s).store x

theorem Plan.apply_none {p : Plan} (h : p.stores = none) (s : Redis) : p.apply s = p.before s := by
  rw [apply, h]

theorem Plan.apply_some {p : Plan} {x : VoiceCallSession} (h : p.stores = some x) (s : Redis) :
    p.apply s = (p.before s).store x := by
  rw [apply, h]

theorem Plan.session_before (p : Plan) (s : Redis) (c : CallId) :
    (p.before s).session c =
      if p.ends.map VoiceCallSession.callId = some c then none else s.session c := by
  unfold before
  rcases p.ends with _ | x
  · simp
  · simp [eq_comm (a := x.callId)]

theorem Plan.busy_before (p : Plan) (s : Redis) (u : UserId) :
    (p.before s).busy u =
      if u ∈ p.releases ∨ ∃ x, p.ends = some x ∧ u ∈ x.memberIds then none else s.busy u := by
  unfold before
  rcases p.ends with _ | x
  · simp
  · by_cases hx : u ∈ x.memberIds <;> simp [hx]

/-- The host's stale busy key, or nothing when the host is busy. -/
def hostRelease (hostId : UserId) (s : Redis) : Option (List UserId) :=
  match s.busy hostId with
  | none => some []
  | some c =>
    match s.session c with
    | none => some [hostId]
    | some x => if x.joinedIds.contains hostId || x.hostId = hostId then none else some [hostId]

/-- The call of the conversation that a new call ends, or nothing when it may not be ended. -/
def convoEnd (input : CreateCall) (s : Redis) : Option (Option VoiceCallSession) :=
  match s.callOf input.conversationId with
  | none => some none
  | some x =>
    if x.hostId = input.hostId ∨ x.joinedIds.length ≤ 1 then some (some x) else none

/-- The other party of a private call is busy. -/
def otherTaken (input : CreateCall) (s : Redis) : Bool :=
  input.kind = .priv ∧
    ((input.members.find? (· ≠ input.hostId)).bind s.busy).isSome

def createPlan (input : CreateCall) (s : Redis) : Plan :=
  match hostRelease input.hostId s with
  | none => {}
  | some us =>
    match convoEnd input s with
    | none => { releases := us }
    | some e =>
      let p : Plan := { releases := us, ends := e }
      if input.members.length < 2 then p
      else if otherTaken input (p.apply s) then p
      else { p with mints := true, stores := some (input.newSession s.nextId s.now) }

def acceptPlan (c : CallId) (u : UserId) (s : Redis) : Plan :=
  match s.session c with
  | none => {}
  | some x =>
    if !isMember x u || x.joinedIds.contains u then {}
    else if x.kind = .priv ∧ u = x.hostId then {}
    else if s.busy u ≠ none ∧ s.busy u ≠ some c then {}
    else { stores := some (joined x u s.now) }

def declinePlan (c : CallId) (u : UserId) (s : Redis) : Plan :=
  match s.session c with
  | none => {}
  | some x =>
    if !isMember x u || x.joinedIds.contains u then {}
    else if x.kind = .priv then { ends := some x }
    else { stores := some (declined x u) }

def leavePlan (c : CallId) (u : UserId) (s : Redis) : Plan :=
  match s.session c with
  | none => {}
  | some x =>
    if !isMember x u then {}
    else if (left x u).joinedIds = [] ∨ x.kind = .priv then { releases := [u], ends := some x }
    else { releases := [u], stores := some (left x u) }

def revokePlan (v : ConversationId) (u : UserId) (s : Redis) : Plan :=
  match s.callOf v with
  | none => {}
  | some x =>
    if !isMember x u then {}
    else if (revoked x u).joinedIds = [] ∨ x.kind = .priv then { releases := [u], ends := some x }
    else { releases := [u], stores := some (replaceHost (revoked x u) u) }

/-- The session and the invited users after the loop of `inviteMore`. -/
def inviteAll (c : CallId) (s : Redis) (x : VoiceCallSession) (invitedIds : List UserId) :
    List UserId → VoiceCallSession × List UserId
  | [] => (x, invitedIds)
  | u :: us =>
    if x.joinedIds.contains u then inviteAll c s x invitedIds us
    else if s.busy u ≠ none ∧ s.busy u ≠ some c then inviteAll c s x invitedIds us
    else if u ∉ x.memberIds ∧ MAX_GROUP_CALL ≤ x.memberIds.length then
      inviteAll c s x invitedIds us
    else inviteAll c s (invited x u) (invitedIds ++ [u]) us

def invitePlan (c : CallId) (actor : UserId) (userIds allowedMemberIds : List UserId)
    (s : Redis) : Plan :=
  match s.session c with
  | none => {}
  | some x =>
    if x.kind ≠ .group then {}
    else if !isJoined x actor then {}
    else
      let requested := userIds.eraseDups.filter fun u => u ∈ allowedMemberIds ∧ u ≠ actor
      let (x', invitedIds) := inviteAll c s x [] requested
      if invitedIds = [] then {} else { stores := some x' }

/-- The session after the loop of `markUnansweredAsLeft`, and whether it changed. -/
def markAll (x : VoiceCallSession) (changed : Bool) : List UserId → VoiceCallSession × Bool
  | [] => (x, changed)
  | u :: us =>
    if x.joinedIds.contains u || x.declinedIds.contains u then markAll x changed us
    else if x.leftIds.contains u then markAll x changed us
    else markAll { x with leftIds := x.leftIds ++ [u] } true us

/-- The busy keys the loop of `markUnansweredAsLeft` drops. -/
def markReleases (c : CallId) (x : VoiceCallSession) (s : Redis) : List UserId → List UserId
  | [] => []
  | u :: us =>
    if x.joinedIds.contains u || x.declinedIds.contains u then markReleases c x s us
    else if s.busy u = some c then u :: markReleases c x (Cmd.apply s (.delUser u)) us
    else markReleases c x s us

def markPlan (c : CallId) (userIds : List UserId) (s : Redis) : Plan :=
  match s.session c with
  | none => {}
  | some x =>
    { releases := markReleases c x s userIds
      stores := if (markAll x false userIds).2 then some (markAll x false userIds).1 else none }

def controlPlan (c : CallId) (f : VoiceCallSession → Except String VoiceCallSession)
    (s : Redis) : Plan :=
  match s.session c with
  | none => {}
  | some x => { stores := (f x).toOption }

def clearPlan (u : UserId) (callId : Option CallId) (s : Redis) : Plan :=
  match callId with
  | some c => if s.busy u = some c then { releases := [u] } else {}
  | none => if s.busy u = none then {} else { releases := [u] }

def plan : Op → Redis → Plan
  | .createCall input, s => createPlan input s
  | .accept c u, s => acceptPlan c u s
  | .decline c u, s => declinePlan c u s
  | .leave c u, s => leavePlan c u s
  | .revokeUserFromConversation v u, s => revokePlan v u s
  | .inviteMore c actor userIds allowed, s => invitePlan c actor userIds allowed s
  | .markUnansweredAsLeft c userIds, s => markPlan c userIds s
  | .setHold c actor onHold, s => controlPlan c (fun x => held x actor onHold) s
  | .setForceMute c actor muted, s => controlPlan c (fun x => forceMute x actor muted) s
  | .setScreenShare c actor active, s => controlPlan c (fun x => screenShare x actor active) s
  | .clearUserBusy u c, s => clearPlan u c s
  | .end c, s => { ends := s.session c }
  | .get _, _ => {}
  | .getByConversation _, _ => {}
  | .getActiveCallIdForUser _, _ => {}
  | .elapse d, _ => { elapses := d }

/-! ## Results -/

/-! What the operations return in a coherent store, case by case as the plans. -/

def createResult (input : CreateCall) (s : Redis) : Except String VoiceCallSession :=
  match hostRelease input.hostId s with
  | none => .error "You are already in a call"
  | some us =>
    match convoEnd input s with
    | none => .error "A call is already in progress in this group"
    | some e =>
      if input.members.length < 2 then .error "Not enough participants for a call"
      else if otherTaken input (Plan.apply { releases := us, ends := e } s) then
        .error "User is busy on another call"
      else .ok (input.newSession s.nextId s.now)

def acceptResult (c : CallId) (u : UserId) (s : Redis) : Except String VoiceCallSession :=
  match s.session c with
  | none => .error "Call is no longer available"
  | some x =>
    if !isMember x u then .error "You are not invited to this call"
    else if x.joinedIds.contains u then .ok x
    else if x.kind = .priv ∧ u = x.hostId then .error "Host is already in the call"
    else if s.busy u ≠ none ∧ s.busy u ≠ some c then .error "You are already in another call"
    else .ok (joined x u s.now)

def declineResult (c : CallId) (u : UserId) (s : Redis) : Except String Declined :=
  match s.session c with
  | none => .error "Call is no longer available"
  | some x =>
    if !isMember x u || x.joinedIds.contains u then .error "Cannot decline this call"
    else if x.kind = .priv then .ok ⟨{ declined x u with status := .ended }, true, none⟩
    else .ok ⟨declined x u, false, some ((declined x u).memberIds.filter fun id =>
      !(declined x u).joinedIds.contains id && !(declined x u).declinedIds.contains id).length⟩

def leaveResult (c : CallId) (u : UserId) (s : Redis) : Except String Left :=
  match s.session c with
  | none => .error "Call not found"
  | some x =>
    if !isMember x u then .error "You are not part of this call"
    else if (left x u).joinedIds = [] ∨ x.kind = .priv then
      .ok ⟨{ left x u with status := .ended }, true, []⟩
    else .ok ⟨left x u, false, (left x u).joinedIds⟩

def revokeResult (v : ConversationId) (u : UserId) (s : Redis) : Option Revoked :=
  match s.callOf v with
  | none => none
  | some x =>
    if !isMember x u then none
    else if (revoked x u).joinedIds = [] ∨ x.kind = .priv then
      some ⟨x.callId, { revoked x u with status := .ended }, true, []⟩
    else
      some ⟨(replaceHost (revoked x u) u).callId, replaceHost (revoked x u) u, false,
        (replaceHost (revoked x u) u).joinedIds⟩

def inviteResult (c : CallId) (actor : UserId) (userIds allowedMemberIds : List UserId)
    (s : Redis) : Except String Invited :=
  match s.session c with
  | none => .error "Call is no longer available"
  | some x =>
    if x.kind ≠ .group then .error "Can only add people to group calls"
    else if !isJoined x actor then .error "Join the call before inviting others"
    else
      let requested := userIds.eraseDups.filter fun u => u ∈ allowedMemberIds ∧ u ≠ actor
      if requested.length = 0 then .error "No valid members to invite"
      else
        let (x', invitedIds) := inviteAll c s x [] requested
        if invitedIds = [] then .error "Those members cannot be invited right now"
        else .ok ⟨x', invitedIds⟩

def markResult (c : CallId) (userIds : List UserId) (s : Redis) : Option VoiceCallSession :=
  (s.session c).map fun x => (markAll x false userIds).1

def controlResult (c : CallId) (f : VoiceCallSession → Except String VoiceCallSession)
    (s : Redis) : Except String VoiceCallSession :=
  match s.session c with
  | none => .error "Call is no longer available"
  | some x => f x

end Relay.Gateway.CallSession
