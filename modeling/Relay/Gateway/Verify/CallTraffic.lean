import Relay.Lib.Staged
import Relay.Gateway.Verify.CallIndex
import Relay.Gateway.Verify.CallShape
import Relay.Gateway.Verify.Eviction

/-!
# Call handlers that run at the same time

Handlers and ring timers overlap: between any two commands of one, others go on, the chat service serves
requests and call keys expire. A session is written back as it was edited after an earlier read, so updates
can be lost; what holds of each session alone is not. Whatever the order of the commands, a stored session
is well formed (`traffic_wellFormed`), nobody is connected without having asked for it
(`connected_asked`), and every member of it has been a member of the conversation (`members_enrolled`).

A handler stores a session it has edited after reading it, or a new one under an id it took. `Knowledge`
is what it has read and taken, and `handlerTraffic` says what it may store with that.
-/

namespace Relay.Gateway.ChatGateway

open Relay.Lib CallSession Prog

variable {order : Redis → List CallId} {α β : Type} {x y : VoiceCallSession}

/-! ## The system -/

/-- A handler at work: a request, or the callback of a ring timer. -/
inductive Task where
  | request (r : Request)
  | ring (c : CallId) (job : RingJob)

def Task.program : Task → M Ack
  | .request r => r.program
  | .ring c job => job.program c

/-- What happens between two commands: time passes, users come and go, the chat service serves other
requests, and call keys expire. -/
inductive Happening where
  | elapse (d : Time)
  | setOnline (u : UserId) (online : Bool)
  | chat (op : Chat.Op)
  | lose (keys : List Key)

def Happening.apply : Happening → State → State
  | .elapse d, s => s.elapse d
  | .setOnline u online, s => s.setOnline u online
  | .chat op, s => s.chat op
  | .lose keys, s => { s with redis := s.redis.lose keys }

abbrev TrafficEvent := Pool.Event Task Happening

abbrev Traffic := Pool Call Call.Answer Exception Ack State

/-- Handlers start at any time and make one call after the other; a ring timer may fire at any time. -/
def traffic (order : Redis → List CallId) : TrafficEvent → Traffic → Traffic :=
  Pool.step (exec order) Task.program Happening.apply

/-! ## Sessions -/

/-- Who has asked to be in which call, and to call whom. -/
structure Consent where
  accepts : CallId → UserId → Prop
  invites : ConversationId → UserId → Prop

/-- The task is among those that were asked for. -/
def Consent.Covers (w : Consent) : Task → Prop
  | .request (.acceptCall u c) => w.accepts c u
  | .request (.inviteCall u v _) => w.invites v u
  | _ => True

/-- What holds of a session by itself, whoever edits it. -/
structure Fair (w : Consent) (x : VoiceCallSession) : Prop where
  wellFormed : WellFormed x
  phased : Phased x
  asked : ∀ u ∈ x.joinedIds, w.accepts x.callId u ∨ w.invites x.conversationId u

variable {w : Consent}

theorem Fair.live (h : Fair w x) : Live x :=
  ⟨h.wellFormed.not_ended, h.wellFormed.joined_ne_nil, h.wellFormed.joined_sub, h.wellFormed.host_mem⟩

/-- Only an accept lets a user in. -/
theorem joins_of_edited {s : Redis} {op : Op} (hedit : Edited s x op y) :
    (∃ u, op = .accept x.callId u ∧ y.joinedIds = (x.joinedIds ++ [u]).eraseDups) ∨ y.joinedIds ⊆ x.joinedIds := by
  cases hedit with
  | @accept u => exact .inl ⟨u, rfl, rfl⟩
  | decline => exact .inr fun _ h => h
  | leave => exact .inr fun _ h => List.mem_of_mem_filter h
  | revoke =>
    unfold replaceHost
    split <;> exact .inr fun _ h => List.mem_of_mem_filter h
  | invite =>
    obtain ⟨_, _, _, heq, _⟩ := inviteAll_eq (s := s) (x := x) x.callId [] _
    rw [heq]
    exact .inr fun _ h => h
  | mark =>
    obtain ⟨_, _, heq⟩ := markAll_eq (x := x) false _
    rw [heq]
    exact .inr fun _ h => h
  | hold hok =>
    obtain ⟨_, _, _, _, rfl⟩ := controls_held _ _ _ _ hok
    exact .inr fun _ h => h
  | mute hok =>
    obtain ⟨_, _, _, _, rfl⟩ := controls_forceMute _ _ _ _ hok
    exact .inr fun _ h => h
  | share hok =>
    obtain ⟨_, _, _, _, rfl⟩ := controls_screenShare _ _ _ _ hok
    exact .inr fun _ h => h

theorem Fair.edited {s : Redis} {op : Op} (h : Fair w x) (hedit : Edited s x op y)
    (haccept : ∀ u, op = .accept x.callId u → w.accepts x.callId u) : Fair w y := by
  have hkeeps := hedit.edits h.live
  refine ⟨h.wellFormed.edited h.live hedit, h.phased.edited h.live hedit, fun v hv => ?_⟩
  rw [hkeeps.callId, hkeeps.conversationId]
  obtain ⟨u, hop, hjoined⟩ | hsub := joins_of_edited hedit
  · rw [hjoined, List.mem_eraseDups] at hv
    rcases List.mem_append.mp hv with hv | hv
    · exact h.asked v hv
    · rw [List.mem_singleton.mp hv]
      exact .inl (haccept u hop)
  · exact h.asked v (hsub hv)

theorem Fair.controls {f : VoiceCallSession → Except String VoiceCallSession} (hf : Controls f) (h : Fair w x)
    (hok : f x = .ok y) : Fair w y := by
  have hlive := (hf.edits hok h.live).1.live
  obtain ⟨_, _, _, _, rfl⟩ := hf x y hok
  exact ⟨h.wellFormed.of_eq hlive rfl, h.phased.of_eq rfl, h.asked⟩

theorem fair_newSession {input : CreateCall} (h : PreparedInput input)
    (hasked : w.invites input.conversationId input.hostId) (c : CallId) (now : Time) :
    Fair w (input.newSession c now) := by
  refine ⟨wellFormed_newSession h c now, ⟨by simp [CreateCall.newSession], fun _ => rfl⟩, fun u hu => ?_⟩
  rw [List.mem_singleton.mp hu]
  exact .inr hasked

/-- One round of the loop of `inviteMore`. -/
theorem edited_invited {u : UserId} (h : Live x) (hkind : x.kind = .group) (hout : u ∉ x.joinedIds)
    (hroom : ¬ (u ∉ x.memberIds ∧ MAX_GROUP_CALL ≤ x.memberIds.length)) :
    ∃ op, (∀ v, op ≠ .accept x.callId v) ∧ Edited Redis.empty x op (invited x u) := by
  obtain ⟨actor, hactor⟩ := List.exists_mem_of_ne_nil _ h.joined_ne_nil
  have hne : u ≠ actor := fun heq => hout (heq ▸ hactor)
  refine ⟨.inviteMore x.callId actor [u] [u], by simp, ?_⟩
  have hall : (inviteAll x.callId Redis.empty x []
      ([u].eraseDups.filter fun v => v ∈ [u] ∧ v ≠ actor)).1 = invited x u := by
    have hids : ([u].eraseDups.filter fun v => v ∈ [u] ∧ v ≠ actor) = [u] := by
      simp [List.eraseDups_cons, hne]
    rw [hids]
    unfold inviteAll
    rw [if_neg (by simpa using hout), if_neg (by simp), if_neg hroom]
    rfl
  rw [← hall]
  exact .invite hkind hactor

/-! ## What a handler knows -/

structure Knowledge where
  /-- The conversations of the sessions it has read. -/
  homes : List (CallId × ConversationId)
  /-- The memberships it has been told of. -/
  seats : List (ConversationId × UserId)
  /-- The id it has taken for a new call. -/
  fresh : Option CallId

namespace Knowledge

def start : Knowledge := ⟨[], [], none⟩

/-- What a session tells. -/
def read (g : Knowledge) (x : VoiceCallSession) : Knowledge :=
  { g with
    homes := (x.callId, x.conversationId) :: g.homes
    seats := x.memberIds.map (fun u => (x.conversationId, u)) ++ g.seats }

/-- The session may be stored: it is an edited one or new, and its members are in its conversation. -/
structure Backs (w : Consent) (g : Knowledge) (x : VoiceCallSession) : Prop where
  fair : Fair w x
  home : (x.callId, x.conversationId) ∈ g.homes ∨ g.fresh = some x.callId
  seats : ∀ u ∈ x.memberIds, (x.conversationId, u) ∈ g.seats ∨
    ∃ v, (x.callId, v) ∈ g.homes ∧ (v, u) ∈ g.seats

/-- The session was read. -/
structure Read (w : Consent) (g : Knowledge) (x : VoiceCallSession) : Prop where
  fair : Fair w x
  home : (x.callId, x.conversationId) ∈ g.homes
  seats : ∀ u ∈ x.memberIds, (x.conversationId, u) ∈ g.seats

/-- Nothing is forgotten. -/
structure Le (g g' : Knowledge) : Prop where
  homes : g.homes ⊆ g'.homes
  seats : g.seats ⊆ g'.seats

variable {g g' g'' : Knowledge}

theorem Le.refl (g : Knowledge) : g.Le g := ⟨fun _ h => h, fun _ h => h⟩

theorem Le.trans (h : g.Le g') (h' : g'.Le g'') : g.Le g'' :=
  ⟨fun _ hm => h'.homes (h.homes hm), fun _ hm => h'.seats (h.seats hm)⟩

theorem Read.later (h : g.Read w x) (hle : g.Le g') : g'.Read w x :=
  ⟨h.fair, hle.homes h.home, fun u hu => hle.seats (h.seats u hu)⟩

theorem read_read (g : Knowledge) (hx : Fair w x) : (g.read x).Read w x := by
  refine ⟨hx, List.mem_cons_self, fun u hu => ?_⟩
  exact List.mem_append_left _ (List.mem_map_of_mem hu)

theorem le_read (g : Knowledge) (x : VoiceCallSession) : g.Le (g.read x) :=
  ⟨fun _ h => List.mem_cons_of_mem _ h, fun _ h => List.mem_append_right _ h⟩

/-- An edited session may be stored. -/
theorem Read.backs (h : g.Read w x) (hy : Fair w y) (hedit : Edits x y)
    (hmembers : ∀ u ∈ y.memberIds, u ∈ x.memberIds ∨ ∃ v, (x.callId, v) ∈ g.homes ∧ (v, u) ∈ g.seats) :
    g.Backs w y := by
  refine ⟨hy, .inl ?_, fun u hu => ?_⟩
  · rw [hedit.callId, hedit.conversationId]
    exact h.home
  · rw [hedit.callId, hedit.conversationId]
    exact (hmembers u hu).imp_left (h.seats u)

end Knowledge

/-- The protocol of the call service: it stores what it may, and reads fair sessions. -/
def sessionTraffic (w : Consent) : Protocol CallSession.Call CallSession.Call.Answer Empty Knowledge where
  allowed g
    | .pipeline cmds => Shedding cmds ∨ ∃ x, cmds = persistCmds x ∧ g.Backs w x
    | _ => True
  next g
    | .getSession _, .ok (some x) => g.read x
    | .randomUUID, .ok c => { g with fresh := some c }
    | .pipeline (.setSession x :: _), _ =>
      { g with homes := (x.callId, x.conversationId) :: g.homes, fresh := none }
    | _, _ => g
  answers
    | .getSession c, r => ∀ x, r = .ok (some x) → x.callId = c ∧ Fair w x
    | _, _ => True

/-- The protocol of the handlers: the members of a prepared call are members of the conversation. -/
def handlerTraffic (w : Consent) : Protocol Call Call.Answer Exception Knowledge where
  allowed g
    | .redis c => (sessionTraffic w).allowed g c
    | _ => True
  next g
    | .redis c, .ok a => (sessionTraffic w).next g c (.ok a)
    | .prepareVoiceCall v _, .ok prepared =>
      { g with seats := prepared.memberIds.map (fun u => (v, u)) ++ g.seats }
    | _, _ => g
  answers
    | .redis c, r => ∀ a, r = .ok a → (sessionTraffic w).answers c (.ok a)
    | .prepareVoiceCall v u, r => ∀ prepared, r = .ok prepared →
      prepared.conversationId = v ∧ u ∈ prepared.memberIds ∧ ∀ media, PreparedInput
        ⟨prepared.conversationId, callKind prepared.kind, u, prepared.memberIds, media⟩
    | _, _ => True

/-! ## The programs of the call service -/

section Service

variable {g : Knowledge}

/-- The program keeps to the protocol, and what it returns satisfies `Q`. -/
abbrev Serves (w : Consent) (Q : α → Knowledge → Prop) (p : CallSession.M α) (g : Knowledge) : Prop :=
  Yields (sessionTraffic w) Q p g

/-- A part that stores no session. -/
theorem serves_shedding {p : CallSession.M α} (h : Sat (fun _ _ => True) SheddingCall p) :
    Serves w (fun _ g' => g.Le g') p g := by
  refine Follows.yields <| follows_within (K := fun g' => g.Le g') (L := SheddingCall) (fun c g' hc hle => ?_)
    (h.mono (fun _ _ _ => trivial) fun _ hc => hc) (.refl g)
  cases c with
  | pipeline cmds =>
    refine ⟨.inl hc, fun r _ => ?_⟩
    rcases cmds with _ | ⟨cmd, cmds⟩
    · exact hle
    · cases cmd with
      | setSession x => exact absurd List.mem_cons_self (hc x)
      | _ => exact hle
  | getSession c =>
    refine ⟨trivial, fun r _ => ?_⟩
    rcases r with e | _ | x
    · exact hle
    · exact hle
    · exact hle.trans (g'.le_read x)
  | randomUUID =>
    refine ⟨trivial, fun r _ => ?_⟩
    cases r with
    | error e => exact hle
    | ok c => exact ⟨hle.homes, hle.seats⟩
  | _ => exact ⟨trivial, fun _ _ => hle⟩

theorem serves_skip {p : CallSession.M α} {f : α → CallSession.M β} {Q : β → Knowledge → Prop}
    (hp : Sat (fun _ _ => True) SheddingCall p) (hf : ∀ a g', g.Le g' → Serves w Q (f a) g') :
    Serves w Q (p >>= f) g := yields_bind (serves_shedding hp) hf

/-- A session that was read is a fair one. -/
def Loads (w : Consent) (g : Knowledge) (o : Option VoiceCallSession) (g' : Knowledge) : Prop :=
  g.Le g' ∧ ∀ x, o = some x → g'.Read w x

theorem Loads.none {g' : Knowledge} (h : g.Le g') : Loads w g .none g' := by
  refine ⟨h, ?_⟩
  intro x hx
  cases hx

theorem Loads.some {g' : Knowledge} (h : g.Le g') (hx : g'.Read w x) : Loads w g (.some x) g' := by
  refine ⟨h, ?_⟩
  rintro _ ⟨⟩
  exact hx

theorem serves_getSession (c : CallId) :
    Serves w (fun o g' => Loads w g o g' ∧ ∀ x, o = some x → x.callId = c) (getSession c) g := by
  refine yields_perform trivial fun o ho => ?_
  cases o with
  | none => exact ⟨.none (.refl g), nofun⟩
  | some x =>
    obtain ⟨hid, hfair⟩ := ho x rfl
    refine ⟨.some (g.le_read x) (g.read_read hfair), ?_⟩
    rintro _ ⟨⟩
    exact hid

theorem serves_get (c : CallId) :
    Serves w (fun o g' => Loads w g o g' ∧ ∀ x, o = some x → x.callId = c) (get c) g := by
  refine yields_bind (serves_getSession c) ?_
  rintro (_ | x) g' ⟨hloads, hid⟩
  · exact yields_ret ⟨hloads, nofun⟩
  · have hdone : ∀ g'', g'.Le g'' → Loads w g (some x) g'' := fun g'' hle =>
      .some (hloads.1.trans hle) ((hloads.2 x rfl).later hle)
    dsimp only
    split
    · refine serves_skip (sat_perform trivial) fun indexed g'' hle => ?_
      split
      · exact serves_skip (shedding_command (by simp)) fun _ g₃ hle' => yields_ret ⟨hdone g₃ (hle.trans hle'), hid⟩
      · exact yields_ret ⟨hdone g'' hle, hid⟩
    · exact yields_ret ⟨hdone g' (.refl g'), hid⟩

theorem serves_findIn (v : ConversationId) (cs : List CallId) : Serves w (Loads w g) (findIn v cs) g := by
  induction cs generalizing g with
  | nil => exact yields_ret (.none (.refl g))
  | cons c cs ih =>
    have hrest : ∀ g', g.Le g' → Serves w (Loads w g) (findIn v cs) g' := fun g' hle =>
      ih.mono fun r g'' h o ho => ⟨hle.trans (h o ho).1, (h o ho).2⟩
    refine yields_bind (serves_getSession c) ?_
    rintro (_ | x) g' ⟨hloads, _⟩
    · exact hrest g' hloads.1
    · dsimp only
      split
      · refine serves_skip (shedding_command (by simp)) fun _ g'' hle => yields_ret ?_
        exact .some (hloads.1.trans hle) ((hloads.2 x rfl).later hle)
      · exact hrest g' hloads.1

theorem serves_getByConversation (v : ConversationId) : Serves w (Loads w g) (getByConversation v) g := by
  have hfind : ∀ g', g.Le g' → Serves w (Loads w g) (findSessionByConversation v) g' := by
    intro g' hle
    refine serves_skip (sat_perform trivial) fun cs g'' hle' => ?_
    exact (serves_findIn v cs).mono fun r g₃ h o ho => ⟨(hle.trans hle').trans (h o ho).1, (h o ho).2⟩
  refine serves_skip (sat_perform trivial) fun current g' hle => ?_
  cases current with
  | none => exact hfind g' hle
  | some c =>
    refine yields_bind (serves_get c) ?_
    rintro (_ | x) g'' ⟨hloads, _⟩
    · exact serves_skip (shedding_command (by simp)) fun _ g₃ hle' => hfind g₃ ((hle.trans hloads.1).trans hle')
    · dsimp only
      split
      · exact yields_ret (.some (hle.trans hloads.1) (hloads.2 x rfl))
      · exact serves_skip (shedding_command (by simp)) fun _ g₃ hle' => hfind g₃ ((hle.trans hloads.1).trans hle')

/-- A session is stored that may be. -/
theorem serves_persist (h : g.Backs w x) : Serves w (fun _ g' => g.Le g') (persist x) g :=
  yields_perform (.inr ⟨x, rfl, h⟩) fun _ _ => ⟨fun _ hm => List.mem_cons_of_mem _ hm, fun _ hm => hm⟩

/-! ## The operations -/

theorem serves_hostBusy (u : UserId) : Serves w (fun _ g' => g.Le g') (hostBusy u) g :=
  serves_shedding (shedding_hostBusy u)

theorem serves_end (c : CallId) : Serves w (fun _ g' => g.Le g') («end» c) g := by
  refine yields_bind (serves_get c) ?_
  rintro (_ | x) g' ⟨hloads, _⟩
  · exact yields_ret hloads.1
  · refine yields_bind (yields_perform (Q := fun _ g'' => g''.Le g'' ∧ g'.Le g'') (.inl (shedding_endCmds c x))
      fun _ _ => ⟨.refl _, .refl g'⟩) fun _ g'' hle => yields_ret (hloads.1.trans hle.2)

theorem serves_convoBusy (input : CreateCall) : Serves w (fun _ g' => g.Le g') (convoBusy input) g := by
  refine yields_bind (serves_getByConversation input.conversationId) ?_
  rintro (_ | x) g' hloads
  · exact yields_ret hloads.1
  · dsimp only
    split
    · exact yields_bind (serves_end x.callId) fun _ g'' hle => yields_ret (hloads.1.trans hle)
    · exact yields_ret hloads.1

theorem serves_createCall {input : CreateCall} (hprepared : PreparedInput input)
    (hasked : w.invites input.conversationId input.hostId) (hhost : input.hostId ∈ input.memberIds)
    (hseats : ∀ u ∈ input.memberIds, (input.conversationId, u) ∈ g.seats) :
    Serves w (fun _ g' => g.Le g') (createCall input) g := by
  refine yields_bind (serves_hostBusy input.hostId) fun busy g₁ h₁ => ?_
  split
  · exact yields_ret h₁
  refine yields_bind (serves_convoBusy input) fun busy g₂ h₂ => ?_
  split
  · exact yields_ret (h₁.trans h₂)
  split
  · exact yields_ret (h₁.trans h₂)
  refine serves_skip (shedding_otherBusy input) fun busy g₃ h₃ => ?_
  have hle : g.Le g₃ := (h₁.trans h₂).trans h₃
  split
  · exact yields_ret hle
  refine yields_bind (yields_perform (Q := fun c g' => g₃.Le g' ∧ g'.fresh = some c) trivial
    fun c _ => ⟨⟨fun _ hm => hm, fun _ hm => hm⟩, rfl⟩) fun c g₄ h₄ => ?_
  refine yields_bind (yields_perform (Q := fun _ g' => g' = g₄) trivial fun _ _ => rfl) fun now g₅ h₅ => ?_
  subst h₅
  have hle' : g.Le g₅ := hle.trans h₄.1
  refine yields_bind (serves_persist ⟨fair_newSession hprepared hasked c now, .inr h₄.2, fun u hu => .inl ?_⟩)
    fun _ g₆ h₆ => ?_
  · -- the host is one of the members already
    have hmem : u ∈ input.memberIds := by
      have hu : u ∈ input.members := hu
      rw [CreateCall.members_of_mem hhost, List.mem_eraseDups] at hu
      exact hu
    exact hle'.seats (hseats u hmem)
  · exact serves_skip (shedding_command (by simp)) fun _ g₇ h₇ => yields_ret ((hle'.trans h₆).trans h₇)

/-- An operation that loads a session and stores it edited. -/
theorem serves_load {c : CallId} {f : Option VoiceCallSession → CallSession.M β}
    (hnone : ∀ g', g.Le g' → Serves w (fun _ g'' => g.Le g'') (f none) g')
    (hsome : ∀ x g', g.Le g' → g'.Read w x → x.callId = c → Serves w (fun _ g'' => g.Le g'') (f (some x)) g') :
    Serves w (fun _ g' => g.Le g') (get c >>= f) g := by
  refine yields_bind (serves_get c) ?_
  rintro (_ | x) g' ⟨hloads, hid⟩
  · exact hnone g' hloads.1
  · exact hsome x g' hloads.1 (hloads.2 x rfl) (hid x rfl)

/-- An edited session is stored, and the index is written after it or not. -/
theorem serves_edited {g₀ : Knowledge} (hle : g₀.Le g) {f : Unit → CallSession.M β} (h : g.Backs w x)
    (hf : ∀ g', g₀.Le g' → Serves w (fun _ g'' => g₀.Le g'') (f ()) g') :
    Serves w (fun _ g' => g₀.Le g') (persist x >>= f) g :=
  yields_bind (serves_persist h) fun _ g' hle' => hf g' (hle.trans hle')

theorem serves_index {g₀ : Knowledge} (hle : g₀.Le g) {v : ConversationId} {c : CallId} {a : β} :
    Serves w (fun _ g' => g₀.Le g') (command (.setConvo v c) >>= fun _ => (ret a : CallSession.M β)) g :=
  serves_skip (shedding_command (by simp)) fun _ _ hle' => yields_ret (hle.trans hle')

theorem serves_ends {g₀ : Knowledge} (hle : g₀.Le g) {c : CallId} {a : β} :
    Serves w (fun _ g' => g₀.Le g') («end» c >>= fun _ => (ret a : CallSession.M β)) g :=
  yields_bind (serves_end c) fun _ _ hle' => yields_ret (hle.trans hle')

theorem serves_accept {c : CallId} {u : UserId} (hasked : w.accepts c u) :
    Serves w (fun _ g' => g.Le g') (accept c u) g := by
  refine serves_load (fun g' hle => yields_ret hle) fun x g' hle hx hid => ?_
  dsimp only
  split
  · exact yields_ret hle
  split
  · exact yields_ret hle
  split
  · exact yields_ret hle
  split
  · exact yields_ret hle
  rename_i _ hmember hout _
  refine serves_skip (shedding_getActiveCallIdForUser u) fun busy g₁ h₁ => ?_
  split
  · exact yields_ret (hle.trans h₁)
  refine serves_skip (sat_perform trivial) fun now g₂ h₂ => ?_
  have hmem : u ∈ x.memberIds := by simpa [isMember] using hmember
  have hedit : Edited { Redis.empty with now := now } x (.accept x.callId u) (joined x u now) :=
    .accept hmem (by simpa using hout)
  have hfair : Fair w (joined x u now) := by
    refine hx.fair.edited hedit fun v hv => ?_
    cases hv
    rw [hid]
    exact hasked
  have hle₂ := (hle.trans h₁).trans h₂
  exact serves_edited hle₂ ((hx.later (h₁.trans h₂)).backs hfair (hedit.edits hx.fair.live) fun _ hm => .inl hm)
    fun g₃ h₃ => serves_index h₃

theorem serves_decline (c : CallId) (u : UserId) : Serves w (fun _ g' => g.Le g') (decline c u) g := by
  refine serves_load (fun g' hle => yields_ret hle) fun x g' hle hx hid => ?_
  dsimp only
  split
  · exact yields_ret hle
  split
  · exact yields_ret hle
  split
  · exact serves_ends hle
  rename_i hguard hkind
  simp only [isMember, Bool.or_eq_true, Bool.not_eq_true', List.contains_eq_mem, decide_eq_true_eq,
    decide_eq_false_iff_not, not_or, not_not] at hguard
  have hedit : Edited Redis.empty x (.decline x.callId u) (declined x u) := .decline hguard.1 hguard.2 hkind
  exact serves_edited hle (hx.backs (hx.fair.edited hedit (by simp)) (hedit.edits hx.fair.live) fun _ hm => .inl hm)
    fun _ h => yields_ret h

theorem serves_leave (c : CallId) (u : UserId) : Serves w (fun _ g' => g.Le g') (leave c u) g := by
  refine serves_load (fun g' hle => yields_ret hle) fun x g' hle hx hid => ?_
  dsimp only
  split
  · exact yields_ret hle
  rename_i hguard
  refine serves_skip (shedding_command (by simp)) fun _ g₁ h₁ => ?_
  have hle₁ := hle.trans h₁
  split
  · exact serves_ends hle₁
  split
  · exact serves_ends hle₁
  rename_i hrest hkind
  have hmem : u ∈ x.memberIds := by simpa [isMember] using hguard
  have hedit : Edited Redis.empty x (.leave x.callId u) (left x u) :=
    .leave hmem (fun h0 => hrest (List.length_eq_zero_iff.mpr h0)) hkind
  exact serves_edited hle₁ ((hx.later h₁).backs (hx.fair.edited hedit (by simp)) (hedit.edits hx.fair.live)
    fun _ hm => .inl hm) fun g₂ h₂ => serves_index h₂

theorem serves_revokeUserFromConversation (v : ConversationId) (u : UserId) :
    Serves w (fun _ g' => g.Le g') (revokeUserFromConversation v u) g := by
  refine yields_bind (serves_getByConversation v) ?_
  rintro (_ | x) g' hloads
  · exact yields_ret hloads.1
  have hx := hloads.2 x rfl
  have hle := hloads.1
  dsimp only
  split
  · exact yields_ret hle
  split
  · exact yields_ret hle
  rename_i hguard
  refine serves_skip (shedding_command (by simp)) fun _ g₁ h₁ => ?_
  have hle₁ := hle.trans h₁
  split
  · exact serves_ends hle₁
  rename_i hend
  have hmem : u ∈ x.memberIds := by
    by_contra hout
    refine hguard ?_
    have hjoined : u ∉ x.joinedIds := fun h => hout (hx.fair.wellFormed.joined_sub h)
    simp [isMember, isJoined, hout, hjoined]
  have hedit : Edited Redis.empty x (.revokeUserFromConversation x.conversationId u) (replaceHost (revoked x u) u) :=
    .revoke hmem (fun h0 => hend (.inl (List.length_eq_zero_iff.mpr h0))) fun hk => hend (.inr (.inr hk))
  have hmembers : ∀ m ∈ (replaceHost (revoked x u) u).memberIds, m ∈ x.memberIds := by
    intro m hm
    unfold replaceHost at hm
    split at hm <;> exact List.mem_of_mem_filter hm
  exact serves_edited hle₁ ((hx.later h₁).backs (hx.fair.edited hedit (by simp)) (hedit.edits hx.fair.live)
    fun m hm => .inl (hmembers m hm)) fun g₂ h₂ => serves_index h₂

/-- The loop of `inviteMore` invites some of the users, and leaves the session a fair one. -/
theorem serves_inviteLoop (c : CallId) (hx : Fair w x) (hkind : x.kind = .group) (ids us : List UserId) :
    Serves w (fun r g' => g.Le g' ∧ Fair w r.1 ∧ Edits x r.1 ∧ ∀ u ∈ r.1.memberIds, u ∈ x.memberIds ∨ u ∈ us)
      (inviteLoop c x ids us) g := by
  induction us generalizing x ids g with
  | nil => exact yields_ret ⟨.refl g, hx, ⟨rfl, rfl, hx.live⟩, fun _ hu => .inl hu⟩
  | cons u us ih =>
    have hskip : ∀ g', g.Le g' → Serves w (fun r g' => g.Le g' ∧ Fair w r.1 ∧ Edits x r.1 ∧
        ∀ m ∈ r.1.memberIds, m ∈ x.memberIds ∨ m ∈ u :: us) (inviteLoop c x ids us) g' := by
      intro g' hle
      refine (ih hx hkind ids).mono fun r g'' h a ha => ?_
      obtain ⟨hle', hfair, hedits, hmembers⟩ := h a ha
      exact ⟨hle.trans hle', hfair, hedits, fun m hm => (hmembers m hm).imp_right (List.mem_cons_of_mem u)⟩
    unfold inviteLoop
    split
    · exact hskip g (.refl g)
    rename_i hout
    refine serves_skip (shedding_getActiveCallIdForUser u) fun busy g' hle => ?_
    split
    · exact hskip g' hle
    split
    · exact hskip g' hle
    rename_i hroom
    obtain ⟨op, hop, hedit⟩ := edited_invited hx.live hkind (by simpa using hout) hroom
    have hedits := hedit.edits hx.live
    refine (ih (hx.edited hedit fun v hv => absurd hv (hop v)) hkind _).mono fun r g'' h a ha => ?_
    obtain ⟨hle', hfair, hedits', hmembers⟩ := h a ha
    refine ⟨hle.trans hle', hfair, ?_, fun m hm => ?_⟩
    · exact ⟨hedits'.callId.trans hedits.callId, hedits'.conversationId.trans hedits.conversationId, hedits'.live⟩
    · rcases hmembers m hm with hm | hm
      · simp only [invited] at hm
        split at hm
        · exact .inl hm
        · rcases List.mem_append.mp hm with hm | hm
          · exact .inl hm
          · exact .inr (List.mem_singleton.mp hm ▸ List.mem_cons_self)
      · exact .inr (List.mem_cons_of_mem u hm)

theorem serves_inviteMore {c : CallId} {actor : UserId} {userIds allowed : List UserId}
    (hallowed : ∀ u ∈ allowed, ∃ v, (c, v) ∈ g.homes ∧ (v, u) ∈ g.seats) :
    Serves w (fun _ g' => g.Le g') (inviteMore c actor userIds allowed) g := by
  refine serves_load (fun g' hle => yields_ret hle) fun x g' hle hx hid => ?_
  dsimp only
  split
  · exact yields_ret hle
  split
  · exact yields_ret hle
  split
  · exact yields_ret hle
  split
  · exact yields_ret hle
  rename_i hkind _ _
  refine yields_bind (serves_inviteLoop c hx.fair (not_not.mp hkind) [] _) ?_
  rintro ⟨y, ids⟩ g₁ ⟨h₁, hfair, hedits, hmembers⟩
  have hle₁ := hle.trans h₁
  dsimp only
  split
  · exact yields_ret hle₁
  refine serves_edited hle₁ ((hx.later h₁).backs hfair hedits fun u hu => ?_) fun _ h => yields_ret h
  refine (hmembers u hu).imp_right fun hu => ?_
  obtain ⟨_, hu⟩ := List.mem_filter.mp hu
  obtain ⟨v, hv, hseat⟩ := hallowed u (of_decide_eq_true hu).1
  exact ⟨v, hid ▸ hle₁.homes hv, hle₁.seats hseat⟩

theorem serves_markLoop (c : CallId) (x : VoiceCallSession) (changed : Bool) (us : List UserId) :
    Serves w (fun r g' => g.Le g' ∧ r = markAll x changed us) (markLoop c x changed us) g := by
  induction us generalizing x changed g with
  | nil => exact yields_ret ⟨.refl g, rfl⟩
  | cons u us ih =>
    unfold markLoop markAll
    split
    · exact ih x changed
    refine serves_skip (shedding_clearUserBusy u (some c)) fun _ g' hle => ?_
    split
    · exact (ih x changed).mono fun r g'' h a ha => ⟨hle.trans (h a ha).1, (h a ha).2⟩
    · exact (ih _ true).mono fun r g'' h a ha => ⟨hle.trans (h a ha).1, (h a ha).2⟩

theorem serves_markUnansweredAsLeft (c : CallId) (userIds : List UserId) :
    Serves w (fun _ g' => g.Le g') (markUnansweredAsLeft c userIds) g := by
  refine serves_load (fun g' hle => yields_ret hle) fun x g' hle hx hid => ?_
  dsimp only
  split
  · exact yields_ret hle
  refine yields_bind (serves_markLoop c x false userIds) ?_
  rintro _ g₁ ⟨h₁, rfl⟩
  have hle₁ := hle.trans h₁
  split
  · exact yields_ret hle₁
  have hedit : Edited Redis.empty x (.markUnansweredAsLeft x.callId userIds) (markAll x false userIds).1 := .mark
  have hmembers : (markAll x false userIds).1.memberIds = x.memberIds := by
    obtain ⟨_, _, heq⟩ := markAll_eq (x := x) false userIds
    rw [heq]
  refine serves_edited hle₁ ((hx.later h₁).backs (hx.fair.edited hedit (by simp)) (hedit.edits hx.fair.live)
    fun u hu => .inl ?_) fun _ h => yields_ret h
  rwa [hmembers] at hu

theorem serves_control (c : CallId) {f : VoiceCallSession → Except String VoiceCallSession} (hf : Controls f) :
    Serves w (fun _ g' => g.Le g') (control c f) g := by
  refine serves_load (fun g' hle => yields_ret hle) fun x g' hle hx hid => ?_
  dsimp only
  split
  · exact yields_ret hle
  split
  · exact yields_ret hle
  · next y hok =>
    obtain ⟨hedits, hmembers⟩ := hf.edits hok hx.fair.live
    exact serves_edited hle (hx.backs (hx.fair.controls hf hok) hedits fun u hu => .inl (hmembers ▸ hu))
      fun _ h => yields_ret h

end Service

/-! ## The handlers -/

section Handlers

variable {g : Knowledge}

abbrev Handles (w : Consent) (Q : α → Knowledge → Prop) (p : M α) (g : Knowledge) : Prop :=
  Yields (handlerTraffic w) Q p g

theorem handles_calls {p : CallSession.M α} {Q : α → Knowledge → Prop} (h : Serves w Q p g) :
    Handles w Q (calls p) g := by
  induction p generalizing g with
  | ret a => exact yields_ret (h a rfl)
  | fail e => exact nomatch e
  | call c k ih =>
    unfold calls
    refine ⟨h.1, fun r hr => ?_⟩
    cases r with
    | error e => exact yields_fail
    | ok a => exact ih (.ok a) (h.2 (.ok a) (hr a rfl))

/-- Calls that tell a handler nothing of sessions and members. -/
def Aside : Call → Prop
  | .redis _ | .prepareVoiceCall _ _ => False
  | _ => True

theorem handles_aside {p : M α} (h : Sat (fun _ _ => True) Aside p) : Handles w (fun _ g' => g' = g) p g := by
  refine Follows.yields <| follows_of_sat (L := Aside) (fun c hc => ?_) (h.mono (fun _ _ _ => trivial) fun _ hc => hc)
  cases c with
  | redis c => exact hc.elim
  | prepareVoiceCall v u => exact hc.elim
  | _ => exact ⟨trivial, fun _ => rfl⟩

theorem handles_last {p : M α} (h : Sat (fun _ _ => True) Aside p) : Handles w (fun _ _ => True) p g :=
  (handles_aside h).mono fun _ _ _ _ _ => trivial

theorem handles_first {p : M α} {f : α → M β} {Q : β → Knowledge → Prop} (h : Sat (fun _ _ => True) Aside p)
    (hf : ∀ a, Handles w Q (f a) g) : Handles w Q (p >>= f) g := by
  refine yields_bind (handles_aside h) fun a g' hg => ?_
  rw [hg]
  exact hf a

theorem aside_perform {c : Call} (h : Aside c) : Sat (fun _ _ => True) Aside (perform c : M c.Answer) := sat_perform h

theorem aside_emitCallLobby (x : VoiceCallSession) : Sat (fun _ _ => True) Aside (emitCallLobby x) := by
  unfold emitCallLobby
  split
  · exact aside_perform trivial
  · trivial

theorem aside_announce (x : VoiceCallSession) {f : M β} (h : Sat (fun _ _ => True) Aside f) :
    Sat (fun _ _ => True) Aside (emitCallLobby x >>= fun _ => emitCallRoster x >>= fun _ => f) :=
  sat_bind (aside_emitCallLobby x) fun _ => sat_bind (aside_perform trivial) fun _ => h

theorem aside_assertLive (u : UserId) (v : ConversationId) :
    Sat (fun _ _ => True) Aside (assertLiveConversationMember u v) := by
  refine sat_bind (sat_attempt (aside_perform trivial)) fun r => ?_
  cases r <;> trivial

/-- A method of the call service, and a rest that only tells of it. -/
theorem handles_tell {p : CallSession.M α} {f : α → M β} (hp : Serves w (fun _ g' => g.Le g') p g)
    (hf : ∀ a, Sat (fun _ _ => True) Aside (f a)) : Handles w (fun _ _ => True) (calls p >>= f) g :=
  yields_bind (handles_calls hp) fun a _ _ => handles_last (hf a)

/-- What the chat service answers to a request to prepare a call. -/
theorem handles_prepare (u : UserId) (v : ConversationId) :
    Handles w (fun prepared g' => g.Le g' ∧ prepared.conversationId = v ∧ u ∈ prepared.memberIds ∧
        (∀ m ∈ prepared.memberIds, (v, m) ∈ g'.seats) ∧ ∀ media, PreparedInput
          ⟨prepared.conversationId, callKind prepared.kind, u, prepared.memberIds, media⟩)
      (prepareVoiceCall v u) g := by
  refine yields_perform trivial fun prepared h => ?_
  obtain ⟨hconv, hmem, hprepared⟩ := h prepared rfl
  refine ⟨⟨fun _ hm => hm, fun _ hm => List.mem_append_right _ hm⟩, hconv, hmem, fun m hm => ?_, hprepared⟩
  exact List.mem_append_left _ (List.mem_map_of_mem hm)

theorem handles_inviteCall {u : UserId} {v : ConversationId} (media : Option CallMedia) (hasked : w.invites v u) :
    Handles w (fun _ _ => True) (inviteCall u v media) g := by
  refine handles_first (aside_perform trivial) fun refused => ?_
  cases refused with
  | some message => exact yields_ret trivial
  | none =>
    refine yields_bind (handles_prepare u v) fun prepared g' ⟨_, hconv, hmem, hseats, hprepared⟩ => ?_
    obtain rfl := hconv
    refine handles_tell (serves_createCall (hprepared media) hasked hmem hseats) fun created => ?_
    cases created with
    | error message => trivial
    | ok created =>
      refine sat_bind (aside_perform trivial) fun _ => aside_announce created ?_
      exact sat_bind (aside_perform trivial) fun _ => sat_bind (aside_perform trivial) fun _ => trivial

/-- A handler that first loads the session. -/
theorem handles_load {c : CallId} {f : Option VoiceCallSession → M β}
    (hnone : Sat (fun _ _ => True) Aside (f none))
    (hsome : ∀ x g', g'.Read w x → x.callId = c → Handles w (fun _ _ => True) (f (some x)) g') :
    Handles w (fun _ _ => True) (calls (get c) >>= f) g := by
  refine yields_bind (handles_calls (serves_get c)) ?_
  rintro (_ | x) g' ⟨hloads, hid⟩
  · exact handles_last hnone
  · exact hsome x g' (hloads.2 x rfl) (hid x rfl)

theorem handles_acceptCall {u : UserId} {c : CallId} (hasked : w.accepts c u) :
    Handles w (fun _ _ => True) (acceptCall u c) g := by
  refine handles_load trivial fun x g' hx hid => ?_
  dsimp only
  split
  · exact yields_fail
  refine handles_first (aside_assertLive u x.conversationId) fun _ => ?_
  refine handles_tell (serves_accept hasked) fun accepted => ?_
  cases accepted with
  | error message => trivial
  | ok accepted =>
    have htail : Sat (fun _ _ => True) Aside (emitCallEvent accepted.memberIds (.participantJoined accepted u) >>=
        fun _ => emitCallEvent accepted.joinedIds (.accepted accepted u) >>= fun _ => emitCallLobby accepted >>=
        fun _ => emitCallRoster accepted >>= fun _ => (return .accepted accepted : M Ack)) :=
      sat_bind (aside_perform trivial) fun _ => sat_bind (aside_perform trivial) fun _ => aside_announce accepted trivial
    dsimp only
    split
    · exact sat_bind (aside_perform trivial) fun _ => htail
    · exact htail

theorem handles_rejectCall (u : UserId) (c : CallId) : Handles w (fun _ _ => True) (rejectCall u c) g := by
  refine handles_tell (serves_decline c u) fun result => ?_
  cases result with
  | error message => trivial
  | ok result =>
    dsimp only
    split
    · exact sat_bind (aside_perform trivial) fun _ => sat_bind (aside_perform trivial) fun _ => trivial
    · exact sat_bind (aside_perform trivial) fun _ => aside_announce _ trivial

theorem handles_hangupCall (u : UserId) (c : CallId) : Handles w (fun _ _ => True) (hangupCall u c) g := by
  refine handles_load trivial fun x g' hx hid => ?_
  dsimp only
  split
  · exact yields_fail
  refine handles_tell (serves_leave c u) fun result => ?_
  cases result with
  | error message => trivial
  | ok result =>
    dsimp only
    split
    · exact sat_bind (aside_perform trivial) fun _ => sat_bind (aside_perform trivial) fun _ => trivial
    · exact sat_bind (aside_perform trivial) fun _ => aside_announce _ trivial

theorem handles_controlCall (u : UserId) (c : CallId) {f : VoiceCallSession → Except String VoiceCallSession}
    (hf : Controls f) (event : VoiceCallSession → CallEvent) :
    Handles w (fun _ _ => True) (controlCall u c f event) g := by
  refine handles_load trivial fun x g' hx hid => ?_
  dsimp only
  split
  · exact yields_ret trivial
  refine handles_first (aside_assertLive u x.conversationId) fun _ => ?_
  refine handles_tell (serves_control c hf) fun result => ?_
  cases result with
  | error message => trivial
  | ok y => exact sat_bind (aside_perform trivial) fun _ => aside_announce y trivial

theorem handles_inviteMoreCall (u : UserId) (c : CallId) (userIds : List UserId) :
    Handles w (fun _ _ => True) (inviteMoreCall u c userIds) g := by
  refine handles_first (aside_perform trivial) fun refused => ?_
  cases refused with
  | some message => exact yields_ret trivial
  | none =>
    dsimp only
    split
    · exact yields_ret trivial
    refine handles_load trivial fun x g' hx hid => ?_
    dsimp only
    split
    · exact yields_ret trivial
    refine handles_first (aside_assertLive u x.conversationId) fun _ => ?_
    refine yields_bind (handles_prepare u x.conversationId) fun prepared g₁ ⟨hle, _, _, hseats, _⟩ => ?_
    -- the members are those of the conversation of the session that was read first
    have hhome : (c, x.conversationId) ∈ g₁.homes := hid ▸ hle.homes hx.home
    refine handles_tell (serves_inviteMore fun m hm => ⟨_, hhome, hseats m hm⟩) fun result => ?_
    cases result with
    | error message => trivial
    | ok result =>
      refine sat_bind (aside_perform trivial) fun _ => sat_bind (aside_perform trivial) fun _ =>
        sat_bind (aside_perform trivial) fun _ => aside_announce _ trivial

theorem handles_evict (v : ConversationId) (us : List UserId) :
    Handles w (fun _ _ => True) (evictUsersFromConversation v us) g := by
  induction us generalizing g with
  | nil => exact yields_ret trivial
  | cons u us ih =>
    refine yields_bind (handles_calls (serves_revokeUserFromConversation v u)) fun revoked g' _ => ?_
    cases revoked with
    | none => exact ih
    | some revoked =>
      dsimp only
      refine handles_first (aside_perform trivial) fun _ => ?_
      split
      · exact handles_first (aside_perform trivial) fun _ => handles_first (aside_perform trivial) fun _ => ih
      · refine handles_first (aside_perform trivial) fun _ => ?_
        refine handles_first (aside_emitCallLobby revoked.session) fun _ => ?_
        exact handles_first (aside_perform trivial) fun _ => ih

theorem handles_timeoutRingingCall (c : CallId) : Handles w (fun _ _ => True) (timeoutRingingCall c) g := by
  refine handles_load trivial fun x g' hx hid => ?_
  dsimp only
  split
  · exact handles_last (aside_perform trivial)
  split
  · refine handles_tell (serves_end c) fun ended => ?_
    refine sat_bind (aside_perform trivial) fun _ => ?_
    cases ended with
    | none => trivial
    | some y => exact aside_perform trivial
  · exact yields_ret trivial

theorem handles_timeoutRingingInvitees (c : CallId) (ids : List UserId) :
    Handles w (fun _ _ => True) (timeoutRingingInvitees c ids) g := by
  refine handles_first (aside_perform trivial) fun _ => ?_
  refine handles_tell (serves_markUnansweredAsLeft c ids) fun marked => ?_
  cases marked with
  | none => trivial
  | some y => exact sat_bind (aside_emitCallLobby y) fun _ => aside_perform trivial

theorem handles_clearUserBusy (u : UserId) (c : Option CallId) :
    Handles w (fun _ _ => True) (calls (clearUserBusy u c)) g :=
  (handles_calls (serves_shedding (shedding_clearUserBusy u c))).mono fun _ _ _ _ _ => trivial

theorem handles_endCallForDisconnectedUser (u : UserId) :
    Handles w (fun _ _ => True) (endCallForDisconnectedUser u) g := by
  refine yields_bind (handles_calls (serves_shedding (shedding_getActiveCallIdForUser u))) fun current g' _ => ?_
  cases current with
  | none => exact yields_ret trivial
  | some c =>
    refine yields_bind (handles_calls (serves_get c)) ?_
    rintro (_ | x) g' ⟨hloads, hid⟩
    · exact handles_clearUserBusy u (some c)
    dsimp only
    split
    · exact handles_clearUserBusy u (some c)
    refine handles_first (aside_perform trivial) fun online => ?_
    split
    · exact yields_ret trivial
    refine handles_load trivial fun y g' _ _ => ?_
    dsimp only
    split
    · exact yields_ret trivial
    refine handles_tell (serves_leave c u) fun result => ?_
    cases result with
    | error message => trivial
    | ok result =>
      dsimp only
      split
      · exact sat_bind (aside_perform trivial) fun _ => aside_perform trivial
      · exact sat_bind (aside_perform trivial) fun _ => sat_bind (aside_emitCallLobby _) fun _ => aside_perform trivial

theorem handles_map {p : M α} (f : α → β) (h : Handles w (fun _ _ => True) p g) :
    Handles w (fun _ _ => True) (f <$> p) g := yields_bind h fun _ _ _ => yields_ret trivial

/-- Every handler keeps to the protocol, if it was asked for. -/
theorem handles_task {task : Task} (h : w.Covers task) : Handles w (fun _ _ => True) task.program .start := by
  cases task with
  | ring c job =>
    cases job with
    | timeoutRingingCall => exact handles_map _ (handles_timeoutRingingCall c)
    | timeoutRingingInvitees ids => exact handles_map _ (handles_timeoutRingingInvitees c ids)
  | request r =>
    cases r with
    | inviteCall u v media => exact handles_inviteCall media h
    | acceptCall u c => exact handles_acceptCall h
    | rejectCall u c => exact handles_rejectCall u c
    | hangupCall u c => exact handles_hangupCall u c
    | holdCall u c onHold => exact handles_controlCall u c (controls_held u onHold) _
    | muteAllCall u c muted => exact handles_controlCall u c (controls_forceMute u muted) _
    | screenShareCall u c active => exact handles_controlCall u c (controls_screenShare u active) _
    | inviteMoreCall u c userIds => exact handles_inviteMoreCall u c userIds
    | evictUsersFromConversation v userIds => exact handles_map _ (handles_evict v userIds)
    | endCallForDisconnectedUser u => exact handles_map _ (handles_endCallForDisconnectedUser u)
    | removeMember v actor u =>
      exact handles_first (aside_perform trivial) fun _ => yields_bind (handles_evict v [u]) fun _ _ _ => yields_ret trivial
    | leave v u =>
      exact handles_first (aside_perform trivial) fun _ => yields_bind (handles_evict v [u]) fun _ _ _ => yields_ret trivial
    | deleteGroup v u => exact handles_first (aside_perform trivial) fun _ => yields_ret trivial

end Handlers

/-! ## The invariant -/

/-- The user has, or has had, a membership of the conversation. -/
def Enrolled (db : Chat.Db) (v : ConversationId) (u : UserId) : Prop :=
  ∃ m ∈ db.members, m.conversationId = v ∧ m.userId = u

theorem Enrolled.grows {db db' : Chat.Db} {v : ConversationId} {u : UserId} (h : Enrolled db v u)
    (hle : db.Grows db') : Enrolled db' v u := by
  obtain ⟨m, hm, rfl, rfl⟩ := h
  obtain ⟨m', hm', horigin⟩ := List.mem_map.mp (hle.members (List.mem_map_of_mem hm))
  exact ⟨m', hm', congrArg (·.conversationId) horigin, congrArg (·.userId) horigin⟩

theorem IsMember.enrolled {db : Chat.Db} {v : ConversationId} {u : UserId} (h : IsMember db v u) :
    Enrolled db v u := by
  obtain ⟨_, m, hm, huser⟩ := isMember_iff.mp h
  obtain ⟨hm, hconv, _⟩ := Chat.Db.mem_seats.mp hm
  exact ⟨m, hm, hconv, huser⟩

/-- The call is, or was, one of the conversation, as far as the store and the handlers know. -/
def Home (s : State) (gs : List Knowledge) (c : CallId) (v : ConversationId) : Prop :=
  (∃ x, s.redis.session c = some x ∧ x.conversationId = v) ∨ ∃ g ∈ gs, (c, v) ∈ g.homes

/-- What holds of the stores and of what the handlers know. -/
structure Ordered (w : Consent) (s : State) (gs : List Knowledge) : Prop where
  reachable : Chat.Reachable s.db
  stored : ∀ c x, s.redis.session c = some x →
    x.callId = c ∧ Fair w x ∧ ∀ u ∈ x.memberIds, Enrolled s.db x.conversationId u
  seats : ∀ g ∈ gs, ∀ v u, (v, u) ∈ g.seats → Enrolled s.db v u
  home : ∀ c v v', Home s gs c v → Home s gs c v' → v = v'
  old : ∀ c v, Home s gs c v → c < s.redis.nextId
  fresh : ∀ (i : Nat) (g : Knowledge) (c : CallId), gs[i]? = some g → g.fresh = some c →
    c < s.redis.nextId ∧ (∀ v, ¬ Home s gs c v) ∧
      ∀ (j : Nat) (g' : Knowledge), gs[j]? = some g' → g'.fresh = some c → j = i

section Invariant

variable {s t : State} {gs : List Knowledge} {g g' : Knowledge} {i : Nat}

theorem getElem?_set_cases {j : Nat} {h : Knowledge} (hj : (gs.set i g')[j]? = some h) :
    (j = i ∧ h = g') ∨ (j ≠ i ∧ gs[j]? = some h) := by
  by_cases hij : j = i
  · subst hij
    have hlt : j < gs.length := by
      obtain ⟨hlt, _⟩ := List.getElem?_eq_some_iff.mp hj
      simpa using hlt
    rw [List.getElem?_set_self hlt] at hj
    cases hj
    exact .inl ⟨rfl, rfl⟩
  · rw [List.getElem?_set_ne (Ne.symm hij)] at hj
    exact .inr ⟨hij, hj⟩

/-- Sessions go, time passes, and the chat service goes on. -/
theorem Ordered.later (h : Ordered w s gs) (hdb : Chat.Reachable t.db) (hgrows : s.db.Grows t.db)
    (hsheds : s.redis.Sheds t.redis) (hnext : s.redis.nextId ≤ t.redis.nextId) : Ordered w t gs := by
  have hhome : ∀ c v, Home t gs c v → Home s gs c v := by
    intro c v hv
    refine hv.imp_left ?_
    rintro ⟨x, hx, hconv⟩
    exact ⟨x, hsheds c x hx, hconv⟩
  refine ⟨hdb, fun c x hx => ?_, fun g hg v u hu => (h.seats g hg v u hu).grows hgrows, fun c v v' hv hv' => ?_,
    fun c v hv => Nat.lt_of_lt_of_le (h.old c v (hhome c v hv)) hnext, fun i g c hi hc => ?_⟩
  · obtain ⟨hid, hfair, hmembers⟩ := h.stored c x (hsheds c x hx)
    exact ⟨hid, hfair, fun u hu => (hmembers u hu).grows hgrows⟩
  · exact h.home c v v' (hhome c v hv) (hhome c v' hv')
  · obtain ⟨hlt, hno, hone⟩ := h.fresh i g c hi hc
    exact ⟨Nat.lt_of_lt_of_le hlt hnext, fun v hv => hno v (hhome c v hv), hone⟩

/-- A handler learns what is so. -/
theorem Ordered.learn (h : Ordered w s gs) (hi : gs[i]? = some g) (hhomes : ∀ c v, (c, v) ∈ g'.homes → Home s gs c v)
    (hseats : ∀ v u, (v, u) ∈ g'.seats → Enrolled s.db v u) (hfresh : g'.fresh = g.fresh) :
    Ordered w s (gs.set i g') := by
  have hhome : ∀ c v, Home s (gs.set i g') c v → Home s gs c v := by
    rintro c v (hstored | ⟨k, hk, hmem⟩)
    · exact .inl hstored
    · rcases List.mem_or_eq_of_mem_set hk with hk | rfl
      · exact .inr ⟨k, hk, hmem⟩
      · exact hhomes c v hmem
  -- only the thread `i` has changed, and it keeps its fresh id
  have hthread : ∀ (j : Nat) (k : Knowledge) (c : CallId), (gs.set i g')[j]? = some k → k.fresh = some c →
      ∃ k' : Knowledge, gs[j]? = some k' ∧ k'.fresh = some c := by
    intro j k c hj hc
    rcases getElem?_set_cases hj with ⟨rfl, rfl⟩ | ⟨_, hj⟩
    · exact ⟨g, hi, hfresh ▸ hc⟩
    · exact ⟨k, hj, hc⟩
  refine ⟨h.reachable, h.stored, fun k hk v u hu => ?_, fun c v v' hv hv' => h.home c v v' (hhome c v hv) (hhome c v' hv'),
    fun c v hv => h.old c v (hhome c v hv), fun j k c hj hc => ?_⟩
  · rcases List.mem_or_eq_of_mem_set hk with hk | rfl
    · exact h.seats k hk v u hu
    · exact hseats v u hu
  · obtain ⟨k', hj', hc'⟩ := hthread j k c hj hc
    obtain ⟨hlt, hno, hone⟩ := h.fresh j k' c hj' hc'
    refine ⟨hlt, fun v hv => hno v (hhome c v hv), fun j₁ k₁ hj₁ hc₁ => ?_⟩
    obtain ⟨k₁', hj₁', hc₁'⟩ := hthread j₁ k₁ c hj₁ hc₁
    exact hone j₁ k₁' hj₁' hc₁'

/-- A new id belongs to the handler that has taken it. -/
theorem Ordered.take (h : Ordered w s gs) (hi : gs[i]? = some g) :
    Ordered w { s with redis := { s.redis with nextId := s.redis.nextId + 1 } }
      (gs.set i { g with fresh := some s.redis.nextId }) := by
  have hhome : ∀ c v, Home { s with redis := { s.redis with nextId := s.redis.nextId + 1 } }
      (gs.set i { g with fresh := some s.redis.nextId }) c v → Home s gs c v := by
    rintro c v (hstored | ⟨k, hk, hmem⟩)
    · exact .inl hstored
    · rcases List.mem_or_eq_of_mem_set hk with hk | rfl
      · exact .inr ⟨k, hk, hmem⟩
      · exact .inr ⟨g, List.mem_of_getElem? hi, hmem⟩
  refine ⟨h.reachable, h.stored, fun k hk v u hu => ?_, fun c v v' hv hv' => h.home c v v' (hhome c v hv) (hhome c v' hv'),
    fun c v hv => Nat.lt_succ_of_lt (h.old c v (hhome c v hv)), fun j k c hj hc => ?_⟩
  · rcases List.mem_or_eq_of_mem_set hk with hk | rfl
    · exact h.seats k hk v u hu
    · exact h.seats g (List.mem_of_getElem? hi) v u hu
  · rcases getElem?_set_cases hj with ⟨rfl, rfl⟩ | ⟨hji, hj⟩
    · cases hc
      refine ⟨Nat.lt_succ_self _, fun v hv => Nat.lt_irrefl _ (h.old _ v (hhome _ v hv)), fun j₁ k₁ hj₁ hc₁ => ?_⟩
      rcases getElem?_set_cases hj₁ with ⟨rfl, _⟩ | ⟨_, hj₁⟩
      · rfl
      · exact absurd (h.fresh j₁ k₁ _ hj₁ hc₁).1 (Nat.lt_irrefl _)
    · obtain ⟨hlt, hno, hone⟩ := h.fresh j k c hj hc
      refine ⟨Nat.lt_succ_of_lt hlt, fun v hv => hno v (hhome c v hv), fun j₁ k₁ hj₁ hc₁ => ?_⟩
      rcases getElem?_set_cases hj₁ with ⟨_, rfl⟩ | ⟨_, hj₁⟩
      · cases hc₁
        exact absurd hlt (Nat.lt_irrefl _)
      · exact hone j₁ k₁ hj₁ hc₁

/-- A session is stored that a handler may store. -/
theorem Ordered.store (h : Ordered w s gs) (hi : gs[i]? = some g) (hx : g.Backs w x) :
    Ordered w { s with redis := s.redis.store x }
      (gs.set i { g with homes := (x.callId, x.conversationId) :: g.homes, fresh := none }) := by
  have hg := List.mem_of_getElem? hi
  -- the call is one of this conversation and no other
  have hone : ∀ v, Home s gs x.callId v → v = x.conversationId := by
    intro v hv
    rcases hx.home with hmem | hfresh
    · exact h.home x.callId _ _ hv (.inr ⟨g, hg, hmem⟩)
    · exact absurd hv ((h.fresh i g x.callId hi hfresh).2.1 v)
  have hlt : x.callId < s.redis.nextId := by
    rcases hx.home with hmem | hfresh
    · exact h.old x.callId _ (.inr ⟨g, hg, hmem⟩)
    · exact (h.fresh i g x.callId hi hfresh).1
  have hhome : ∀ c v, Home { s with redis := s.redis.store x }
      (gs.set i { g with homes := (x.callId, x.conversationId) :: g.homes, fresh := none }) c v →
      (c = x.callId ∧ v = x.conversationId) ∨ Home s gs c v := by
    rintro c v (⟨y, hy, rfl⟩ | ⟨k, hk, hmem⟩)
    · rcases Redis.session_store_cases hy with ⟨rfl, rfl⟩ | ⟨_, hy⟩
      · exact .inl ⟨rfl, rfl⟩
      · exact .inr (.inl ⟨y, hy, rfl⟩)
    · rcases List.mem_or_eq_of_mem_set hk with hk | rfl
      · exact .inr (.inr ⟨k, hk, hmem⟩)
      · rcases List.mem_cons.mp hmem with heq | hmem
        · exact .inl (Prod.mk.inj heq)
        · exact .inr (.inr ⟨g, hg, hmem⟩)
  refine ⟨h.reachable, fun c y hy => ?_, fun k hk v u hu => ?_, fun c v v' hv hv' => ?_, fun c v hv => ?_,
    fun j k c hj hc => ?_⟩
  · rcases Redis.session_store_cases hy with ⟨rfl, rfl⟩ | ⟨_, hy⟩
    · refine ⟨rfl, hx.fair, fun u hu => ?_⟩
      rcases hx.seats u hu with hseat | ⟨v, hv, hseat⟩
      · exact h.seats g hg _ u hseat
      · obtain rfl := hone v (.inr ⟨g, hg, hv⟩)
        exact h.seats g hg _ u hseat
    · exact h.stored c y hy
  · rcases List.mem_or_eq_of_mem_set hk with hk | rfl
    · exact h.seats k hk v u hu
    · exact h.seats g hg v u hu
  · rcases hhome c v hv with ⟨rfl, rfl⟩ | hv <;> rcases hhome _ v' hv' with ⟨hc, rfl⟩ | hv'
    · rfl
    · exact (hone v' hv').symm
    · subst hc
      exact hone v hv
    · exact h.home _ v v' hv hv'
  · rw [show (s.redis.store x).nextId = s.redis.nextId from Redis.nextId_store _ _]
    rcases hhome c v hv with ⟨rfl, _⟩ | hv
    · exact hlt
    · exact h.old c v hv
  · rcases getElem?_set_cases hj with ⟨_, rfl⟩ | ⟨hji, hj⟩
    · cases hc
    obtain ⟨hltc, hno, honly⟩ := h.fresh j k c hj hc
    have hne : c ≠ x.callId := by
      rintro rfl
      rcases hx.home with hmem | hfresh
      · exact hno _ (.inr ⟨g, hg, hmem⟩)
      · exact hji (honly i g hi hfresh).symm
    rw [show (s.redis.store x).nextId = s.redis.nextId from Redis.nextId_store _ _]
    refine ⟨hltc, fun v hv => ?_, fun j₁ k₁ hj₁ hc₁ => ?_⟩
    · rcases hhome c v hv with ⟨rfl, _⟩ | hv
      · exact hne rfl
      · exact hno v hv
    · rcases getElem?_set_cases hj₁ with ⟨_, rfl⟩ | ⟨_, hj₁⟩
      · cases hc₁
      · exact honly j₁ k₁ hj₁ hc₁

/-- One command of a handler. -/
theorem Ordered.exec (h : Ordered w s gs) (hi : gs[i]? = some g) {c : Call} (hc : (handlerTraffic w).allowed g c) :
    (handlerTraffic w).answers c (exec order c s).1 ∧
      Ordered w (exec order c s).2 (gs.set i ((handlerTraffic w).next g c (exec order c s).1)) := by
  have hsame : gs.set i g = gs := by
    obtain ⟨hlt, rfl⟩ := List.getElem?_eq_some_iff.mp hi
    exact List.set_getElem_self hlt
  have hg := List.mem_of_getElem? hi
  have hrefl : s.redis.Sheds s.redis := .refl _
  -- a request that the chat service serves
  have hchat : ∀ (c : Call) (op : Chat.Op), (ChatGateway.exec order c s).2.redis = s.redis →
      (ChatGateway.exec order c s).2.db = (op.run s.db).2 → Ordered w (ChatGateway.exec order c s).2 gs := by
    intro c op hredis hdb
    refine h.later (reachable_exec c h.reachable) ?_ (hredis ▸ hrefl) (hredis ▸ Nat.le_refl _)
    rw [hdb]
    exact op.grows h.reachable.inv
  have hrun : ∀ {α : Type} {p : Chat.M α} {f : α → Chat.Response} (op : Chat.Op), op.program = f <$> p →
      (sendChat p s).2.db = (op.run s.db).2 := by
    intro α p f op hop
    rw [Chat.Op.run, hop, Prog.run_map]
    rfl
  cases c with
  | redis c =>
    cases c with
    | getSession c =>
      refine ⟨?_, ?_⟩
      · rintro a ⟨⟩ x hx
        obtain ⟨hid, hfair, _⟩ := h.stored c x (Except.ok.inj hx)
        exact ⟨hid, hfair⟩
      · simp only [ChatGateway.exec, CallSession.exec, handlerTraffic, sessionTraffic]
        cases hx : s.redis.session c with
        | none => exact hsame.symm ▸ h
        | some x =>
          obtain ⟨hid, hfair, hmembers⟩ := h.stored c x hx
          refine h.learn hi (fun c' v hmem => ?_) (fun v u hmem => ?_) rfl
          · rcases List.mem_cons.mp hmem with heq | hmem
            · obtain ⟨rfl, rfl⟩ := Prod.mk.inj heq
              exact .inl ⟨x, hid ▸ hx, rfl⟩
            · exact .inr ⟨g, hg, hmem⟩
          · rcases List.mem_append.mp hmem with hmem | hmem
            · obtain ⟨m, hm, heq⟩ := List.mem_map.mp hmem
              obtain ⟨rfl, rfl⟩ := Prod.mk.inj heq
              exact hmembers m hm
            · exact h.seats g hg v u hmem
    | pipeline cmds =>
      refine ⟨fun _ _ => trivial, ?_⟩
      rcases hc with hsheds | ⟨x, rfl, hx⟩
      · have hnext : (handlerTraffic w).next g (.redis (.pipeline cmds)) (.ok ()) = g := by
          rcases cmds with _ | ⟨cmd, cmds⟩
          · rfl
          · cases cmd with
            | setSession x => exact absurd List.mem_cons_self (hsheds x)
            | _ => rfl
        simp only [ChatGateway.exec, CallSession.exec]
        rw [hnext, hsame]
        exact h.later h.reachable (.refl _) (hsheds.applyAll _) (Nat.le_of_eq (nextId_applyAll _ _).symm)
      · exact h.store hi hx
    | randomUUID => exact ⟨fun _ _ => trivial, h.take hi⟩
    | _ => exact ⟨fun _ _ => trivial, hsame.symm ▸ h⟩
  | prepareVoiceCall v u =>
    have hexec : Prog.run (ChatGateway.exec order) (prepareVoiceCall v u) s = ChatGateway.exec order (.prepareVoiceCall v u) s :=
      Prog.run_perform _ _ s
    rcases run_prepareVoiceCall order (s := s) u v with ⟨e, he⟩ | ⟨prepared, hok, hconv, hmem, hmembers⟩
    · rw [hexec] at he
      rw [he]
      refine ⟨?_, hsame.symm ▸ h⟩
      intro prepared hp
      cases hp
    · rw [hexec] at hok
      refine ⟨?_, ?_⟩
      · rw [hok]
        rintro _ ⟨⟩
        refine ⟨hconv, hmem, fun media => preparedInput_of_run (v := v) h.reachable ?_ media⟩
        have hfst := congrArg Prod.fst hok
        simp only [ChatGateway.exec, sendChat] at hfst
        rcases hr : (Prog.run Chat.exec (Chat.prepareVoiceCall v u) s.db).1 with e | a
        · rw [hr] at hfst
          cases hfst
        · rw [hr] at hfst
          cases hfst
          rfl
      · rw [hok]
        refine h.learn hi (fun c v hm => .inr ⟨g, hg, hm⟩) (fun v' m hm => ?_) rfl
        rcases List.mem_append.mp hm with hm | hm
        · obtain ⟨m', hm', heq⟩ := List.mem_map.mp hm
          obtain ⟨rfl, rfl⟩ := Prod.mk.inj heq
          exact (hmembers m' hm').enrolled
        · exact h.seats g hg v' m hm
  | getConversation v u =>
    refine ⟨trivial, ?_⟩
    have hnext : (handlerTraffic w).next g (.getConversation v u) (ChatGateway.exec order (.getConversation v u) s).1 = g := rfl
    rw [hnext, hsame]
    exact hchat _ (.getConversation v u) rfl (hrun _ rfl)
  | removeMember v actor u =>
    refine ⟨trivial, ?_⟩
    have hnext : (handlerTraffic w).next g (.removeMember v actor u)
      (ChatGateway.exec order (.removeMember v actor u) s).1 = g := rfl
    rw [hnext, hsame]
    exact hchat _ (.removeMember v actor u) rfl (hrun _ rfl)
  | leave v u =>
    refine ⟨trivial, ?_⟩
    have hnext : (handlerTraffic w).next g (.leave v u) (ChatGateway.exec order (.leave v u) s).1 = g := rfl
    rw [hnext, hsame]
    exact hchat _ (.leave v u) rfl (hrun _ rfl)
  | deleteGroup v u =>
    refine ⟨trivial, ?_⟩
    have hnext : (handlerTraffic w).next g (.deleteGroup v u) (ChatGateway.exec order (.deleteGroup v u) s).1 = g := rfl
    rw [hnext, hsame]
    exact hchat _ (.deleteGroup v u) rfl (hrun _ rfl)
  | takeCallInviteSlot u =>
    refine ⟨trivial, ?_⟩
    have hkeep : Ordered w (ChatGateway.exec order (.takeCallInviteSlot u) s).2 gs := by
      simp only [ChatGateway.exec]
      split
      · exact h
      · exact h.later h.reachable (.refl _) hrefl (Nat.le_refl _)
    exact hsame.symm ▸ hkeep
  | _ => exact ⟨trivial, hsame.symm ▸ h.later h.reachable (.refl _) hrefl (Nat.le_refl _)⟩

theorem Ordered.happening (h : Ordered w s gs) (d : Happening) : Ordered w (d.apply s) gs := by
  cases d with
  | elapse d => exact h.later (h.reachable.wait d) (Chat.Db.grows_wait _ _) (.refl _) (Nat.le_refl _)
  | setOnline u online => exact h.later h.reachable (.refl _) (.refl _) (Nat.le_refl _)
  | chat op => exact h.later (h.reachable.run op) (op.grows h.reachable.inv) (.refl _) (Nat.le_refl _)
  | lose keys =>
    exact h.later h.reachable (.refl _) (sheds_lose keys _) (Nat.le_of_eq (nextId_applyAll _ _).symm)

theorem Ordered.start (h : Ordered w s gs) : Ordered w s (gs ++ [.start]) := by
  have hhome : ∀ c v, Home s (gs ++ [.start]) c v → Home s gs c v := by
    rintro c v (hstored | ⟨k, hk, hmem⟩)
    · exact .inl hstored
    · rcases List.mem_append.mp hk with hk | hk
      · exact .inr ⟨k, hk, hmem⟩
      · rw [List.mem_singleton.mp hk] at hmem
        cases hmem
  have hthread : ∀ (j : Nat) (k : Knowledge) (c : CallId), (gs ++ [.start])[j]? = some k → k.fresh = some c →
      gs[j]? = some k := by
    intro j k c hj hc
    rw [List.getElem?_append] at hj
    split at hj
    · exact hj
    · rw [List.getElem?_singleton] at hj
      split at hj
      · cases hj
        cases hc
      · cases hj
  refine ⟨h.reachable, h.stored, fun k hk v u hu => ?_, fun c v v' hv hv' => h.home c v v' (hhome c v hv) (hhome c v' hv'),
    fun c v hv => h.old c v (hhome c v hv), fun j k c hj hc => ?_⟩
  · rcases List.mem_append.mp hk with hk | hk
    · exact h.seats k hk v u hu
    · rw [List.mem_singleton.mp hk] at hu
      cases hu
  · obtain ⟨hlt, hno, hone⟩ := h.fresh j k c (hthread j k c hj hc) hc
    exact ⟨hlt, fun v hv => hno v (hhome c v hv), fun j₁ k₁ hj₁ hc₁ => hone j₁ k₁ (hthread j₁ k₁ c hj₁ hc₁) hc₁⟩

/-- The invariant holds in every state the handlers reach. -/
theorem ordered_traffic (order : Redis → List CallId) (hdb : Chat.Reachable s.db) (hredis : s.redis = Redis.empty)
    {es : List TrafficEvent} (hes : ∀ task, .start task ∈ es → w.Covers task) :
    ∃ gs, Ordered w (Runs.final (traffic order) es ⟨s, []⟩).store gs := by
  have hstart : Ordered w s [] := by
    have hempty : ∀ c x, s.redis.session c = some x → False := by
      intro c x hx
      rw [hredis] at hx
      cases hx
    have hhome : ∀ c v, ¬ Home s [] c v := by
      rintro c v (⟨x, hx, _⟩ | ⟨g, hg, _⟩)
      · exact hempty c x hx
      · cases hg
    exact ⟨hdb, fun c x hx => (hempty c x hx).elim, fun g hg => absurd hg List.not_mem_nil,
      fun c v v' hv => absurd hv (hhome c v), fun c v hv => absurd hv (hhome c v), fun i g c hi => nomatch hi⟩
  let step := Staged.step (exec order) Task.program Happening.apply (handlerTraffic w) (fun _ => Knowledge.start)
    fun _ _ => false
  let init : Staged Call Call.Answer Exception Ack State Knowledge := ⟨⟨s, []⟩, []⟩
  have hall : Runs.Always step (fun z => Staged.Follow (handlerTraffic w) (fun r _ => ∀ a : Ack, r = .ok a → True) z ∧
      Ordered w z.pool.store z.stages) es init :=
    Staged.always_started (T := w.Covers) (w := init) (fun _ h => handles_task h) (fun _ _ _ _ h => h.start)
      (fun _ _ _ _ _ h hi hc _ => h.exec hi hc) (fun d _ _ h => h.happening d) .nil hstart hes
  have hpool : (Runs.final step es init).pool = Runs.final (traffic order) es ⟨s, []⟩ :=
    Staged.final_pool (w := init) rfl es
  have hend := hall.final.2
  rw [hpool] at hend
  exact ⟨_, hend⟩

end Invariant

/-! ## What holds of every stored session -/

section Stored

variable {s : State} {es : List TrafficEvent} {c : CallId}

/-- Whatever handlers run at the same time, a stored session is well formed and under its own id; it is
active exactly when its connection time is set, and before that its host is alone in it. -/
theorem traffic_wellFormed (order : Redis → List CallId) (hdb : Chat.Reachable s.db)
    (hredis : s.redis = Redis.empty)
    (hx : (Runs.final (traffic order) es ⟨s, []⟩).store.redis.session c = some x) :
    x.callId = c ∧ WellFormed x ∧ (x.status = .active ↔ x.connectedAt ≠ none) ∧
      (x.connectedAt = none → x.joinedIds = [x.hostId]) := by
  let w : Consent := ⟨fun _ _ => True, fun _ _ => True⟩
  have hcovers : ∀ task, .start task ∈ es → w.Covers task := by
    rintro (r | ⟨c, job⟩) _
    · cases r <;> trivial
    · trivial
  obtain ⟨gs, h⟩ := ordered_traffic order hdb hredis hcovers
  obtain ⟨hid, hfair, _⟩ := h.stored c x hx
  exact ⟨hid, hfair.wellFormed, hfair.phased.active, hfair.phased.alone⟩

/-- A group of three. -/
def groupState : State :=
  ⟨Redis.empty, (Chat.Db.empty 0 0).serve [.createGroup userA ['g'] [userB, userC]], ∅, ∅, [], []⟩

/-- A calls the group, and B and C accept at the same time, both on the session as A has stored it. -/
def twoAccepts : List TrafficEvent :=
  .start (.request (.inviteCall userA 0 none)) :: List.replicate 22 (.advance 0) ++
    [.start (.request (.acceptCall userB 0)), .start (.request (.acceptCall userC 0))] ++
    (List.replicate 14 [.advance 1, .advance 2]).flatten

/-- The join of B is lost. -/
def acceptedOnce : VoiceCallSession where
  callId := 0
  conversationId := 0
  kind := .group
  media := .audio
  hostId := userA
  memberIds := [userA, userB, userC]
  joinedIds := [userA, userC]
  declinedIds := []
  leftIds := []
  onHold := false
  heldBy := none
  forceMuted := false
  screenSharerId := none
  status := .active
  createdAt := 0
  connectedAt := some 0

theorem session_twoAccepts :
    (Runs.final (traffic keyOrder) twoAccepts ⟨groupState, []⟩).store.redis.session 0 = some acceptedOnce := by
  decide +kernel

theorem reachable_groupState : Chat.Reachable groupState.db := .serve (Chat.reachable_empty 0 0) _

theorem traffic_wellFormed_twoAccepts :
    acceptedOnce.callId = 0 ∧ WellFormed acceptedOnce ∧
      (acceptedOnce.status = .active ↔ acceptedOnce.connectedAt ≠ none) ∧
      (acceptedOnce.connectedAt = none → acceptedOnce.joinedIds = [acceptedOnce.hostId]) :=
  traffic_wellFormed keyOrder reachable_groupState rfl session_twoAccepts

/-- Nobody is connected to a call without having accepted it, or having called in the conversation. -/
theorem connected_asked (order : Redis → List CallId) (hdb : Chat.Reachable s.db)
    (hredis : s.redis = Redis.empty)
    (hx : (Runs.final (traffic order) es ⟨s, []⟩).store.redis.session c = some x) {u : UserId}
    (hu : u ∈ x.joinedIds) :
    .start (.request (.acceptCall u c)) ∈ es ∨
      ∃ media, .start (.request (.inviteCall u x.conversationId media)) ∈ es := by
  let w : Consent :=
    ⟨fun c u => .start (.request (.acceptCall u c)) ∈ es,
      fun v u => ∃ media, .start (.request (.inviteCall u v media)) ∈ es⟩
  have hcovers : ∀ task, .start task ∈ es → w.Covers task := by
    rintro (r | ⟨c, job⟩) hstart
    · cases r with
      | acceptCall u c => exact hstart
      | inviteCall u v media => exact ⟨media, hstart⟩
      | _ => trivial
    · trivial
  obtain ⟨gs, h⟩ := ordered_traffic order hdb hredis hcovers
  obtain ⟨rfl, hfair, _⟩ := h.stored c x hx
  exact hfair.asked u hu

theorem connected_asked_twoAccepts :
    .start (.request (.acceptCall userC 0)) ∈ twoAccepts ∨
      ∃ media, .start (.request (.inviteCall userC acceptedOnce.conversationId media)) ∈ twoAccepts :=
  connected_asked keyOrder reachable_groupState rfl session_twoAccepts (u := userC) (by decide)

/-- Every user of a call has, or has had, a membership of its conversation. -/
theorem members_enrolled (order : Redis → List CallId) (hdb : Chat.Reachable s.db)
    (hredis : s.redis = Redis.empty)
    (hx : (Runs.final (traffic order) es ⟨s, []⟩).store.redis.session c = some x) {u : UserId}
    (hu : u ∈ x.memberIds) : Enrolled (Runs.final (traffic order) es ⟨s, []⟩).store.db x.conversationId u := by
  let w : Consent := ⟨fun _ _ => True, fun _ _ => True⟩
  have hcovers : ∀ task, .start task ∈ es → w.Covers task := by
    rintro (r | ⟨c, job⟩) _
    · cases r <;> trivial
    · trivial
  obtain ⟨gs, h⟩ := ordered_traffic order hdb hredis hcovers
  exact (h.stored c x hx).2.2 u hu

theorem members_enrolled_twoAccepts : Enrolled
    (Runs.final (traffic keyOrder) twoAccepts ⟨groupState, []⟩).store.db acceptedOnce.conversationId userB :=
  members_enrolled keyOrder reachable_groupState rfl session_twoAccepts (u := userB) (by decide)

end Stored

end Relay.Gateway.ChatGateway
