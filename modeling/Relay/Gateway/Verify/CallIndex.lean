import Relay.Lib.Pool
import Relay.Gateway.Verify.CallLocks

/-!
# Lookups after keys have expired

Keys expire at any time, also between the commands of an operation: `happen` serves one operation after
the other while arbitrary call keys are lost. What survives is that a conversation has at most one
stored session (`Sound`). It is kept because an operation stores a session only when it knows that no
other call of the conversation is stored, and a loss does not make that false. `getByConversation` then
finds the session by its index or by the scan (`lookup_recovers`).
-/

namespace Relay.Gateway.CallSession

open Relay.Lib Prog

/-! ## Operations while keys are lost -/

inductive Key where
  | session (c : CallId)
  | user (u : UserId)
  | convo (v : ConversationId)

def Key.del : Key → Cmd
  | session c => .delSession c
  | user u => .delUser u
  | convo v => .delConvo v

/-- The keys are lost or have expired. -/
def Redis.lose (s : Redis) (keys : List Key) : Redis := applyAll s (keys.map Key.del)

/-- What the service runs for an operation. -/
def Op.program : Op → M Unit
  | .createCall input => (fun _ => ()) <$> CallSession.createCall input
  | .accept c u => (fun _ => ()) <$> CallSession.accept c u
  | .decline c u => (fun _ => ()) <$> CallSession.decline c u
  | .leave c u => (fun _ => ()) <$> CallSession.leave c u
  | .revokeUserFromConversation v u => (fun _ => ()) <$> CallSession.revokeUserFromConversation v u
  | .inviteMore c actor userIds allowed =>
    (fun _ => ()) <$> CallSession.inviteMore c actor userIds allowed
  | .markUnansweredAsLeft c userIds => (fun _ => ()) <$> CallSession.markUnansweredAsLeft c userIds
  | .setHold c actor onHold => (fun _ => ()) <$> CallSession.setHold c actor onHold
  | .setForceMute c actor muted => (fun _ => ()) <$> CallSession.setForceMute c actor muted
  | .setScreenShare c actor active => (fun _ => ()) <$> CallSession.setScreenShare c actor active
  | .clearUserBusy u c => CallSession.clearUserBusy u c
  | .end c => (fun _ => ()) <$> CallSession.end c
  | .get c => (fun _ => ()) <$> CallSession.get c
  | .getByConversation v => (fun _ => ()) <$> CallSession.getByConversation v
  | .getActiveCallIdForUser u => (fun _ => ()) <$> CallSession.getActiveCallIdForUser u
  | .elapse _ => return ()

/-- One operation, with the keys lost after each of its commands, or a loss between two operations. -/
inductive KeyEvent where
  | serve (op : Op) (losses : List (List Key))
  | lose (keys : List Key)

variable (order : Redis → List CallId)

def happen : KeyEvent → Redis → Redis
  | .serve (.elapse d) _, s => { s with now := s.now + d }
  | .serve op losses, s => (runUnder (exec order) (fun keys s => s.lose keys) op.program losses s).2
  | .lose keys, s => s.lose keys

/-! ## One session a conversation -/

/-- Stored sessions are live, under their own id, and no two are of one conversation. -/
structure Sound (s : Redis) : Prop where
  callId_eq : ∀ {c x}, s.session c = some x → x.callId = c
  live : ∀ {c x}, s.session c = some x → Live x
  one : ∀ {c c' x y}, s.session c = some x → s.session c' = some y →
    x.conversationId = y.conversationId → c = c'

theorem sound_empty : Sound Redis.empty where
  callId_eq h := by cases h
  live h := by cases h
  one h := by cases h

/-- The later store has no other sessions than the earlier one. -/
def Redis.Sheds (s t : Redis) : Prop := ∀ c x, t.session c = some x → s.session c = some x

theorem Redis.Sheds.refl (s : Redis) : s.Sheds s := fun _ _ h => h

theorem Redis.Sheds.trans {s t u : Redis} (h : s.Sheds t) (h' : t.Sheds u) : s.Sheds u :=
  fun c x hx => h c x (h' c x hx)

theorem Sound.sheds {s t : Redis} (h : Sound s) (ht : s.Sheds t) : Sound t where
  callId_eq hx := h.callId_eq (ht _ _ hx)
  live hx := h.live (ht _ _ hx)
  one hx hy := h.one (ht _ _ hx) (ht _ _ hy)

/-- Commands that store no session. -/
def Shedding (cmds : List Cmd) : Prop := ∀ x, Cmd.setSession x ∉ cmds

theorem sheds_apply {k : Cmd} (hk : ∀ x, k ≠ .setSession x) (s : Redis) : s.Sheds (k.apply s) := by
  intro c x hx
  cases k with
  | setSession y => exact absurd rfl (hk y)
  | delSession c' =>
    rw [Redis.session_delSession] at hx
    split at hx
    · cases hx
    · exact hx
  | _ => exact hx

theorem Shedding.applyAll {cmds : List Cmd} (h : Shedding cmds) (s : Redis) :
    s.Sheds (applyAll s cmds) := by
  induction cmds generalizing s with
  | nil => exact .refl s
  | cons k cmds ih =>
    have hk : ∀ x, k ≠ .setSession x := fun x hx => h x (hx ▸ List.mem_cons_self)
    have hrest : Shedding cmds := fun x hx => h x (List.mem_cons_of_mem _ hx)
    exact (sheds_apply hk s).trans (ih hrest (k.apply s))

theorem sheds_lose (keys : List Key) (s : Redis) : s.Sheds (s.lose keys) := by
  refine Shedding.applyAll (fun x hx => ?_) s
  obtain ⟨key, _, hkey⟩ := List.mem_map.mp hx
  cases key <;> cases hkey

/-- No call of the conversation is stored but possibly the one with this id. -/
def Redis.Only (s : Redis) (v : ConversationId) (c : CallId) : Prop :=
  ∀ c' y, s.session c' = some y → y.conversationId = v → c' = c

/-- No call of the conversation is stored. -/
def Redis.Free (s : Redis) (v : ConversationId) : Prop :=
  ∀ c y, s.session c = some y → y.conversationId ≠ v

/-- What an operation knows of a session it may store. -/
structure Fits (s : Redis) (x : VoiceCallSession) : Prop where
  live : Live x
  only : s.Only x.conversationId x.callId

theorem Fits.sheds {s t : Redis} {x : VoiceCallSession} (h : Fits s x) (ht : s.Sheds t) : Fits t x :=
  ⟨h.live, fun c y hy => h.only c y (ht c y hy)⟩

theorem Fits.edits {s : Redis} {x y : VoiceCallSession} (h : Fits s x) (hxy : Edits x y) : Fits s y :=
  ⟨hxy.live, by rw [hxy.conversationId, hxy.callId]; exact h.only⟩

theorem Redis.Free.sheds {s t : Redis} {v : ConversationId} (h : s.Free v) (ht : s.Sheds t) :
    t.Free v := fun c y hy => h c y (ht c y hy)

theorem Sound.fits {s : Redis} (h : Sound s) {c : CallId} {x : VoiceCallSession}
    (hx : s.session c = some x) : x.callId = c ∧ Fits s x :=
  ⟨h.callId_eq hx, h.live hx, fun _ _ hy hv => (h.one hy hx hv).trans (h.callId_eq hx).symm⟩

/-- An operation deletes keys and rewrites the busy and index keys as it likes, and stores a session
that fits. -/
def Legal (s : Redis) : Call → Prop
  | .pipeline cmds => Shedding cmds ∨ ∃ x, cmds = persistCmds x ∧ Fits s x
  | _ => True

theorem Sound.store {s : Redis} (h : Sound s) {x : VoiceCallSession} (hx : Fits s x) :
    Sound (s.store x) := by
  constructor
  case callId_eq =>
    intro c y hy
    rcases Redis.session_store_cases hy with ⟨rfl, rfl⟩ | ⟨_, hy⟩
    · rfl
    · exact h.callId_eq hy
  case live =>
    intro c y hy
    rcases Redis.session_store_cases hy with ⟨rfl, rfl⟩ | ⟨_, hy⟩
    · exact hx.live
    · exact h.live hy
  case one =>
    intro c c' y z hy hz hv
    rcases Redis.session_store_cases hy with ⟨rfl, rfl⟩ | ⟨_, hy'⟩ <;> rcases Redis.session_store_cases hz with ⟨rfl, rfl⟩ | ⟨_, hz'⟩
    · rfl
    · exact (hx.only c' z hz' hv.symm).symm
    · exact hx.only c y hy' hv
    · exact h.one hy' hz' hv

variable {order}

theorem Sound.exec {s : Redis} (h : Sound s) {c : Call} (hc : Legal s c) :
    Sound (CallSession.exec order c s).2 := by
  cases c with
  | pipeline cmds =>
    rcases hc with hc | ⟨x, rfl, hx⟩
    · exact h.sheds (hc.applyAll s)
    · exact h.store hx
  | _ => exact ⟨h.callId_eq, h.live, h.one⟩

/-! ## The operations store what fits -/

/-- The program makes legal calls whatever keys are lost, and what it returns satisfies `Q`. -/
abbrev Keeps {α : Type} (order : Redis → List CallId) (Q : α → Redis → Prop) (p : M α) (s : Redis) :
    Prop := Guards (CallSession.exec order) Sound Redis.Sheds Legal Q p s

/-- Calls that store no session. -/
def SheddingCall : Call → Prop
  | .pipeline cmds => Shedding cmds
  | _ => True

theorem SheddingCall.exec {c : Call} (h : SheddingCall c) (s : Redis) :
    s.Sheds (CallSession.exec order c s).2 := by
  cases c with
  | pipeline cmds => exact h.applyAll s
  | _ => exact .refl s

section Keeps

variable {α β : Type} {s s₀ : Redis}

theorem keeps_ret {Q : α → Redis → Prop} {a : α} (h : Q a s) : Keeps order Q (ret a) s := h

/-- A part that stores no session. -/
theorem keeps_shedding {p : M α} (h : Sat (fun _ _ => True) SheddingCall p) (hs : s₀.Sheds s) :
    Keeps order (fun _ t => s₀.Sheds t) p s := by
  induction p generalizing s with
  | ret a => exact hs
  | fail e => trivial
  | call c k ih =>
    intro s' hI hle
    refine ⟨?_, ih _ (h.2 _ trivial) ((hs.trans hle).trans (SheddingCall.exec h.1 s'))⟩
    cases c with
    | pipeline cmds => exact .inl h.1
    | _ => trivial

theorem keeps_skip {p : M α} {f : α → M β} {Q : β → Redis → Prop}
    (hp : Sat (fun _ _ => True) SheddingCall p) (hf : ∀ a t, s.Sheds t → Keeps order Q (f a) t) :
    Keeps order Q (p >>= f) s := guards_bind (keeps_shedding hp (.refl s)) hf

theorem shedding_command {cmd : Cmd} (h : ∀ x, cmd ≠ .setSession x) :
    Sat (fun _ _ => True) SheddingCall (command cmd) :=
  sat_perform (show Shedding [cmd] from fun x hx => h x (List.mem_singleton.mp hx).symm)

theorem shedding_clearUserBusy (u : UserId) (c : Option CallId) :
    Sat (fun _ _ => True) SheddingCall (clearUserBusy u c) := by
  refine sat_bind (sat_perform trivial) fun current => ?_
  cases current with
  | none => trivial
  | some current =>
    cases c with
    | none => exact shedding_command nofun
    | some c =>
      dsimp only
      split
      · exact shedding_command nofun
      · trivial

theorem shedding_getActiveCallIdForUser (u : UserId) :
    Sat (fun _ _ => True) SheddingCall (getActiveCallIdForUser u) := sat_perform trivial

/-- What a loaded session tells of the store. -/
theorem keeps_get (c : CallId) :
    Keeps order (fun o t => s.Sheds t ∧ (∀ x, o = some x → x.callId = c ∧ Fits t x) ∧
      (o = none → t.session c = none)) (get c) s := by
  refine guards_bind (Q := fun o t => s.Sheds t ∧ (∀ x, o = some x → x.callId = c ∧ Fits t x) ∧
    (o = none → t.session c = none)) (guards_perform fun s' hI hle => ⟨trivial, ?_⟩) ?_
  · rintro o ⟨⟩
    exact ⟨hle, fun x hx => hI.fits hx, id⟩
  · rintro (_ | x) t ⟨hst, hsome, hnone⟩
    · exact ⟨hst, nofun, hnone⟩
    · obtain ⟨hid, hfits⟩ := hsome x rfl
      have hdone : ∀ t', t.Sheds t' → s.Sheds t' ∧ (∀ y, some x = some y → y.callId = c ∧ Fits t' y) ∧
          (some x = none → t'.session c = none) := by
        refine fun t' ht' => ⟨hst.trans ht', ?_, nofun⟩
        rintro _ ⟨⟩
        exact ⟨hid, hfits.sheds ht'⟩
      dsimp only
      split
      · refine keeps_skip (sat_perform trivial) fun indexed t' ht' => ?_
        split
        · exact keeps_skip (shedding_command nofun) fun _ t'' ht'' => hdone t'' (ht'.trans ht'')
        · exact hdone t' ht'
      · exact hdone t (.refl t)

theorem shedding_endCmds (c : CallId) (x : VoiceCallSession) : Shedding (endCmds c x) := by
  intro y hy
  rcases List.mem_cons.mp hy with hy | hy
  · cases hy
  · rcases List.mem_cons.mp hy with hy | hy
    · cases hy
    · obtain ⟨_, _, hy⟩ := List.mem_map.mp hy
      cases hy

theorem keeps_end (c : CallId) :
    Keeps order (fun _ t => s.Sheds t ∧ t.session c = none) («end» c) s := by
  refine guards_bind (keeps_get c) ?_
  rintro (_ | x) t ⟨hst, hsome, hnone⟩
  · exact ⟨hst, hnone rfl⟩
  · refine guards_bind (Q := fun _ t' => s.Sheds t' ∧ t'.session c = none)
      (guards_perform fun t' hI hle => ⟨.inl (shedding_endCmds c x), ?_⟩) fun _ _ h => h
    rintro _ ⟨⟩
    refine ⟨(hst.trans hle).trans ((shedding_endCmds c x).applyAll t'), ?_⟩
    have hgone : (Cmd.apply t' (.delSession c)).session c = none := by simp
    have hrest : Shedding (.delConvo x.conversationId :: x.memberIds.map .delUser) :=
      fun y hy => shedding_endCmds c x y (List.mem_cons_of_mem _ hy)
    rw [Option.eq_none_iff_forall_ne_some]
    intro y hy
    have := hrest.applyAll (Cmd.apply t' (.delSession c)) c y hy
    rw [hgone] at this
    cases this

/-- What a lookup tells of the calls of a conversation. -/
def Found (v : ConversationId) (s : Redis) (o : Option VoiceCallSession) (t : Redis) : Prop :=
  s.Sheds t ∧ (∀ x, o = some x → x.conversationId = v ∧ Fits t x) ∧ (o = none → t.Free v)

theorem Found.sheds {v : ConversationId} {o : Option VoiceCallSession} {t : Redis}
    (hs : s₀.Sheds s) (h : Found v s o t) : Found v s₀ o t := ⟨hs.trans h.1, h.2⟩

/-- The scan has seen every stored session. -/
theorem keeps_findIn {v : ConversationId} {cs : List CallId}
    (h : ∀ c y, s.session c = some y → y.conversationId = v → c ∈ cs) :
    Keeps order (Found v s) (findIn v cs) s := by
  induction cs generalizing s with
  | nil => exact ⟨.refl s, nofun, fun _ c y hy hv => absurd (h c y hy hv) List.not_mem_nil⟩
  | cons c cs ih =>
    refine guards_bind (Q := fun o t => s.Sheds t ∧ (∀ x, o = some x → Fits t x) ∧
      o = t.session c ∧ Sound t) (guards_perform fun s' hI hle => ⟨trivial, ?_⟩) ?_
    · rintro o ⟨⟩
      exact ⟨hle, fun x hx => (hI.fits hx).2, rfl, hI⟩
    · rintro (_ | x) t ⟨hst, hfits, hx, hI⟩
      · refine (ih fun c' y hy hv => ?_).mono fun o u hu => hu.sheds hst
        rcases List.mem_cons.mp (h c' y (hst c' y hy) hv) with rfl | hmem
        · rw [hy] at hx
          cases hx
        · exact hmem
      · dsimp only
        split
        · next hthis =>
          refine keeps_skip (shedding_command nofun) fun _ u hu => ⟨hst.trans hu, ?_, nofun⟩
          rintro _ ⟨⟩
          exact ⟨hthis.1, (hfits x rfl).sheds hu⟩
        · next hother =>
          refine (ih fun c' y hy hv => ?_).mono fun o u hu => hu.sheds hst
          rcases List.mem_cons.mp (h c' y (hst c' y hy) hv) with rfl | hmem
          · rw [hy] at hx
            cases hx
            exact absurd ⟨hv, (hI.live hy).not_ended, (hI.live hy).joined_ne_nil⟩ hother
          · exact hmem

/-- A full iteration of `SCAN` yields every key that is there throughout. -/
def Scans (order : Redis → List CallId) : Prop := ∀ s c x, s.session c = some x → c ∈ order s

theorem keeps_findSessionByConversation (hscan : Scans order) (v : ConversationId) :
    Keeps order (Found v s) (findSessionByConversation v) s := by
  refine guards_bind (Q := fun cs t => s.Sheds t ∧
    ∀ c y, t.session c = some y → y.conversationId = v → c ∈ cs)
    (guards_perform fun s' _ hle => ⟨trivial, ?_⟩) fun cs t ⟨hst, hall⟩ =>
      (keeps_findIn hall).mono fun o u hu => hu.sheds hst
  rintro cs ⟨⟩
  exact ⟨hle, fun c y hy _ => hscan s' c y hy⟩

theorem keeps_getByConversation (hscan : Scans order) (v : ConversationId) :
    Keeps order (Found v s) (getByConversation v) s := by
  have hrecover : ∀ t, s.Sheds t → Keeps order (Found v s)
      (command (.delConvo v) >>= fun _ => findSessionByConversation v) t := fun t ht =>
    keeps_skip (shedding_command nofun) fun _ u hu =>
      (keeps_findSessionByConversation hscan v).mono fun o w hw => hw.sheds (ht.trans hu)
  refine keeps_skip (sat_perform trivial) fun found t ht => ?_
  cases found with
  | none => exact (keeps_findSessionByConversation hscan v).mono fun o w hw => hw.sheds ht
  | some c =>
    refine guards_bind (keeps_get c) ?_
    rintro (_ | x) u ⟨htu, hsome, _⟩
    · exact hrecover u (ht.trans htu)
    · dsimp only
      split
      · next hthis =>
        refine ⟨ht.trans htu, ?_, nofun⟩
        rintro _ ⟨⟩
        exact ⟨hthis.1, (hsome x rfl).2⟩
      · exact hrecover u (ht.trans htu)

theorem shedding_get (c : CallId) : Sat (fun _ _ => True) SheddingCall (get c) := by
  refine sat_bind (sat_perform trivial) fun found => ?_
  cases found with
  | none => trivial
  | some x =>
    dsimp only
    split
    · refine sat_bind (sat_perform trivial) fun indexed => ?_
      split
      · exact sat_bind (shedding_command nofun) fun _ => trivial
      · trivial
    · trivial

theorem shedding_hostBusy (u : UserId) : Sat (fun _ _ => True) SheddingCall (hostBusy u) := by
  have hclear : ∀ (c : CallId) (b : Bool), Sat (fun _ _ => True) SheddingCall
      (clearUserBusy u (some c) >>= fun _ => (return b : M Bool)) :=
    fun c b => sat_bind (shedding_clearUserBusy u (some c)) fun _ => trivial
  refine sat_bind (shedding_getActiveCallIdForUser u) fun busyHost => ?_
  cases busyHost with
  | none => trivial
  | some busyHost =>
    refine sat_bind (shedding_get busyHost) fun existing => ?_
    cases existing with
    | none => exact hclear busyHost false
    | some existing =>
      dsimp only
      split
      · exact hclear busyHost false
      · split
        · trivial
        · exact hclear busyHost false

/-- A call is started only when no other call of the conversation is stored. -/
theorem keeps_convoBusy (hscan : Scans order) (input : CreateCall) :
    Keeps order (fun busy t => busy = false → t.Free input.conversationId) (convoBusy input) s := by
  refine guards_bind (keeps_getByConversation hscan input.conversationId) ?_
  rintro (_ | x) t ⟨_, hsome, hnone⟩
  · exact fun _ => hnone rfl
  · obtain ⟨hv, hfits⟩ := hsome x rfl
    dsimp only
    split
    · refine guards_bind (keeps_end x.callId) fun _ u ⟨htu, hgone⟩ _ c y hy hyv => ?_
      rw [(hfits.sheds htu).only c y hy (hyv.trans hv.symm), hgone] at hy
      cases hy
    · exact nofun

theorem shedding_otherBusy (input : CreateCall) :
    Sat (fun _ _ => True) SheddingCall (otherBusy input) := by
  unfold otherBusy
  split
  · split
    · trivial
    · exact sat_bind (shedding_getActiveCallIdForUser _) fun _ => trivial
  · trivial

theorem keeps_persist {x : VoiceCallSession} (hx : Fits s x) :
    Keeps order (fun _ _ => True) (persist x) s :=
  guards_perform fun _ _ hle => ⟨.inr ⟨x, rfl, hx.sheds hle⟩, fun _ _ => trivial⟩

/-- The session a call starts with. -/
theorem live_newSession (input : CreateCall) (c : CallId) (now : Time) :
    Live (input.newSession c now) where
  not_ended := nofun
  joined_ne_nil := by simp [CreateCall.newSession]
  joined_sub u hu := by
    rw [List.mem_singleton.mp hu]
    exact mem_members input
  host_mem := mem_members input

theorem keeps_createCall (hscan : Scans order) (input : CreateCall) :
    Keeps order (fun _ _ => True) (createCall input) s := by
  refine keeps_skip (shedding_hostBusy _) fun busy t _ => ?_
  split
  · exact keeps_ret trivial
  refine guards_bind (keeps_convoBusy hscan input) fun busy u hfree => ?_
  split
  · exact keeps_ret trivial
  next hconvo =>
  split
  · exact keeps_ret trivial
  refine keeps_skip (shedding_otherBusy input) fun busy v huv => ?_
  split
  · exact keeps_ret trivial
  refine keeps_skip (sat_perform trivial) fun callId w hvw =>
    keeps_skip (sat_perform trivial) fun now z hwz => ?_
  have hz := (hfree (by simpa using hconvo)).sheds ((huv.trans hvw).trans hwz)
  refine guards_bind (keeps_persist ⟨live_newSession input callId now, fun c y hy hv => ?_⟩)
    fun _ t' _ => keeps_skip (shedding_command nofun) fun _ _ _ => keeps_ret trivial
  exact absurd hv (hz c y hy)

/-- An operation on the session it has loaded. -/
theorem keeps_load {c : CallId} {f : Option VoiceCallSession → M β}
    (hnone : ∀ t, Keeps order (fun _ _ => True) (f none) t)
    (hsome : ∀ x t, x.callId = c → Fits t x → Keeps order (fun _ _ => True) (f (some x)) t) :
    Keeps order (fun _ _ => True) (get c >>= f) s := by
  refine guards_bind (keeps_get c) ?_
  rintro (_ | x) t ⟨_, hx, _⟩
  · exact hnone t
  · obtain ⟨hid, hfits⟩ := hx x rfl
    exact hsome x t hid hfits

/-- Ending a call at the end of an operation. -/
theorem keeps_ends {c : CallId} (f : Option VoiceCallSession → M β)
    (hf : ∀ o t, Keeps order (fun _ _ => True) (f o) t) :
    Keeps order (fun _ _ => True) («end» c >>= f) s :=
  guards_bind (keeps_end c) fun o t _ => hf o t

/-- Storing a session at the end of an operation, with its index once more. -/
theorem keeps_stores {x : VoiceCallSession} (hx : Fits s x) {f : Unit → M β}
    (hf : ∀ t, Keeps order (fun _ _ => True) (f ()) t) :
    Keeps order (fun _ _ => True) (persist x >>= f) s :=
  guards_bind (keeps_persist hx) fun _ t _ => hf t

theorem keeps_index {v : ConversationId} {c : CallId} {a : β} :
    Keeps order (fun _ _ => True) (command (.setConvo v c) >>= fun _ => (return a : M β)) s :=
  keeps_skip (shedding_command nofun) fun _ _ _ => keeps_ret trivial

theorem keeps_accept (c : CallId) (u : UserId) :
    Keeps order (fun _ _ => True) (accept c u) s := by
  refine keeps_load (fun t => keeps_ret trivial) fun x t hid hx => ?_
  dsimp only
  split
  · exact keeps_ret trivial
  split
  · exact keeps_ret trivial
  next hmember =>
  split
  · exact keeps_ret trivial
  split
  · exact keeps_ret trivial
  refine keeps_skip (shedding_getActiveCallIdForUser u) fun busy t₁ h₁ => ?_
  split
  · exact keeps_ret trivial
  refine keeps_skip (sat_perform trivial) fun now t₂ h₂ => ?_
  have hu : u ∈ x.memberIds := by simpa [isMember] using hmember
  exact keeps_stores ((hx.edits (edits_joined hx.live hu now)).sheds (h₁.trans h₂))
    fun t => keeps_index

theorem keeps_decline (c : CallId) (u : UserId) :
    Keeps order (fun _ _ => True) (decline c u) s := by
  refine keeps_load (fun t => keeps_ret trivial) fun x t hid hx => ?_
  dsimp only
  split
  · exact keeps_ret trivial
  split
  · exact keeps_ret trivial
  split
  · exact keeps_ends _ fun _ _ => keeps_ret trivial
  · exact keeps_stores (hx.edits (edits_declined hx.live u)) fun t => keeps_ret trivial

theorem keeps_leave (c : CallId) (u : UserId) :
    Keeps order (fun _ _ => True) (leave c u) s := by
  refine keeps_load (fun t => keeps_ret trivial) fun x t hid hx => ?_
  dsimp only
  split
  · exact keeps_ret trivial
  refine keeps_skip (shedding_command nofun) fun _ t₁ h₁ => ?_
  split
  · exact keeps_ends _ fun _ _ => keeps_ret trivial
  next hjoined =>
  split
  · exact keeps_ends _ fun _ _ => keeps_ret trivial
  have hne : (left x u).joinedIds ≠ [] := fun h => hjoined (by rw [h]; rfl)
  exact keeps_stores ((hx.edits (edits_left hx.live hne)).sheds h₁) fun t => keeps_index

theorem keeps_revokeUserFromConversation (hscan : Scans order) (v : ConversationId) (u : UserId) :
    Keeps order (fun _ _ => True) (revokeUserFromConversation v u) s := by
  refine guards_bind (keeps_getByConversation hscan v) ?_
  rintro (_ | x) t ⟨_, hsome, _⟩
  · exact keeps_ret trivial
  · obtain ⟨_, hx⟩ := hsome x rfl
    dsimp only
    split
    · exact keeps_ret trivial
    split
    · exact keeps_ret trivial
    refine keeps_skip (shedding_command nofun) fun _ t₁ h₁ => ?_
    split
    · exact keeps_ends _ fun _ _ => keeps_ret trivial
    next hjoined =>
    have hne : (revoked x u).joinedIds ≠ [] := fun h => hjoined (.inl (by rw [h]; rfl))
    exact keeps_stores ((hx.edits (edits_revoked hx.live hne)).sheds h₁) fun t => keeps_index

theorem keeps_inviteLoop {x y : VoiceCallSession} (c : CallId) (ids us : List UserId)
    (hx : Edits y x) :
    Keeps order (fun r t => s.Sheds t ∧ Edits y r.1) (inviteLoop c x ids us) s := by
  induction us generalizing s x ids with
  | nil => exact ⟨.refl s, hx⟩
  | cons u us ih =>
    unfold inviteLoop
    split
    · exact ih ids hx
    refine keeps_skip (shedding_getActiveCallIdForUser u) fun busy t ht => ?_
    have hrest : ∀ x' ids', Edits y x' →
        Keeps order (fun r t => s.Sheds t ∧ Edits y r.1) (inviteLoop c x' ids' us) t :=
      fun x' ids' hx' => (ih ids' hx').mono fun r t' hr => ⟨ht.trans hr.1, hr.2⟩
    split
    · exact hrest x ids hx
    split
    · exact hrest x ids hx
    · exact hrest _ _ (edits_invited hx u).1

theorem keeps_inviteMore (c : CallId) (actor : UserId) (userIds allowed : List UserId) :
    Keeps order (fun _ _ => True) (inviteMore c actor userIds allowed) s := by
  refine keeps_load (fun t => keeps_ret trivial) fun x t hid hx => ?_
  dsimp only
  split
  · exact keeps_ret trivial
  split
  · exact keeps_ret trivial
  split
  · exact keeps_ret trivial
  split
  · exact keeps_ret trivial
  refine guards_bind (keeps_inviteLoop c [] _ ⟨rfl, rfl, hx.live⟩) ?_
  rintro ⟨x', invitedIds⟩ t₁ ⟨h₁, hedits⟩
  dsimp only
  split
  · exact keeps_ret trivial
  exact keeps_stores ((hx.edits hedits).sheds h₁) fun t => keeps_ret trivial

/-- Whoever is marked as left, the session is otherwise as it was. -/
theorem keeps_markLoop {x y : VoiceCallSession} (c : CallId) (changed : Bool) (us : List UserId)
    (hx : Edits y x) :
    Keeps order (fun r t => s.Sheds t ∧ Edits y r.1) (markLoop c x changed us) s := by
  induction us generalizing s x changed with
  | nil => exact ⟨.refl s, hx⟩
  | cons u us ih =>
    unfold markLoop
    split
    · exact ih changed hx
    refine keeps_skip (shedding_clearUserBusy u (some c)) fun _ t ht => ?_
    split
    · exact (ih changed hx).mono fun r t' hr => ⟨ht.trans hr.1, hr.2⟩
    · refine (ih true ?_).mono fun r t' hr => ⟨ht.trans hr.1, hr.2⟩
      have hlive := hx.live
      exact ⟨hx.callId, hx.conversationId, hlive.not_ended, hlive.joined_ne_nil,
        hlive.joined_sub, hlive.host_mem⟩

theorem keeps_markUnansweredAsLeft (c : CallId) (userIds : List UserId) :
    Keeps order (fun _ _ => True) (markUnansweredAsLeft c userIds) s := by
  refine keeps_load (fun t => keeps_ret trivial) fun x t hid hx => ?_
  dsimp only
  split
  · exact keeps_ret trivial
  refine guards_bind (keeps_markLoop c false userIds ⟨rfl, rfl, hx.live⟩) ?_
  rintro ⟨x', changed⟩ t₁ ⟨h₁, hedits⟩
  dsimp only
  split
  · exact keeps_ret trivial
  exact keeps_stores ((hx.edits hedits).sheds h₁) fun t => keeps_ret trivial

theorem keeps_control (c : CallId) {f : VoiceCallSession → Except String VoiceCallSession}
    (hf : Controls f) : Keeps order (fun _ _ => True) (control c f) s := by
  refine keeps_load (fun t => keeps_ret trivial) fun x t hid hx => ?_
  dsimp only
  split
  · exact keeps_ret trivial
  split
  · exact keeps_ret trivial
  · next x' hx' =>
    exact keeps_stores (hx.edits (hf.edits hx' hx.live).1) fun t => keeps_ret trivial

/-- No operation stores a second session of a conversation. -/
theorem Op.keeps (hscan : Scans order) (op : Op) (s : Redis) :
    Keeps order (fun _ _ => True) op.program s := by
  have hmap : ∀ {γ : Type} {p : M γ} {Q : γ → Redis → Prop}, Keeps order Q p s →
      Keeps order (fun _ _ => True) ((fun _ => ()) <$> p) s :=
    fun h => guards_bind h fun _ _ _ => keeps_ret trivial
  cases op with
  | createCall input => exact hmap (keeps_createCall hscan input)
  | accept c u => exact hmap (keeps_accept c u)
  | decline c u => exact hmap (keeps_decline c u)
  | leave c u => exact hmap (keeps_leave c u)
  | revokeUserFromConversation v u => exact hmap (keeps_revokeUserFromConversation hscan v u)
  | inviteMore c actor userIds allowed => exact hmap (keeps_inviteMore c actor userIds allowed)
  | markUnansweredAsLeft c userIds => exact hmap (keeps_markUnansweredAsLeft c userIds)
  | setHold c actor onHold => exact hmap (keeps_control c (controls_held actor onHold))
  | setForceMute c actor muted => exact hmap (keeps_control c (controls_forceMute actor muted))
  | setScreenShare c actor active =>
    exact hmap (keeps_control c (controls_screenShare actor active))
  | clearUserBusy u c =>
    exact (keeps_shedding (shedding_clearUserBusy u c) (.refl s)).mono fun _ _ _ => trivial
  | «end» c => exact hmap (keeps_end c)
  | get c => exact hmap (keeps_get c)
  | getByConversation v => exact hmap (keeps_getByConversation hscan v)
  | getActiveCallIdForUser u =>
    exact hmap (keeps_shedding (shedding_getActiveCallIdForUser u) (.refl s))
  | elapse d => exact keeps_ret trivial

end Keeps

theorem Sound.happen (hscan : Scans order) {s : Redis} (h : Sound s) (e : KeyEvent) :
    Sound (happen order e s) := by
  have hserve : ∀ (op : Op) losses, Sound (runUnder (CallSession.exec order)
      (fun keys s => s.lose keys) op.program losses s).2 := fun op losses =>
    (op.keeps hscan s).runUnder Redis.Sheds.refl (fun _ _ hI hL => hI.exec hL)
      (fun keys s hI => ⟨hI.sheds (sheds_lose keys s), sheds_lose keys s⟩) h (.refl s) losses
  cases e with
  | serve op losses =>
    cases op with
    | elapse d => exact ⟨h.callId_eq, h.live, h.one⟩
    | _ => exact hserve _ losses
  | lose keys => exact h.sheds (sheds_lose keys s)

/-! ## What a lookup returns -/

section Lookup

variable {s : Redis}

/-- Two stores with the same sessions. -/
def Redis.SameSessions (s t : Redis) : Prop := ∀ c, t.session c = s.session c

theorem run_get_sessions (c : CallId) :
    ∃ t, run (exec order) (get c) s = (.ok (s.session c), t) ∧ s.SameSessions t := by
  unfold get
  rw [run_bind_ok _ (run_getSession c)]
  rcases s.session c with _ | x
  · exact ⟨s, rfl, fun _ => rfl⟩
  · dsimp only
    split
    · rw [run_bind_ok _ (run_getConvo _)]
      split
      · rw [run_bind_ok _ (run_command _)]
        exact ⟨_, rfl, fun _ => rfl⟩
      · exact ⟨s, rfl, fun _ => rfl⟩
    · exact ⟨s, rfl, fun _ => rfl⟩

/-- The lookup answers with the live call of the conversation, if there is one. -/
def Answers (s : Redis) (v : ConversationId) (o : Option VoiceCallSession) : Prop :=
  ∀ x, o = some x ↔ (∃ c, s.session c = some x) ∧ x.conversationId = v ∧ x.status ≠ .ended

theorem Answers.same {t : Redis} (h : s.SameSessions t) {v : ConversationId}
    {o : Option VoiceCallSession} (ho : Answers t v o) : Answers s v o := by
  intro x
  rw [ho x]
  simp only [h _]

theorem Answers.eq {v : ConversationId} {o o' : Option VoiceCallSession} (h : Answers s v o)
    (h' : Answers s v o') : o = o' := by
  cases o with
  | some x => exact ((h' x).mpr ((h x).mp rfl)).symm
  | none =>
    cases o' with
    | none => rfl
    | some x => exact (h x).mpr ((h' x).mp rfl)

theorem Sound.answers (h : Sound s) {c : CallId} {x : VoiceCallSession}
    (hx : s.session c = some x) : Answers s x.conversationId (some x) := by
  intro y
  constructor
  · rintro ⟨⟩
    exact ⟨⟨c, hx⟩, rfl, (h.live hx).not_ended⟩
  · rintro ⟨⟨c', hy⟩, hv, _⟩
    obtain rfl := h.one hx hy hv.symm
    exact hx.symm.trans hy

theorem run_findIn_answers (h : Sound s) {v : ConversationId} {cs : List CallId}
    (hcs : ∀ c y, s.session c = some y → y.conversationId = v → c ∈ cs) :
    ∃ o t, run (exec order) (findIn v cs) s = (.ok o, t) ∧ Answers s v o := by
  induction cs with
  | nil =>
    refine ⟨none, s, rfl, fun x => ⟨nofun, ?_⟩⟩
    rintro ⟨⟨c, hx⟩, hv, _⟩
    exact absurd (hcs c x hx hv) List.not_mem_nil
  | cons c cs ih =>
    unfold findIn
    rw [run_bind_ok _ (run_getSession c)]
    rcases hx : s.session c with _ | x
    · refine ih fun c' y hy hv => ?_
      rcases List.mem_cons.mp (hcs c' y hy hv) with rfl | hmem
      · rw [hx] at hy
        cases hy
      · exact hmem
    · dsimp only
      split
      · next hthis =>
        rw [run_bind_ok _ (run_command _)]
        exact ⟨some x, _, rfl, hthis.1 ▸ h.answers hx⟩
      · next hother =>
        refine ih fun c' y hy hv => ?_
        rcases List.mem_cons.mp (hcs c' y hy hv) with rfl | hmem
        · rw [hx] at hy
          cases hy
          exact absurd ⟨hv, (h.live hx).not_ended, (h.live hx).joined_ne_nil⟩ hother
        · exact hmem

theorem run_findSession_answers (hscan : Scans order) (h : Sound s) (v : ConversationId) :
    ∃ o t, run (exec order) (findSessionByConversation v) s = (.ok o, t) ∧ Answers s v o := by
  unfold findSessionByConversation
  rw [run_bind_ok _ run_scan]
  exact run_findIn_answers h fun c y hy _ => hscan s c y hy

theorem run_getByConversation_answers (hscan : Scans order) (h : Sound s) (v : ConversationId) :
    ∃ o t, run (exec order) (getByConversation v) s = (.ok o, t) ∧ Answers s v o := by
  -- without a call under the index, the index is dropped and the sessions are scanned
  have hrecover : ∀ t, s.SameSessions t → ∃ o u, run (exec order)
      (command (.delConvo v) >>= fun _ => findSessionByConversation v) t = (.ok o, u) ∧
        Answers s v o := by
    intro t ht
    rw [run_bind_ok _ (run_command _)]
    have hsame : s.SameSessions (Cmd.apply t (.delConvo v)) := ht
    obtain ⟨o, u, hrun, ho⟩ := run_findSession_answers hscan
      (h.sheds fun c x hx => hsame c ▸ hx) v
    exact ⟨o, u, hrun, ho.same hsame⟩
  unfold getByConversation
  rw [run_bind_ok _ (run_getConvo v)]
  rcases s.convo v with _ | c
  · exact run_findSession_answers hscan h v
  · dsimp only
    obtain ⟨t, hget, ht⟩ := @run_get_sessions order s c
    rw [run_bind_ok _ hget]
    rcases hx : s.session c with _ | x
    · exact hrecover t ht
    · dsimp only
      split
      · next hthis => exact ⟨some x, t, rfl, hthis.1 ▸ h.answers hx⟩
      · exact hrecover t ht

end Lookup

/-- Operations one after the other, with the losses in between and among their commands, lead to the
store. -/
def Reached (order : Redis → List CallId) (s : Redis) : Prop :=
  ∃ es, Runs.final (happen order) es Redis.empty = s

theorem Reached.sound (hscan : Scans order) {s : Redis} (h : Reached order s) : Sound s := by
  obtain ⟨es, rfl⟩ := h
  exact (Runs.Always.of_step (fun s e hs => hs.happen hscan e) sound_empty).final

/-- After any operations and losses a conversation has at most one live session, and a lookup returns
exactly that session, by the index as by the scan. -/
theorem lookup_recovers (hscan : Scans order) {s : Redis} (hs : Reached order s)
    (v : ConversationId) :
    (∀ c c' x y, s.session c = some x → s.session c' = some y → x.conversationId = v →
        y.conversationId = v → c = c') ∧
      ∃ o, (run (exec order) (getByConversation v) s).1 = .ok o ∧
        (run (exec order) (findSessionByConversation v) s).1 = .ok o ∧
        ∀ x, o = some x ↔
          (∃ c, s.session c = some x) ∧ x.conversationId = v ∧ x.status ≠ .ended := by
  have h := hs.sound hscan
  refine ⟨fun c c' x y hx hy hxv hyv => h.one hx hy (hxv.trans hyv.symm), ?_⟩
  obtain ⟨o, t, hrun, ho⟩ := run_getByConversation_answers hscan h v
  obtain ⟨o', t', hrun', ho'⟩ := run_findSession_answers hscan h v
  refine ⟨o, by rw [hrun], ?_, ho⟩
  rw [hrun', ho.eq ho']

theorem scans_keyOrder : Scans keyOrder := by
  intro s c x hx
  have hc : c ∈ s.sessions := by
    rw [← AList.lookup_isSome]
    change (s.session c).isSome = true
    rw [hx]
    rfl
  exact AList.mem_keys.mp hc

/-- A calls B and C in a group; the index expires while B accepts, and later once more. -/
def lostIndex : Redis := Runs.final (happen keyOrder)
  [.serve (.createCall ⟨0, .group, userA, [userB, userC], none⟩) [],
    .serve (.accept 0 userB) [[.convo 0]], .lose [.convo 0]] Redis.empty

theorem lookup_recovers_lostIndex :
    lostIndex.convo 0 = none ∧
      ∃ x, (run (exec keyOrder) (getByConversation 0) lostIndex).1 = .ok (some x) := by
  obtain ⟨_, o, hget, _, ho⟩ := lookup_recovers scans_keyOrder (s := lostIndex) ⟨_, rfl⟩ 0
  have hstored : (lostIndex.session 0).isSome = true := by decide
  obtain ⟨x, hx⟩ := Option.isSome_iff_exists.mp hstored
  have hcall : (lostIndex.session 0).map (fun x => (x.conversationId, x.status)) =
      some (0, .active) := by decide
  rw [hx] at hcall
  obtain ⟨hv, hlive⟩ := Prod.mk.inj (Option.some.inj hcall)
  have hne : x.status ≠ .ended := by
    rw [hlive]
    decide
  exact ⟨by decide, x, by rw [hget, (ho x).mpr ⟨⟨0, hx⟩, hv, hne⟩]⟩

end Relay.Gateway.CallSession
