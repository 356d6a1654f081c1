import Mathlib.Data.List.AList
import Relay.Lib.Prog
import Relay.Common.Ids

/-!
# The call keys in Redis

Three families of keys belong to calls: `chat:call:session:<call>` holds a session,
`chat:call:user:<user>` the call a user is busy with, and `chat:call:conversation:<conversation>`
the live call of a conversation. A session is kept as JSON text; every session the service writes is
complete, so what it reads back is the value it wrote and `normalize` has nothing to fill in.

Expiry is left out: a key is there until a command deletes it. Commands and pipelines are atomic.
-/

namespace Relay.Gateway.CallSession

open Relay.Lib

inductive CallStatus where
  | ringing | active | ended
deriving DecidableEq, Repr

inductive CallKind where
  | priv | group
deriving DecidableEq, Repr

inductive CallMedia where
  | audio | video
deriving DecidableEq, Repr

structure VoiceCallSession where
  callId : CallId
  conversationId : ConversationId
  kind : CallKind
  media : CallMedia
  hostId : UserId
  /-- Everyone invited. -/
  memberIds : List UserId
  /-- Currently connected. -/
  joinedIds : List UserId
  declinedIds : List UserId
  leftIds : List UserId
  onHold : Bool
  heldBy : Option UserId
  forceMuted : Bool
  screenSharerId : Option UserId
  status : CallStatus
  createdAt : Time
  connectedAt : Option Time
deriving DecidableEq

/-- The call keys, with the process's UUID generator and its clock. -/
structure Redis where
  sessions : AList fun _ : CallId => VoiceCallSession
  users : AList fun _ : UserId => CallId
  convos : AList fun _ : ConversationId => CallId
  nextId : CallId
  now : Time

namespace Redis

def empty : Redis := ⟨∅, ∅, ∅, 0, 0⟩

/-- The session stored under a call id. -/
def session (s : Redis) (c : CallId) : Option VoiceCallSession := s.sessions.lookup c

/-- The call a user is busy with. -/
def busy (s : Redis) (u : UserId) : Option CallId := s.users.lookup u

/-- The call a conversation's index names. -/
def convo (s : Redis) (v : ConversationId) : Option CallId := s.convos.lookup v

@[simp] theorem session_empty (c : CallId) : empty.session c = none := rfl

@[simp] theorem busy_empty (u : UserId) : empty.busy u = none := rfl

@[simp] theorem convo_empty (v : ConversationId) : empty.convo v = none := rfl

end Redis

/-- The commands that write a call key. -/
inductive Cmd where
  | setSession (x : VoiceCallSession)
  | delSession (c : CallId)
  | setUser (u : UserId) (c : CallId)
  | delUser (u : UserId)
  | setConvo (v : ConversationId) (c : CallId)
  | delConvo (v : ConversationId)
deriving DecidableEq

def Cmd.apply (s : Redis) : Cmd → Redis
  | .setSession x => { s with sessions := s.sessions.insert x.callId x }
  | .delSession c => { s with sessions := s.sessions.erase c }
  | .setUser u c => { s with users := s.users.insert u c }
  | .delUser u => { s with users := s.users.erase u }
  | .setConvo v c => { s with convos := s.convos.insert v c }
  | .delConvo v => { s with convos := s.convos.erase v }

/-- The commands of a pipeline, in order. -/
def applyAll (s : Redis) (cmds : List Cmd) : Redis := cmds.foldl Cmd.apply s

/-- What an operation asks of Redis, of `randomUUID` and of the clock. `scan` is one full iteration
over the session keys. -/
inductive Call where
  | getSession (c : CallId)
  | getUser (u : UserId)
  | getConvo (v : ConversationId)
  | scan
  | pipeline (cmds : List Cmd)
  | randomUUID
  | newDate
deriving DecidableEq

@[reducible] def Call.Answer : Call → Type
  | .getSession _ => Option VoiceCallSession
  | .getUser _ => Option CallId
  | .getConvo _ => Option CallId
  | .scan => List CallId
  | .pipeline _ => Unit
  | .randomUUID => CallId
  | .newDate => Time

/-- No command fails here. -/
abbrev M (α : Type) := Prog Call Call.Answer Empty α

/-- `order` is the order in which a scan yields the session keys. -/
def exec (order : Redis → List CallId) :
    (c : Call) → Redis → Except Empty c.Answer × Redis
  | .getSession c, s => (.ok (s.session c), s)
  | .getUser u, s => (.ok (s.busy u), s)
  | .getConvo v, s => (.ok (s.convo v), s)
  | .scan, s => (.ok (order s), s)
  | .pipeline cmds, s => (.ok (), applyAll s cmds)
  | .randomUUID, s => (.ok s.nextId, { s with nextId := s.nextId + 1 })
  | .newDate, s => (.ok s.now, s)

/-! ## What a command changes -/

namespace Redis

variable (s : Redis) (x : VoiceCallSession) (c c' : CallId) (u u' : UserId)
  (v v' : ConversationId)

@[simp] theorem session_setSession :
    (Cmd.apply s (.setSession x)).session c = if c = x.callId then some x else s.session c := by
  by_cases h : c = x.callId
  · subst h
    simp only [Cmd.apply, session, AList.lookup_insert, if_true]
  · simp only [Cmd.apply, session, AList.lookup_insert_ne h, if_neg h]

@[simp] theorem session_delSession :
    (Cmd.apply s (.delSession c')).session c = if c = c' then none else s.session c := by
  by_cases h : c = c'
  · subst h
    simp only [Cmd.apply, session, AList.lookup_erase, if_true]
  · simp only [Cmd.apply, session, AList.lookup_erase_ne h, if_neg h]

@[simp] theorem busy_setUser :
    (Cmd.apply s (.setUser u' c)).busy u = if u = u' then some c else s.busy u := by
  by_cases h : u = u'
  · subst h
    simp only [Cmd.apply, busy, AList.lookup_insert, if_true]
  · simp only [Cmd.apply, busy, AList.lookup_insert_ne h, if_neg h]

@[simp] theorem busy_delUser :
    (Cmd.apply s (.delUser u')).busy u = if u = u' then none else s.busy u := by
  by_cases h : u = u'
  · subst h
    simp only [Cmd.apply, busy, AList.lookup_erase, if_true]
  · simp only [Cmd.apply, busy, AList.lookup_erase_ne h, if_neg h]

@[simp] theorem convo_setConvo :
    (Cmd.apply s (.setConvo v' c)).convo v = if v = v' then some c else s.convo v := by
  by_cases h : v = v'
  · subst h
    simp only [Cmd.apply, convo, AList.lookup_insert, if_true]
  · simp only [Cmd.apply, convo, AList.lookup_insert_ne h, if_neg h]

@[simp] theorem convo_delConvo :
    (Cmd.apply s (.delConvo v')).convo v = if v = v' then none else s.convo v := by
  by_cases h : v = v'
  · subst h
    simp only [Cmd.apply, convo, AList.lookup_erase, if_true]
  · simp only [Cmd.apply, convo, AList.lookup_erase_ne h, if_neg h]

@[simp] theorem session_setUser : (Cmd.apply s (.setUser u' c')).session c = s.session c := rfl
@[simp] theorem session_delUser : (Cmd.apply s (.delUser u')).session c = s.session c := rfl
@[simp] theorem session_setConvo : (Cmd.apply s (.setConvo v c')).session c = s.session c := rfl
@[simp] theorem session_delConvo : (Cmd.apply s (.delConvo v)).session c = s.session c := rfl
@[simp] theorem busy_setSession : (Cmd.apply s (.setSession x)).busy u = s.busy u := rfl
@[simp] theorem busy_delSession : (Cmd.apply s (.delSession c)).busy u = s.busy u := rfl
@[simp] theorem busy_setConvo : (Cmd.apply s (.setConvo v c)).busy u = s.busy u := rfl
@[simp] theorem busy_delConvo : (Cmd.apply s (.delConvo v)).busy u = s.busy u := rfl
@[simp] theorem convo_setSession : (Cmd.apply s (.setSession x)).convo v = s.convo v := rfl
@[simp] theorem convo_delSession : (Cmd.apply s (.delSession c)).convo v = s.convo v := rfl
@[simp] theorem convo_setUser : (Cmd.apply s (.setUser u' c)).convo v = s.convo v := rfl
@[simp] theorem convo_delUser : (Cmd.apply s (.delUser u')).convo v = s.convo v := rfl

@[simp] theorem nextId_apply (k : Cmd) : (Cmd.apply s k).nextId = s.nextId := by
  cases k <;> rfl

@[simp] theorem now_apply (k : Cmd) : (Cmd.apply s k).now = s.now := by
  cases k <;> rfl

end Redis

@[simp] theorem applyAll_nil (s : Redis) : applyAll s [] = s := rfl

@[simp] theorem applyAll_cons (s : Redis) (k : Cmd) (ks : List Cmd) :
    applyAll s (k :: ks) = applyAll (k.apply s) ks := rfl

@[simp] theorem nextId_applyAll (s : Redis) (ks : List Cmd) :
    (applyAll s ks).nextId = s.nextId := by
  induction ks generalizing s with
  | nil => rfl
  | cons k ks ih => rw [applyAll_cons, ih, Redis.nextId_apply]

@[simp] theorem now_applyAll (s : Redis) (ks : List Cmd) : (applyAll s ks).now = s.now := by
  induction ks generalizing s with
  | nil => rfl
  | cons k ks ih => rw [applyAll_cons, ih, Redis.now_apply]

@[simp] theorem applyAll_append (s : Redis) (ks ls : List Cmd) :
    applyAll s (ks ++ ls) = applyAll (applyAll s ks) ls := List.foldl_append

/-! ## Rewriting the busy keys of several users -/

/-- Sets the busy key of a user, or deletes it. -/
def userCmd (u : UserId) : Option CallId → Cmd
  | some c => .setUser u c
  | none => .delUser u

section UserCmds

variable (g : UserId → Option CallId) (us : List UserId) (s : Redis)

/-- Rewriting busy keys touches nothing else. -/
theorem applyAll_userCmds :
    applyAll s (us.map fun u => userCmd u (g u)) =
      { s with users := (applyAll s (us.map fun u => userCmd u (g u))).users } := by
  induction us generalizing s with
  | nil => rfl
  | cons u us ih =>
    simp only [List.map_cons, applyAll_cons]
    rw [ih]
    cases g u <;> rfl

theorem session_userCmds (c : CallId) :
    (applyAll s (us.map fun u => userCmd u (g u))).session c = s.session c := by
  rw [applyAll_userCmds]
  rfl

theorem convo_userCmds (v : ConversationId) :
    (applyAll s (us.map fun u => userCmd u (g u))).convo v = s.convo v := by
  rw [applyAll_userCmds]
  rfl

theorem busy_userCmds (u : UserId) :
    (applyAll s (us.map fun u => userCmd u (g u))).busy u =
      if u ∈ us then g u else s.busy u := by
  induction us generalizing s with
  | nil => rfl
  | cons u' us ih =>
    simp only [List.map_cons, applyAll_cons]
    rw [ih]
    by_cases hus : u ∈ us
    · simp [hus]
    · by_cases hu : u = u'
      · subst hu
        cases hg : g u <;> simp [hus, userCmd]
      · cases hg : g u' <;> simp [hus, hu, userCmd]

end UserCmds

end Relay.Gateway.CallSession
