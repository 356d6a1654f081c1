import Mathlib.Data.Fintype.Defs
import Relay.Lib.Requests
import Relay.Chat.Verify.Dates

/-!
# Updates of single fields

A request that changes one field of a conversation or of a membership loads the row, sets the field and
saves the whole row later. `Row` and `Column` give both tables one form, `exec_accepted` says what a save
does to it, and `updates` is the protocol that all these requests keep to.
-/

namespace Relay.Chat

open Relay.Lib Relay.Lib.Rows Prog

/-! ## Rows and columns -/

/-- The columns the requests set. -/
inductive Column where
  | name | lastMessageAt | disappearingDurationSeconds
  | lastReadAt | mutedAt | pinnedAt
deriving DecidableEq

def Column.all : List Column :=
  [.name, .lastMessageAt, .disappearingDurationSeconds, .lastReadAt, .mutedAt, .pinnedAt]

instance : Fintype Column where
  elems := ⟨Column.all, by decide⟩
  complete f := by cases f <;> decide

/-- What is in a column; `absent` where the table has no such column. -/
inductive Column.Value where
  | text (value : Option Text)
  | time (value : Option Time)
  | seconds (value : Nat)
  | absent
deriving DecidableEq

inductive Row where
  | conversation (c : Conversation)
  | member (m : ConversationMember)
deriving DecidableEq

inductive Row.Key where
  | conversation (id : ConversationId)
  | member (id : Nat)
deriving DecidableEq

namespace Row

def key : Row → Key
  | conversation c => .conversation c.id
  | member m => .member m.id

/-- The conversation of a row, and the user when it is a membership. -/
def place : Row → ConversationId × Option UserId
  | conversation c => (c.id, none)
  | member m => (m.conversationId, some m.userId)

def get : Row → Column → Column.Value
  | conversation c, .name => .text c.name
  | conversation c, .lastMessageAt => .time c.lastMessageAt
  | conversation c, .disappearingDurationSeconds => .seconds c.disappearingDurationSeconds
  | member m, .lastReadAt => .time m.lastReadAt
  | member m, .mutedAt => .time m.mutedAt
  | member m, .pinnedAt => .time m.pinnedAt
  | _, _ => .absent

end Row

def Db.row (db : Db) : Row.Key → Option Row
  | .conversation id => (db.conversations.find? fun c => c.id = id).map .conversation
  | .member id => (db.members.find? fun m => m.id = id).map .member

/-- What a call saves. -/
def Call.saves : Call → Option Row
  | .saveConversation cv => some (.conversation cv.toConversation)
  | .saveMember m => some (.member m)
  | _ => none

/-- The constraints of the tables let the save through. -/
def Db.Accepts (db : Db) : Call → Prop
  | .saveConversation cv => ∀ m ∈ db.membersOf cv.id, m.id ∈ cv.members.map ConversationMember.id
  | .saveMember m => db.memberTaken m = false
  | _ => True

instance (db : Db) (c : Call) : Decidable (db.Accepts c) := by
  apply @Call.casesOn (fun c => Decidable (db.Accepts c)) c <;> intros <;> dsimp only [Db.Accepts] <;>
    infer_instance

section Rows

variable {s t : Db}

theorem Db.row_congr (hconversations : t.conversations = s.conversations) (hmembers : t.members = s.members)
    (k : Row.Key) : t.row k = s.row k := by
  cases k with
  | conversation id => rw [Db.row, Db.row, hconversations]
  | member id => rw [Db.row, Db.row, hmembers]

theorem Db.row_conversation (h : WellKeyed s) {c : Conversation} (hc : c ∈ s.conversations) :
    s.row (.conversation c.id) = some (.conversation c) := by
  rw [Db.row, h.conversations.find?_eq_some.mpr ⟨hc, rfl⟩]
  rfl

theorem Db.row_member (h : WellKeyed s) {m : ConversationMember} (hm : m ∈ s.members) :
    s.row (.member m.id) = some (.member m) := by
  rw [Db.row, h.members.find?_eq_some.mpr ⟨hm, rfl⟩]
  rfl

theorem Db.key_row {k : Row.Key} {r : Row} (h : s.row k = some r) : r.key = k := by
  cases k with
  | conversation id =>
    obtain ⟨c, hc, rfl⟩ := Option.map_eq_some_iff.mp h
    have hid : c.id = id := by simpa using List.find?_some hc
    rw [Row.key, hid]
  | member id =>
    obtain ⟨m, hm, rfl⟩ := Option.map_eq_some_iff.mp h
    have hid : m.id = id := by simpa using List.find?_some hm
    rw [Row.key, hid]

/-- A save that is not let through changes nothing. -/
theorem exec_refused {c : Call} {r : Row} (hsaves : c.saves = some r) (h : ¬ s.Accepts c) :
    (∃ e, (exec c s).1 = .error e) ∧ (exec c s).2 = s := by
  cases c with
  | saveConversation cv =>
    have hrefused : ¬ ((s.membersOf cv.id).all fun m => m.id ∈ cv.members.map ConversationMember.id) = true := by
      simpa [Db.Accepts, List.all_eq_true] using h
    rw [exec, if_neg hrefused]
    exact ⟨⟨_, rfl⟩, rfl⟩
  | saveMember m =>
    have htaken : s.memberTaken m = true := eq_true_of_ne_false h
    rw [exec, Db.saveMember, if_pos htaken]
    exact ⟨⟨_, rfl⟩, rfl⟩
  | _ => cases hsaves

/-- `t` is `s` with the columns of `r` in the row that has its key. -/
def Db.Puts (s t : Db) (r : Row) : Prop :=
  ∃ new : Row, new.place = r.place ∧ (∀ f, new.get f = r.get f) ∧
    ∀ k, t.row k = if k = r.key then some new else s.row k

/-- A conversation may keep the old time of its update, when nothing changes. -/
theorem puts_saveConversation {cv : ConversationWithMembers} {row : Conversation}
    (hall : ((s.membersOf cv.id).all fun m => m.id ∈ cv.members.map ConversationMember.id) = true)
    (hrow : (s.conversations.find? fun c => c.id = cv.id) = some row) :
    s.Puts (exec (.saveConversation cv) s).2 (.conversation cv.toConversation) := by
  have hid : row.id = cv.id := by simpa using List.find?_some hrow
  have hkeep : ∀ row', (savedRow cv s.now row').id = row'.id := by
    intro row'
    unfold savedRow
    split
    · next hrow' => exact hrow'.1.symm
    · rfl
  rw [exec, if_pos hall]
  refine ⟨.conversation (savedRow cv s.now row), ?_, ?_, ?_⟩
  · rw [Row.place, hkeep, hid]
    rfl
  · intro f
    unfold savedRow
    split
    · cases f <;> rfl
    · next hsame =>
      rw [not_and_not_right] at hsame
      rw [hsame hid]
  · rintro (k | k)
    · show ((s.conversations.map (savedRow cv s.now)).find? _).map _ = _
      rw [find?_map_of_id hkeep]
      by_cases hk : k = cv.id
      · subst hk
        rw [hrow]
        exact (if_pos rfl).symm
      · rw [if_neg (by simpa [Row.key] using hk), Db.row]
        cases hfind : s.conversations.find? fun c => c.id = k with
        | none => rfl
        | some row' =>
          have hid' : row'.id = k := by simpa using List.find?_some hfind
          have hother : savedRow cv s.now row' = row' := if_neg fun h => hk (hid'.symm.trans h.1)
          rw [Option.map_some, hother]
    · exact (if_neg (by simp [Row.key])).symm

theorem puts_saveMember {m row : ConversationMember} (hfree : ¬ s.memberTaken m = true)
    (hrow : (s.members.find? fun x => x.id = m.id) = some row) :
    s.Puts (exec (.saveMember m) s).2 (.member m) := by
  rw [exec, Db.saveMember, if_neg hfree]
  refine ⟨.member m, rfl, fun f => rfl, ?_⟩
  rintro (k | k)
  · exact (if_neg (by simp [Row.key])).symm
  · show ((replaceRow ConversationMember.id m s.members).find? _).map _ = _
    rw [find?_replaceRow]
    by_cases hk : k = m.id
    · subst hk
      rw [if_pos rfl, hrow]
      exact (if_pos rfl).symm
    · rw [if_neg (Ne.symm hk), if_neg (by simpa [Row.key] using hk)]
      rfl

/-- A save that is let through. -/
theorem exec_accepted {c : Call} {r old : Row} (hsaves : c.saves = some r) (h : s.Accepts c)
    (hold : s.row r.key = some old) : (∃ a, (exec c s).1 = .ok a) ∧ s.Puts (exec c s).2 r := by
  cases c with
  | saveConversation cv =>
    cases hsaves
    obtain ⟨row, hrow, rfl⟩ := Option.map_eq_some_iff.mp hold
    have hall : ((s.membersOf cv.id).all fun m => m.id ∈ cv.members.map ConversationMember.id) = true := by
      simpa [Db.Accepts, List.all_eq_true] using h
    exact ⟨⟨(), by rw [exec, if_pos hall]⟩, puts_saveConversation hall hrow⟩
  | saveMember m =>
    cases hsaves
    obtain ⟨row, hrow, rfl⟩ := Option.map_eq_some_iff.mp hold
    have hfree : ¬ s.memberTaken m = true := fun htaken => Bool.noConfusion (h.symm.trans htaken)
    exact ⟨⟨(), by rw [exec, Db.saveMember, if_neg hfree]; rfl⟩, puts_saveMember hfree hrow⟩
  | _ => cases hsaves

end Rows

/-! ## The requests -/

/-- The requests that set one column of a row. -/
inductive UpdateOp where
  | sendMessage (payload : SendMessage)
  | forwardMessage (actorId : UserId) (source target : ConversationId) (m : MessageId)
  | setDisappearingMessages (c : ConversationId) (actorId : UserId) (durationSeconds : Nat)
  | updateGroup (c : ConversationId) (actorId : UserId) (name : Text)
  | markSeen (c : ConversationId) (actorId : UserId) (m : Option MessageId)
  | muteConversation (c : ConversationId) (actorId : UserId) (muted : Bool)
  | pinConversation (c : ConversationId) (actorId : UserId) (pinned : Bool)
deriving DecidableEq

namespace UpdateOp

def op : UpdateOp → Op
  | sendMessage payload => .sendMessage payload
  | forwardMessage a source target m => .forwardMessage a source target m
  | setDisappearingMessages c a n => .setDisappearingMessages c a n
  | updateGroup c a name => .updateGroup c a name
  | markSeen c a m => .markSeen c a m
  | muteConversation c a muted => .muteConversation c a muted
  | pinConversation c a pinned => .pinConversation c a pinned

def column : UpdateOp → Column
  | sendMessage _ | forwardMessage _ _ _ _ => .lastMessageAt
  | setDisappearingMessages _ _ _ => .disappearingDurationSeconds
  | updateGroup _ _ _ => .name
  | markSeen _ _ _ => .lastReadAt
  | muteConversation _ _ _ => .mutedAt
  | pinConversation _ _ _ => .pinnedAt

/-- The row it is about: a conversation, or the membership of a user in it. -/
def place : UpdateOp → ConversationId × Option UserId
  | sendMessage payload => (payload.conversationId, none)
  | forwardMessage _ _ target _ => (target, none)
  | setDisappearingMessages c _ _ | updateGroup c _ _ => (c, none)
  | markSeen c a _ | muteConversation c a _ | pinConversation c a _ => (c, some a)

/-- The field it sets. -/
def field (o : UpdateOp) : (ConversationId × Option UserId) × Column := (o.place, o.column)

/-- The row it takes from the conversation it has loaded. -/
def pick (o : UpdateOp) (cv : ConversationWithMembers) : Option Row :=
  match o.place.2 with
  | none => some (.conversation cv.toConversation)
  | some u => (findActive (activeMembers cv.members) u).map .member

/-- The row it saves; `time` is what the clock or the new message has told it. A read marker is only
moved forward. -/
def set (o : UpdateOp) (row : Row) (time : Option Time) : Option Row :=
  match o, row, time with
  | sendMessage _, .conversation c, some t | forwardMessage _ _ _ _, .conversation c, some t =>
    some (.conversation { c with lastMessageAt := some (jsDate t) })
  | setDisappearingMessages _ _ n, .conversation c, _ =>
    some (.conversation { c with disappearingDurationSeconds := n })
  | updateGroup _ _ name, .conversation c, _ => some (.conversation { c with name := some (Js.trim name) })
  | markSeen _ _ _, .member m, some t =>
    if m.lastReadAt.all fun read => jsDate read < t then some (.member { m with lastReadAt := some t })
    else none
  | muteConversation _ _ muted, .member m, some t =>
    some (.member { m with mutedAt := if muted then some t else none })
  | pinConversation _ _ pinned, .member m, some t =>
    some (.member { m with pinnedAt := if pinned then some t else none })
  | _, _, _ => none

end UpdateOp

/-- It sets its column and leaves the rest of the row alone. -/
theorem UpdateOp.set_eq_some {o : UpdateOp} {row new : Row} {time : Option Time} (h : o.set row time = some new) :
    new.key = row.key ∧ new.place = row.place ∧ ∀ f, f ≠ o.column → new.get f = row.get f := by
  unfold set at h
  split at h
  · cases h
    exact ⟨rfl, rfl, fun f hf => by cases f <;> first | rfl | exact absurd rfl hf⟩
  · cases h
    exact ⟨rfl, rfl, fun f hf => by cases f <;> first | rfl | exact absurd rfl hf⟩
  · cases h
    exact ⟨rfl, rfl, fun f hf => by cases f <;> first | rfl | exact absurd rfl hf⟩
  · cases h
    exact ⟨rfl, rfl, fun f hf => by cases f <;> first | rfl | exact absurd rfl hf⟩
  · split at h
    · cases h
      exact ⟨rfl, rfl, fun f hf => by cases f <;> first | rfl | exact absurd rfl hf⟩
    · cases h
  · cases h
    exact ⟨rfl, rfl, fun f hf => by cases f <;> first | rfl | exact absurd rfl hf⟩
  · cases h
    exact ⟨rfl, rfl, fun f hf => by cases f <;> first | rfl | exact absurd rfl hf⟩
  · cases h

/-! ## The protocol -/

/-- How far a request is: it has loaded its row, with the time it was last told, or it has saved it. -/
inductive Update where
  | idle
  | loaded (row : Row) (time : Option Time)
  | saved (row : Row)
deriving DecidableEq

theorem Update.idle_ne_saved (row : Row) : idle ≠ saved row := by simp

theorem Update.idle_ne_loaded (row : Row) (time : Option Time) : idle ≠ loaded row time := by simp

theorem Update.loaded_ne_saved (row : Row) (time : Option Time) (row' : Row) : loaded row time ≠ saved row' := by simp

/-- The stage after the load of a conversation. -/
def UpdateOp.load (o : UpdateOp) (cv : ConversationWithMembers) : Update :=
  match o.pick cv with
  | none => .idle
  | some row => .loaded row none

/-- What a request has loaded and saved. -/
def UpdateOp.next (o : UpdateOp) (g : Update) (c : Call) (r : Except Failure c.Answer) : Update :=
  match g, c, r with
  | .saved row, _, _ => .saved row
  | g, .findConversation id, .ok (some cv) => if id = o.place.1 then o.load cv else g
  | .loaded row _, .newDate, .ok now => .loaded row (some now)
  | .loaded (.conversation c) _, .insertMessage _, .ok saved => .loaded (.conversation c) (some saved.createdAt)
  | .loaded _ _, .saveConversation cv, .ok _ => .saved (.conversation cv.toConversation)
  | .loaded _ _, .saveMember m, .ok _ => .saved (.member m)
  | g, _, _ => g

/-- A save that is let through ends the work on the row. -/
theorem UpdateOp.next_ok {o : UpdateOp} {c : Call} {row new : Row} {time : Option Time} (hsaves : c.saves = some new)
    (a : c.Answer) : o.next (.loaded row time) c (.ok a) = .saved new := by
  cases c with
  | saveConversation cv =>
    cases hsaves
    rfl
  | saveMember m =>
    cases hsaves
    rfl
  | _ => cases hsaves

theorem UpdateOp.next_error {o : UpdateOp} {c : Call} {row new : Row} {time : Option Time}
    (hsaves : c.saves = some new) (e : Failure) : o.next (.loaded row time) c (.error e) = .loaded row time := by
  cases c with
  | saveConversation cv => rfl
  | saveMember m => rfl
  | _ => cases hsaves

/-- Calls that leave conversations and memberships alone. -/
def CalmCall : Call → Prop
  | .insertMessage _ => True
  | c => QuietCall c

/-- A call that leaves the tables alone, or a save of the row that is loaded. -/
def UpdateOp.Allows (o : UpdateOp) (g : Update) (c : Call) : Prop :=
  CalmCall c ∨ ∃ row time new, g = .loaded row time ∧ o.set row time = some new ∧ c.saves = some new

/-- It has saved its row; or it is a read marker that is as far as it would be moved. -/
def UpdateOp.Done (o : UpdateOp) : Update → Prop
  | .saved _ => True
  | .loaded row time => o.column = .lastReadAt ∧ o.set row time = none
  | .idle => False

/-- A request that succeeds is done. -/
abbrev UpdateOp.Ends {α : Type} (o : UpdateOp) (r : Except Failure α) (g : Update) : Prop :=
  ∀ a, r = .ok a → o.Done g

theorem UpdateOp.ends_error {α : Type} (o : UpdateOp) (e : Failure) (g : Update) :
    o.Ends (.error e : Except Failure α) g := by
  intro a h
  cases h

def updates (o : UpdateOp) : Protocol Call Call.Answer Failure Update where
  allowed := o.Allows
  next := o.next
  answers _ _ := True

/-- Calls that tell a request nothing about its row or the time. -/
def IdleCall : Call → Prop
  | .findConversation _ | .newDate => False
  | c => QuietCall c

theorem IdleCall.calm {c : Call} (h : IdleCall c) : CalmCall c := by
  cases c <;> first | exact trivial | exact h.elim

theorem IdleCall.next {c : Call} (h : IdleCall c) (o : UpdateOp) (g : Update) (r : Except Failure c.Answer) :
    o.next g c r = g := by
  unfold UpdateOp.next
  split <;> first | rfl | exact h.elim

theorem QuietCall.calm {c : Call} (h : QuietCall c) : CalmCall c := by
  cases c <;> first | exact trivial | exact h.elim

section Programs

variable {α β : Type} {o : UpdateOp} {g : Update}

/-- A part of a request that neither loads nor saves. -/
theorem follows_idle {p : M α} (h : Uses IdleCall p) : Follows (updates o) (fun _ g' => g' = g) p g :=
  follows_of_sat (P := updates o) (fun _ hc => ⟨.inl hc.calm, fun r => hc.next o g r⟩)
    (h.mono (fun _ _ _ => trivial) fun _ h => h)

theorem follows_pass {p : M α} {f : α → M β} (h : Uses IdleCall p)
    (hf : ∀ a, Follows (updates o) o.Ends (f a) g) : Follows (updates o) o.Ends (p >>= f) g := by
  refine follows_bind (follows_idle h) (fun a g' hg => ?_) fun e g' _ => o.ends_error e g'
  rw [hg]
  exact hf a

/-- After the save nothing matters but that there is no other. -/
theorem follows_saved {p : M α} {row : Row} (h : Quiet p) : Follows (updates o) o.Ends p (.saved row) :=
  Follows.mono (fun _ _ hg _ _ => hg ▸ trivial) (follows_of_sat (P := updates o) (g := .saved row)
    (fun _ (hc : QuietCall _) => ⟨.inl hc.calm, fun _ => rfl⟩) (h.mono (fun _ _ _ => trivial) fun _ h => h))

theorem follows_membership {c : ConversationId} {u : UserId} {f : ConversationWithMembers → M β}
    (hg : ∀ row, g ≠ .saved row)
    (hf : ∀ cv : ConversationWithMembers, Follows (updates o) o.Ends
      (f { cv with members := activeMembers cv.members }) (if c = o.place.1 then o.load cv else g)) :
    Follows (updates o) o.Ends (requireMembership c u >>= f) g := by
  rw [requireMembership, bind_assoc']
  refine ⟨.inl trivial, fun r _ => ?_⟩
  cases r with
  | error e => exact o.ends_error e _
  | ok found =>
    cases found with
    | none => exact o.ends_error _ _
    | some cv =>
      have hnext : o.next g (.findConversation c) (.ok (some cv)) = if c = o.place.1 then o.load cv else g := by
        cases g with
        | saved row => exact absurd rfl (hg row)
        | _ => rfl
      show Follows (updates o) _ (require (findActive cv.members u) _ >>= _ >>= _) (o.next g _ _)
      rw [hnext]
      cases findActive cv.members u with
      | none => exact o.ends_error _ _
      | some m => exact hf cv

/-- The request loads the conversation it is about. -/
theorem follows_own {c : ConversationId} {u : UserId} {f : ConversationWithMembers → M β} (hc : c = o.place.1)
    (hg : ∀ row, g ≠ .saved row)
    (hf : ∀ cv : ConversationWithMembers, Follows (updates o) o.Ends
      (f { cv with members := activeMembers cv.members }) (o.load cv)) :
    Follows (updates o) o.Ends (requireMembership c u >>= f) g := by
  refine follows_membership hg fun cv => ?_
  rw [if_pos hc]
  exact hf cv

/-- A row is saved. -/
theorem follows_save {c : Call} {f : c.Answer → M β} {row new : Row} {time : Option Time}
    (hset : o.set row time = some new) (hsaves : c.saves = some new) (hf : ∀ a, Quiet (f a)) :
    Follows (updates o) o.Ends (perform c >>= f) (.loaded row time) := by
  refine ⟨.inr ⟨row, time, new, rfl, hset, hsaves⟩, fun r _ => ?_⟩
  cases r with
  | error e => exact o.ends_error e _
  | ok a =>
    show Follows (updates o) _ (f a) (o.next _ c _)
    rw [UpdateOp.next_ok hsaves]
    exact follows_saved (hf a)

/-- The request asks for the time. -/
theorem follows_now {f : Time → M β} {row : Row} {time : Option Time}
    (hf : ∀ now, Follows (updates o) o.Ends (f now) (.loaded row (some now))) :
    Follows (updates o) o.Ends (perform .newDate >>= f) (.loaded row time) := by
  refine ⟨.inl trivial, fun r _ => ?_⟩
  cases r with
  | error e => exact o.ends_error e _
  | ok now => exact hf now

/-- The request goes on with the membership of its user. -/
theorem follows_member {u : UserId} (hu : o.place.2 = some u) {cv : ConversationWithMembers} {e : RpcError}
    {f : ConversationMember → M β}
    (hf : ∀ m, Follows (updates o) o.Ends (f m) (.loaded (.member m) none)) :
    Follows (updates o) o.Ends
      (require (findActive (activeMembers cv.members) u) e >>= f) (o.load cv) := by
  have hpick : o.pick cv = (findActive (activeMembers cv.members) u).map .member := by rw [UpdateOp.pick, hu]
  rw [UpdateOp.load, hpick]
  cases findActive (activeMembers cv.members) u with
  | none => exact o.ends_error _ _
  | some m => exact hf m

theorem updateMembership_follows {c : ConversationId} {u : UserId}
    {update : Time → ConversationMember → ConversationMember} (hplace : o.place = (c, some u))
    (hset : ∀ m t, o.set (.member m) (some t) = some (.member (update t m))) :
    Follows (updates o) o.Ends (updateMembership c u update) .idle := by
  refine follows_own (hplace ▸ rfl) Update.idle_ne_saved fun cv => follows_member (hplace ▸ rfl) fun m =>
    follows_now fun now => ?_
  exact follows_save (c := .saveMember (update now m)) (hset m now) rfl fun _ => quiet_getConversation _ _

theorem advanceReadAt_follows {c : ConversationId} {u : UserId} {m : Option MessageId} (row : ConversationMember)
    (now : Time) (f : Time → α) : Follows (updates (.markSeen c u m)) (UpdateOp.markSeen c u m).Ends
      (advanceReadAt row now >>= fun t => .ret (f t)) (.loaded (.member row) (some now)) := by
  have hset (h : (row.lastReadAt.all fun read => jsDate read < now) = true) :
      (UpdateOp.markSeen c u m).set (.member row) (some now) =
        some (.member { row with lastReadAt := some now }) := if_pos h
  unfold advanceReadAt
  split
  · next t ht =>
    split
    · next hlt =>
      rw [bind_assoc']
      exact follows_save (hset (by simpa [ht] using hlt)) rfl fun _ => trivial
    · next hlt =>
      rintro a ⟨⟩
      exact ⟨rfl, if_neg (by simpa [ht] using hlt)⟩
  · next ht =>
    rw [bind_assoc']
    exact follows_save (hset (by simp [ht])) rfl fun _ => trivial

theorem markSeen_follows (c : ConversationId) (u : UserId) (m : Option MessageId) :
    Follows (updates (.markSeen c u m)) (UpdateOp.markSeen c u m).Ends (markSeen c u m) .idle := by
  refine follows_own rfl Update.idle_ne_saved fun cv => follows_member rfl fun row => follows_now fun now =>
    follows_pass ?_ fun seen => advanceReadAt_follows row now _
  unfold seenMessage
  split
  · trivial
  · exact uses_bind (uses_perform trivial) fun _ => uses_bind (uses_require _ _) fun _ => trivial

theorem idle_resolvePrivateDelivery (cv : ConversationWithMembers) (u : UserId) :
    Uses IdleCall (resolvePrivateDelivery cv u) := by
  refine uses_ite (fun _ => trivial) fun _ => ?_
  cases findOther cv.members u with
  | none => trivial
  | some other =>
    have hblock : ∀ a b, Uses IdleCall (hasBlock a b) := fun a b =>
      uses_bind (uses_perform (c := .countBlocks a b) trivial) fun _ => trivial
    exact uses_bind (hblock _ _) fun _ => uses_bind (hblock _ _) fun _ => trivial

/-- A message is stored and its conversation saved. -/
theorem follows_store {d : MessageDraft} {cv : ConversationWithMembers} {time : Option Time}
    {f : Message → Unit → M β} (hset : ∀ t, o.set (.conversation cv.toConversation) (some t) =
      some (.conversation { cv.toConversation with lastMessageAt := some (jsDate t) }))
    (hf : ∀ saved u, Quiet (f saved u)) : Follows (updates o) o.Ends
      (perform (.insertMessage d) >>= fun saved => touchConversation cv saved >>= f saved)
      (.loaded (.conversation cv.toConversation) time) := by
  refine ⟨.inl trivial, fun r _ => ?_⟩
  cases r with
  | error e => exact o.ends_error e _
  | ok saved => exact follows_save (hset saved.createdAt) rfl (hf saved)

theorem sendMessage_follows (payload : SendMessage) :
    Follows (updates (.sendMessage payload)) (UpdateOp.sendMessage payload).Ends (sendMessage payload) .idle := by
  refine follows_pass (uses_rejectIf _ _) fun _ => follows_pass (uses_require _ _) fun type => ?_
  split
  · refine follows_pass (uses_rejectIf _ _) fun _ => follows_pass (uses_rejectIf _ _) fun _ =>
      follows_own rfl Update.idle_ne_saved fun cv => ?_
    exact follows_store (fun t => rfl) fun _ _ => trivial
  · refine follows_own rfl Update.idle_ne_saved fun cv => ?_
    refine follows_pass (idle_resolvePrivateDelivery _ _) fun delivery =>
      follows_pass (uses_rejectIf _ _) fun _ =>
        follows_pass (uses_replyTarget (fun _ _ => trivial) _ _) fun replyTo => follows_now fun now =>
          follows_store (fun t => rfl) fun saved _ => ?_
    exact quiet_bind (quiet_recordAudit _ _ _ _ _) fun _ => trivial

theorem forwardMessage_follows (a : UserId) (source target : ConversationId) (m : MessageId) :
    Follows (updates (.forwardMessage a source target m)) (UpdateOp.forwardMessage a source target m).Ends
      (forwardMessage a source target m) .idle := by
  refine follows_membership Update.idle_ne_saved fun src => follows_own rfl ?_ fun cv => ?_
  · intro row
    split
    · exact Update.loaded_ne_saved _ none row
    · exact Update.idle_ne_saved row
  · refine follows_pass (uses_perform trivial) fun found => follows_pass (uses_require _ _) fun message =>
      follows_pass (uses_rejectIf _ _) fun _ => follows_pass (idle_resolvePrivateDelivery _ _) fun delivery =>
        follows_pass (uses_rejectIf _ _) fun _ => follows_now fun now => ?_
    exact follows_store (fun t => rfl) fun saved _ => trivial

theorem setDisappearingMessages_follows (c : ConversationId) (a : UserId) (n : Nat) :
    Follows (updates (.setDisappearingMessages c a n)) (UpdateOp.setDisappearingMessages c a n).Ends
      (setDisappearingMessages c a n) .idle := by
  refine follows_own rfl Update.idle_ne_saved fun cv => ?_
  refine follows_pass (uses_rejectIf _ _) fun _ => follows_pass (uses_rejectIf _ _) fun _ =>
    follows_save rfl rfl fun _ => ?_
  exact quiet_bind (quiet_recordAudit _ _ _ _ _) fun _ => quiet_getConversation _ _

theorem updateGroup_follows (c : ConversationId) (a : UserId) (name : Text) :
    Follows (updates (.updateGroup c a name)) (UpdateOp.updateGroup c a name).Ends (updateGroup c a name) .idle := by
  refine follows_own rfl Update.idle_ne_saved fun cv => ?_
  refine follows_pass (uses_bind (uses_rejectIf _ _) fun _ => uses_rejectIf _ _) fun _ =>
    follows_pass (uses_rejectIf _ _) fun _ => follows_save rfl rfl fun _ => quiet_getConversation _ _

theorem UpdateOp.follows (o : UpdateOp) : Follows (updates o) o.Ends o.op.program .idle := by
  have map {α : Type} {p : M α} (f : α → Response) (h : Follows (updates o) o.Ends p .idle) :
      Follows (updates o) o.Ends (f <$> p) .idle :=
    follows_bind h (fun a g' hdone b _ => hdone a rfl) fun e g' _ => o.ends_error e g'
  cases o with
  | sendMessage payload => exact map _ (sendMessage_follows payload)
  | forwardMessage a source target m => exact map _ (forwardMessage_follows a source target m)
  | setDisappearingMessages c a n => exact map _ (setDisappearingMessages_follows c a n)
  | updateGroup c a name => exact map _ (updateGroup_follows c a name)
  | markSeen c a m => exact map _ (markSeen_follows c a m)
  | muteConversation c a muted => exact map _ (updateMembership_follows rfl fun _ _ => rfl)
  | pinConversation c a pinned => exact map _ (updateMembership_follows rfl fun _ _ => rfl)

end Programs

end Relay.Chat
