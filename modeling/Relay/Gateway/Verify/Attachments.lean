import Relay.Gateway.Attachments
import Relay.Chat.Verify.Footprint
import Relay.Chat.Verify.Lawful

/-!
# Attachments that other messages show

Forwarding and scheduling copy the URL of an attachment, and clients send URLs of their own, so several
messages can show one object of the storage; a deletion looks only at the message it removes. `Unshared`
is the condition that no step leads to a message without its object: nobody removes a message whose
attachment another message shows, and nobody stores one with an attachment whose deletion is under way.
-/

namespace Relay.Gateway.Attachments

open Relay.Lib Relay.Lib.Rows Relay.Chat Prog

/-- How far a request has come in removing messages: the messages it has loaded for it, and those it has
removed whose attachment is still in the storage. -/
structure Removal where
  todo : List Message
  removed : List (MessageId × Text)
deriving DecidableEq

namespace Removal

def start : Removal := ⟨[], []⟩

/-- The message, if it has an attachment. -/
def entries (m : Message) : List (MessageId × Text) :=
  ((orNull m.attachmentUrl).map fun url => (m.id, url)).toList

def next (g : Removal) (c : Call) (r : Except Failure c.Answer) : Removal :=
  match c, r with
  | .chat (.findMessage _ _), .ok (some m) => ⟨[m], g.removed⟩
  | .chat (.findDueMessages _), .ok due => ⟨due, g.removed⟩
  | .chat (.saveMessage m), _ =>
    if m.deletedForEveryoneAt = none then ⟨g.todo.tail, g.removed⟩
    else ⟨g.todo.tail, g.removed ++ g.todo.head?.elim [] entries⟩
  | .deleteByUrl _ _, _ => ⟨g.todo, g.removed.tail⟩
  | _, _ => g

def Allows (g : Removal) : Call → Prop
  | .chat (.findMessage _ _) | .chat (.findDueMessages _) => g.removed = []
  | .chat (.saveMessage m) => ∃ old rest, g.todo = old :: rest ∧ m.id = old.id
  | .deleteByUrl url m => g.todo = [] ∧ ∃ rest, g.removed = (m, url) :: rest
  | _ => True

end Removal

/-- A message that is due is not deleted for everyone. -/
def Answers (c : Call) (r : Except Failure c.Answer) : Prop :=
  match c, r with
  | .chat (.findDueMessages _), .ok due => ∀ m ∈ due, m.deletedForEveryoneAt = none
  | _, _ => True

theorem answers_exec (s : Db) (c : Call) : Answers c (exec c s).1 := by
  match c with
  | .deleteByUrl _ _ => trivial
  | .chat c =>
    cases c with
    | findDueMessages before =>
      intro m hm
      exact (mem_due s before rfl hm).2
    | _ => trivial

def removals : Protocol Call Call.Answer Failure Removal where
  allowed := Removal.Allows
  next := Removal.next
  answers := Answers

/-! ## The handlers -/

section Handlers

variable {α β : Type} {g : Removal}

/-- What a request to the chat service does, seen from the gateway. -/
def chatRemovals : Protocol Chat.Call Chat.Call.Answer Failure Removal where
  allowed g c := g.Allows (.chat c)
  next g c r := g.next (.chat c) r
  answers c r := Answers (.chat c) r

theorem follows_sendChat {Q : Except Failure α → Removal → Prop} {p : Chat.M α}
    (h : Follows chatRemovals Q p g) : Follows removals Q (sendChat p) g := by
  induction p generalizing g with
  | ret a => exact h
  | fail e => exact h
  | call c k ih => exact ⟨h.1, fun r hr => ih r (h.2 r hr)⟩

/-- Calls that remove no message. -/
def Aside : Chat.Call → Prop
  | .saveMessage _ => False
  | _ => True

theorem aside_of_read {c : Chat.Call} (h : ReadCall c) : Aside c := by
  cases c <;> first | exact trivial | exact h.elim

/-- A request that removes nothing. -/
theorem follows_aside {p : Chat.M α} (h : Uses Aside p) (hg : g.removed = []) :
    Follows chatRemovals (fun _ g' => g'.removed = []) p g := by
  induction p generalizing g with
  | ret a => exact hg
  | fail e => exact hg
  | call c k ih =>
    refine ⟨?_, fun r _ => ih r (h.2 r trivial) ?_⟩
    · cases c <;> first | exact trivial | exact hg | exact h.1.elim
    · cases c with
      | findMessage id c => rcases r with e | _ | m <;> exact hg
      | findDueMessages _ => cases r <;> exact hg
      | saveMessage _ => exact h.1.elim
      | _ => cases r <;> exact hg

/-- Calls that leave the stage alone. -/
def Still : Chat.Call → Prop
  | .findMessage _ _ | .findDueMessages _ | .saveMessage _ => False
  | _ => True

theorem Still.next {c : Chat.Call} (h : Still c) (g : Removal) (r : Except Failure c.Answer) :
    g.next (.chat c) r = g := by
  cases c <;> first | exact h.elim | (cases r <;> rfl)

theorem follows_still {p : Chat.M α} (h : Uses Still p) :
    Follows chatRemovals (fun _ g' => g' = g) p g := by
  refine follows_of_sat (P := chatRemovals) (L := Still) (fun c hc => ⟨?_, hc.next g⟩)
    (h.mono (fun _ _ _ => trivial) fun _ hc => hc)
  cases c <;> first | exact trivial | exact hc.elim

theorem still_requireMembership (c : ConversationId) (actorId : UserId) :
    Uses Still (requireMembership c actorId) :=
  uses_bind (uses_perform trivial) fun _ => uses_bind (uses_require _ _) fun _ =>
    uses_bind (uses_require _ _) fun _ => trivial

theorem still_loadReplyTo (m : Message) : Uses Still (loadReplyTo m) := by
  unfold loadReplyTo
  split
  · trivial
  · exact uses_perform trivial

theorem still_hideMessage (m : MessageId) (actorId : UserId) : Uses Still (hideMessage m actorId) :=
  uses_bind (uses_perform trivial) fun _ => uses_ite (fun _ => uses_perform trivial) fun _ => trivial

/-- A part of a request that leaves the stage alone. -/
theorem follows_then {Q : Except Failure β → Removal → Prop} {p : Chat.M α} {f : α → Chat.M β}
    (hp : Uses Still p) (hf : ∀ a, Follows chatRemovals Q (f a) g) (he : ∀ e, Q (.error e) g) :
    Follows chatRemovals Q (p >>= f) g := by
  refine follows_bind (follows_still hp) (fun a g' hg => ?_) fun e g' hg => ?_
  · cases hg
    exact hf a
  · cases hg
    exact he e

/-- The view of a message shows its id. -/
theorem follows_viewOne {Q : Except Failure β → Removal → Prop} {m : Message}
    {cv : ConversationWithMembers} {actorId : UserId} {f : MessageView → Chat.M β}
    (hf : ∀ view, view.id = m.id → Follows chatRemovals Q (f view) g) (he : ∀ e, Q (.error e) g) :
    Follows chatRemovals Q (viewOne m cv actorId >>= f) g := by
  unfold viewOne
  rw [bind_assoc']
  refine follows_then (still_loadReplyTo _) (fun replyTo => ?_) he
  rw [bind_assoc']
  exact follows_then (uses_perform trivial) (fun reactions => hf _ rfl) he

/-- The messages removed, as the handler finds them in the results. -/
def removedOf (results : List DeleteMessageResult) : List (MessageId × Text) :=
  results.flatMap fun result =>
    ((orNull result.removedAttachmentUrl).map fun url => (result.message.id, url)).toList

/-- The attachments that the results tell to delete are those of the messages removed. -/
def Returned (results : List DeleteMessageResult) (g : Removal) : Prop :=
  g.removed = removedOf results ∧ (g.removed = [] ∨ g.todo = [])

def ReturnsOne (r : Except Failure DeleteMessageResult) (g : Removal) : Prop :=
  ∀ result, r = .ok result → Returned [result] g

theorem returnsOne_error (e : Failure) (g : Removal) : ReturnsOne (.error e) g :=
  fun _ h => (nomatch h)

theorem deleteForEveryone_follows (m : Message) (cv : ConversationWithMembers) (actorId : UserId) :
    Follows chatRemovals ReturnsOne (deleteForEveryone m cv actorId) ⟨[m], []⟩ := by
  have herror : ∀ e, ReturnsOne (.error e) ⟨[m], []⟩ := fun e => returnsOne_error e _
  unfold deleteForEveryone
  refine follows_then (uses_rejectIf _ _) (fun _ => ?_) herror
  split
  · refine follows_viewOne (fun view _ => ?_) herror
    rintro _ ⟨⟩
    exact ⟨rfl, .inl rfl⟩
  · refine follows_then (uses_perform trivial) (fun now => ?_) herror
    refine follows_then (uses_rejectIf _ _) (fun _ => ?_) herror
    refine follows_then (uses_perform trivial) (fun deletedAt => ?_) herror
    refine follows_bind (Q := fun _ g => g = ⟨[], Removal.entries m⟩)
      (follows_perform ⟨m, [], rfl, rfl⟩ fun _ _ => rfl) (fun _ g hg => ?_)
      fun e g _ => returnsOne_error e g
    subst hg
    refine follows_viewOne (fun view hid => ?_) fun e => returnsOne_error e _
    rintro _ ⟨⟩
    refine ⟨?_, .inr rfl⟩
    simp [removedOf, Removal.entries, hid, Message.bury]

theorem deleteMessage_follows (c : ConversationId) (m : MessageId) (actorId : UserId)
    (forEveryone : Bool) :
    Follows chatRemovals ReturnsOne (Chat.deleteMessage c m actorId forEveryone) .start := by
  refine follows_then (still_requireMembership _ _) (fun cv => ?_) fun e => returnsOne_error e _
  refine follows_bind (Q := fun r g => ∀ found, r = .ok found →
    g = ⟨found.toList, []⟩) (follows_perform rfl ?_) (fun found g hg => ?_) fun e g _ => returnsOne_error e g
  · rintro (e | _ | found) - a ha <;> cases ha <;> rfl
  obtain rfl := hg found rfl
  cases found with
  | none => exact returnsOne_error _ _
  | some message =>
    change Follows chatRemovals ReturnsOne (if forEveryone = true then _ else _) ⟨[message], []⟩
    split
    · exact deleteForEveryone_follows message cv actorId
    · refine follows_then (still_hideMessage _ _) (fun _ => ?_) fun e => returnsOne_error e _
      refine follows_viewOne (fun view _ => ?_) fun e => returnsOne_error e _
      rintro _ ⟨⟩
      exact ⟨rfl, .inl rfl⟩

theorem expireMessage_follows {m : Message} {rest : List Message} {removed : List (MessageId × Text)}
    (halive : m.deletedForEveryoneAt = none) :
    Follows chatRemovals (fun r g => ∀ b, r = .ok b → g = ⟨rest, removed ++ removedOf b.toList⟩)
      (expireMessage m) ⟨m :: rest, removed⟩ := by
  unfold expireMessage
  refine follows_then (uses_perform trivial) (fun found => ?_) fun _ _ h => (nomatch h)
  cases found with
  | none =>
    refine follows_bind (Q := fun _ g => g = ⟨rest, removed⟩) (follows_perform ⟨m, rest, rfl, rfl⟩ ?_)
      (fun _ g hg => ?_) fun _ _ _ _ h => (nomatch h)
    · intro r _
      exact if_pos halive
    · rintro _ ⟨⟩
      simp [hg, removedOf]
  | some cv =>
    refine follows_then (uses_perform trivial) (fun now => ?_) fun _ _ h => (nomatch h)
    refine follows_bind (Q := fun _ g => g = ⟨rest, removed ++ Removal.entries m⟩)
      (follows_perform ⟨m, rest, rfl, rfl⟩ fun _ _ => rfl) (fun _ g hg => ?_)
      fun _ _ _ _ h => (nomatch h)
    subst hg
    refine follows_then (still_loadReplyTo _) (fun replyTo => ?_) fun _ _ h => (nomatch h)
    rintro _ ⟨⟩
    simp [removedOf, Removal.entries, toMessageView, Message.bury]

theorem collect_follows {due : List Message} {removed : List (MessageId × Text)}
    (halive : ∀ m ∈ due, m.deletedForEveryoneAt = none) :
    Follows chatRemovals (fun r g => ∀ bs, r = .ok bs → g = ⟨[], removed ++ removedOf bs⟩)
      (collect expireMessage due) ⟨due, removed⟩ := by
  induction due generalizing removed with
  | nil =>
    rintro _ ⟨⟩
    simp [removedOf]
  | cons m due ih =>
    refine follows_bind (expireMessage_follows (halive m List.mem_cons_self)) (fun b g hg => ?_)
      fun _ _ _ _ h => (nomatch h)
    obtain rfl := hg b rfl
    refine follows_bind (ih fun m hm => halive m (List.mem_cons_of_mem _ hm)) (fun bs g hg => ?_)
      fun _ _ _ _ h => (nomatch h)
    obtain rfl := hg bs rfl
    rintro _ ⟨⟩
    simp [removedOf]

def ReturnsAll (r : Except Failure (List DeleteMessageResult)) (g : Removal) : Prop :=
  ∀ results, r = .ok results → Returned results g

theorem expireDueMessages_follows : Follows chatRemovals ReturnsAll Chat.expireDueMessages .start := by
  refine follows_then (uses_perform trivial) (fun now => ?_) fun _ _ h => (nomatch h)
  refine follows_bind (Q := fun r g => ∀ due, r = .ok due →
    g = ⟨due, []⟩ ∧ ∀ m ∈ due, m.deletedForEveryoneAt = none) (follows_perform rfl ?_) (fun due g hg => ?_)
    fun _ _ _ _ h => (nomatch h)
  · rintro (e | due) hr a ⟨⟩
    exact ⟨rfl, hr⟩
  obtain ⟨rfl, halive⟩ := hg due rfl
  refine (collect_follows halive).mono fun r g hg results hr => ?_
  rw [hg results hr]
  exact ⟨rfl, .inr rfl⟩

/-! ### At the gateway -/

/-- The attachments of the removed messages are deleted, in the order of the results. -/
theorem removeAttachment_follows (result : DeleteMessageResult) {rest : List (MessageId × Text)}
    (hg : g.removed = removedOf [result] ++ rest) (htodo : g.removed = [] ∨ g.todo = []) :
    Follows removals (fun _ g' => g'.removed = rest ∧ g'.todo = g.todo) (removeAttachment result) g := by
  unfold removeAttachment
  cases hurl : orNull result.removedAttachmentUrl with
  | none =>
    simp only [removedOf, hurl, List.flatMap_cons, List.flatMap_nil, Option.map_none, Option.toList_none,
      List.nil_append] at hg
    exact ⟨hg, rfl⟩
  | some url =>
    simp only [removedOf, hurl, List.flatMap_cons, List.flatMap_nil, Option.map_some, Option.toList_some,
      List.cons_append, List.nil_append] at hg
    have htodo : g.todo = [] := htodo.resolve_left (by rw [hg]; exact List.cons_ne_nil _ _)
    refine follows_perform ⟨htodo, rest, hg⟩ fun r _ => ?_
    change Removal.removed ⟨g.todo, g.removed.tail⟩ = rest ∧ _
    rw [hg]
    exact ⟨rfl, rfl⟩

theorem removeAttachments_follows {results : List DeleteMessageResult} (hg : Returned results g) :
    Follows removals (fun _ _ => True) (removeAttachments results) g := by
  induction results generalizing g with
  | nil => trivial
  | cons result results ih =>
    have hsplit : removedOf (result :: results) = removedOf [result] ++ removedOf results := by
      simp [removedOf]
    obtain ⟨hremoved, htodo⟩ := hg
    rw [hsplit] at hremoved
    refine follows_bind (removeAttachment_follows result hremoved htodo) (fun _ g' hg' => ?_)
      fun _ _ _ => trivial
    refine ih ⟨hg'.1, ?_⟩
    obtain h | h := htodo
    · rw [h, eq_comm, List.append_eq_nil_iff] at hremoved
      exact .inl (hg'.1.trans hremoved.2)
    · exact .inr (hg'.2.trans h)

theorem Request.follows (o : Request) : Follows removals (fun _ _ => True) o.program .start := by
  have haside : ∀ {α : Type} {p : Chat.M α}, Uses Aside p →
      Follows removals (fun _ _ => True) (sendChat p) .start := fun h =>
    Follows.mono (fun _ _ _ => trivial) (follows_sendChat (follows_aside h rfl))
  have hread : ∀ c, ReadCall c → Aside c := fun _ h => aside_of_read h
  cases o with
  | sendMessage payload =>
    exact follows_bind (haside (uses_sendMessage hread payload (fun _ _ => trivial)
      (fun _ _ => trivial) (fun _ => trivial) fun _ _ _ _ _ => trivial)) (fun _ _ _ => trivial)
      fun _ _ _ => trivial
  | forwardMessage a source target m =>
    exact follows_bind (haside (uses_forwardMessage hread (fun _ _ => trivial) (fun _ => trivial)
      (fun _ => trivial) a source target m)) (fun _ _ _ => trivial) fun _ _ _ => trivial
  | scheduleMessage payload =>
    have hquiet : Uses Aside (Chat.scheduleMessage payload) :=
      (quiet_scheduleMessage payload).mono (fun _ _ _ => trivial) fun c hc => by
        cases c <;> first | exact trivial | exact hc
    exact follows_bind (haside hquiet) (fun _ _ _ => trivial) fun _ _ _ => trivial
  | scheduledTick =>
    have hdispatch : Uses Aside dispatchDueScheduled := uses_dispatchDueScheduled hread
      (fun _ _ => trivial) (fun _ _ _ => trivial) (fun _ => trivial) (fun _ _ _ _ _ => trivial)
      (fun _ => trivial) fun _ _ => trivial
    refine follows_bind (Q := fun _ _ => True) ?_ (fun _ _ _ => trivial) fun _ _ _ => trivial
    exact follows_bind (Q := fun _ _ => True) (Follows.attempt (haside hdispatch)) (fun _ _ _ => trivial)
      fun _ _ _ => trivial
  | deleteMessage c m a forEveryone =>
    refine follows_bind (Q := fun _ _ => True) ?_ (fun _ _ _ => trivial) fun _ _ _ => trivial
    refine follows_bind (follows_sendChat (deleteMessage_follows c m a forEveryone))
      (fun result g hg => ?_) fun _ _ _ => trivial
    obtain ⟨hremoved, htodo⟩ := hg result rfl
    split
    · exact follows_bind (removeAttachment_follows result (hremoved.trans (List.append_nil _).symm) htodo)
        (fun _ _ _ => trivial) fun _ _ _ => trivial
    · trivial
  | disappearingTick =>
    refine follows_bind (Q := fun _ _ => True) ?_ (fun _ _ _ => trivial) fun _ _ _ => trivial
    refine follows_bind (Q := fun _ _ => True) (Follows.attempt ?_) (fun _ _ _ => trivial)
      fun _ _ _ => trivial
    exact follows_bind (follows_sendChat expireDueMessages_follows)
      (fun results g hg => removeAttachments_follows (hg results rfl)) fun _ _ _ => trivial

end Handlers

/-! ## Runs -/

/-- The message is not deleted for everyone and shows the attachment. -/
def Shows (row : Message) (url : Text) : Prop :=
  row.deletedForEveryoneAt = none ∧ row.attachmentUrl = some url

instance (row : Message) (url : Text) : Decidable (Shows row url) :=
  inferInstanceAs (Decidable (_ ∧ _))

/-- When the storage is told to delete an attachment, only the message it is deleted for may show it. -/
def Spares (s : Db) : Call → Prop
  | .deleteByUrl url m => ∀ row ∈ s.messages, Shows row url → row.id = m
  | _ => True

instance (s : Db) (c : Call) : Decidable (Spares s c) := by
  unfold Spares
  split <;> infer_instance

/-- A message is removed while no other one shows its attachment, those aside that the same request is
about to remove; and none is stored with an attachment that is about to be deleted for another one. -/
def Unshared (s : Db) (gs : List (Request × Removal)) (i : Nat) : Call → Prop
  | .chat (.insertMessage d) => ∀ g ∈ gs, ∀ r ∈ g.2.removed, d.attachmentUrl ≠ some r.2
  | .chat (.saveMessage m) =>
    if m.deletedForEveryoneAt = none then
      ∀ g ∈ gs, ∀ r ∈ g.2.removed, m.attachmentUrl = some r.2 → m.id = r.1
    else
      ∀ g ∈ gs[i]?, ∀ r ∈ g.2.todo.head?.elim [] Removal.entries,
        ∀ row ∈ s.messages, Shows row r.2 → row.id ∈ g.2.todo.map Message.id
  | _ => True

instance (s : Db) (gs : List (Request × Removal)) (i : Nat) (c : Call) :
    Decidable (Unshared s gs i c) := by
  unfold Unshared
  split <;> infer_instance

/-- An attachment that is about to be deleted is shown by no message but those that the request still
has to remove. -/
def Pending (s : Db) (gs : List (Request × Removal)) : Prop :=
  ∀ g ∈ gs, ∀ r ∈ g.2.removed, ∀ row ∈ s.messages, Shows row r.2 →
    row.id = r.1 ∨ row.id ∈ g.2.todo.map Message.id

section Step

variable {s : Db} {gs : List (Request × Removal)} {i : Nat} {o : Request} {g : Removal}

/-- Where the messages stay, and the request gets no further. -/
theorem Pending.keep {t : Db} {g' : Removal} (h : Pending s gs) (hg : gs[i]? = some (o, g))
    (ht : t.messages = s.messages) (hremoved : ∀ r ∈ g'.removed, r ∈ g.removed)
    (htodo : g'.removed = [] ∨ g'.todo = g.todo) : Pending t (gs.set i (o, g')) := by
  intro x hx r hr row hrow hshows
  rw [ht] at hrow
  obtain hx | rfl := List.mem_or_eq_of_mem_set hx
  · exact h x hx r hr row hrow hshows
  · obtain hnil | heq := htodo
    · rw [hnil] at hr
      cases hr
    · rw [heq]
      exact h (o, g) (List.mem_of_getElem? hg) r (hremoved r hr) row hrow hshows

theorem Pending.insert {d : MessageDraft} (h : Pending s gs) (hg : gs[i]? = some (o, g))
    (hfree : Unshared s gs i (.chat (.insertMessage d))) :
    Pending (Chat.exec (.insertMessage d) s).2 (gs.set i (o, g)) := by
  rw [set_self hg]
  intro x hx r hr row hrow hshows
  obtain hrow | hnew := List.mem_append.mp hrow
  · exact h x hx r hr row hrow hshows
  · obtain rfl := List.mem_singleton.mp hnew
    exact absurd hshows.2 (hfree x hx r hr)

/-- A message is written back as it was alive. -/
theorem Pending.restore {old m : Message} {rest : List Message} (h : Pending s gs)
    (hg : gs[i]? = some (o, g)) (htodo : g.todo = old :: rest) (hid : m.id = old.id)
    (halive : m.deletedForEveryoneAt = none) (hfree : Unshared s gs i (.chat (.saveMessage m))) :
    Pending (Chat.exec (.saveMessage m) s).2 (gs.set i (o, ⟨rest, g.removed⟩)) := by
  simp only [Unshared, if_pos halive] at hfree
  have hrows : ∀ x ∈ gs, ∀ r ∈ x.2.removed, ∀ row ∈ (Chat.exec (.saveMessage m) s).2.messages,
      Shows row r.2 → row.id = r.1 ∨ row.id ≠ m.id ∧ row.id ∈ x.2.todo.map Message.id := by
    intro x hx r hr row hrow hshows
    obtain ⟨rfl, _⟩ | ⟨hrow, hne⟩ := mem_replaceRow_iff.mp hrow
    · exact .inl (hfree x hx r hr hshows.2)
    · exact (h x hx r hr row hrow hshows).imp_right fun hmem => ⟨hne, hmem⟩
  intro x hx r hr row hrow hshows
  obtain hx | rfl := List.mem_or_eq_of_mem_set hx
  · exact (hrows x hx r hr row hrow hshows).imp_right And.right
  · refine (hrows (o, g) (List.mem_of_getElem? hg) r hr row hrow hshows).imp_right fun hmem => ?_
    rw [htodo, List.map_cons, List.mem_cons] at hmem
    exact hmem.2.resolve_left fun heq => hmem.1 (heq.trans hid.symm)

/-- A message is removed. -/
theorem Pending.remove {old m : Message} {rest : List Message} (h : Pending s gs)
    (hg : gs[i]? = some (o, g)) (htodo : g.todo = old :: rest) (hid : m.id = old.id)
    (hdeleted : m.deletedForEveryoneAt ≠ none) (hfree : Unshared s gs i (.chat (.saveMessage m))) :
    Pending (Chat.exec (.saveMessage m) s).2
      (gs.set i (o, ⟨rest, g.removed ++ Removal.entries old⟩)) := by
  simp only [Unshared, if_neg hdeleted] at hfree
  have hrow_of : ∀ row ∈ (Chat.exec (.saveMessage m) s).2.messages, ∀ url, Shows row url →
      row ∈ s.messages ∧ row.id ≠ m.id := by
    intro row hrow url hshows
    obtain ⟨rfl, _⟩ | hrow := mem_replaceRow_iff.mp hrow
    · exact absurd hshows.1 hdeleted
    · exact hrow
  intro x hx r hr row hrow hshows
  obtain ⟨hmem, hne⟩ := hrow_of row hrow r.2 hshows
  obtain hx | rfl := List.mem_or_eq_of_mem_set hx
  · exact h x hx r hr row hmem hshows
  · have hrest : row.id ∈ g.todo.map Message.id → row.id ∈ rest.map Message.id := by
      rw [htodo, List.map_cons, List.mem_cons]
      exact fun hor => hor.resolve_left fun heq => hne (heq.trans hid.symm)
    obtain hr | hr := List.mem_append.mp hr
    · exact (h (o, g) (List.mem_of_getElem? hg) r hr row hmem hshows).imp_right hrest
    · refine .inr (hrest (hfree (o, g) hg r ?_ row hmem hshows))
      simpa [htodo] using hr

theorem Pending.call {c : Call} (h : Pending s gs) (hg : gs[i]? = some (o, g)) (hallowed : g.Allows c)
    (hfree : Unshared s gs i c) :
    Pending (exec c s).2 (gs.set i (o, g.next c (exec c s).1)) := by
  match c with
  | .deleteByUrl url m =>
    exact h.keep hg rfl (fun r hr => List.mem_of_mem_tail hr) (.inr rfl)
  | .chat c =>
    have hother : Still c → (∀ d, c ≠ .insertMessage d) → Pending (exec (.chat c) s).2
        (gs.set i (o, g.next (.chat c) (exec (.chat c) s).1)) := by
      intro hstill hinsert
      rw [hstill.next]
      refine h.keep hg (exec_messages hinsert (fun m hm => ?_) s) (fun r hr => hr) (.inr rfl)
      subst hm
      exact hstill
    cases c with
    | insertMessage d => exact h.insert hg hfree
    | saveMessage m =>
      obtain ⟨old, rest, htodo, hid⟩ := hallowed
      by_cases halive : m.deletedForEveryoneAt = none
      · have hnext : g.next (.chat (.saveMessage m)) (exec (.chat (.saveMessage m)) s).1 =
            ⟨rest, g.removed⟩ := by simp [Removal.next, halive, htodo]
        rw [hnext]
        exact h.restore hg htodo hid halive hfree
      · have hnext : g.next (.chat (.saveMessage m)) (exec (.chat (.saveMessage m)) s).1 =
            ⟨rest, g.removed ++ Removal.entries old⟩ := by simp [Removal.next, halive, htodo]
        rw [hnext]
        exact h.remove hg htodo hid halive hfree
    | findMessage id c =>
      have hremoved : ∀ r, (g.next (.chat (.findMessage id c)) r).removed = g.removed := by
        rintro (e | _ | m) <;> rfl
      exact h.keep hg rfl (fun r hr => hremoved _ ▸ hr) (.inl ((hremoved _).trans hallowed))
    | findDueMessages t => exact h.keep hg rfl (fun r hr => hr) (.inl hallowed)
    | _ => exact hother trivial fun _ heq => (nomatch heq)

end Step

abbrev Handling := Staged Call Call.Answer Failure (Option Response) Db (Request × Removal)

def handleStep : Pool.Event Empty Nat → Handling → Handling :=
  serve exec (fun d db => db.wait d) (fun _ => removals) fun _ _ => false

def handling (os : List Request) (s : Db) : Handling :=
  requests Request.program (fun _ => .start) os s

/-- Where every step of a run is unshared, the storage deletes no attachment that another message shows. -/
theorem attachments_spared {s : Db} {os : List Request} {es : List (Pool.Event Empty Nat)}
    (hL : Runs.Along handleStep (Staged.Meets (fun _ _ => false) Unshared) es (handling os s)) :
    Runs.Along handleStep (Staged.Meets (fun _ _ => false) fun s _ _ c => Spares s c) es
      (handling os s) := by
  have hstart : Serving (fun _ => removals) (fun _ _ _ => True) Pending os (handling os s) := by
    refine Serving.start Request.follows fun g hg r hr => ?_
    obtain ⟨o, _, rfl⟩ := List.mem_map.mp hg
    cases hr
  have hrun : Runs.Always handleStep
      (Serving (fun _ => removals) (fun _ _ _ => True) Pending os) es (handling os s) := by
    refine Serving.always (fun _ => answers_exec) ?_ ?_ hstart hL
    · intro s gs i o g c hJ hg hallowed _ hfree
      exact hJ.call hg hallowed hfree
    · intro d s gs hJ
      exact hJ
  refine Runs.Along.of_always (fun w e hw => hw.meets (fun i o g c hg hallowed => ?_) e) hrun
  match c with
  | .chat c => trivial
  | .deleteByUrl url m =>
    obtain ⟨htodo, rest, hremoved⟩ := hallowed
    intro row hrow hshows
    have hmem : (m, url) ∈ g.removed := hremoved ▸ List.mem_cons_self
    refine (hw.inv (o, g) (List.mem_of_getElem? hg) (m, url) hmem row hrow hshows).resolve_right ?_
    rw [htodo]
    exact List.not_mem_nil

/-- A has sent B a photo, and has another conversation with C. -/
def photoSent : Db :=
  (Db.empty 0 0).serve [.createPrivate userA userB, .createPrivate userA userC,
    .sendMessage { textMessage userA 0 ['h', 'i'] with attachmentUrl := some "/uploads/p".toList }]

theorem attachments_spared_onlyOne :
    Runs.Along handleStep (Staged.Meets (fun _ _ => false) fun s _ _ c => Spares s c)
      (List.replicate 7 (.advance 0)) (handling [.deleteMessage 0 6 userA true] photoSent) :=
  attachments_spared (by decide)

/-- A forwards the photo to C and then deletes it for B. -/
theorem attachments_spared_fails :
    ¬ ∀ (s : Db) (os : List Request) (es : List (Pool.Event Empty Nat)), Reachable s →
      Runs.Along handleStep (Staged.Meets (fun _ _ => false) fun s _ _ c => Spares s c) es
        (handling os s) := by
  intro h
  have hspared := h photoSent [.forwardMessage userA 0 3 6, .deleteMessage 0 6 userA true]
    (List.replicate 8 (.advance 0) ++ List.replicate 7 (.advance 1)) ((reachable_empty 0 0).serve _)
  revert hspared
  decide

end Relay.Gateway.Attachments
