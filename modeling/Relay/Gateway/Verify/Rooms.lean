import Relay.Chat.Verify.Lawful
import Relay.Gateway.Rooms

/-!
# A join while the user is removed

`chat:join` asks the chat service for the conversation and enters the room some steps later; a removal makes
the sockets it finds leave the room, one by one. `EntersInTime` is the condition on the steps under which no
socket of the removed user is left in the room, and `evicted_iff` says that it is exact.
-/

namespace Relay.Gateway.Rooms

open Relay.Lib Relay.Chat

/-! ## How far the handlers have come -/

inductive Stage where
  | running
  /-- The join has entered the room. -/
  | entered
  /-- The removal has looked up the sockets; these are still to leave the room. -/
  | evicting (sockets : List SocketId)
deriving DecidableEq

/-- The calls that have nothing to do with rooms. -/
def Call.aside : Call → Bool
  | .chat _ | .getMemberIds _ | .setMemberIds _ _ => true
  | _ => false

def Op.allows : Op → Stage → Call → Prop
  | .joinConversation socket _ c, .running, .joinRoom socket' c' => socket' = socket ∧ c' = c
  | o, .running, .fetchSockets u => o.removes.map Prod.snd = some u
  | o, .evicting (socket :: _), .leaveRoom socket' c => socket' = socket ∧ o.removes.map Prod.fst = some c
  | _, g, c => c.aside = true ∧ g = .running

def Stage.next : Stage → (c : Call) → Except Failure c.Answer → Stage
  | _, .joinRoom _ _, _ => .entered
  | _, .fetchSockets _, .ok sockets => .evicting sockets
  | .evicting (_ :: sockets), .leaveRoom _ _, _ => .evicting sockets
  | g, _, _ => g

/-- Only the calls of the chat service fail. -/
def Answers : (c : Call) → Except Failure c.Answer → Prop
  | .chat _, _ => True
  | _, r => ∃ a, r = .ok a

def protocol (o : Op) : Protocol Call Call.Answer Failure Stage := ⟨o.allows, Stage.next, Answers⟩

theorem answers_exec (s : State) (c : Call) : Answers c (exec c s).1 := by
  cases c with
  | chat c => trivial
  | _ => exact ⟨_, rfl⟩

section Follows

variable {α β : Type} {o : Op} {c : ConversationId} {u : UserId} {Q : Except Failure β → Stage → Prop}

theorem allows_aside (o : Op) {c : Call} (h : c.aside = true) : o.allows .running c := by
  cases c with
  | joinRoom socket c => cases h
  | fetchSockets u => cases h
  | leaveRoom socket c => cases h
  | _ => cases o <;> exact ⟨rfl, rfl⟩

theorem next_aside {c : Call} (h : c.aside = true) (g : Stage) (r : Except Failure c.Answer) :
    g.next c r = g := by
  cases c with
  | joinRoom socket c => cases h
  | fetchSockets u => cases h
  | leaveRoom socket c => cases h
  | _ => cases g <;> rfl

theorem follows_aside {c : Call} {f : c.Answer → M β} (h : c.aside = true)
    (hf : ∀ a, Prog.Follows (protocol o) Q (f a) .running) (he : ∀ e, Q (.error e) .running) :
    Prog.Follows (protocol o) Q (perform c >>= f) .running :=
  Prog.follows_skip (allows_aside o h) (fun r _ => next_aside h _ r) (fun a _ => hf a) he

theorem follows_sendChat {f : α → M β} (hf : ∀ a, Prog.Follows (protocol o) Q (f a) .running)
    (he : ∀ e, Q (.error e) .running) (p : Chat.M α) :
    Prog.Follows (protocol o) Q (sendChat p >>= f) .running := by
  induction p with
  | ret a => exact hf a
  | fail e => exact he e
  | call c k ih => exact ⟨allows_aside o rfl, fun r _ => ih r⟩

theorem follows_leaveRooms (h : o.removes.map Prod.fst = some c) (sockets : List SocketId) :
    Prog.Follows (protocol o) (fun r g => (∃ a, r = .ok a) ∧ g = .evicting []) (leaveRooms c sockets)
      (.evicting sockets) := by
  induction sockets with
  | nil => exact ⟨⟨(), rfl⟩, rfl⟩
  | cons socket sockets ih =>
    refine ⟨?_, ?_⟩
    · cases o <;> exact ⟨rfl, h⟩
    · rintro _ ⟨a, rfl⟩
      exact ih

theorem follows_evict (h : o.removes = some (c, u)) :
    Prog.Follows (protocol o) (fun r g => (∃ a, r = .ok a) ∧ g = .evicting [])
      (evictUsersFromConversation c [u]) .running := by
  refine ⟨?_, ?_⟩
  · cases o with
    | joinConversation socket u c => cases h
    | _ => exact congrArg (Option.map Prod.snd) h
  · rintro _ ⟨sockets, rfl⟩
    have hleave := follows_leaveRooms (o := o) (c := c) (by rw [h]; rfl) sockets
    exact Prog.follows_bind hleave (fun _ g hg => ⟨⟨(), rfl⟩, hg.2⟩) fun e g ⟨⟨_, h⟩, _⟩ => nomatch h

/-- A removal that succeeds has been through all the sockets. -/
def Op.Ended (o : Op) (r : Except Failure ConversationId) (g : Stage) : Prop :=
  o.removes.isSome = true → (∃ a, r = .ok a) → g = .evicting []

theorem Op.follows (o : Op) : Prog.Follows (protocol o) o.Ended o.program .running := by
  cases o with
  | joinConversation socket u c =>
    refine follows_sendChat (fun conversation => ?_) (fun e h => nomatch h) _
    refine follows_aside rfl (fun _ => ?_) fun e h => nomatch h
    refine ⟨⟨rfl, rfl⟩, ?_⟩
    rintro _ ⟨a, rfl⟩
    exact fun h => nomatch h
  | removeMember c a m =>
    refine follows_sendChat (fun data => ?_) (fun e _ ⟨_, h⟩ => nomatch h) _
    refine follows_aside rfl (fun _ => ?_) fun e _ ⟨_, h⟩ => nomatch h
    refine Prog.follows_bind (follows_evict rfl) (fun _ g hg => ?_) fun e g hg => ?_
    · exact fun _ _ => hg.2
    · exact fun _ _ => hg.2
  | leave c u =>
    have hrest : ∀ previousIds : List UserId, Prog.Follows (protocol (.leave c u)) (Op.Ended (.leave c u)) (do
        let _ ← sendChat (Chat.leave c u)
        perform (.setMemberIds c (previousIds.filter fun id => id ≠ u))
        evictUsersFromConversation c [u]
        return c : M ConversationId) .running := by
      intro previousIds
      refine follows_sendChat (fun _ => ?_) (fun e _ ⟨_, h⟩ => nomatch h) _
      refine follows_aside rfl (fun _ => ?_) fun e _ ⟨_, h⟩ => nomatch h
      refine Prog.follows_bind (follows_evict rfl) (fun _ g hg => ?_) fun e g hg => ?_
      · exact fun _ _ => hg.2
      · exact fun _ _ => hg.2
    refine follows_aside rfl (fun cached => ?_) fun e _ ⟨_, h⟩ => nomatch h
    cases cached with
    | some ids => exact hrest ids
    | none =>
      exact follows_sendChat (fun conversation => hrest _) (fun e _ ⟨_, h⟩ => nomatch h) _

end Follows

/-- What a handler can do next. -/
theorem allows_cases {o : Op} {g : Stage} {call : Call} (h : o.allows g call) :
    call.aside = true ∧ g = .running ∨
    (∃ socket u c, o = .joinConversation socket u c ∧ g = .running ∧ call = .joinRoom socket c) ∨
    (∃ u, o.removes.map Prod.snd = some u ∧ g = .running ∧ call = .fetchSockets u) ∨
    ∃ socket sockets c, o.removes.map Prod.fst = some c ∧ g = .evicting (socket :: sockets) ∧
      call = .leaveRoom socket c := by
  unfold Op.allows at h
  split at h
  · next socket u c socket' c' =>
    obtain ⟨rfl, rfl⟩ := h
    exact .inr (.inl ⟨_, _, _, rfl, rfl, rfl⟩)
  · exact .inr (.inr (.inl ⟨_, h, rfl, rfl⟩))
  · obtain ⟨rfl, h⟩ := h
    exact .inr (.inr (.inr ⟨_, _, _, h, rfl, rfl⟩))
  · exact .inl h

theorem exec_aside {c : Call} (h : c.aside = true) (s : State) :
    (exec c s).2.rooms = s.rooms ∧ (exec c s).2.sockets = s.sockets := by
  cases c with
  | joinRoom socket c => cases h
  | fetchSockets u => cases h
  | leaveRoom socket c => cases h
  | _ => exact ⟨rfl, rfl⟩

theorem exec_sockets (c : Call) (s : State) : (exec c s).2.sockets = s.sockets := by
  cases c <;> rfl

theorem mem_socketsOf {s : State} {u : UserId} {k : SocketId} (h : s.sockets.lookup k = some u) :
    k ∈ s.socketsOf u := by
  refine List.mem_map.mpr ⟨⟨k, u⟩, List.mem_filter.mpr ⟨?_, decide_eq_true rfl⟩, rfl⟩
  exact AList.mem_lookup_iff.mp h

/-! ## Runs -/

abbrev Service := Staged Call Call.Answer Failure ConversationId State (Op × Stage)

abbrev Event := Pool.Event Empty Nat

def step : Event → Service → Service := serve exec (fun d s => s.wait d) protocol fun _ _ => false

/-- Both requests have come in. -/
def together (join removal : Op) (s : State) : Service :=
  requests Op.program (fun _ => .running) [join, removal] s

/-- Both requests have ended, and the removal has succeeded. -/
def Completed (w : Service) : Prop := (w.pool.result 0).isSome = true ∧ ∃ a, w.pool.result 1 = some (.ok a)

/-- No socket of the user is in the room. -/
def Evicted (u : UserId) (c : ConversationId) (s : State) : Prop :=
  ∀ k, s.sockets.lookup k = some u → (k, c) ∉ s.rooms

/-- The sockets have been looked up, and this one is not among those that are still to leave. -/
def Stage.past : Stage → SocketId → Bool
  | .evicting sockets, k => k ∉ sockets
  | _, _ => false

/-- A removal is past the socket. -/
def passed (gs : List (Op × Stage)) (k : SocketId) : Bool :=
  gs.any fun g => g.1.removes.isSome && g.2.past k

/-- The call lets no socket enter a room that a removal has already made it leave. -/
def Timely (gs : List (Op × Stage)) : Call → Prop
  | .joinRoom k _ => passed gs k = false
  | _ => True

instance (gs : List (Op × Stage)) (call : Call) : Decidable (Timely gs call) := by
  unfold Timely
  split <;> infer_instance

def EntersInTime : Service → Event → Prop :=
  Staged.Meets (fun _ _ => false) fun _ gs _ call => Timely gs call

instance (w : Service) (e : Event) : Decidable (EntersInTime w e) := by
  unfold EntersInTime
  infer_instance

section Run

variable {socket : SocketId} {u : UserId} {c : ConversationId} {removal : Op}
  {sockets : AList fun _ : SocketId => UserId} {w : Service}

/-- Both requests are being served; nobody connects or disconnects. -/
abbrev Joining (socket : SocketId) (u : UserId) (c : ConversationId) (removal : Op)
    (sockets : AList fun _ : SocketId => UserId) : Service → Prop :=
  Serving protocol Op.Ended (fun s _ => s.sockets = sockets) [.joinConversation socket u c, removal]

theorem joining_start (s : State) :
    Joining socket u c removal s.sockets (together (.joinConversation socket u c) removal s) :=
  Serving.start Op.follows rfl

theorem Joining.step (h : Joining socket u c removal sockets w) (e : Event) :
    Joining socket u c removal sockets (Rooms.step e w) := by
  have henv : ∀ (d : Nat) (s : State) (_ : List (Op × Stage)), s.sockets = sockets →
      (s.wait d).sockets = sockets := fun _ _ _ hs => hs
  exact Serving.step (L := fun _ _ _ _ => True) (fun _ s c => answers_exec s c)
    (fun s _ _ _ _ c hs _ _ _ _ => (exec_sockets c s).trans hs) henv h (Staged.meets_true _ w e)

theorem Joining.stages (h : Joining socket u c removal sockets w) :
    ∃ g g', w.stages = [(.joinConversation socket u c, g), (removal, g')] := by
  have hserved : w.stages.map Prod.fst = [.joinConversation socket u c, removal] := h.served
  obtain ⟨⟨o, g⟩, gs, hw, ho, hgs⟩ := List.map_eq_cons_iff.mp hserved
  obtain ⟨⟨o', g'⟩, gs', rfl, ho', hgs'⟩ := List.map_eq_cons_iff.mp hgs
  cases List.map_eq_nil_iff.mp hgs'
  cases ho
  cases ho'
  exact ⟨g, g', hw⟩

theorem passed_eq {g g' : Stage} (hremoval : removal.removes = some (c, u)) (k : SocketId) :
    passed [(.joinConversation socket u c, g), (removal, g')] k = g'.past k := by
  have hjoin : (Op.joinConversation socket u c).removes = none := rfl
  simp [passed, hremoval, hjoin]

/-- The sockets of the user that the removal is past are out of the room. -/
def PassedOut (u : UserId) (c : ConversationId) (g : Stage) (s : State) : Prop :=
  ∀ k, s.sockets.lookup k = some u → g.past k = true → (k, c) ∉ s.rooms

theorem passedOut_of_not_past {g : Stage} {s : State}
    (h : ∀ k, s.sockets.lookup k = some u → g.past k = false) : PassedOut u c g s := by
  intro k hk hpast
  rw [h k hk] at hpast
  cases hpast

theorem passedOut_congr {g : Stage} {s s' : State} (hrooms : s'.rooms = s.rooms)
    (hsockets : s'.sockets = s.sockets) : PassedOut u c g s' ↔ PassedOut u c g s := by
  unfold PassedOut
  rw [hrooms, hsockets]

theorem timely_aside {gs : List (Op × Stage)} {call : Call} (h : call.aside = true) : Timely gs call := by
  cases call with
  | joinRoom k c => cases h
  | _ => trivial

/-- The join lets the socket in. -/
theorem passedOut_joinRoom {g : Stage} {s : State} (hsocket : s.sockets.lookup socket = some u) :
    PassedOut u c g (exec (.joinRoom socket c) s).2 ↔ PassedOut u c g s ∧ g.past socket = false := by
  constructor
  · intro h
    refine ⟨fun k hk hpast hmem => h k hk hpast (Finset.mem_insert_of_mem hmem), ?_⟩
    refine Bool.eq_false_iff.mpr fun hpast => h socket hsocket hpast ?_
    exact Finset.mem_insert_self _ _
  · rintro ⟨h, hpast⟩ k hk hpast' hmem
    obtain heq | hmem := Finset.mem_insert.mp hmem
    · cases heq
      rw [hpast] at hpast'
      cases hpast'
    · exact h k hk hpast' hmem

/-- The removal goes on; the sockets it is past are out. -/
theorem passedOut_removal {g : Stage} {call : Call} {s : State} (hremoval : removal.removes = some (c, u))
    (hallows : removal.allows g call) :
    PassedOut u c (g.next call (exec call s).1) (exec call s).2 ↔ PassedOut u c g s := by
  obtain ⟨haside, rfl⟩ | ⟨_, _, _, rfl, _⟩ | ⟨u', hu', rfl, rfl⟩ | ⟨k, ks, c', hc', rfl, rfl⟩ :=
    allows_cases hallows
  · rw [next_aside haside]
    exact passedOut_congr (exec_aside haside s).1 (exec_aside haside s).2
  · cases hremoval
  · rw [hremoval] at hu'
    cases hu'
    refine iff_of_true (passedOut_of_not_past fun k hk => ?_) (passedOut_of_not_past fun _ _ => rfl)
    simp only [Stage.next, exec, Stage.past, decide_eq_false_iff_not, not_not]
    exact mem_socketsOf hk
  · rw [hremoval] at hc'
    cases hc'
    constructor
    · intro h k' hk' hpast hmem
      have hout := of_decide_eq_true hpast
      rw [List.mem_cons, not_or] at hout
      refine h k' hk' (decide_eq_true hout.2) (Finset.mem_erase.mpr ⟨fun heq => hout.1 ?_, hmem⟩)
      exact congrArg Prod.fst heq
    · intro h k' hk' hpast hmem
      obtain ⟨hne, hmem⟩ := Finset.mem_erase.mp hmem
      refine h k' hk' (decide_eq_true ?_) hmem
      rw [List.mem_cons, not_or]
      exact ⟨fun heq => hne (heq ▸ rfl), of_decide_eq_true hpast⟩

/-- How far the removal has come. -/
def removalStage (w : Service) : Stage := (w.stages[1]?.map Prod.snd).getD .running

/-- A step keeps out what is out exactly when it is in time. -/
theorem Joining.passedOut_iff (h : Joining socket u c removal sockets w)
    (hremoval : removal.removes = some (c, u)) (hsocket : sockets.lookup socket = some u) (e : Event) :
    PassedOut u c (removalStage (Rooms.step e w)) (Rooms.step e w).pool.store ↔
      PassedOut u c (removalStage w) w.pool.store ∧ EntersInTime w e := by
  obtain ⟨g, g', hstages⟩ := h.stages
  have hstage : removalStage w = g' := by
    unfold removalStage
    rw [hstages]
    rfl
  obtain ⟨i, call, o, g₁, rfl, hcall, hg, hallows, _, hstore, hnext⟩ | ⟨hidle, hmeets, _⟩ | ⟨d, rfl, hd⟩ :=
    h.event_cases exec (fun (d : Nat) s => s.wait d) (fun _ _ => false) e
  · have hmeets : EntersInTime w (.advance i) ↔ Timely w.stages call := by
      simp [EntersInTime, Staged.Meets, hcall]
    rw [hmeets, hstage]
    rw [hstages] at hg
    rcases i with _ | _ | i
    · cases hg
      have hsame : removalStage (Rooms.step (.advance 0) w) = g' := by
        unfold removalStage Rooms.step
        rw [hnext, hstages]
        rfl
      rw [hsame]
      unfold Rooms.step
      rw [hstore]
      obtain ⟨haside, rfl⟩ | ⟨_, _, _, ho, rfl, rfl⟩ | ⟨_, hu, _⟩ | ⟨_, _, _, hc, _⟩ := allows_cases hallows
      · rw [and_iff_left (timely_aside haside)]
        exact passedOut_congr (exec_aside haside _).1 (exec_aside haside _).2
      · cases ho
        rw [hstages]
        simp only [Timely, passed_eq hremoval]
        exact passedOut_joinRoom (h.inv ▸ hsocket)
      · cases hu
      · cases hc
    · cases hg
      have hgoes : removalStage (Rooms.step (.advance 1) w) = g'.next call (exec call w.pool.store).1 := by
        unfold removalStage Rooms.step
        rw [hnext, hstages]
        rfl
      have htimely : Timely w.stages call := by
        obtain ⟨haside, _⟩ | ⟨_, _, _, rfl, _⟩ | ⟨_, _, _, rfl⟩ | ⟨_, _, _, _, _, rfl⟩ := allows_cases hallows
        · exact timely_aside haside
        · cases hremoval
        · trivial
        · trivial
      rw [hgoes, and_iff_left htimely]
      unfold Rooms.step
      rw [hstore]
      exact passedOut_removal hremoval hallows
    · cases hg
  · unfold Rooms.step
    rw [hidle]
    exact (and_iff_left (hmeets _)).symm
  · unfold Rooms.step
    rw [hd]
    exact (and_iff_left trivial).symm

end Run

/-- A group of A and B; B has one socket, which is not in the room. -/
def group : State where
  db := (Db.empty 0 0).serve [.createGroup userA ['g'] [userB]]
  sockets := (∅ : AList fun _ : SocketId => UserId).insert 7 userB
  rooms := ∅
  memberIds := ∅

/-- B joins, then A removes B. -/
def joinFirst : List Event := List.replicate 4 (.advance 0) ++ List.replicate 10 (.advance 1)

/-- B enters the room after the removal. -/
def removalBetween : List Event :=
  List.replicate 3 (.advance 0) ++ List.replicate 10 (.advance 1) ++ [.advance 0]

/-- What becomes of the two requests. -/
def removing (es : List Event) : Service :=
  Runs.final step es (together (.joinConversation 7 userB 0) (.removeMember 0 userA userB) group)

end Relay.Gateway.Rooms
