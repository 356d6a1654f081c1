import Relay.Lib.Staged
import Relay.Chat.Verify.Footprint
import Relay.Chat.Verify.Saves
import Relay.Chat.Verify.Ownership

/-!
# Two requests on the seats of one group at the same time

Two of `leave`, `removeMember` and `setMemberRole` run against one group, their repository calls in any
order. Each decides on what it has loaded. When an owner leaves, the row of the successor is saved first
and then the row of the owner; the group keeps its one owner as long as the other request does not undo
the first of these saves (`one_owner_left`).
-/

namespace Relay.Chat

open Relay.Lib Relay.Lib.Rows Prog

variable {s : Db} {c : ConversationId}

/-! ## The stages of a request -/

inductive SeatStage where
  /-- Nothing is loaded yet. -/
  | asks (op : SeatOp)
  | loaded (plan : SeatPlan)
  /-- An owner is leaving, and the successor's row is saved. -/
  | handed (membership next : ConversationMember)
  | done
deriving DecidableEq

namespace SeatStage

/-- The member whose departure is saved next. -/
def departing : SeatStage → Option ConversationMember
  | .loaded (.leave m none) => some m
  | .loaded (.remove t) => some t
  | .handed m _ => some m
  | _ => none

/-- The row that is saved next, and stays active. -/
def appointing : SeatStage → Option ConversationMember
  | .loaded (.leave _ (some n)) => some { n with role := .owner }
  | .loaded (.assign t role) => some { t with role }
  | _ => none

/-- The row with this id is about to be left. -/
def Leaves (g : SeatStage) (id : Nat) : Prop := g.departing.map ConversationMember.id = some id

instance (g : SeatStage) (id : Nat) : Decidable (g.Leaves id) :=
  inferInstanceAs (Decidable (_ = _))

/-- The owner with this row id has handed the group over. -/
def HandedBy : SeatStage → Nat → Prop
  | .handed m _, id => m.id = id
  | _, _ => False

/-- No row is saved yet, and the request is not rejected. -/
def Unsaved : SeatStage → Prop
  | .asks _ | .loaded _ => True
  | _ => False

end SeatStage

/-- A request loads the group, saves the rows of its plan, and then only reads. -/
def seatProtocol (c : ConversationId) : Protocol Call Call.Answer Failure SeatStage where
  allowed g call :=
    (∃ op, g = .asks op ∧ call = .findConversation c) ∨
    (∃ m, g.departing = some m ∧
      (call = .newDate ∨ ∃ now, call = .saveMember { m with leftAt := some now })) ∨
    (∃ m, g.appointing = some m ∧ call = .saveMember m) ∨
    g = .done ∧ ReadCall call
  next g call r :=
    match g, call, r with
    | .asks op, .findConversation _, .ok found => (op.plan found).elim .done .loaded
    | .loaded (.leave m (some n)), .saveMember _, .ok _ => .handed m n
    | g, .newDate, _ => g
    | _, _, _ => .done
  answers call r :=
    match call, r with
    | .findConversation _, .error _ => False
    | .newDate, .error _ => False
    | _, _ => True

theorem seatProtocol_answers (s : Db) (call : Call) :
    (seatProtocol c).answers call (exec call s).1 := by
  cases call <;> trivial

theorem follows_departure {g : SeatStage} {m : ConversationMember} (hg : g.departing = some m) :
    Follows (seatProtocol c) (fun (_ : Except Failure Unit) g => g = .done) (depart m) g := by
  have hnext : ∀ r, (seatProtocol c).next g .newDate r = g := by
    intro r
    cases g with
    | loaded plan => cases plan with
      | leave m n => cases n <;> rfl
      | _ => rfl
    | _ => rfl
  have hsave : ∀ m' r, (seatProtocol c).next g (.saveMember m') r = .done := by
    intro m' r
    cases g with
    | loaded plan => cases plan with
      | leave m n => cases n with
        | none => rfl
        | some n => cases hg
      | _ => rfl
    | _ => rfl
  unfold depart
  refine ⟨.inr (.inl ⟨m, hg, .inl rfl⟩), fun r hr => ?_⟩
  cases r with
  | error e => exact hr.elim
  | ok now =>
    rw [hnext]
    exact follows_perform (.inr (.inl ⟨m, hg, .inr ⟨now, rfl⟩⟩)) fun r _ => hsave _ r

theorem follows_plan (plan : SeatPlan) :
    Follows (seatProtocol c) (fun (_ : Except Failure Unit) g => g = .done) plan.write
      (.loaded plan) := by
  cases plan with
  | leave m next =>
    cases next with
    | none => exact follows_departure rfl
    | some n =>
      refine ⟨.inr (.inr (.inl ⟨_, rfl, rfl⟩)), fun r _ => ?_⟩
      cases r with
      | error e => rfl
      | ok _ => exact follows_departure rfl
  | remove t => exact follows_departure rfl
  | assign t role =>
    refine follows_perform (.inr (.inr (.inl ⟨_, rfl, rfl⟩))) fun r _ => ?_
    cases r <;> rfl

theorem follows_reading {α : Type} {p : M α} (h : Uses ReadCall p) :
    Follows (seatProtocol c) (fun (_ : Except Failure α) g => g = .done) p .done := by
  induction p with
  | ret a => rfl
  | fail e => rfl
  | call call k ih =>
    refine ⟨.inr (.inr (.inr ⟨rfl, h.1⟩)), fun r _ => ?_⟩
    have hnext : (seatProtocol c).next .done call r = .done := by
      cases call <;> cases r <;> rfl
    rw [hnext]
    exact ih r (h.2 r trivial)

theorem SeatOp.follows (op : SeatOp) :
    Follows (seatProtocol c) (fun (_ : Except Failure Response) g => g = .done) (op.op c).program
      (.asks op) := by
  obtain ⟨k, hk, hdecides⟩ := op.program_eq c
  rw [hk]
  refine ⟨.inl ⟨op, rfl, rfl⟩, fun r hr => ?_⟩
  cases r with
  | error e => exact hr.elim
  | ok found =>
    have hdecided := hdecides found
    change Follows _ _ (k found) ((op.plan found).elim SeatStage.done SeatStage.loaded)
    cases hplan : op.plan found with
    | none =>
      rw [hplan] at hdecided
      obtain ⟨e, he⟩ := hdecided
      rw [he]
      rfl
    | some plan =>
      rw [hplan] at hdecided
      rw [show k found = plan.write >>= fun _ => op.reply c from hdecided]
      refine follows_bind (follows_plan plan) (fun _ g hg => ?_) fun _ _ hg => hg
      subst hg
      refine follows_reading ?_
      have hget : ∀ u, Uses ReadCall (Response.conversation <$> getConversation c u) := fun u =>
        uses_bind (uses_getConversation (fun _ h => h) c u) fun _ => trivial
      cases op with
      | leave u => trivial
      | removeMember u v => exact hget u
      | setMemberRole u v role => exact hget u

/-! ## What the two requests leave -/

/-- The rows of a plan are the stored ones. -/
def SeatStage.Current (s : Db) (c : ConversationId) : SeatStage → Prop
  | .loaded plan => ∃ op, plan.Fits s c op
  | _ => True

/-- What a stage says about the rows it is about, whatever the other request does. -/
def SeatStage.Sound (s : Db) (c : ConversationId) : SeatStage → Prop
  | .loaded (.leave m none) => m.role = .owner → ∀ r ∈ s.seats c, r.id = m.id
  | .loaded (.leave m (some n)) => n.id ≠ m.id ∧ n.conversationId = c ∧ n.leftAt = none ∧
    n.id ∈ s.members.map ConversationMember.id
  | .loaded (.remove t) => t.role ≠ .owner
  | .loaded (.assign t role) => t.leftAt = none ∧ role ≠ .owner
  | _ => True

/-- An owner who has handed the group over is still active, and the successor is the one that anybody
would find who loads the group now. -/
def SeatStage.Succeeded (s : Db) (c : ConversationId) : SeatStage → Prop
  | .handed m n => m ∈ s.seats c ∧
    ∃ n', nextOwner (s.seats c) m.userId = some n' ∧ n'.id = n.id ∧ n'.role = .owner
  | _ => True

/-- A leaving owner's successor takes over from the head, or is the head already. -/
def SeatStage.Toward (h : ConversationMember) : SeatStage → Prop
  | .loaded (.leave m (some n)) => h.id = m.id ∨ h.id = n.id
  | _ => True

/-- The head of the group is the one owner who has not handed it over. -/
structure HeadedBy (s : Db) (c : ConversationId) (g g' : SeatStage) (h : ConversationMember) :
    Prop where
  mem : h ∈ s.seats c
  owner : h.role = .owner
  stays : ¬ g.HandedBy h.id
  stays' : ¬ g'.HandedBy h.id
  only : ∀ r ∈ s.seats c, r.role = .owner → r.id = h.id ∨ g.HandedBy r.id ∨ g'.HandedBy r.id
  toward : g.Toward h
  toward' : g'.Toward h

/-- Whoever is active is about to leave, and nobody is about to be seated. -/
structure Closing (s : Db) (c : ConversationId) (g g' : SeatStage) : Prop where
  leaves : ∀ r ∈ s.seats c, g.Leaves r.id ∨ g'.Leaves r.id
  quiet : g.appointing = none
  quiet' : g'.appointing = none

structure Pair (s : Db) (c : ConversationId) (g g' : SeatStage) : Prop where
  keyed : WellKeyed s
  once : SeatedOnce s
  sound : g.Sound s c
  sound' : g'.Sound s c
  current : g.Unsaved → g'.Unsaved → g.Current s c ∧ g'.Current s c
  succeeded : (∃ op, g = .asks op) → g'.Succeeded s c
  succeeded' : (∃ op, g' = .asks op) → g.Succeeded s c
  head : Closing s c g g' ∨ ∃ h, HeadedBy s c g g' h

theorem Pair.symm {g g' : SeatStage} (h : Pair s c g g') : Pair s c g' g where
  keyed := h.keyed
  once := h.once
  sound := h.sound'
  sound' := h.sound
  current := fun hg hg' => (h.current hg' hg).symm
  succeeded := h.succeeded'
  succeeded' := h.succeeded
  head := by
    obtain hc | ⟨hd, hh⟩ := h.head
    · exact .inl ⟨fun r hr => (hc.leaves r hr).symm, hc.quiet', hc.quiet⟩
    · exact .inr ⟨hd, hh.mem, hh.owner, hh.stays', hh.stays,
        fun r hr hrole => (hh.only r hr hrole).imp_right Or.symm, hh.toward', hh.toward⟩

/-- A row stored in the group, by its id. -/
theorem WellKeyed.seat_eq (h : WellKeyed s) {m m' : ConversationMember} (hm : m ∈ s.seats c)
    (hm' : m' ∈ s.seats c) (hid : m.id = m'.id) : m = m' :=
  h.members.eq_of_id_eq (Db.mem_seats.mp hm).1 (Db.mem_seats.mp hm').1 hid

/-! ### Loading -/

/-- The stage after the group is loaded. -/
theorem Pair.loads {g' : SeatStage} {op : SeatOp} (h : Pair s c (.asks op) g') {plan : SeatPlan}
    (hfits : plan.Fits s c op) : Pair s c (.loaded plan) g' := by
  have hkeyed := h.keyed
  have hsuccessor : ∀ {m n}, nextOwner (s.seats c) m.userId = some n → n ∈ s.seats c ∧ n.id ≠ m.id ∨
      m ∉ s.seats c := by
    intro m n hn
    by_cases hm : m ∈ s.seats c
    · obtain ⟨hmem, _, hne⟩ := nextOwner_mem hn
      exact .inl ⟨hmem, fun hid => hne (by rw [hkeyed.seat_eq hmem hm hid])⟩
    · exact .inr hm
  refine ⟨hkeyed, h.once, ?_, h.sound', fun _ hg' => ⟨⟨op, hfits⟩, (h.current trivial hg').2⟩,
    nofun, fun _ => trivial, ?_⟩
  · cases plan with
    | leave m next =>
      obtain ⟨_, hm, hnext⟩ := hfits
      cases next with
      | none =>
        intro hrole r hr
        rw [if_pos hrole] at hnext
        have huser := seats_of_nextOwner_none hnext.symm r hr
        obtain ⟨hmem, hconv, hleft⟩ := Db.mem_seats.mp hm
        obtain ⟨hmem', hconv', hleft'⟩ := Db.mem_seats.mp hr
        exact h.once r hmem' m hmem (hconv'.trans hconv.symm) huser hleft' hleft
      | some n =>
        split at hnext
        · obtain ⟨hn, hne⟩ := (hsuccessor hnext.symm).resolve_right fun hnot => hnot hm
          obtain ⟨hmem, hconv, hleft⟩ := Db.mem_seats.mp hn
          exact ⟨hne, hconv, hleft, List.mem_map_of_mem hmem⟩
        · cases hnext
    | remove t => exact hfits.2.2
    | assign t role =>
      refine ⟨(Db.mem_seats.mp hfits.2.1).2.2, ?_⟩
      rcases hfits.2.2.2 with hrole | hrole <;> rw [hrole] <;> nofun
  · obtain hc | ⟨hd, hh⟩ := h.head
    · -- two active members would both be leaving through the other request
      have hone : ∀ x ∈ s.seats c, ∀ y ∈ s.seats c, x.id = y.id := by
        intro x hx y hy
        have hx := (hc.leaves x hx).resolve_left nofun
        have hy := (hc.leaves y hy).resolve_left nofun
        exact Option.some.inj (hx.symm.trans hy)
      refine .inl ⟨fun r hr => .inr ((hc.leaves r hr).resolve_left nofun), ?_, hc.quiet'⟩
      cases plan with
      | leave m next =>
        obtain ⟨_, hm, hnext⟩ := hfits
        cases next with
        | none => rfl
        | some n =>
          split at hnext
          · obtain ⟨hn, hne⟩ := (hsuccessor hnext.symm).resolve_right fun hnot => hnot hm
            exact absurd (hone n hn m hm) hne
          · cases hnext
      | remove t => rfl
      | assign t role =>
        obtain ⟨⟨a, _, m, hm, _, howner⟩, ht, hrole, _⟩ := hfits
        exact absurd (hkeyed.seat_eq ht hm (hone t ht m hm) ▸ howner) hrole
    · refine .inr ⟨hd, hh.mem, hh.owner, nofun, hh.stays', fun r hr hrole => ?_, ?_, hh.toward'⟩
      · exact (hh.only r hr hrole).imp_right fun hby => .inr (hby.resolve_left nofun)
      · cases plan with
        | leave m next =>
          obtain ⟨_, hm, hnext⟩ := hfits
          cases next with
          | none => trivial
          | some n =>
            split at hnext
            · next hrole =>
              obtain hid | hby := hh.only m hm hrole
              · exact .inl hid.symm
              · -- the same owner leaves twice
                have hby := hby.resolve_left nofun
                have hsucc := h.succeeded ⟨op, rfl⟩
                cases g' with
                | handed m' n' =>
                  obtain ⟨hm', x, hx, _, hrole'⟩ := hsucc
                  obtain rfl := hkeyed.seat_eq hm' hm hby
                  rw [← hnext] at hx
                  cases hx
                  obtain ⟨hn, hne⟩ := (hsuccessor hnext.symm).resolve_right fun hnot => hnot hm
                  obtain hid | hby' := hh.only n hn hrole'
                  · exact .inr hid.symm
                  · have hby' := hby'.resolve_left nofun
                    exact absurd hby'.symm hne
                | _ => exact hby.elim
            · cases hnext
        | _ => trivial

/-- A request ends without a further save. -/
theorem Pair.ends {g g' : SeatStage} (h : Pair s c g g') (hg : g.departing = none) :
    Pair s c .done g' := by
  refine ⟨h.keyed, h.once, trivial, h.sound', nofun, nofun, fun _ => trivial, ?_⟩
  obtain hc | ⟨hd, hh⟩ := h.head
  · refine .inl ⟨fun r hr => .inr ((hc.leaves r hr).resolve_left ?_), rfl, hc.quiet'⟩
    simp [SeatStage.Leaves, hg]
  · refine .inr ⟨hd, hh.mem, hh.owner, nofun, hh.stays', fun r hr hrole => ?_, trivial, hh.toward'⟩
    refine (hh.only r hr hrole).imp_right fun hby => .inr (hby.resolve_left ?_)
    cases g with
    | handed m n => cases hg
    | _ => nofun

/-! ### Saves -/

/-- The save takes the role of a stored owner away, while somebody who is not about to leave stays: it
writes a copy that was loaded before the member became the owner. -/
def StaleOver (s : Db) (c : ConversationId) (other : SeatStage) (m : ConversationMember) : Prop :=
  (∃ r ∈ s.seats c, r.id = m.id ∧ r.role = .owner) ∧ m.role ≠ .owner ∧
    (m.leftAt = none ∨ ∃ r ∈ s.seats c, r.id ≠ m.id ∧ ¬ other.Leaves r.id)

instance (s : Db) (c : ConversationId) (other : SeatStage) (m : ConversationMember) :
    Decidable (StaleOver s c other m) :=
  inferInstanceAs (Decidable (_ ∧ _ ∧ _))

/-- A leaving owner hands the group over to a member who has handed it over himself and is about to
leave, while somebody else stays. -/
def HandsBack (s : Db) (c : ConversationId) (g other : SeatStage) : Prop :=
  match g, other with
  | .loaded (.leave m (some n)), .handed m' _ =>
    m'.id = n.id ∧ ∃ r ∈ s.seats c, r.id ≠ m.id ∧ r.id ≠ n.id
  | _, _ => False

instance (s : Db) (c : ConversationId) (g other : SeatStage) : Decidable (HandsBack s c g other) := by
  unfold HandsBack
  split <;> infer_instance

/-- A plan that has nothing of what it saves changed in between. -/
theorem SeatStage.Current.not_owner {g : SeatStage} {m : ConversationMember}
    (hkeyed : WellKeyed s) (hg : g.Current s c) (hdep : g.departing = some m)
    (hnot : ∀ n, g ≠ .handed m n) (hrole : m.role ≠ .owner) :
    ∀ r ∈ s.seats c, r.id = m.id → r.role ≠ .owner := by
  have hm : m ∈ s.seats c := by
    cases g with
    | loaded plan =>
      obtain ⟨op, hfits⟩ := hg
      cases plan with
      | leave m' next => cases next with
        | none =>
          cases hdep
          exact hfits.2.1
        | some n => cases hdep
      | remove t =>
        cases hdep
        exact hfits.2.1
      | assign t role => cases hdep
    | handed m' n =>
      cases hdep
      exact absurd rfl (hnot n)
    | asks op => cases hdep
    | done => cases hdep
  intro r hr hid
  rw [hkeyed.seat_eq hr hm hid]
  exact hrole

/-- Nobody can be about to be seated while the last member is leaving. -/
theorem Pair.quiet_of_alone {g' : SeatStage} {m : ConversationMember}
    (h : Pair s c (.loaded (.leave m none)) g') (hrole : m.role = .owner) : g'.appointing = none := by
  cases g' with
  | loaded plan' =>
    obtain ⟨⟨op, hfits⟩, ⟨op', hfits'⟩⟩ := h.current trivial trivial
    have hone := h.sound hrole
    obtain ⟨_, hm, _⟩ := hfits
    cases plan' with
    | leave m' next => cases next with
      | none => rfl
      | some n =>
        obtain ⟨_, hm', hnext⟩ := hfits'
        split at hnext
        · obtain ⟨hn, _, hne⟩ := nextOwner_mem hnext.symm
          exact absurd (by rw [h.keyed.seat_eq hn hm' ((hone n hn).trans (hone m' hm').symm)]) hne
        · cases hnext
    | remove t => rfl
    | assign t role =>
      obtain ⟨_, ht, hrole', _⟩ := hfits'
      exact absurd (h.keyed.seat_eq ht hm (hone t ht) ▸ hrole) hrole'
  | _ => rfl

theorem ids_putMember {m : ConversationMember} :
    (s.putMember m).members.map ConversationMember.id = s.members.map ConversationMember.id :=
  map_replaceRow fun _ _ hid => hid

/-- The departing member's row is saved. -/
theorem Pair.departs {g g' : SeatStage} {m : ConversationMember} {now : Time} (h : Pair s c g g')
    (hg : g.departing = some m) (hstale : ¬ StaleOver s c g' { m with leftAt := some now }) :
    Pair (s.putMember { m with leftAt := some now }) c .done g' := by
  have hsub : ∀ r, r ∈ (s.putMember { m with leftAt := some now }).seats c ↔
      r ∈ s.seats c ∧ r.id ≠ m.id := fun r => mem_seats_departed
  have hleaves : ∀ id, g.Leaves id ↔ m.id = id := by
    intro id
    unfold SeatStage.Leaves
    rw [hg]
    exact Option.some_inj
  refine ⟨⟨h.keyed.conversations, h.keyed.members.replaceRow, h.keyed.messages, h.keyed.scheduled⟩,
    seatedOnce_saveMember h.once (m := { m with leftAt := some now }) ?_, trivial, ?_, nofun, nofun,
    fun _ => trivial, ?_⟩
  · unfold Db.saveMember
    rw [memberTaken_of_left (Option.some_ne_none _)]
    rfl
  · have hsound := h.sound'
    cases g' with
    | loaded plan => cases plan with
      | leave m' next => cases next with
        | none => exact fun hrole r hr => hsound hrole r ((hsub r).mp hr).1
        | some n => exact ⟨hsound.1, hsound.2.1, hsound.2.2.1, ids_putMember.symm ▸ hsound.2.2.2⟩
      | _ => exact hsound
    | _ => trivial
  · obtain hc | ⟨hd, hh⟩ := h.head
    · refine .inl ⟨fun r hr => .inr ?_, rfl, hc.quiet'⟩
      obtain ⟨hr, hid⟩ := (hsub r).mp hr
      exact (hc.leaves r hr).resolve_left fun hl => hid ((hleaves r.id).mp hl).symm
    · by_cases hhead : hd.id = m.id
      · -- the head itself departs: nobody may stay
        have hnothanded : ∀ n, g ≠ .handed m n := by
          rintro n rfl
          exact hh.stays hhead.symm
        by_cases hrole : m.role = .owner
        · have halone : g = .loaded (.leave m none) := by
            have hsound := h.sound
            cases g with
            | loaded plan => cases plan with
              | leave m' next => cases next with
                | none => cases hg; rfl
                | some n => cases hg
              | remove t =>
                cases hg
                exact absurd hrole hsound
              | assign t role => cases hg
            | handed m' n =>
              cases hg
              exact absurd rfl (hnothanded n)
            | _ => cases hg
          subst halone
          refine .inl ⟨fun r hr => ?_, rfl, h.quiet_of_alone hrole⟩
          obtain ⟨hr, hid⟩ := (hsub r).mp hr
          exact absurd (h.sound hrole r hr) hid
        · have hnobody : ∀ r ∈ s.seats c, r.id ≠ m.id → g'.Leaves r.id := by
            intro r hr hid
            by_contra hstay
            exact hstale ⟨⟨hd, hh.mem, hhead, hh.owner⟩, hrole, .inr ⟨r, hr, hid, hstay⟩⟩
          have hquiet : g'.appointing = none := by
            by_contra hsome
            have hunsaved : g'.Unsaved := by
              cases g' with
              | loaded plan => trivial
              | _ => exact absurd rfl hsome
            have hunsaved' : g.Unsaved := by
              cases g with
              | loaded plan => trivial
              | handed m' n =>
                cases hg
                exact absurd rfl (hnothanded n)
              | _ => cases hg
            exact (h.current hunsaved' hunsaved).1.not_owner h.keyed hg hnothanded hrole hd hh.mem
              hhead hh.owner
          refine .inl ⟨fun r hr => .inr ?_, rfl, hquiet⟩
          obtain ⟨hr, hid⟩ := (hsub r).mp hr
          exact hnobody r hr hid
      · refine .inr ⟨hd, (hsub hd).mpr ⟨hh.mem, hhead⟩, hh.owner, nofun, hh.stays',
          fun r hr hrole => ?_, trivial, hh.toward'⟩
        obtain ⟨hr, hid⟩ := (hsub r).mp hr
        refine (hh.only r hr hrole).imp_right fun hby => .inr (hby.resolve_left fun hby => hid ?_)
        cases g with
        | handed m' n =>
          cases hg
          exact hby.symm
        | _ => exact hby.elim

theorem seats_putMember {m r : ConversationMember} (hkeyed : WellKeyed s) (hr : r ∈ s.seats c)
    (ho : m.origin = r.origin) (hleft : m.leftAt = none) :
    (s.putMember m).seats c = replaceRow ConversationMember.id m (s.seats c) := by
  obtain ⟨hmem, hconv, hactive⟩ := Db.mem_seats.mp hr
  have hrow : ∀ r' ∈ s.members, r'.id = m.id → r' = r := fun r' hr' hid =>
    hkeyed.members.eq_of_id_eq hr' hmem (hid.trans (congrArg ConversationMember.Origin.id ho))
  have hconv' : m.conversationId = c :=
    (congrArg ConversationMember.Origin.conversationId ho).trans hconv
  unfold Db.seats Db.membersOf activeMembers Db.putMember
  rw [filter_replaceRow, filter_replaceRow]
  · intro r' hr' hid
    rw [hrow r' (List.mem_filter.mp hr').1 hid, hactive, hleft]
  · intro r' hr' hid
    rw [hrow r' hr' hid, hconv, hconv']

/-- The search for a successor does not look at roles. -/
theorem nextOwner_replaceRow {rows : List ConversationMember} {m : ConversationMember} {u : UserId}
    (h : ∀ r ∈ rows, r.id = m.id →
      r.leftAt = m.leftAt ∧ r.userId = m.userId ∧ r.joinedAt = m.joinedAt) :
    nextOwner (replaceRow ConversationMember.id m rows) u =
      (nextOwner rows u).map fun r => if r.id = m.id then m else r := by
  have hsame : ∀ r ∈ rows, (if r.id = m.id then m else r).leftAt = r.leftAt ∧
      (if r.id = m.id then m else r).userId = r.userId ∧
        (if r.id = m.id then m else r).joinedAt = r.joinedAt := by
    intro r hr
    split
    · next hid =>
      obtain ⟨hl, hu, hj⟩ := h r hr hid
      exact ⟨hl.symm, hu.symm, hj.symm⟩
    · exact ⟨rfl, rfl, rfl⟩
  unfold nextOwner orderAsc replaceRow
  rw [List.filter_map, ← List.head?_map, List.map_insertionSort _ (fun a b : ConversationMember =>
    jsDate a.joinedAt ≤ jsDate b.joinedAt)]
  · congr 3
    refine List.filter_congr fun r hr => ?_
    simp only [Function.comp_apply, (hsame r hr).1, (hsame r hr).2.1]
  · intro a ha b hb
    rw [(hsame a (List.mem_filter.mp ha).1).2.2, (hsame b (List.mem_filter.mp hb).1).2.2]

/-- A save of a row that stays active is refused, or puts the row in its place. -/
theorem saveMember_cases (s : Db) (m : ConversationMember) :
    exec (.saveMember m) s = (.error (.query (.uniqueViolation "UQ_conversation_members_active")), s) ∨
      s.saveMember m = some (s.putMember m) ∧ exec (.saveMember m) s = (.ok (), s.putMember m) := by
  cases htaken : s.memberTaken m with
  | false =>
    refine .inr ⟨?_, exec_saveMember htaken⟩
    unfold Db.saveMember
    rw [htaken]
    rfl
  | true =>
    refine .inl ?_
    simp only [exec, Db.saveMember, htaken]
    rfl

/-- Nobody is leaving alone while somebody is about to be seated. -/
theorem Pair.sound_of_appointing {g g' : SeatStage} (h : Pair s c g g') (hg : g.appointing ≠ none)
    (m : ConversationMember) : g'.Sound (s.putMember m) c := by
  have hsound := h.sound'
  cases g' with
  | loaded plan => cases plan with
    | leave m' next => cases next with
      | none => exact fun hrole => absurd (h.symm.quiet_of_alone hrole) hg
      | some n => exact ⟨hsound.1, hsound.2.1, hsound.2.2.1, ids_putMember.symm ▸ hsound.2.2.2⟩
    | _ => exact hsound
  | _ => trivial

/-- A role is assigned. -/
theorem Pair.assigns {g' : SeatStage} {t : ConversationMember} {role : ConversationMemberRole}
    (h : Pair s c (.loaded (.assign t role)) g') (hstale : ¬ StaleOver s c g' { t with role })
    (hsave : s.saveMember { t with role } = some (s.putMember { t with role })) :
    Pair (s.putMember { t with role }) c .done g' := by
  obtain ⟨hactive, hrole⟩ := h.sound
  refine ⟨⟨h.keyed.conversations, h.keyed.members.replaceRow, h.keyed.messages, h.keyed.scheduled⟩,
    seatedOnce_saveMember h.once hsave, trivial, h.sound_of_appointing (Option.some_ne_none _) _, nofun,
    nofun, fun _ => trivial, ?_⟩
  obtain hc | ⟨hd, hh⟩ := h.head
  · exact absurd hc.quiet (Option.some_ne_none _)
  · have hne : hd.id ≠ t.id := fun hid =>
      hstale ⟨⟨hd, hh.mem, hid, hh.owner⟩, hrole, .inl hactive⟩
    obtain ⟨hmem, hconv, hleft⟩ := Db.mem_seats.mp hh.mem
    refine .inr ⟨hd, Db.mem_seats.mpr ⟨Db.mem_putMember.mpr (.inr ⟨hmem, hne⟩), hconv, hleft⟩, hh.owner,
      nofun, hh.stays', fun r hr hrole' => ?_, trivial, hh.toward'⟩
    obtain ⟨hr, hconv', hleft'⟩ := Db.mem_seats.mp hr
    obtain ⟨rfl, _⟩ | ⟨hr, _⟩ := Db.mem_putMember.mp hr
    · exact absurd hrole' hrole
    · exact (hh.only r (Db.mem_seats.mpr ⟨hr, hconv', hleft'⟩) hrole').imp_right fun hby =>
        .inr (hby.resolve_left nofun)

/-- A leaving owner hands the group over. -/
theorem Pair.hands {g' : SeatStage} {m n : ConversationMember}
    (h : Pair s c (.loaded (.leave m (some n))) g')
    (hback : ¬ HandsBack s c (.loaded (.leave m (some n))) g')
    (hsave : s.saveMember { n with role := .owner } = some (s.putMember { n with role := .owner })) :
    Pair (s.putMember { n with role := .owner }) c (.handed m n) g' := by
  obtain ⟨hne, hnconv, hnleft, hnid⟩ := h.sound
  have hback' : ∀ r ∈ (s.putMember { n with role := .owner }).seats c,
      r = { n with role := .owner } ∨ r ∈ s.seats c ∧ r.id ≠ n.id := by
    intro r hr
    obtain ⟨hr, hconv, hleft⟩ := Db.mem_seats.mp hr
    exact (Db.mem_putMember.mp hr).imp And.left fun hr =>
      ⟨Db.mem_seats.mpr ⟨hr.1, hconv, hleft⟩, hr.2⟩
  have hkept : ∀ r ∈ s.seats c, r.id ≠ n.id →
      r ∈ (s.putMember { n with role := .owner }).seats c := by
    intro r hr hid
    obtain ⟨hr, hconv, hleft⟩ := Db.mem_seats.mp hr
    exact Db.mem_seats.mpr ⟨Db.mem_putMember.mpr (.inr ⟨hr, hid⟩), hconv, hleft⟩
  have hseated : { n with role := .owner } ∈ (s.putMember { n with role := .owner }).seats c := by
    obtain ⟨r, hr, hid⟩ := List.mem_map.mp hnid
    exact Db.mem_seats.mpr ⟨Db.mem_putMember.mpr (.inl ⟨rfl, r, hr, hid⟩), hnconv, hnleft⟩
  refine ⟨⟨h.keyed.conversations, h.keyed.members.replaceRow, h.keyed.messages, h.keyed.scheduled⟩,
    seatedOnce_saveMember h.once hsave, trivial, h.sound_of_appointing (Option.some_ne_none _) _, nofun,
    nofun, ?_, ?_⟩
  · rintro ⟨op, rfl⟩
    obtain ⟨op', _, hm, hnext⟩ := (h.current trivial trivial).1
    split at hnext
    · obtain ⟨hn, _⟩ := nextOwner_mem hnext.symm
      refine ⟨hkept m hm hne.symm, { n with role := .owner }, ?_, rfl, rfl⟩
      rw [seats_putMember (m := { n with role := .owner }) h.keyed hn rfl hnleft,
        nextOwner_replaceRow, ← hnext]
      · simp
      · intro r hr hid
        rw [h.keyed.seat_eq hr hn hid]
        exact ⟨rfl, rfl, rfl⟩
    · cases hnext
  · obtain hc | ⟨hd, hh⟩ := h.head
    · exact absurd hc.quiet (Option.some_ne_none _)
    by_cases hleaver : g'.HandedBy n.id
    · -- the successor is leaving as well: nobody else may stay
      cases g' with
      | handed m' n' =>
        have hnobody : ∀ r ∈ s.seats c, r.id ≠ n.id → r.id = m.id := by
          intro r hr hid
          by_contra hid'
          exact hback ⟨hleaver, r, hr, hid', hid⟩
        refine .inl ⟨fun r hr => ?_, rfl, rfl⟩
        obtain rfl | ⟨hr, hid⟩ := hback' r hr
        · exact .inr (congrArg some hleaver)
        · exact .inl (congrArg some (hnobody r hr hid).symm)
      | _ => exact hleaver.elim
    · refine .inr ⟨{ n with role := .owner }, hseated, rfl, fun hid => hne hid.symm, hleaver, ?_, trivial,
        ?_⟩
      · intro r hr hrole
        obtain rfl | ⟨hr, hid⟩ := hback' r hr
        · exact .inl rfl
        · obtain hhead | hby | hby := hh.only r hr hrole
          · refine .inr (.inl ?_)
            obtain htoward | htoward := hh.toward
            · exact (hhead.trans htoward).symm
            · exact absurd (hhead.trans htoward) hid
          · exact hby.elim
          · exact .inr (.inr hby)
      · have htoward' := hh.toward'
        cases g' with
        | loaded plan => cases plan with
          | leave m' next => cases next with
            | none => trivial
            | some n₁ =>
              obtain htoward | htoward := hh.toward
              · -- both have loaded the group with the same owner
                obtain ⟨⟨_, _, hm, hnext⟩, ⟨_, _, hm', hnext'⟩⟩ := h.current trivial trivial
                split at hnext'
                · next hrole' =>
                  obtain hhead | hby | hby := hh.only m' hm' hrole'
                  · obtain rfl := h.keyed.seat_eq hm' hm (hhead.trans htoward)
                    rw [if_pos hrole', ← hnext'] at hnext
                    cases hnext
                    exact .inr rfl
                  · exact hby.elim
                  · exact hby.elim
                · cases hnext'
              · exact htoward'.imp htoward.symm.trans htoward.symm.trans
          | _ => trivial
        | _ => trivial

/-! ### Steps -/

/-- What is asked of a step: its save does not undo a handover. -/
def KeepsHandover (c : ConversationId) (s : Db) (gs : List SeatStage) (i : Nat) : Call → Prop
  | .saveMember m => ¬ StaleOver s c (gs[1 - i]?.getD .done) m ∧
    ¬ HandsBack s c (gs[i]?.getD .done) (gs[1 - i]?.getD .done)
  | _ => True

instance (s : Db) (gs : List SeatStage) (i : Nat) (call : Call) :
    Decidable (KeepsHandover c s gs i call) := by
  unfold KeepsHandover
  split <;> infer_instance

theorem Pair.call {g g' : SeatStage} (h : Pair s c g g') {call : Call}
    (hallowed : (seatProtocol c).allowed g call)
    (hkeeps : ∀ m, call = .saveMember m → ¬ StaleOver s c g' m ∧ ¬ HandsBack s c g g') :
    Pair (exec call s).2 c ((seatProtocol c).next g call (exec call s).1) g' := by
  obtain ⟨op, rfl, rfl⟩ | ⟨m, hg, rfl | ⟨now, rfl⟩⟩ | ⟨m, hg, rfl⟩ | ⟨rfl, hread⟩ := hallowed
  · change Pair s c ((op.plan (s.load c)).elim SeatStage.done SeatStage.loaded) g'
    cases hplan : op.plan (s.load c) with
    | none => exact h.ends rfl
    | some plan => exact h.loads (op.plan_fits hplan)
  · have hnext : (seatProtocol c).next g .newDate (exec .newDate s).1 = g := by
      cases g with
      | loaded plan => cases plan with
        | leave m n => cases n <;> rfl
        | _ => rfl
      | _ => rfl
    rw [hnext]
    exact h
  · rw [exec_saveMember (memberTaken_of_left (Option.some_ne_none _))]
    have hnext : (seatProtocol c).next g (.saveMember { m with leftAt := some now }) (.ok ()) =
        .done := by
      cases g with
      | loaded plan => cases plan with
        | leave m' n => cases n with
          | none => rfl
          | some n => cases hg
        | _ => rfl
      | _ => rfl
    rw [hnext]
    exact h.departs hg (hkeeps _ rfl).1
  · obtain ⟨hstale, hback⟩ := hkeeps m rfl
    cases g with
    | loaded plan =>
      cases plan with
      | leave m' next =>
        cases next with
        | none => cases hg
        | some n =>
          cases hg
          obtain hexec | ⟨hsave, hexec⟩ := saveMember_cases s { n with role := .owner }
          · rw [hexec]
            exact h.ends rfl
          · rw [hexec]
            exact h.hands hback hsave
      | assign t role =>
        cases hg
        obtain hexec | ⟨hsave, hexec⟩ := saveMember_cases s { t with role }
        · rw [hexec]
          exact h.ends rfl
        · rw [hexec]
          exact h.assigns hstale hsave
      | remove t => cases hg
    | _ => cases hg
  · rw [hread.exec]
    have hnext : (seatProtocol c).next .done call (exec call s).1 = .done := by
      cases call <;> cases (exec _ s).1 <;> rfl
    rw [hnext]
    exact h

theorem Pair.wait {g g' : SeatStage} (h : Pair s c g g') (d : Nat) : Pair (s.wait d) c g g' := by
  refine ⟨h.keyed.wait d, h.once, h.sound, h.sound', h.current, h.succeeded, h.succeeded', ?_⟩
  obtain hc | ⟨hd, hh⟩ := h.head
  · exact .inl ⟨hc.leaves, hc.quiet, hc.quiet'⟩
  · exact .inr ⟨hd, hh.mem, hh.owner, hh.stays, hh.stays', hh.only, hh.toward, hh.toward'⟩

/-! ## Runs -/

abbrev SeatPool := Staged Call Call.Answer Failure Response Db SeatStage

/-- A request makes its next call, or time passes; no further request starts. -/
abbrev SeatEvent := Pool.Event Empty Nat

def seatStep (c : ConversationId) : SeatEvent → SeatPool → SeatPool :=
  Staged.step exec Empty.elim (fun d db => db.wait d) (seatProtocol c) Empty.elim fun _ _ => false

/-- Two requests that have arrived. -/
def bothAsk (s : Db) (c : ConversationId) (op op' : SeatOp) : SeatPool :=
  ⟨⟨s, [(op.op c).program, (op'.op c).program]⟩, [.asks op, .asks op']⟩

/-- The stages are only watched: the requests run as they do in the pool. -/
theorem seatStep_pool (s : Db) (c : ConversationId) (op op' : SeatOp) (es : List SeatEvent) :
    (Runs.final (seatStep c) es (bothAsk s c op op')).pool =
      Runs.final (Pool.step exec Empty.elim fun d db => Db.wait db d) es
        ⟨s, [(op.op c).program, (op'.op c).program]⟩ :=
  Staged.final_pool (w := bothAsk s c op op') rfl es

/-- Nobody is active in the group, or it has exactly one active owner. -/
def Db.OneOwner (db : Db) (c : ConversationId) : Prop :=
  db.seats c = [] ∨ (db.owners c).length = 1

instance (db : Db) (c : ConversationId) : Decidable (db.OneOwner c) :=
  inferInstanceAs (Decidable (_ ∨ _))

/-- Both requests have been answered. -/
def Answered (w : SeatPool) : Prop := ∀ t ∈ w.pool.threads, t.outcome.isSome

theorem pair_start (hs : Reachable s) (h : s.OneOwner c) (op op' : SeatOp) :
    Pair s c (.asks op) (.asks op') := by
  refine ⟨hs.inv.keyed, hs.seatedOnce, trivial, trivial, fun _ _ => ⟨trivial, trivial⟩,
    fun _ => trivial, fun _ => trivial, ?_⟩
  obtain hnil | hone := h
  · refine .inl ⟨fun r hr => ?_, rfl, rfl⟩
    rw [hnil] at hr
    exact absurd hr List.not_mem_nil
  · obtain ⟨hd, hall⟩ := List.length_eq_one_iff.mp hone
    have howner : hd ∈ s.owners c := hall ▸ List.mem_singleton_self hd
    obtain ⟨hmem, hrole⟩ := List.mem_filter.mp howner
    refine .inr ⟨hd, hmem, by simpa using hrole, nofun, nofun, fun r hr hrole' => .inl ?_, trivial,
      trivial⟩
    have hr : r ∈ s.owners c := List.mem_filter.mpr ⟨hr, by simpa using hrole'⟩
    rw [hall] at hr
    rw [List.mem_singleton.mp hr]

theorem Pair.oneOwner (h : Pair s c .done .done) : s.OneOwner c := by
  obtain hc | ⟨hd, hh⟩ := h.head
  · refine .inl (List.eq_nil_iff_forall_not_mem.mpr fun r hr => ?_)
    obtain hl | hl := hc.leaves r hr <;> cases hl
  · have hheads : Heads s c hd := ⟨hh.mem, hh.owner, fun r hr hrole => by
      obtain hid | hby | hby := hh.only r hr hrole
      · exact hid
      · exact hby.elim
      · exact hby.elim⟩
    exact .inr (hheads.owners_length h.keyed)

/-- As long as no save undoes a handover, the group has one owner, or nobody, whenever both requests
have been answered. -/
theorem one_owner_left (hs : Reachable s) (h : s.OneOwner c) (op op' : SeatOp)
    {es : List SeatEvent}
    (hL : Runs.Along (seatStep c) (Staged.Meets (fun _ _ => false) (KeepsHandover c)) es
      (bothAsk s c op op')) :
    Runs.Always (seatStep c) (fun w => Answered w → w.pool.store.OneOwner c) es
      (bothAsk s c op op') := by
  have hfollow : Staged.Follow (seatProtocol c) (fun (_ : Except Failure Response) g => g = .done)
      (bothAsk s c op op') := .cons op.follows (.cons op'.follows .nil)
  have hrun : Runs.Always (seatStep c) (fun w => Staged.Follow (seatProtocol c)
      (fun (_ : Except Failure Response) g => g = .done) w ∧
      ∃ g g', w.stages = [g, g'] ∧ Pair w.pool.store c g g') es (bothAsk s c op op') := by
    refine Staged.invariant (L := KeepsHandover c)
      (J := fun s gs => ∃ g g', gs = [g, g'] ∧ Pair s c g g') seatProtocol_answers nofun nofun
      ?_ ?_ hfollow ⟨_, _, rfl, pair_start hs h op op'⟩ hL
    · rintro s _ i g call ⟨g₁, g₂, rfl, hpair⟩ hg hallowed _ hkeeps
      match i with
      | 0 =>
        cases hg
        refine ⟨_, g₂, rfl, hpair.call hallowed fun m hm => ?_⟩
        subst hm
        exact hkeeps
      | 1 =>
        cases hg
        refine ⟨g₁, _, rfl, (hpair.symm.call hallowed fun m hm => ?_).symm⟩
        subst hm
        exact hkeeps
      | i + 2 => cases hg
    · rintro d s gs ⟨g, g', rfl, hpair⟩
      exact ⟨g, g', rfl, hpair.wait d⟩
  refine hrun.mono ?_
  rintro w ⟨hfollows, g, g', hstages, hpair⟩ hanswered
  have hdone : ∀ g ∈ w.stages, g = .done := by
    intro g₁ hg₁
    obtain ⟨_, hg₁⟩ := Pool.Follow.ended hfollows hanswered g₁ hg₁
    exact hg₁
  rw [hstages] at hdone
  obtain rfl := hdone g List.mem_cons_self
  obtain rfl := hdone g' (List.mem_cons_of_mem _ List.mem_cons_self)
  exact hpair.oneOwner

/-- A, the owner, leaves while B does. Both have loaded the group before the first save. -/
def bothLeave : List SeatEvent :=
  [.advance 1, .advance 0, .advance 0, .advance 0, .advance 0, .advance 1, .advance 1]

/-- A leaves while C is being removed. -/
def leaveAndRemove : List SeatEvent :=
  [.advance 1, .advance 0, .advance 0, .advance 1, .pass 5, .advance 0, .advance 1, .advance 0]

theorem reachable_threeMembers : Reachable threeMembers := (reachable_empty 0 0).serve _

theorem one_owner_left_leaveAndRemove :
    Runs.Always (seatStep 0) (fun w => Answered w → w.pool.store.OneOwner 0) leaveAndRemove
      (bothAsk threeMembers 0 (.leave userA) (.removeMember userA userC)) :=
  one_owner_left reachable_threeMembers (by decide) _ _ (by
    simp only [leaveAndRemove, Runs.Along]
    decide)

/-- B is made the owner and then saved as a departed member: C stays without an owner. -/
theorem one_owner_left_fails :
    ¬ ∀ (s : Db) (c : ConversationId) (op op' : SeatOp) (es : List SeatEvent), Reachable s →
      s.OneOwner c → Answered (Runs.final (seatStep c) es (bothAsk s c op op')) →
      (Runs.final (seatStep c) es (bothAsk s c op op')).pool.store.OneOwner c := by
  intro h
  have hfinal := h threeMembers 0 (.leave userA) (.leave userB) bothLeave reachable_threeMembers
    (by decide) ?_
  · revert hfinal
    decide
  · have hthreads : ((Runs.final (seatStep 0) bothLeave (bothAsk threeMembers 0 (.leave userA)
        (.leave userB))).pool.threads.all fun t => t.outcome.isSome) = true := by decide
    exact List.all_eq_true.mp hthreads

end Relay.Chat
