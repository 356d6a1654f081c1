import Relay.Chat.Verify.Seats

/-!
# Who runs a group

In every run of the requests that found, change and end groups, one after the other, a group with an
active member has exactly one active owner, and a role above MEMBER comes from founding the group, from
its owner, or with the departure of its owner (`governed`).
-/

namespace Relay.Chat

open Relay.Lib Relay.Lib.Rows Prog

variable {s t : Db}

/-! ## The requests -/

inductive GroupOp where
  | createGroup (actorId : UserId) (name : Text) (memberIds : List UserId)
  | addMembers (c : ConversationId) (actorId : UserId) (memberIds : List UserId)
  | deleteGroup (c : ConversationId) (actorId : UserId)
  /-- `removeMember`, `setMemberRole` or `leave`. -/
  | seat (c : ConversationId) (op : SeatOp)

def GroupOp.op : GroupOp → Op
  | .createGroup a name ids => .createGroup a name ids
  | .addMembers c a ids => .addMembers c a ids
  | .deleteGroup c a => .deleteGroup c a
  | .seat c op => op.op c

/-- A request is served, or time passes. -/
inductive GroupEvent where
  | serve (op : GroupOp)
  | pass (d : Nat)

def groupStep : GroupEvent → Db → Db
  | .serve op, db => (op.op.run db).2
  | .pass d, db => db.wait d

/-! ## Owners -/

def Db.owners (db : Db) (c : ConversationId) : List ConversationMember :=
  (db.seats c).filter fun m => m.role = .owner

/-- Every group with an active member has exactly one active owner. -/
def Governed (s : Db) : Prop :=
  ∀ c ∈ s.conversations, c.type = .group → s.seats c.id ≠ [] → (s.owners c.id).length = 1

/-- The user is an active member of the conversation, with this role. -/
def Db.HasRole (db : Db) (c : ConversationId) (u : UserId) (role : ConversationMemberRole) : Prop :=
  ∃ m ∈ db.seats c, m.userId = u ∧ m.role = role

/-- The request may give the user the role: its founder owns a group, an owner appoints
administrators, and the member who joined first succeeds an owner who leaves. -/
def Grants (s : Db) (c : ConversationId) (u : UserId) (role : ConversationMemberRole) :
    GroupEvent → Prop
  | .serve (.createGroup a _ _) => c = s.nextId ∧ u = a.canon ∧ role = .owner
  | .serve (.seat c' (.setMemberRole a u' role')) =>
    c = c' ∧ u = u' ∧ role' = some role ∧ role = .admin ∧ s.HasRole c a .owner
  | .serve (.seat c' (.leave a)) =>
    c = c' ∧ role = .owner ∧ s.HasRole c a .owner ∧
      ∃ n, nextOwner (s.seats c) a = some n ∧ n.userId = u
  | _ => False

/-- A role above MEMBER that a user has after a step, the user had before, or the step grants it. -/
def RolesGranted (s : Db) (e : GroupEvent) : Prop :=
  ∀ c u role, role ≠ .member → (groupStep e s).HasRole c u role →
    s.HasRole c u role ∨ Grants s c u role e

/-- `m` is the only owner among the seats. -/
def Heads (s : Db) (c : ConversationId) (m : ConversationMember) : Prop :=
  m ∈ s.seats c ∧ m.role = .owner ∧ ∀ m' ∈ s.seats c, m'.role = .owner → m'.id = m.id

/-- Nobody is active, or one active member is the owner. -/
def Headed (s : Db) (c : ConversationId) : Prop := s.seats c = [] ∨ ∃ m, Heads s c m

theorem Heads.owners_length (hkeyed : WellKeyed s) {c : ConversationId} {m : ConversationMember}
    (h : Heads s c m) : (s.owners c).length = 1 := by
  obtain ⟨hmem, hrole, honly⟩ := h
  have hnodup : (s.owners c).Nodup := by
    have hids := hkeyed.members.nodup
    exact ((hids.of_map).filter _ |>.filter _).filter _
  have hmem' : m ∈ s.owners c := List.mem_filter.mpr ⟨hmem, by simpa using hrole⟩
  have hall : ∀ m' ∈ s.owners c, m' = m := by
    intro m' hm'
    obtain ⟨hseat, howner⟩ := List.mem_filter.mp hm'
    exact hkeyed.members.eq_of_id_eq (Db.mem_seats.mp hseat).1 (Db.mem_seats.mp hmem).1
      (honly m' hseat (by simpa using howner))
  rw [List.length_eq_one_iff]
  exact ⟨m, (List.perm_singleton.mp ((List.perm_ext_iff_of_nodup hnodup
    (List.nodup_singleton m)).mpr fun a => ⟨fun ha => List.mem_singleton.mpr (hall a ha),
      fun ha => List.mem_singleton.mp ha ▸ hmem'⟩))⟩

theorem governed_of_headed (hkeyed : WellKeyed s) (h : ∀ c, Headed s c) : Governed s := by
  intro c _ _ hseats
  obtain hnil | ⟨m, hm⟩ := h c.id
  · exact absurd hnil hseats
  · exact hm.owners_length hkeyed

/-- The same seats have the same head. -/
theorem Headed.of_mem_iff {c : ConversationId} (h : Headed s c)
    (hseats : ∀ m, m ∈ t.seats c ↔ m ∈ s.seats c) : Headed t c := by
  obtain hnil | ⟨m, hmem, hrole, honly⟩ := h
  · exact .inl (List.eq_nil_iff_forall_not_mem.mpr fun m hm => by
      rw [hseats, hnil] at hm
      exact List.not_mem_nil hm)
  · exact .inr ⟨m, (hseats m).mpr hmem, hrole, fun m' hm' => honly m' ((hseats m').mp hm')⟩

/-! ## A departure -/

/-- A row saved with `leftAt` set gives up its seat. -/
theorem mem_seats_departed {m m' : ConversationMember} {now : Time} {c : ConversationId} :
    m' ∈ (s.putMember { m with leftAt := some now }).seats c ↔ m' ∈ s.seats c ∧ m'.id ≠ m.id := by
  rw [Db.mem_seats, Db.mem_putMember, Db.mem_seats]
  constructor
  · rintro ⟨⟨rfl, _⟩ | ⟨hmem, hid⟩, hconv, hleft⟩
    · cases hleft
    · exact ⟨⟨hmem, hconv, hleft⟩, hid⟩
  · rintro ⟨⟨hmem, hconv, hleft⟩, hid⟩
    exact ⟨.inr ⟨hmem, hid⟩, hconv, hleft⟩

/-- A row saved with another role keeps its seat. -/
theorem mem_seats_assigned {m m' : ConversationMember} {role : ConversationMemberRole}
    {c c' : ConversationId} (hm : m ∈ s.seats c) :
    m' ∈ (s.putMember { m with role }).seats c' ↔
      m' = { m with role } ∧ c' = c ∨ m' ∈ s.seats c' ∧ m'.id ≠ m.id := by
  obtain ⟨hmem, hconv, hleft⟩ := Db.mem_seats.mp hm
  rw [Db.mem_seats, Db.mem_putMember, Db.mem_seats]
  constructor
  · rintro ⟨⟨rfl, _⟩ | ⟨hmem', hid⟩, hconv', hleft'⟩
    · exact .inl ⟨rfl, hconv'.symm.trans hconv⟩
    · exact .inr ⟨⟨hmem', hconv', hleft'⟩, hid⟩
  · rintro (⟨rfl, rfl⟩ | ⟨⟨hmem', hconv', hleft'⟩, hid⟩)
    · exact ⟨.inl ⟨rfl, m, hmem, rfl⟩, hconv, hleft⟩
    · exact ⟨.inr ⟨hmem', hid⟩, hconv', hleft'⟩

/-- A member who is no owner may leave. -/
theorem Headed.departed {c : ConversationId} {m : ConversationMember} {now : Time}
    (hkeyed : WellKeyed s) (hm : m ∈ s.members) (hrole : m.role ≠ .owner) (h : Headed s c) :
    Headed (s.putMember { m with leftAt := some now }) c := by
  obtain hnil | ⟨hd, hmem, howner, honly⟩ := h
  · refine .inl (List.eq_nil_iff_forall_not_mem.mpr fun m' hm' => ?_)
    have hmem := (mem_seats_departed.mp hm').1
    rw [hnil] at hmem
    exact List.not_mem_nil hmem
  · refine .inr ⟨hd, mem_seats_departed.mpr ⟨hmem, fun hid => hrole ?_⟩, howner, fun m' hm' =>
      honly m' (mem_seats_departed.mp hm').1⟩
    rw [← hkeyed.members.eq_of_id_eq (Db.mem_seats.mp hmem).1 hm hid]
    exact howner

/-! ## The requests on seats -/

/-- Nobody else is active when an owner finds no successor. -/
theorem seats_of_nextOwner_none {c : ConversationId} {u : UserId}
    (h : nextOwner (s.seats c) u = none) : ∀ m ∈ s.seats c, m.userId = u := by
  intro m hm
  by_contra hne
  have hmem : m ∈ orderAsc (fun m => jsDate m.joinedAt)
      ((s.seats c).filter fun m => m.leftAt = none ∧ m.userId ≠ u) := by
    rw [orderAsc, List.mem_insertionSort, List.mem_filter]
    exact ⟨hm, by simpa [hne] using (Db.mem_seats.mp hm).2.2⟩
  rw [List.head?_eq_none_iff.mp h] at hmem
  exact List.not_mem_nil hmem

theorem Headed.apply (hkeyed : WellKeyed s) (hs : SeatedOnce s) {c c' : ConversationId}
    {op : SeatOp} {plan : SeatPlan} (hfits : plan.Fits s c' op) (h : Headed s c) :
    Headed (plan.apply s) c := by
  have hother : ∀ {m m'}, m ∈ s.seats c' → m' ∈ s.seats c → c ≠ c' → m'.id ≠ m.id := by
    intro m m' hm hm' hne hid
    obtain ⟨hmem, hconv, _⟩ := Db.mem_seats.mp hm
    obtain ⟨hmem', hconv', _⟩ := Db.mem_seats.mp hm'
    rw [hkeyed.members.eq_of_id_eq hmem' hmem hid] at hconv'
    exact hne (hconv'.symm.trans hconv)
  cases plan with
  | remove t =>
    obtain ⟨_, ht, hrole⟩ := hfits
    exact h.departed hkeyed (Db.mem_seats.mp ht).1 hrole
  | assign t role =>
    obtain ⟨_, ht, hrole, hallowed⟩ := hfits
    have hnot : role ≠ .owner := by rcases hallowed with rfl | rfl <;> nofun
    obtain hnil | ⟨hd, hmem, howner, honly⟩ := h
    · refine .inl (List.eq_nil_iff_forall_not_mem.mpr fun m' hm' => ?_)
      obtain ⟨_, rfl⟩ | ⟨hm', _⟩ := (mem_seats_assigned ht).mp hm'
      · rw [hnil] at ht
        exact List.not_mem_nil ht
      · rw [hnil] at hm'
        exact List.not_mem_nil hm'
    · have hne : hd.id ≠ t.id := by
        intro hid
        refine hrole ?_
        rw [← hkeyed.members.eq_of_id_eq (Db.mem_seats.mp hmem).1 (Db.mem_seats.mp ht).1 hid]
        exact howner
      refine .inr ⟨hd, (mem_seats_assigned ht).mpr (.inr ⟨hmem, hne⟩), howner, ?_⟩
      intro m' hm' hrole'
      obtain ⟨rfl, _⟩ | ⟨hm', _⟩ := (mem_seats_assigned ht).mp hm'
      · exact absurd hrole' hnot
      · exact honly m' hm' hrole'
  | leave m next =>
    obtain ⟨_, hm, hnext⟩ := hfits
    by_cases hrole : m.role = .owner
    · rw [if_pos hrole] at hnext
      by_cases hc : c = c'
      · subst hc
        obtain hnil | ⟨hd, hmem, howner, honly⟩ := h
        · rw [hnil] at hm
          exact absurd hm List.not_mem_nil
        have hhd : ∀ m' ∈ s.seats c, m'.role = .owner → m'.id = m.id := fun m' hm' hrole' =>
          (honly m' hm' hrole').trans (honly m hm hrole).symm
        cases next with
        | none =>
          -- the owner was alone
          refine .inl (List.eq_nil_iff_forall_not_mem.mpr fun m' hm' => ?_)
          obtain ⟨hm', hid⟩ := mem_seats_departed.mp hm'
          refine hid (hs m' (Db.mem_seats.mp hm').1 m (Db.mem_seats.mp hm).1 ?_
            (seats_of_nextOwner_none hnext.symm m' hm') (Db.mem_seats.mp hm').2.2
            (Db.mem_seats.mp hm).2.2)
          rw [(Db.mem_seats.mp hm').2.1, (Db.mem_seats.mp hm).2.1]
        | some n =>
          obtain ⟨hn, _, hne⟩ := nextOwner_mem hnext.symm
          have hid : n.id ≠ m.id := fun hid => hne (by
            rw [hkeyed.members.eq_of_id_eq (Db.mem_seats.mp hn).1 (Db.mem_seats.mp hm).1 hid])
          refine .inr ⟨{ n with role := .owner }, ?_, rfl, ?_⟩
          · exact mem_seats_departed.mpr ⟨(mem_seats_assigned hn).mpr (.inl ⟨rfl, rfl⟩), hid⟩
          · intro m' hm' hrole'
            obtain ⟨hm', hid'⟩ := mem_seats_departed.mp hm'
            obtain ⟨rfl, _⟩ | ⟨hm', _⟩ := (mem_seats_assigned hn).mp hm'
            · rfl
            · exact absurd (hhd m' hm' hrole') hid'
      · cases next with
        | none =>
          refine h.of_mem_iff fun m' => mem_seats_departed.trans ?_
          exact and_iff_left_of_imp fun hm' => hother hm hm' hc
        | some n =>
          obtain ⟨hn, _⟩ := nextOwner_mem hnext.symm
          refine h.of_mem_iff fun m' => ?_
          rw [SeatPlan.apply, mem_seats_departed, mem_seats_assigned hn]
          constructor
          · rintro ⟨⟨_, hc'⟩ | ⟨hm', _⟩, _⟩
            · exact absurd hc' hc
            · exact hm'
          · exact fun hm' => ⟨.inr ⟨hm', hother hn hm' hc⟩, hother hm hm' hc⟩
    · rw [if_neg hrole] at hnext
      subst hnext
      exact h.departed hkeyed (Db.mem_seats.mp hm).1 hrole

/-- A role above MEMBER that a plan gives is one the request grants. -/
theorem SeatPlan.grants {c c' : ConversationId} {op : SeatOp} {plan : SeatPlan}
    (hfits : plan.Fits s c' op) {u : UserId} {role : ConversationMemberRole} (hrole : role ≠ .member)
    (h : (plan.apply s).HasRole c u role) :
    s.HasRole c u role ∨ Grants s c u role (.serve (.seat c' op)) := by
  obtain ⟨m', hm', rfl, rfl⟩ := h
  cases plan with
  | remove t => exact .inl ⟨m', (mem_seats_departed.mp hm').1, rfl, rfl⟩
  | assign t role =>
    obtain ⟨⟨a, rfl, hactor⟩, ht, _, hallowed⟩ := hfits
    obtain ⟨rfl, rfl⟩ | ⟨hm', _⟩ := (mem_seats_assigned ht).mp hm'
    · exact .inr ⟨rfl, rfl, rfl, hallowed.resolve_right hrole, hactor⟩
    · exact .inl ⟨m', hm', rfl, rfl⟩
  | leave m next =>
    obtain ⟨rfl, hm, hnext⟩ := hfits
    cases next with
    | none => exact .inl ⟨m', (mem_seats_departed.mp hm').1, rfl, rfl⟩
    | some n =>
      split at hnext
      · next howner =>
        obtain ⟨hn, _⟩ := nextOwner_mem hnext.symm
        obtain ⟨rfl, rfl⟩ | ⟨hm', _⟩ := (mem_seats_assigned hn).mp (mem_seats_departed.mp hm').1
        · exact .inr ⟨rfl, rfl, ⟨m, hm, rfl, howner⟩, n, hnext.symm, rfl⟩
        · exact .inl ⟨m', hm', rfl, rfl⟩
      · cases hnext

/-! ## The other requests -/

section Store

variable {α β : Type}

/-- What holds of the store after a part that only reads, and after the rest. -/
theorem store_read {P : Db → Prop} {p : M α} {f : α → M β} {r : Except Failure α}
    (hp : run exec p s = (r, s)) (hs : P s) (hf : ∀ a, r = .ok a → P (run exec (f a) s).2) :
    P (run exec (p >>= f) s).2 := by
  cases r with
  | error e =>
    rw [run_bind_error exec hp]
    exact hs
  | ok a =>
    rw [run_bind_ok exec hp]
    exact hf a rfl

/-- The rest only reads. -/
theorem store_then_read {p : M α} {f : α → M β} (hf : ∀ a t, (run exec (f a) t).2 = t) :
    (run exec (p >>= f) s).2 = (run exec p s).2 := by
  rw [run_bind]
  rcases run exec p s with ⟨_ | a, t⟩
  · rfl
  · exact hf a t

end Store

theorem run_getConversation_snd (c : ConversationId) (u : UserId) (t : Db) :
    (run exec (getConversation c u) t).2 = t := by
  unfold getConversation
  refine store_read (P := fun t' => t' = t) (run_requireMembership c u) rfl fun cv _ => ?_
  rw [run_viewConversation]

/-- The rows of new members of the group. -/
def Joins (s t : Db) (c : ConversationId) : Prop :=
  ∃ rows : List ConversationMember, t.members = s.members ++ rows ∧
    ∀ r ∈ rows, r.conversationId = c ∧ r.role = .member

theorem run_addEach {cv : ConversationWithMembers} (hactive : ∀ m ∈ cv.members, m.leftAt = none)
    (us : List UserId) (s : Db) : Joins s (run exec (addEach cv us) s).2 cv.id := by
  induction us generalizing s with
  | nil => exact ⟨[], by simp [addEach], fun _ h => absurd h List.not_mem_nil⟩
  | cons u us ih =>
    unfold addEach addMember
    cases hfind : cv.members.find? fun member => member.userId = u with
    | some existing =>
      have hleft := hactive existing (List.mem_of_find?_eq_some hfind)
      simp only [if_pos hleft]
      exact ih s
    | none =>
      have hexec : exec (.insertMember cv.id u .member) s =
          orViolation (.uniqueViolation "UQ_conversation_members_active") s
            ((s.insertMember cv.id u .member).map fun db' => ((), db')) := rfl
      cases hinsert : s.insertMember cv.id u .member with
      | none =>
        rw [hinsert] at hexec
        have hrun : run exec (perform (.insertMember cv.id u .member)) s =
            (.error (.query (.uniqueViolation "UQ_conversation_members_active")), s) :=
          (run_perform exec _ s).trans hexec
        rw [run_bind_error exec hrun]
        exact ⟨[], by simp, fun _ h => absurd h List.not_mem_nil⟩
      | some t =>
        rw [hinsert] at hexec
        have ht := Db.insertMember_eq_some hinsert
        obtain ⟨rows, hrows, hall⟩ := ih t
        change Joins s (run exec (perform (.insertMember cv.id u .member) >>= fun _ =>
          addEach cv us) s).2 cv.id
        rw [run_write hexec]
        refine ⟨⟨s.nextId, cv.id, u.canon, .member, s.now, none, none, none, none⟩ :: rows, ?_,
          fun r hr => ?_⟩
        · rw [hrows, ht, List.append_assoc]
          rfl
        · rcases List.mem_cons.mp hr with rfl | hr
          · exact ⟨rfl, rfl⟩
          · exact hall r hr

/-- `addMembers` gives new members the role MEMBER, in a group with an active member. -/
theorem run_addMembers_snd (c : ConversationId) (u : UserId) (ids : List UserId) :
    (run exec (addMembers c u ids) s).2 = s ∨
      s.seats c ≠ [] ∧ Joins s (run exec (addMembers c u ids) s).2 c := by
  let P : Db → Prop := fun t => t = s ∨ s.seats c ≠ [] ∧ Joins s t c
  change P _
  unfold addMembers assertGroupAdmin
  refine store_read (run_requireMembership c u) (.inl rfl) fun cv hcv => ?_
  simp only [Prog.bind_assoc']
  refine store_read (run_rejectIf _ _) (.inl rfl) fun _ _ => ?_
  refine store_read (run_rejectIf _ _) (.inl rfl) fun _ _ => ?_
  refine store_read (run_rejectIf _ _) (.inl rfl) fun _ _ => ?_
  refine store_read (run_rejectIf _ _) (.inl rfl) fun _ _ => ?_
  obtain ⟨_, hmembers, m, hm⟩ := Db.membership_eq_ok hcv
  obtain ⟨hmem, _, hleft⟩ := findActive_eq_some hm
  rw [store_then_read fun _ t => run_getConversation_snd c u t]
  refine .inr ⟨List.ne_nil_of_mem (mem_activeMembers.mpr ⟨hmem, hleft⟩), ?_⟩
  rw [← Db.membership_id hcv]
  refine run_addEach (fun m' hm' => ?_) _ s
  rw [hmembers] at hm'
  exact (mem_activeMembers.mp hm').2

theorem Db.saveMembers_mem {ms : List ConversationMember} (h : s.saveMembers ms = some t) :
    (∀ m' ∈ t.members, m' ∈ ms ∨ m' ∈ s.members ∧ ∀ m ∈ ms, m'.id ≠ m.id) ∧
      ∀ m' ∈ s.members, (∀ m ∈ ms, m'.id ≠ m.id) → m' ∈ t.members := by
  induction ms generalizing s with
  | nil =>
    cases h
    exact ⟨fun m' hm' => .inr ⟨hm', fun _ hm => absurd hm List.not_mem_nil⟩, fun m' hm' _ => hm'⟩
  | cons m ms ih =>
    simp only [Db.saveMembers] at h
    split at h
    · cases h
    · next s' hs' =>
      obtain ⟨hback, hkept⟩ := ih h
      have hs := Db.saveMember_eq_some hs'
      refine ⟨fun m' hm' => ?_, fun m' hm' hid => ?_⟩
      · obtain hmem | ⟨hm', hid⟩ := hback m' hm'
        · exact .inl (List.mem_cons_of_mem _ hmem)
        · rw [hs] at hm'
          obtain ⟨rfl, _⟩ | ⟨hm', hid'⟩ := mem_replaceRow_iff.mp hm'
          · exact .inl List.mem_cons_self
          · exact .inr ⟨hm', List.forall_mem_cons.mpr ⟨hid', hid⟩⟩
      · refine hkept m' ?_ fun m₁ hm₁ => hid m₁ (List.mem_cons_of_mem _ hm₁)
        rw [hs]
        exact mem_replaceRow_iff.mpr (.inr ⟨hm', hid m List.mem_cons_self⟩)

/-- `deleteGroup` empties the group and leaves the others as they are. -/
theorem run_deleteGroup_snd (hkeyed : WellKeyed s) (c : ConversationId) (u : UserId) :
    (run exec (deleteGroup c u) s).2 = s ∨
      ∀ c' m, m ∈ (run exec (deleteGroup c u) s).2.seats c' ↔ m ∈ s.seats c' ∧ c' ≠ c := by
  let P : Db → Prop := fun t => t = s ∨ ∀ c' m, m ∈ t.seats c' ↔ m ∈ s.seats c' ∧ c' ≠ c
  change P _
  unfold deleteGroup
  refine store_read (run_requireMembership c u) (.inl rfl) fun cv hcv => ?_
  refine store_read (run_rejectIf _ _) (.inl rfl) fun _ _ => ?_
  refine store_read (run_rejectIf _ _) (.inl rfl) fun _ _ => ?_
  rw [run_read (a := jsDate s.now) rfl]
  obtain ⟨_, hmembers, _⟩ := Db.membership_eq_ok hcv
  have hrows : (cv.members.map fun member => if member.leftAt = none then
      { member with leftAt := some (jsDate s.now) } else member) =
        (s.seats c).map fun member => { member with leftAt := some (jsDate s.now) } := by
    rw [hmembers]
    exact List.map_congr_left fun m hm => if_pos (mem_activeMembers.mp hm).2
  rw [hrows]
  have hexec : exec (.saveMembers ((s.seats c).map fun member =>
      { member with leftAt := some (jsDate s.now) })) s =
        orViolation (.uniqueViolation "UQ_conversation_members_active") s
          ((s.saveMembers ((s.seats c).map fun member =>
            { member with leftAt := some (jsDate s.now) })).map fun db' => ((), db')) := rfl
  cases hsave : s.saveMembers ((s.seats c).map fun member =>
      { member with leftAt := some (jsDate s.now) }) with
  | none =>
    rw [hsave] at hexec
    rw [run_bind_error exec ((run_perform exec _ s).trans hexec)]
    exact .inl rfl
  | some t =>
    rw [hsave] at hexec
    rw [run_write hexec]
    refine .inr fun c' m => ?_
    change m ∈ t.seats c' ↔ _
    obtain ⟨hback, hkept⟩ := Db.saveMembers_mem hsave
    rw [Db.mem_seats, Db.mem_seats]
    constructor
    · rintro ⟨hm, hconv, hleft⟩
      obtain hm | ⟨hm, hid⟩ := hback m hm
      · obtain ⟨r, _, rfl⟩ := List.mem_map.mp hm
        cases hleft
      · refine ⟨⟨hm, hconv, hleft⟩, fun hc => ?_⟩
        exact hid _ (List.mem_map_of_mem (Db.mem_seats.mpr ⟨hm, hconv.trans hc, hleft⟩)) rfl
    · rintro ⟨⟨hm, hconv, hleft⟩, hc⟩
      refine ⟨hkept m hm fun m' hm' hid => ?_, hconv, hleft⟩
      obtain ⟨r, hr, rfl⟩ := List.mem_map.mp hm'
      obtain ⟨hr, hconv', _⟩ := Db.mem_seats.mp hr
      refine hc ?_
      rw [← hconv, ← hconv', hkeyed.members.eq_of_id_eq hm hr hid]

/-- The roles of the rows a transaction adds. -/
theorem Db.insertMembers_roles {c : ConversationId} {us : List (UserId × ConversationMemberRole)}
    (h : s.insertMembers c us = some t) :
    ∃ rows : List ConversationMember, t.members = s.members ++ rows ∧
      rows.map (fun r => (r.conversationId, r.userId, r.role, r.leftAt)) =
        us.map fun u => (c, u.1.canon, u.2, none) := by
  induction us generalizing s with
  | nil =>
    cases h
    exact ⟨[], by simp, rfl⟩
  | cons u us ih =>
    simp only [Db.insertMembers] at h
    split at h
    · cases h
    · next s' hs' =>
      obtain ⟨rows, hrows, hmap⟩ := ih h
      rw [Db.insertMember_eq_some hs'] at hrows
      rw [List.append_assoc] at hrows
      refine ⟨_ :: rows, hrows, ?_⟩
      rw [List.map_cons, List.map_cons, hmap]

/-- `createGroup` adds the founder as the owner of a new group, and members. -/
theorem run_createGroup_snd (u : UserId) (name : Text) (ids : List UserId) :
    (run exec (createGroup u name ids) s).2 = s ∨
      ∃ (owner : ConversationMember) (rows : List ConversationMember),
        (run exec (createGroup u name ids) s).2.members = s.members ++ owner :: rows ∧
        (owner.conversationId = s.nextId ∧ owner.userId = u.canon ∧ owner.role = .owner ∧
          owner.leftAt = none) ∧
        ∀ r ∈ rows, r.conversationId = s.nextId ∧ r.role = .member := by
  let P : Db → Prop := fun t => t = s ∨
    ∃ (owner : ConversationMember) (rows : List ConversationMember),
      t.members = s.members ++ owner :: rows ∧
        (owner.conversationId = s.nextId ∧ owner.userId = u.canon ∧ owner.role = .owner ∧
          owner.leftAt = none) ∧
        ∀ r ∈ rows, r.conversationId = s.nextId ∧ r.role = .member
  change P _
  unfold createGroup
  refine store_read (run_rejectIf _ _) (.inl rfl) fun _ _ => ?_
  refine store_read (run_rejectIf _ _) (.inl rfl) fun _ _ => ?_
  refine store_read (run_rejectIf _ _) (.inl rfl) fun _ _ => ?_
  rw [store_then_read fun _ _ => rfl, run_perform]
  refine after_createGroupTx (P := P) (.inl rfl) fun t ht => ?_
  obtain ⟨rows, hrows, hmap⟩ := Db.insertMembers_roles ht
  cases rows with
  | nil => cases hmap
  | cons owner rows =>
    simp only [List.map_cons, List.cons.injEq, Prod.mk.injEq] at hmap
    refine .inr ⟨owner, rows, hrows, hmap.1, fun r hr => ?_⟩
    have hmem := List.mem_map_of_mem (f := fun r : ConversationMember =>
      (r.conversationId, r.userId, r.role, r.leftAt)) hr
    rw [hmap.2, List.map_map] at hmem
    obtain ⟨_, _, heq⟩ := List.mem_map.mp hmem
    simp only [Function.comp_apply, Prod.mk.injEq] at heq
    exact ⟨heq.1.symm, heq.2.2.1.symm⟩

/-! ## Runs -/

/-- Members who join as such change no head. -/
theorem Headed.joins {c c' : ConversationId} (h : Headed s c) (hne : s.seats c' ≠ [])
    (hjoins : Joins s t c') : Headed t c := by
  obtain ⟨rows, hrows, hall⟩ := hjoins
  have hback : ∀ m ∈ t.seats c, m ∈ s.seats c ∨ c = c' ∧ m.role = .member := by
    intro m hm
    obtain ⟨hm, hconv, hleft⟩ := Db.mem_seats.mp hm
    rw [hrows] at hm
    rcases List.mem_append.mp hm with hm | hm
    · exact .inl (Db.mem_seats.mpr ⟨hm, hconv, hleft⟩)
    · exact .inr ⟨hconv.symm.trans (hall m hm).1, (hall m hm).2⟩
  obtain hnil | ⟨hd, hmem, howner, honly⟩ := h
  · refine .inl (List.eq_nil_iff_forall_not_mem.mpr fun m hm => ?_)
    obtain hm | ⟨rfl, _⟩ := hback m hm
    · rw [hnil] at hm
      exact List.not_mem_nil hm
    · exact hne hnil
  · obtain ⟨hmem, hconv, hleft⟩ := Db.mem_seats.mp hmem
    refine .inr ⟨hd, Db.mem_seats.mpr ⟨?_, hconv, hleft⟩, howner, fun m hm hrole => ?_⟩
    · rw [hrows]
      exact List.mem_append_left _ hmem
    · obtain hm | ⟨_, hmember⟩ := hback m hm
      · exact honly m hm hrole
      · rw [hmember] at hrole
        cases hrole

/-- A new group is headed by its founder. -/
theorem Headed.founded (hinv : Inv s) {c : ConversationId} (h : Headed s c)
    {owner : ConversationMember} {rows : List ConversationMember}
    (ht : t.members = s.members ++ owner :: rows) (howner : owner.conversationId = s.nextId ∧
      owner.role = .owner ∧ owner.leftAt = none)
    (hrows : ∀ r ∈ rows, r.conversationId = s.nextId ∧ r.role = .member) : Headed t c := by
  obtain ⟨hconv, hrole, hleft⟩ := howner
  have hseats : ∀ m, m ∈ t.seats c ↔ m ∈ s.seats c ∨
      c = s.nextId ∧ (m = owner ∨ m ∈ rows ∧ m.leftAt = none) := by
    intro m
    rw [Db.mem_seats, Db.mem_seats, ht, List.mem_append, List.mem_cons]
    constructor
    · rintro ⟨hm | rfl | hm, hc, hl⟩
      · exact .inl ⟨hm, hc, hl⟩
      · exact .inr ⟨hc.symm.trans hconv, .inl rfl⟩
      · exact .inr ⟨hc.symm.trans (hrows m hm).1, .inr ⟨hm, hl⟩⟩
    · rintro (⟨hm, hc, hl⟩ | ⟨rfl, rfl | ⟨hm, hl⟩⟩)
      · exact ⟨.inl hm, hc, hl⟩
      · exact ⟨.inr (.inl rfl), hconv, hleft⟩
      · exact ⟨.inr (.inr hm), (hrows m hm).1, hl⟩
  by_cases hc : c = s.nextId
  · subst hc
    have hnil : s.seats s.nextId = [] := by
      unfold Db.seats
      rw [hinv.membersOf_nextId]
      rfl
    refine .inr ⟨owner, (hseats owner).mpr (.inr ⟨rfl, .inl rfl⟩), hrole, fun m hm hrole' => ?_⟩
    obtain hm | ⟨_, rfl | ⟨hm, _⟩⟩ := (hseats m).mp hm
    · rw [hnil] at hm
      exact absurd hm List.not_mem_nil
    · rfl
    · rw [(hrows m hm).2] at hrole'
      cases hrole'
  · exact h.of_mem_iff fun m => (hseats m).trans (or_iff_left fun hm => hc hm.1)

theorem headed_step (hinv : Inv s) (hs : SeatedOnce s) (e : GroupEvent) {c : ConversationId}
    (h : Headed s c) : Headed (groupStep e s) c := by
  cases e with
  | pass d => exact h
  | serve op =>
    cases op with
    | createGroup u name ids =>
      simp only [groupStep, GroupOp.op, Op.run, Op.program, run_map]
      obtain heq | ⟨owner, rows, hmembers, howner, hrows⟩ := run_createGroup_snd u name ids (s := s)
      · rw [heq]
        exact h
      · exact h.founded hinv hmembers ⟨howner.1, howner.2.2.1, howner.2.2.2⟩ hrows
    | addMembers c' u ids =>
      simp only [groupStep, GroupOp.op, Op.run, Op.program, run_map]
      obtain heq | ⟨hne, hjoins⟩ := run_addMembers_snd c' u ids (s := s)
      · rw [heq]
        exact h
      · exact h.joins hne hjoins
    | deleteGroup c' u =>
      simp only [groupStep, GroupOp.op, Op.run, Op.program, run_map]
      obtain heq | hseats := run_deleteGroup_snd hinv.keyed c' u
      · rw [heq]
        exact h
      · by_cases hc : c = c'
        · exact .inl (List.eq_nil_iff_forall_not_mem.mpr fun m hm => ((hseats c m).mp hm).2 hc)
        · exact h.of_mem_iff fun m => (hseats c m).trans (and_iff_left hc)
    | seat c' op =>
      change Headed ((op.op c').run s).2 c
      obtain heq | ⟨plan, hfits, heq⟩ := op.run_store hs c'
      · rw [heq]
        exact h
      · rw [heq]
        exact h.apply hinv.keyed hs hfits

theorem roles_step (hinv : Inv s) (hs : SeatedOnce s) (e : GroupEvent) : RolesGranted s e := by
  intro c u role hrole hnew
  cases e with
  | pass d => exact .inl hnew
  | serve op =>
    cases op with
    | createGroup u' name ids =>
      simp only [groupStep, GroupOp.op, Op.run, Op.program, run_map] at hnew
      obtain heq | ⟨owner, rows, hmembers, howner, hrows⟩ :=
        run_createGroup_snd u' name ids (s := s)
      · rw [heq] at hnew
        exact .inl hnew
      · obtain ⟨m, hm, rfl, rfl⟩ := hnew
        obtain ⟨hm, hconv, hleft⟩ := Db.mem_seats.mp hm
        rw [hmembers, List.mem_append, List.mem_cons] at hm
        obtain hm | rfl | hm := hm
        · exact .inl ⟨m, Db.mem_seats.mpr ⟨hm, hconv, hleft⟩, rfl, rfl⟩
        · exact .inr ⟨hconv.symm.trans howner.1, howner.2.1, howner.2.2.1⟩
        · exact absurd (hrows m hm).2 hrole
    | addMembers c' u' ids =>
      simp only [groupStep, GroupOp.op, Op.run, Op.program, run_map] at hnew
      obtain heq | ⟨_, rows, hmembers, hrows⟩ := run_addMembers_snd c' u' ids (s := s)
      · rw [heq] at hnew
        exact .inl hnew
      · obtain ⟨m, hm, rfl, rfl⟩ := hnew
        obtain ⟨hm, hconv, hleft⟩ := Db.mem_seats.mp hm
        rw [hmembers] at hm
        rcases List.mem_append.mp hm with hm | hm
        · exact .inl ⟨m, Db.mem_seats.mpr ⟨hm, hconv, hleft⟩, rfl, rfl⟩
        · exact absurd (hrows m hm).2 hrole
    | deleteGroup c' u' =>
      simp only [groupStep, GroupOp.op, Op.run, Op.program, run_map] at hnew
      obtain heq | hseats := run_deleteGroup_snd hinv.keyed c' u'
      · rw [heq] at hnew
        exact .inl hnew
      · obtain ⟨m, hm, rfl, rfl⟩ := hnew
        exact .inl ⟨m, ((hseats c m).mp hm).1, rfl, rfl⟩
    | seat c' op =>
      simp only [groupStep, GroupOp.op] at hnew
      obtain heq | ⟨plan, hfits, heq⟩ := op.run_store hs c'
      · rw [heq] at hnew
        exact .inl hnew
      · rw [heq] at hnew
        exact plan.grants hfits hrole hnew

/-- What holds throughout a run of the requests. -/
structure Ordered (s : Db) : Prop where
  inv : Inv s
  once : SeatedOnce s
  headed : ∀ c, Headed s c

theorem Ordered.step (h : Ordered s) (e : GroupEvent) : Ordered (groupStep e s) where
  inv := by
    cases e with
    | serve op => exact h.inv.run op.op
    | pass d => exact h.inv.wait d
  once := by
    cases e with
    | serve op => exact h.once.run op.op
    | pass d => exact h.once
  headed := fun c => headed_step h.inv h.once e (h.headed c)

theorem ordered_empty (now : Time) (timeZone : Int) : Ordered (Db.empty now timeZone) :=
  ⟨inv_empty now timeZone, seatedOnce_empty now timeZone, fun _ => .inl rfl⟩

/-- In every run of requests served one after the other, from a database without rows, every group with
an active member has exactly one active owner, and every role above MEMBER that somebody gets is granted
by the founding of the group, by its owner, or by the departure of its owner. -/
theorem governed (es : List GroupEvent) (now : Time) (timeZone : Int) :
    Runs.Always groupStep Governed es (Db.empty now timeZone) ∧
      Runs.Along groupStep RolesGranted es (Db.empty now timeZone) := by
  have hrun : Runs.Always groupStep Ordered es (Db.empty now timeZone) :=
    Runs.Always.of_step (fun _ e h => h.step e) (ordered_empty now timeZone)
  refine ⟨hrun.mono fun s h => governed_of_headed h.inv.keyed h.headed, ?_⟩
  exact Runs.Along.of_always (fun s e h => roles_step h.inv h.once e) hrun

end Relay.Chat
