import Relay.Gateway.PresenceService

/-!
# A socket that comes while another one goes

A user opens a socket while an earlier one closes. The commands of `connect` and `disconnect` interleave,
and both write the online key and the last-seen key. `Orderly` is the condition on the steps under which the
user is shown online at the end, and `online_iff` says that it is exact. Run alone, the commands of a method
do what the method does in `ChatController` (`Holds.connect`, `Holds.disconnect`).
-/

namespace Relay.Gateway.PresenceService

open Relay.Lib Relay.Chat
open ChatController (SocketId PresenceView ONLINE_TTL_SECONDS seconds)

/-! ## The programs -/

/-- A command that answers, with the next turn after it. -/
theorem follows_command {α : Type} {o : Op} {Q : Except Empty α → Nat → Prop} {n : Nat} {c : Call}
    {f : c.Answer → M α} (hc : o.makes n c) (hf : ∀ a, Prog.Follows (commands o) Q (f a) (n + 1)) :
    Prog.Follows (commands o) Q (perform c >>= f) n := by
  refine ⟨hc, fun r _ => ?_⟩
  cases r with
  | error e => exact e.elim
  | ok a => exact hf a

theorem connect_follows (u : UserId) (id : SocketId) :
    Prog.Follows (commands (.connect u id)) (fun _ n => n = 5) (Op.program (.connect u id)) 0 := by
  have hbody : Prog.Follows (commands (.connect u id)) (fun _ n => n = 5)
      (PresenceService.connect u id) 0 := by
    refine follows_command rfl fun wasOnline => ?_
    refine follows_command rfl fun _ => ?_
    refine follows_command rfl fun _ => ?_
    refine follows_command rfl fun _ => ?_
    exact follows_command rfl fun _ => rfl
  exact Prog.follows_bind hbody (fun _ _ h => h) fun e => e.elim

theorem disconnect_follows (u : UserId) (id : SocketId) :
    Prog.Follows (commands (.disconnect u id)) (fun _ _ => True) (Op.program (.disconnect u id)) 0 := by
  have hbody : Prog.Follows (commands (.disconnect u id)) (fun _ _ => True)
      (PresenceService.disconnect u id) 0 := by
    refine follows_command rfl fun _ => ?_
    refine follows_command rfl fun remaining => ?_
    split
    · exact follows_command (.inl rfl) fun _ => trivial
    · refine follows_command (.inr rfl) fun _ => ?_
      refine follows_command rfl fun lastSeenAt => ?_
      exact follows_command ⟨lastSeenAt, rfl⟩ fun _ => trivial
  exact Prog.follows_bind hbody (fun _ _ _ => trivial) fun e => e.elim

/-- When its program has ended, a connect has made all its commands. -/
def Op.Ended : Op → Except Empty Response → Nat → Prop
  | .connect _ _, _, n => n = 5
  | .disconnect _ _, _, _ => True

theorem Op.follows (o : Op) : Prog.Follows (commands o) o.Ended o.program 0 := by
  cases o with
  | connect u id => exact connect_follows u id
  | disconnect u id => exact disconnect_follows u id

/-! ## The two keys -/

/-- The online key and the last-seen key of a user are as they were. -/
structure Keys.Same (u : UserId) (k k' : Keys) : Prop where
  online : k'.isOnline u = k.isOnline u
  lastSeen : k'.lastSeen.lookup u = k.lastSeen.lookup u

theorem seconds_pos {n : Nat} (h : 0 < n) : 0 < seconds n :=
  Nat.mul_pos (Nat.mul_pos h (Nat.succ_pos 999)) (Nat.succ_pos 999)

section Exec

variable (u : UserId) (k : Keys)

theorem isOnline_insert {t : Time} (h : k.now < t) :
    Keys.isOnline { k with online := k.online.insert u t } u = true := by
  simp only [Keys.isOnline, AList.lookup_insert, Option.any_some, h, decide_true]

theorem online_later : k.now < k.now + seconds ONLINE_TTL_SECONDS :=
  Nat.lt_add_of_pos_right (seconds_pos (Nat.succ_pos 44))

theorem srem_same (id : SocketId) : k.Same u (exec (.srem u id) k).2 := by
  simp only [exec]
  split
  · split <;> exact ⟨rfl, rfl⟩
  · exact ⟨rfl, rfl⟩

/-- An expiry is started again only where the key is there. -/
theorem expireOnline_same : k.Same u (exec (.expireOnline u) k).2 := by
  simp only [exec]
  split
  · next h => exact ⟨(isOnline_insert u k (online_later k)).trans h.symm, rfl⟩
  · exact ⟨rfl, rfl⟩

end Exec

/-! ## What the connect has written -/

/-- After `n` commands of a connect, what it has written so far is there. -/
structure Shown (u : UserId) (n : Nat) (k : Keys) : Prop where
  online : 4 ≤ n → k.isOnline u = true
  lastSeen : 5 ≤ n → k.lastSeen.lookup u = none

/-- A deletion of the online key comes before the connect sets it, and a last-seen time before the connect
deletes it. -/
def InOrder (n : Nat) : Call → Prop
  | .delOnline _ => n < 4
  | .setLastSeen _ _ => n < 5
  | _ => True

instance (n : Nat) (c : Call) : Decidable (InOrder n c) := by
  unfold InOrder
  split <;> infer_instance

section Shown

variable {u : UserId} {n m : Nat} {k k' : Keys} {id : SocketId} {c : Call}

theorem Keys.Same.shown (h : k.Same u k') : Shown u n k' ↔ Shown u n k := by
  constructor
  · intro hs
    exact ⟨fun hn => h.online ▸ hs.online hn, fun hn => h.lastSeen ▸ hs.lastSeen hn⟩
  · intro hs
    exact ⟨fun hn => h.online ▸ hs.online hn, fun hn => h.lastSeen ▸ hs.lastSeen hn⟩

theorem shown_of_lt (h : n < 4) : Shown u n k :=
  ⟨fun hn => absurd hn (by omega), fun hn => absurd hn (by omega)⟩

theorem makes_connect (hc : (Op.connect u id).makes n c) :
    n < 3 ∨ n = 3 ∧ c = .setOnline u ∨ n = 4 ∧ c = .delLastSeen u := by
  rcases n with _ | _ | _ | _ | _ | n
  · exact .inl (by decide)
  · exact .inl (by decide)
  · exact .inl (by decide)
  · exact .inr (.inl ⟨rfl, hc⟩)
  · exact .inr (.inr ⟨rfl, hc⟩)
  · exact hc.elim

theorem makes_disconnect (hc : (Op.disconnect u id).makes m c) :
    c = .srem u id ∨ c = .scard u ∨ c = .expireOnline u ∨ c = .delOnline u ∨ c = .newDate ∨
      ∃ t, c = .setLastSeen u t := by
  rcases m with _ | _ | _ | _ | _ | m
  · exact .inl hc
  · exact .inr (.inl hc)
  · exact .inr (.inr (hc.imp_right .inl))
  · exact .inr (.inr (.inr (.inr (.inl hc))))
  · exact .inr (.inr (.inr (.inr (.inr hc))))
  · exact hc.elim

theorem inOrder_connect (hc : (Op.connect u id).makes n c) (n' : Nat) : InOrder n' c := by
  rcases n with _ | _ | _ | _ | _ | n
  · exact hc ▸ trivial
  · exact hc ▸ trivial
  · exact hc ▸ trivial
  · exact hc ▸ trivial
  · exact hc ▸ trivial
  · exact hc.elim

/-- The next command of the connect writes what it should, and mends nothing. -/
theorem shown_connect (hc : (Op.connect u id).makes n c) :
    Shown u (n + 1) (exec c k).2 ↔ Shown u n k := by
  obtain hn | ⟨rfl, rfl⟩ | ⟨rfl, rfl⟩ := makes_connect hc
  · exact iff_of_true (shown_of_lt (by omega)) (shown_of_lt (by omega))
  · refine iff_of_true ⟨fun _ => ?_, fun hn => absurd hn (by decide)⟩ (shown_of_lt (by decide))
    exact isOnline_insert u k (online_later k)
  · constructor
    · intro h
      exact ⟨fun _ => h.online (by decide), fun hn => absurd hn (by decide)⟩
    · intro h
      exact ⟨fun _ => h.online (by decide), fun _ => AList.lookup_erase u k.lastSeen⟩

/-- Two commands of the disconnect can undo it, when they come too late. -/
theorem shown_disconnect (hc : (Op.disconnect u id).makes m c) :
    Shown u n (exec c k).2 ↔ Shown u n k ∧ InOrder n c := by
  obtain rfl | rfl | rfl | rfl | rfl | ⟨t, rfl⟩ := makes_disconnect hc
  · exact (srem_same u k id).shown.trans (and_iff_left trivial).symm
  · exact (and_iff_left trivial).symm
  · exact (expireOnline_same u k).shown.trans (and_iff_left trivial).symm
  · constructor
    · intro h
      have hn : n < 4 := by
        by_contra hn
        have honline := h.online (by omega)
        simp [exec, Keys.isOnline] at honline
      exact ⟨shown_of_lt hn, hn⟩
    · exact fun h => shown_of_lt h.2
  · exact (and_iff_left trivial).symm
  · constructor
    · intro h
      refine ⟨⟨fun hn => h.online hn, fun hn => ?_⟩, ?_⟩
      · have hnone := h.lastSeen hn
        simp [exec] at hnone
      · change n < 5
        by_contra hn
        have hnone := h.lastSeen (by omega)
        simp [exec] at hnone
    · rintro ⟨h, hlt⟩
      have hlt : n < 5 := hlt
      exact ⟨fun hn => h.online hn, fun hn => absurd hn (by omega)⟩

theorem isOnline_of_wait {d : Nat} (h : (k.wait d).isOnline u = true) : k.isOnline u = true := by
  unfold Keys.isOnline at h ⊢
  cases hk : k.online.lookup u with
  | none => simp [Keys.wait, hk] at h
  | some t =>
    simp only [Keys.wait, hk, Option.any_some] at h ⊢
    have h := of_decide_eq_true h
    refine decide_eq_true ?_
    exact Nat.lt_of_le_of_lt (Nat.le_add_right k.now d) h

theorem shown_wait (d : Nat) :
    Shown u n (k.wait d) ↔ Shown u n k ∧ (4 ≤ n → (k.wait d).isOnline u = true) := by
  constructor
  · intro h
    exact ⟨⟨fun hn => isOnline_of_wait (h.online hn), h.lastSeen⟩, h.online⟩
  · intro h
    exact ⟨h.2, h.1.lastSeen⟩

end Shown

/-! ## The run -/

section Run

variable (u : UserId) (s₁ s₂ : SocketId)

/-- One socket of the user connects while another one disconnects. -/
def reload : List Op := [.connect u s₂, .disconnect u s₁]

/-- How many of its commands the connect has made. -/
def made (gs : List (Op × Nat)) : Nat := (gs.head?.map Prod.snd).getD 0

/-- The commands are in order, and the online key does not expire once the connect has set it. -/
def Orderly (w : Sockets) (e : Event) : Prop :=
  Staged.Meets (fun _ _ => false) (fun _ gs _ c => InOrder (made gs) c) w e ∧
    match e with
    | .pass d => 4 ≤ made w.stages → (w.pool.store.wait d).isOnline u = true
    | _ => True

instance (w : Sockets) (e : Event) : Decidable (Orderly u w e) := by
  unfold Orderly
  split <;> infer_instance

/-- The two requests are being served. -/
abbrev Reloading : Sockets → Prop := Serving commands Op.Ended (fun _ _ => True) (reload u s₁ s₂)

variable {u s₁ s₂} {w : Sockets}

theorem reloading_start (k : Keys) : Reloading u s₁ s₂ (sockets (reload u s₁ s₂) k) :=
  Serving.start Op.follows trivial

theorem Reloading.step (h : Reloading u s₁ s₂ w) (e : Event) :
    Reloading u s₁ s₂ (PresenceService.step e w) :=
  Serving.step (L := fun _ _ _ _ => True) (fun _ _ _ => trivial) (fun _ _ _ _ _ _ _ _ _ _ _ => trivial)
    (fun _ _ _ _ => trivial) h (Staged.meets_true _ w e)

theorem Reloading.stages (h : Reloading u s₁ s₂ w) :
    ∃ n m, w.stages = [(.connect u s₂, n), (.disconnect u s₁, m)] := by
  have hserved : w.stages.map Prod.fst = [.connect u s₂, .disconnect u s₁] := h.served
  obtain ⟨⟨o, n⟩, gs, hw, ho, hgs⟩ := List.map_eq_cons_iff.mp hserved
  obtain ⟨⟨o', m⟩, gs', rfl, ho', hgs'⟩ := List.map_eq_cons_iff.mp hgs
  cases List.map_eq_nil_iff.mp hgs'
  cases ho
  cases ho'
  exact ⟨n, m, hw⟩

/-- A step that is in order keeps what the connect has written; any other undoes it, and no step brings it
back. -/
theorem Reloading.shown_iff (h : Reloading u s₁ s₂ w) (e : Event) :
    Shown u (made (PresenceService.step e w).stages) (PresenceService.step e w).pool.store ↔
      Shown u (made w.stages) w.pool.store ∧ Orderly u w e := by
  obtain ⟨n, m, hstages⟩ := h.stages
  have hmade : made w.stages = n := by rw [hstages]; rfl
  obtain ⟨i, c, o, g, rfl, hc, hg, hmakes, _, hstore, hnext⟩ | ⟨hidle, hmeets, hpass⟩ |
      ⟨d, rfl, hd⟩ := h.event_cases exec (fun d k => k.wait d) (fun _ _ => false) e
  · have hmeets : Orderly u w (.advance i) ↔ InOrder (made w.stages) c := by
      simp [Orderly, Staged.Meets, hc]
    unfold PresenceService.step
    rw [hstore, hnext, hmeets, hmade]
    rw [hstages] at hg hnext ⊢
    rcases i with _ | _ | i
    · cases hg
      exact (shown_connect hmakes).trans (and_iff_left (inOrder_connect hmakes n)).symm
    · cases hg
      exact shown_disconnect hmakes
    · cases hg
  · unfold PresenceService.step
    rw [hidle]
    refine (and_iff_left ⟨hmeets _, ?_⟩).symm
    cases e with
    | pass d => exact absurd rfl (hpass d)
    | _ => trivial
  · unfold PresenceService.step
    rw [hd]
    have hord : Orderly u w (.pass d) ↔ (4 ≤ made w.stages → (w.pool.store.wait d).isOnline u = true) :=
      and_iff_right trivial
    rw [hord]
    exact shown_wait d

/-- When both have ended, the connect has made all its commands. -/
theorem Reloading.made_eq (h : Reloading u s₁ s₂ w) (hended : ∀ t ∈ w.pool.threads, t.outcome.isSome) :
    made w.stages = 5 := by
  obtain ⟨n, m, hstages⟩ := h.stages
  have hlength : w.pool.threads.length = 2 := by
    rw [h.follow.length_eq, hstages]
    rfl
  have ht : w.pool.threads[0]? = some w.pool.threads[0] := List.getElem?_eq_getElem (by omega)
  obtain ⟨r, hr⟩ := Option.isSome_iff_exists.mp (hended _ (List.mem_of_getElem? ht))
  have hresult : w.pool.result 0 = some r := by
    rw [Pool.result, ht]
    exact hr
  obtain ⟨g, hg, hn⟩ := h.result (i := 0) rfl hresult
  rw [hstages] at hg ⊢
  cases hg
  exact hn

theorem run_getPresence (u : UserId) (k : Keys) : Prog.run exec (getPresence u) k =
    (.ok ⟨u, if k.isOnline u then .online else .offline,
      if k.isOnline u then none else k.lastSeen.lookup u⟩, k) := rfl

/-- Once both have ended, the user is online and has no last-seen time exactly when every step of the run is
in order. -/
theorem online_iff (u : UserId) (s₁ s₂ : SocketId) (k : Keys) (es : List Event)
    (hended : ∀ t ∈ (Runs.final step es (sockets (reload u s₁ s₂) k)).pool.threads, t.outcome.isSome) :
    let k' := (Runs.final step es (sockets (reload u s₁ s₂) k)).pool.store
    ((Prog.run exec (getPresence u) k').1 = .ok ⟨u, .online, none⟩ ∧ k'.lastSeen.lookup u = none) ↔
      Runs.Along step (Orderly u) es (sockets (reload u s₁ s₂) k) := by
  intro k'
  have hstart : Reloading u s₁ s₂ (sockets (reload u s₁ s₂) k) := reloading_start k
  have hall : Runs.Always step (Reloading u s₁ s₂) es (sockets (reload u s₁ s₂) k) :=
    Runs.Always.of_step (fun w e (h : Reloading u s₁ s₂ w) => h.step e) hstart
  have hrun : Shown u (made (Runs.final step es (sockets (reload u s₁ s₂) k)).stages) k' ↔
      Shown u 0 k ∧ Runs.Along step (Orderly u) es (sockets (reload u s₁ s₂) k) :=
    Runs.final_iff_along (I := fun w : Sockets => Shown u (made w.stages) w.pool.store) es
      (fun w e (h : Reloading u s₁ s₂ w) => h.step e)
      (fun w e (h : Reloading u s₁ s₂ w) => h.shown_iff e) hstart
  rw [hall.final.made_eq hended, and_iff_right (shown_of_lt (by decide))] at hrun
  rw [← hrun, run_getPresence]
  constructor
  · rintro ⟨honline, hlast⟩
    refine ⟨fun _ => ?_, fun _ => hlast⟩
    cases hk : k'.isOnline u with
    | true => rfl
    | false => simp [hk] at honline
  · intro h
    exact ⟨by simp [h.online (by decide)], h.lastSeen (by decide)⟩

end Run

/-! ## The methods as single steps -/

section Methods

open ChatController (Presence SOCKETS_TTL_SECONDS)

/-- A set of sockets that is not empty and has not expired. -/
def live (now : Time) : Option (List SocketId × Time) → Option (List SocketId × Option Time)
  | none => none
  | some (ids, t) => if ids ≠ [] ∧ now < t then some (ids, some t) else none

/-- The keys hold a presence, as far as its sets of sockets are live. -/
structure Holds (k : Keys) (p : Presence) : Prop where
  online : k.online = p.online
  lastSeen : k.lastSeen = p.lastSeen
  sockets : ∀ u, k.socketsEntry u = live k.now (p.sockets.lookup u)

variable {k : Keys} {p : Presence} {u : UserId} {id : SocketId}

theorem Holds.isOnline (h : Holds k p) (u : UserId) : k.isOnline u = p.isOnline k.now u := by
  unfold Keys.isOnline Presence.isOnline
  rw [h.online]

theorem Holds.socketsOf (h : Holds k p) (u : UserId) :
    ((k.socketsEntry u).map fun e => e.1).getD [] = p.socketsOf k.now u := by
  rw [h.sockets]
  unfold Presence.socketsOf
  cases p.sockets.lookup u with
  | none => rfl
  | some e =>
    obtain ⟨ids, t⟩ := e
    by_cases he : ids = [] <;> by_cases ht : k.now < t <;> simp [live, he, ht]

theorem entry_eq {ids : List SocketId} {t : Option Time} (h : k.sockets.lookup u = some (ids, t))
    (hids : ids ≠ []) (ht : ∀ t' ∈ t, k.now < t') : k.socketsEntry u = some (ids, t) := by
  unfold Keys.socketsEntry
  rw [h, Option.filter_some, if_pos]
  exact decide_eq_true ⟨hids, ht⟩

theorem entry_congr {k' : Keys} (h : k'.sockets.lookup u = k.sockets.lookup u) (hnow : k'.now = k.now) :
    k'.socketsEntry u = k.socketsEntry u := by
  unfold Keys.socketsEntry
  rw [h, hnow]

theorem entry_holds {ids : List SocketId} {t : Option Time} (h : k.socketsEntry u = some (ids, t)) :
    ids ≠ [] ∧ ∀ t' ∈ t, k.now < t' := by
  obtain ⟨_, hfilter⟩ := Option.filter_eq_some_iff.mp h
  exact of_decide_eq_true hfilter

/-- `SADD` and the `EXPIRE` after it. -/
theorem sadd_expire (k : Keys) (u : UserId) (id : SocketId) :
    (exec (.expireSockets u) (exec (.sadd u id) k).2).2 = k.setSockets u
      ((((k.socketsEntry u).map fun e => e.1).getD []).insert id,
        some (k.now + seconds SOCKETS_TTL_SECONDS)) := by
  have hexpire : ∀ ids t, ids ≠ [] → (∀ t' ∈ t, k.now < t') →
      (exec (.expireSockets u) (k.setSockets u (ids, t))).2 =
        k.setSockets u (ids, some (k.now + seconds SOCKETS_TTL_SECONDS)) := by
    intro ids t hids ht
    have hentry : (k.setSockets u (ids, t)).socketsEntry u = some (ids, t) :=
      entry_eq (AList.lookup_insert k.sockets) hids ht
    simp only [exec, hentry]
    simp only [Keys.setSockets, AList.insert_insert]
  cases hentry : k.socketsEntry u with
  | none =>
    simp only [exec, hentry]
    exact hexpire [id] none (List.cons_ne_nil _ _) nofun
  | some e =>
    obtain ⟨ids, t⟩ := e
    simp only [exec, hentry]
    refine hexpire (ids.insert id) t ?_ (entry_holds hentry).2
    exact List.ne_nil_of_mem List.mem_insert_self

/-- One user's set of sockets changes on both sides. -/
theorem Holds.sockets_changed (h : Holds k p) {k' : Keys} {p' : Presence} (hnow : k'.now = k.now)
    (honline : k'.online = k.online) (hlast : k'.lastSeen = k.lastSeen) (hponline : p'.online = p.online)
    (hplast : p'.lastSeen = p.lastSeen)
    (hother : ∀ u', u' ≠ u → k'.sockets.lookup u' = k.sockets.lookup u')
    (hpother : ∀ u', u' ≠ u → p'.sockets.lookup u' = p.sockets.lookup u')
    (hu : k'.socketsEntry u = live k.now (p'.sockets.lookup u)) : Holds k' p' where
  online := by rw [honline, h.online, hponline]
  lastSeen := by rw [hlast, h.lastSeen, hplast]
  sockets := by
    intro u'
    by_cases heq : u' = u
    · rw [heq, hu, hnow]
    · rw [entry_congr (hother u' heq) hnow, h.sockets, hpother u' heq, hnow]

theorem Holds.connect (h : Holds k p) (u : UserId) (id : SocketId) :
    (Prog.run exec (PresenceService.connect u id) k).1 = .ok (p.connect k.now u id).1 ∧
      Holds (Prog.run exec (PresenceService.connect u id) k).2 (p.connect k.now u id).2 := by
  have hrun : Prog.run exec (PresenceService.connect u id) k = (.ok !k.isOnline u,
      { (exec (.expireSockets u) (exec (.sadd u id) k).2).2 with
        online := (exec (.expireSockets u) (exec (.sadd u id) k).2).2.online.insert u
          ((exec (.expireSockets u) (exec (.sadd u id) k).2).2.now + seconds ONLINE_TTL_SECONDS)
        lastSeen := (exec (.expireSockets u) (exec (.sadd u id) k).2).2.lastSeen.erase u }) := rfl
  have hids : (p.socketsOf k.now u).insert id ≠ [] := List.ne_nil_of_mem List.mem_insert_self
  have hlater : k.now < k.now + seconds SOCKETS_TTL_SECONDS :=
    Nat.lt_add_of_pos_right (seconds_pos (Nat.succ_pos 86399))
  have hset : ∀ ids t, ids ≠ [] → k.now < t → Holds (k.setSockets u (ids, some t))
      { p with sockets := p.sockets.insert u (ids, t) } := by
    intro ids t hids ht
    refine h.sockets_changed rfl rfl rfl rfl rfl (fun u' hu => AList.lookup_insert_ne hu)
      (fun u' hu => AList.lookup_insert_ne hu) ?_
    rw [entry_eq (AList.lookup_insert k.sockets) hids (by rintro _ ⟨⟩; exact ht),
      AList.lookup_insert, live, if_pos ⟨hids, ht⟩]
  rw [hrun, sadd_expire, h.socketsOf, h.isOnline]
  exact ⟨rfl, congrArg (AList.insert u _) h.online, congrArg (AList.erase u) h.lastSeen,
    (hset _ _ hids hlater).sockets⟩

theorem Holds.srem (h : Holds k p) (u : UserId) (id : SocketId) :
    Holds (exec (.srem u id) k).2 (p.removeSocket u id) := by
  have hentry := h.sockets u
  cases hp : p.sockets.lookup u with
  | none =>
    rw [hp] at hentry
    simp only [exec, hentry, live, Presence.removeSocket, hp]
    exact h
  | some e =>
    obtain ⟨ids, t⟩ := e
    rw [hp] at hentry
    have hp' : p.removeSocket u id =
        { p with sockets := p.sockets.insert u (ids.filter (· ≠ id), t) } := by
      unfold Presence.removeSocket
      rw [hp]
    rw [hp']
    by_cases hlive : ids ≠ [] ∧ k.now < t
    · rw [live, if_pos hlive] at hentry
      by_cases hlast : ids.filter (· ≠ id) = []
      · simp only [exec, hentry, hlast, if_true]
        refine h.sockets_changed rfl rfl rfl rfl rfl (fun u' hu => AList.lookup_erase_ne hu)
          (fun u' hu => AList.lookup_insert_ne hu) ?_
        rw [AList.lookup_insert, live, if_neg (fun hn => hn.1 rfl)]
        simp [Keys.socketsEntry]
      · simp only [exec, hentry, hlast, if_false]
        refine h.sockets_changed rfl rfl rfl rfl rfl (fun u' hu => AList.lookup_insert_ne hu)
          (fun u' hu => AList.lookup_insert_ne hu) ?_
        rw [AList.lookup_insert, live, if_pos ⟨hlast, hlive.2⟩]
        exact entry_eq (AList.lookup_insert k.sockets) hlast (by rintro _ ⟨⟩; exact hlive.2)
    · rw [live, if_neg hlive] at hentry
      simp only [exec, hentry]
      refine h.sockets_changed rfl rfl rfl rfl rfl (fun _ _ => rfl)
        (fun u' hu => AList.lookup_insert_ne hu) ?_
      rw [AList.lookup_insert, hentry, live, if_neg]
      rintro ⟨hids, ht⟩
      exact hlive ⟨fun hnil => hids (by rw [hnil]; rfl), ht⟩

theorem srem_now (k : Keys) (u : UserId) (id : SocketId) : (exec (.srem u id) k).2.now = k.now := by
  simp only [exec]
  split
  · split <;> rfl
  · rfl

/-- A socket is removed from the set first; what is done then depends on whether others are left. -/
theorem run_disconnect_srem (u : UserId) (id : SocketId) (k : Keys) :
    Prog.run exec (PresenceService.disconnect u id) k = Prog.run exec (
      if 0 < ((((exec (.srem u id) k).2.socketsEntry u).map fun e => e.1.length).getD 0) then do
        perform (.expireOnline u)
        return ⟨u, .online, none⟩
      else do
        perform (.delOnline u)
        let lastSeenAt ← perform .newDate
        perform (.setLastSeen u lastSeenAt)
        return ⟨u, .offline, some lastSeenAt⟩) (exec (.srem u id) k).2 := rfl

theorem Holds.disconnect (h : Holds k p) (u : UserId) (id : SocketId) :
    (Prog.run exec (PresenceService.disconnect u id) k).1 = .ok (p.disconnect k.now u id).1 ∧
      Holds (Prog.run exec (PresenceService.disconnect u id) k).2 (p.disconnect k.now u id).2 := by
  have hsrem := h.srem u id
  have hnow := srem_now k u id
  have hsockets := hsrem.socketsOf u
  rw [hnow] at hsockets
  have hcount : 0 < ((((exec (.srem u id) k).2.socketsEntry u).map fun e => e.1.length).getD 0) ↔
      (p.removeSocket u id).socketsOf k.now u ≠ [] := by
    rw [← hsockets]
    cases (exec (.srem u id) k).2.socketsEntry u with
    | none => simp
    | some e => simp [List.length_pos_iff]
  rw [run_disconnect_srem]
  generalize (exec (.srem u id) k).2 = k₁ at *
  unfold Presence.disconnect
  by_cases hleft : (p.removeSocket u id).socketsOf k.now u ≠ []
  · rw [if_pos (hcount.mpr hleft)]
    simp only [if_pos hleft]
    refine ⟨rfl, ?_⟩
    change Holds (exec (.expireOnline u) k₁).2 ((p.removeSocket u id).keepOnline k.now u)
    simp only [exec, Presence.keepOnline, hsrem.isOnline, hnow]
    split
    · exact ⟨congrArg (AList.insert u _) hsrem.online, hsrem.lastSeen, hnow ▸ hsrem.sockets⟩
    · exact hsrem
  · rw [if_neg (fun hpos => hleft (hcount.mp hpos))]
    simp only [if_neg hleft]
    refine ⟨?_, congrArg (AList.erase u) hsrem.online, ?_, hsrem.sockets⟩
    · rw [← hnow]
      rfl
    · rw [← hnow]
      exact congrArg (AList.insert u _) hsrem.lastSeen

/-- An entry that is still there at a later time. -/
def lasting (now : Time) (e : List SocketId × Option Time) : Bool := ∀ t ∈ e.2, now < t

theorem entry_wait (k : Keys) (u : UserId) (d : Nat) :
    (k.wait d).socketsEntry u = (k.socketsEntry u).filter (lasting (k.now + d)) := by
  unfold Keys.socketsEntry
  rw [Option.filter_filter]
  refine congrArg (fun q => Option.filter q (k.sockets.lookup u)) (funext fun e => ?_)
  have hle : k.now ≤ k.now + d := Nat.le_add_right k.now d
  have hiff : (e.1 ≠ [] ∧ ∀ t ∈ e.2, k.now + d < t) ↔
      (e.1 ≠ [] ∧ ∀ t ∈ e.2, k.now < t) ∧ ∀ t ∈ e.2, k.now + d < t := by
    constructor
    · rintro ⟨hids, ht⟩
      exact ⟨⟨hids, fun t h => Nat.lt_of_le_of_lt hle (ht t h)⟩, ht⟩
    · rintro ⟨⟨hids, _⟩, ht⟩
      exact ⟨hids, ht⟩
  calc decide (e.1 ≠ [] ∧ ∀ t ∈ e.2, k.now + d < t)
      = decide ((e.1 ≠ [] ∧ ∀ t ∈ e.2, k.now < t) ∧ ∀ t ∈ e.2, k.now + d < t) :=
        decide_eq_decide.mpr hiff
    _ = (decide (e.1 ≠ [] ∧ ∀ t ∈ e.2, k.now < t) && lasting (k.now + d) e) := Bool.decide_and _ _

theorem live_wait (now : Time) (d : Nat) (x : Option (List SocketId × Time)) :
    live (now + d) x = (live now x).filter (lasting (now + d)) := by
  cases x with
  | none => rfl
  | some e =>
    obtain ⟨ids, t⟩ := e
    have hle : now ≤ now + d := Nat.le_add_right now d
    have hlast : lasting (now + d) (ids, some t) = decide (now + d < t) := by simp [lasting]
    by_cases hids : ids = []
    · simp [live, hids]
    · by_cases ht : now + d < t
      · have hnow : now < t := Nat.lt_of_le_of_lt hle ht
        simp only [live, hids, ht, hnow, ne_eq, not_false_eq_true, and_self, if_true]
        exact (Option.filter_some_pos (hlast.trans (decide_eq_true ht))).symm
      · simp only [live, ht, and_false, if_false]
        split
        · exact (Option.filter_some_neg (hlast.trans (decide_eq_false ht))).symm
        · rfl

/-- Sets that expire are gone on both sides. -/
theorem Holds.wait (h : Holds k p) (d : Nat) : Holds (k.wait d) p := by
  refine ⟨h.online, h.lastSeen, fun u => ?_⟩
  rw [entry_wait, h.sockets u, ← live_wait]
  rfl

theorem Holds.getPresence (h : Holds k p) (u : UserId) :
    Prog.run exec (PresenceService.getPresence u) k = (.ok (p.view k.now u), k) := by
  rw [run_getPresence, Presence.view, h.isOnline, h.lastSeen]

end Methods

/-! ## Runs to compute with -/

def userA : UserId := ⟨['a'], Eq.refl true⟩

/-- One socket is connected. -/
def oneSocket : Keys where
  online := AList.singleton userA 45000000
  sockets := AList.singleton userA ([1], some 86400000000)
  lastSeen := ∅
  now := 0

/-- The new socket is there when the sockets are counted. -/
def connectFirst : List Event :=
  [.advance 0, .advance 0, .advance 1, .pass 1000, .advance 0, .advance 1, .advance 1, .advance 0, .advance 0]

theorem online_iff_connectFirst :
    (Prog.run exec (getPresence userA)
      (Runs.final step connectFirst (sockets (reload userA 1 2) oneSocket)).pool.store).1 =
        .ok ⟨userA, .online, none⟩ :=
  ((online_iff userA 1 2 oneSocket connectFirst (by decide +kernel)).mpr (by decide +kernel)).1

/-- The last socket is counted out before the new one is in, and its commands go on after those of the
connect. -/
def reloaded : List Nat := [1, 1, 0, 0, 0, 0, 0, 1, 1, 1]

theorem online_fails :
    ¬ ∀ (u : UserId) (s₁ s₂ : SocketId) (k : Keys) (turns : List Nat), s₁ ≠ s₂ →
      let w := Runs.final step (turns.map Pool.Event.advance) (sockets (reload u s₁ s₂) k)
      (∀ t ∈ w.pool.threads, t.outcome.isSome) →
      (Prog.run exec (getPresence u) w.pool.store).1 = .ok ⟨u, .online, none⟩ ∧
        w.pool.store.lastSeen.lookup u = none := by
  intro h
  have hshown := h userA 1 2 oneSocket reloaded (by decide) (by decide +kernel)
  have hgone : (Runs.final step (reloaded.map Pool.Event.advance)
      (sockets (reload userA 1 2) oneSocket)).pool.store.lastSeen.lookup userA ≠ none := by
    decide +kernel
  exact hgone hshown.2

end Relay.Gateway.PresenceService
