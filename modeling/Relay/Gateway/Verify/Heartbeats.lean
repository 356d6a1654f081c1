import Relay.Lib.Runs
import Relay.Gateway.Verify.Presence

/-!
# What a heartbeat and a disconnect report

Both report the user online while sockets are left in the set of the user; `getPresence` reads the online
key, which expires on its own. To restart the expiry of a key that is gone does nothing, so that the two
differ once the key has lapsed, until the next connect (`truthful_iff`).
-/

namespace Relay.Gateway.PresenceService

open Relay.Lib Relay.Chat
open ChatController (SocketId PresenceView ONLINE_TTL_SECONDS seconds)

/-- The sockets in the set of a user. -/
def Keys.socketIds (k : Keys) (u : UserId) : List SocketId :=
  ((k.socketsEntry u).map fun e => e.1).getD []

/-- A method of the service, run alone, or time that passes. -/
inductive Turn where
  | connect (u : UserId) (id : SocketId)
  | disconnect (u : UserId) (id : SocketId)
  | heartbeat (u : UserId)
  | elapse (d : Nat)
deriving DecidableEq

/-- The keys after a turn. -/
def Turn.take : Turn → Keys → Keys
  | .connect u id, k => (Prog.run exec (PresenceService.connect u id) k).2
  | .disconnect u id, k => (Prog.run exec (PresenceService.disconnect u id) k).2
  | .heartbeat u, k => (Prog.run exec (PresenceService.heartbeat u) k).2
  | .elapse d, k => k.wait d

/-- The presence that `getPresence` answers with. -/
def presenceOf (u : UserId) (k : Keys) : Option PresenceView :=
  (Prog.run exec (getPresence u) k).1.toOption

/-- The status a turn reports is the one `getPresence` answers with right after it. The gateway answers a
heartbeat with the status online; only a heartbeat of a user with a socket in the set is meant here. -/
def Truthful (k : Keys) : Turn → Prop
  | .heartbeat u => k.socketIds u ≠ [] →
    (presenceOf u ((Turn.heartbeat u).take k)).map PresenceView.status = some .online
  | .disconnect u id =>
    (presenceOf u ((Turn.disconnect u id).take k)).map PresenceView.status =
      (Prog.run exec (PresenceService.disconnect u id) k).1.toOption.map PresenceView.status
  | .connect _ _ => True
  | .elapse _ => True

/-- The online key of a user who has sockets left has not lapsed. -/
def Unlapsed (k : Keys) : Turn → Prop
  | .heartbeat u => k.socketIds u ≠ [] → k.isOnline u = true
  | .disconnect u id => (∃ other ∈ k.socketIds u, other ≠ id) → k.isOnline u = true
  | .connect _ _ => True
  | .elapse _ => True

variable {k : Keys} {u : UserId}

theorem presenceOf_status (u : UserId) (k : Keys) :
    (presenceOf u k).map PresenceView.status =
      some (if k.isOnline u then .online else .offline) := by
  unfold presenceOf
  rw [run_getPresence]
  rfl

theorem status_online_iff : (presenceOf u k).map PresenceView.status = some .online ↔
    k.isOnline u = true := by
  rw [presenceOf_status]
  cases k.isOnline u with
  | true => simp
  | false => simp

theorem card_socketIds (u : UserId) (k : Keys) :
    ((k.socketsEntry u).map fun e => e.1.length).getD 0 = (k.socketIds u).length := by
  unfold Keys.socketIds
  cases k.socketsEntry u with
  | none => rfl
  | some e => rfl

/-! ## A heartbeat -/

theorem run_heartbeat (h : k.socketIds u ≠ []) :
    (Turn.heartbeat u).take k = (exec (.expireOnline u) k).2 := by
  have hcount : 0 < ((k.socketsEntry u).map fun e => e.1.length).getD 0 := by
    rw [card_socketIds]
    exact List.length_pos_iff.mpr h
  have hrun : Prog.run exec (PresenceService.heartbeat u) k = Prog.run exec (
      if 0 < ((k.socketsEntry u).map fun e => e.1.length).getD 0 then perform (.expireOnline u)
      else return ()) k := rfl
  unfold Turn.take
  simp only
  rw [hrun, if_pos hcount]
  rfl

theorem truthful_heartbeat : Truthful k (.heartbeat u) ↔ Unlapsed k (.heartbeat u) := by
  refine forall_congr' fun h => ?_
  rw [run_heartbeat h, status_online_iff, (expireOnline_same u k).online]

/-! ## A disconnect -/

theorem srem_socketIds (u : UserId) (id : SocketId) (k : Keys) :
    (exec (.srem u id) k).2.socketIds u = (k.socketIds u).filter (· ≠ id) := by
  unfold Keys.socketIds
  cases hentry : k.socketsEntry u with
  | none => simp [exec, hentry]
  | some e =>
    obtain ⟨ids, t⟩ := e
    by_cases hlast : ids.filter (· ≠ id) = []
    · have hgone : Keys.socketsEntry { k with sockets := k.sockets.erase u } u = none := by
        simp [Keys.socketsEntry]
      simp only [exec, hentry, hlast, if_true, hgone]
      exact hlast.symm
    · have hlive : ∀ t' ∈ t, k.now < t' := by
        unfold Keys.socketsEntry at hentry
        have hkept := Option.filter_eq_some_iff.mp hentry
        exact (of_decide_eq_true hkept.2).2
      have hkept : (k.setSockets u (ids.filter (· ≠ id), t)).socketsEntry u =
          some (ids.filter (· ≠ id), t) := by
        unfold Keys.socketsEntry Keys.setSockets
        rw [AList.lookup_insert]
        exact Option.filter_some_pos (decide_eq_true ⟨hlast, hlive⟩)
      simp only [exec, hentry, if_neg hlast, hkept]
      rfl

theorem run_disconnect (u : UserId) (id : SocketId) (k : Keys) :
    Prog.run exec (PresenceService.disconnect u id) k =
      if (exec (.srem u id) k).2.socketIds u ≠ [] then
        (.ok ⟨u, .online, none⟩, (exec (.expireOnline u) (exec (.srem u id) k).2).2)
      else
        (.ok ⟨u, .offline, some (jsDate (exec (.srem u id) k).2.now)⟩,
          (exec (.setLastSeen u (jsDate (exec (.srem u id) k).2.now))
            (exec (.delOnline u) (exec (.srem u id) k).2).2).2) := by
  rw [run_disconnect_srem, card_socketIds]
  by_cases hleft : (exec (.srem u id) k).2.socketIds u ≠ []
  · rw [if_pos (List.length_pos_iff.mpr hleft), if_pos hleft]
    rfl
  · rw [if_neg fun h => hleft (List.length_pos_iff.mp h), if_neg hleft]
    rfl

theorem truthful_disconnect (id : SocketId) :
    Truthful k (.disconnect u id) ↔ Unlapsed k (.disconnect u id) := by
  have hleft : (exec (.srem u id) k).2.socketIds u ≠ [] ↔ ∃ other ∈ k.socketIds u, other ≠ id := by
    rw [srem_socketIds]
    simp [List.filter_eq_nil_iff]
  unfold Truthful Unlapsed Turn.take
  simp only
  rw [run_disconnect, ← hleft]
  by_cases hsome : (exec (.srem u id) k).2.socketIds u ≠ []
  · -- The other sockets keep the user online, if the key is there.
    rw [if_pos hsome]
    have honline : (exec (.expireOnline u) (exec (.srem u id) k).2).2.isOnline u = k.isOnline u :=
      (expireOnline_same u _).online.trans (srem_same u k id).online
    refine Iff.trans ?_ (forall_prop_of_true hsome).symm
    rw [← honline]
    exact status_online_iff
  · -- The key of the last socket is deleted.
    rw [if_neg hsome]
    refine iff_of_true ?_ fun h => absurd h hsome
    rw [presenceOf_status]
    simp [exec, Keys.isOnline, Except.toOption]

/-! ## Runs -/

/-- In a run of the service with time that passes, what each heartbeat and each disconnect reports is what
`getPresence` answers with, exactly when the online key of a user has never lapsed where sockets were left
in the set. -/
theorem truthful_iff (turns : List Turn) (k : Keys) :
    Runs.Along Turn.take Truthful turns k ↔ Runs.Along Turn.take Unlapsed turns k := by
  have hturn : ∀ (k : Keys) (t : Turn), Truthful k t ↔ Unlapsed k t := by
    intro k t
    cases t with
    | connect u id => exact Iff.rfl
    | disconnect u id => exact truthful_disconnect id
    | heartbeat u => exact truthful_heartbeat
    | elapse d => exact Iff.rfl
  induction turns generalizing k with
  | nil => exact Iff.rfl
  | cons t turns ih => exact and_congr (hturn k t) (ih (t.take k))

/-- No key is set. -/
def Keys.empty : Keys := ⟨∅, ∅, ∅, 0⟩

/-- A socket connects and is silent for 45 seconds. -/
def silent : List Turn := [.connect userA 1, .elapse 45000000, .heartbeat userA]

/-- The heartbeat is answered with the status online, and the user stays offline to the others. -/
theorem truthful_fails : ¬ ∀ turns, Runs.Along Turn.take Truthful turns Keys.empty := by
  intro h
  have hlapsed : ¬ Unlapsed ((Turn.elapse 45000000).take ((Turn.connect userA 1).take Keys.empty))
      (.heartbeat userA) := by
    intro hkey
    exact absurd (hkey (by decide +kernel)) (by decide +kernel)
  exact hlapsed (truthful_heartbeat.mp (h silent).2.2.1)

end Relay.Gateway.PresenceService
