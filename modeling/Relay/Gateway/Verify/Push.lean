import Mathlib.Data.List.Dedup
import Relay.Gateway.PushService

/-!
# Subscriptions that are kept

Any number of requests for the lists run at the same time, each a cycle that reads a list and writes it. Endpoints
in a list are always distinct and at most five. A subscription that was stored stays, unless a request writes a
list it has read before (`subscriptions_kept`); a sender that finds a dead endpoint does so while another
subscribes (`subscriptions_kept_fails`).
-/

namespace Relay.Gateway.PushService

open Relay.Lib Prog
open Relay.Chat (PresenceStatus)

/-! ## What has happened to a list -/

/-- What happens to the list of one user; the latest comes first in a record of it. -/
inductive Happening where
  /-- The request of this number has read the list. -/
  | read (i : Nat)
  /-- `subscribe` has written the list with the subscription, and returns. -/
  | stored (s : PushSubscription)
  | unsubscribed (endpoint : Text)
  | cleared
  /-- A delivery was answered with 404 or 410. -/
  | gone (endpoint : Text)
deriving DecidableEq

/-- Nobody is owed the endpoint any more. -/
def Happening.frees (endpoint : Text) : Happening → Bool
  | .read _ => false
  | .stored _ => false
  | .unsubscribed e => e = endpoint
  | .cleared => true
  | .gone e => e = endpoint

def Happening.subscription : Happening → Option PushSubscription
  | .stored s => some s
  | _ => none

/-- The subscriptions that were stored. -/
def stored (hs : List Happening) : List PushSubscription := hs.filterMap Happening.subscription

/-- The other endpoints that were stored. -/
def newer (endpoint : Text) (hs : List Happening) : List Text :=
  (((stored hs).map PushSubscription.endpoint).filter (· ≠ endpoint)).dedup

/-- What has happened since the subscription was stored. -/
def since (log : List Happening) (s : PushSubscription) : List Happening := log.takeWhile (· ≠ .stored s)

/-- What has happened since the request has read the list. -/
def meanwhile (log : List Happening) (i : Nat) : List Happening := log.takeWhile (· ≠ .read i)

/-- The subscription was stored, and since then it was not removed, its endpoint was not reported as gone, and
fewer than five other endpoints were stored. -/
def Owed (log : List Happening) (s : PushSubscription) : Prop :=
  .stored s ∈ log ∧ (∀ h ∈ since log s, h.frees s.endpoint = false) ∧
    (newer s.endpoint (since log s)).length < 5

instance (log : List Happening) (s : PushSubscription) : Decidable (Owed log s) :=
  inferInstanceAs (Decidable (_ ∧ _ ∧ _))

/-- The list has the subscription, or a later one for its endpoint. -/
def Present (log : List Happening) (s : PushSubscription) (items : List PushSubscription) : Prop :=
  ∃ t ∈ items, t.endpoint = s.endpoint ∧ (t = s ∨ t ∈ stored (since log s))

instance (log : List Happening) (s : PushSubscription) (items : List PushSubscription) :
    Decidable (Present log s items) :=
  inferInstanceAs (Decidable (∃ t ∈ items, _))

/-- The subscription, or a later one for its endpoint, has its place in the list, and behind it are later ones
only. -/
def Stands (log : List Happening) (s : PushSubscription) (items : List PushSubscription) : Prop :=
  ∃ front t rest, items = front ++ t :: rest ∧ t.endpoint = s.endpoint ∧ (t = s ∨ t ∈ stored (since log s)) ∧
    ∀ x ∈ rest, x.endpoint ∈ newer s.endpoint (since log s)

section Record

variable {log hs : List Happening} {h : Happening} {s t : PushSubscription} {i : Nat} {e : Text}
  {items : List PushSubscription}

theorem mem_stored : s ∈ stored hs ↔ .stored s ∈ hs := by
  unfold stored
  rw [List.mem_filterMap]
  constructor
  · rintro ⟨h, hmem, hs⟩
    cases h with
    | stored t =>
      cases hs
      exact hmem
    | _ => cases hs
  · intro hmem
    exact ⟨_, hmem, rfl⟩

theorem mem_newer : e ∈ newer s.endpoint hs ↔ (∃ t, .stored t ∈ hs ∧ t.endpoint = e) ∧ e ≠ s.endpoint := by
  unfold newer
  rw [List.mem_dedup, List.mem_filter, List.mem_map]
  simp only [mem_stored, decide_eq_true_eq]

theorem since_cons (hne : h ≠ .stored s) : since (h :: log) s = h :: since log s :=
  List.takeWhile_cons_of_pos (by simpa using hne)

theorem meanwhile_cons (hne : h ≠ .read i) : meanwhile (h :: log) i = h :: meanwhile log i :=
  List.takeWhile_cons_of_pos (by simpa using hne)

theorem meanwhile_read (log : List Happening) (i : Nat) : meanwhile (.read i :: log) i = [] :=
  List.takeWhile_cons_of_neg (by simp)

theorem newer_subset {hs' : List Happening} (hsub : hs ⊆ hs') : newer e hs ⊆ newer e hs' := by
  intro x hx
  unfold newer stored at hx ⊢
  rw [List.mem_dedup] at hx ⊢
  exact List.filter_subset _ ((List.map_subset _) (List.filterMap_subset _ hsub)) hx

theorem length_newer_le {hs' : List Happening} (hsub : hs ⊆ hs') :
    (newer e hs).length ≤ (newer e hs').length :=
  ((List.nodup_dedup _).subperm (newer_subset hsub)).length_le

/-- What is owed after a happening was owed before it. -/
theorem Owed.of_cons (ho : Owed (h :: log) s) (hne : h ≠ .stored s) :
    Owed log s ∧ h.frees s.endpoint = false := by
  obtain ⟨hmem, hfrees, hnewer⟩ := ho
  rw [since_cons hne] at hfrees hnewer
  refine ⟨⟨(List.mem_cons.mp hmem).resolve_left (Ne.symm hne), ?_, ?_⟩, hfrees h List.mem_cons_self⟩
  · intro x hx
    exact hfrees x (List.mem_cons_of_mem h hx)
  · exact Nat.lt_of_le_of_lt (length_newer_le (List.subset_cons_self _ _)) hnewer

theorem Stands.present (hst : Stands log s items) : Present log s items := by
  obtain ⟨front, t, rest, rfl, hend, heq, _⟩ := hst
  exact ⟨t, by simp, hend, heq⟩

/-- The place in a list that is not written. -/
theorem Stands.cons (hst : Stands log s items) (hne : h ≠ .stored s) : Stands (h :: log) s items := by
  obtain ⟨front, t, rest, rfl, hend, heq, hrest⟩ := hst
  refine ⟨front, t, rest, rfl, hend, ?_, ?_⟩
  · rw [since_cons hne]
    refine heq.imp_right fun hmem => ?_
    rw [mem_stored] at hmem ⊢
    exact List.mem_cons_of_mem h hmem
  · intro x hx
    rw [since_cons hne]
    exact newer_subset (List.subset_cons_self _ _) (hrest x hx)

/-- A part of the list that has all there is for the endpoint. -/
theorem Stands.sublist {l : List PushSubscription} (hst : Stands log s items)
    (hnodup : (items.map PushSubscription.endpoint).Nodup) (hl : l.Sublist items)
    (hkept : ∀ t ∈ items, t.endpoint = s.endpoint → t ∈ l) : Stands log s l := by
  obtain ⟨front, t, rest, rfl, hend, heq, hrest⟩ := hst
  have hdisjoint := (List.nodup_middle.mp hnodup.of_map).notMem
  rw [List.mem_append, not_or] at hdisjoint
  obtain ⟨front', behind, rfl, hfront, hbehind⟩ := List.sublist_append_iff.mp hl
  have ht : t ∈ behind := by
    refine (List.mem_append.mp (hkept t (by simp) hend)).resolve_left ?_
    intro hmem
    exact hdisjoint.1 (hfront.subset hmem)
  obtain hbehind | ⟨rest', rfl, hrest'⟩ := List.sublist_cons_iff.mp hbehind
  · exact absurd (hbehind.subset ht) hdisjoint.2
  · refine ⟨front', t, rest', rfl, hend, heq, ?_⟩
    intro x hx
    exact hrest x (hrest'.subset hx)

/-- What has happened since the request has read the list has happened since the subscription was stored,
unless it was stored after that. -/
theorem mem_since_of_meanwhile (hs : s ∉ stored (meanwhile log i)) (hh : h ∈ meanwhile log i) :
    h ∈ since log s := by
  induction log with
  | nil => exact absurd hh List.not_mem_nil
  | cons x log ih =>
    by_cases hx : x = .read i
    · rw [hx, meanwhile_read] at hh
      exact absurd hh List.not_mem_nil
    · rw [meanwhile_cons hx] at hs hh
      rw [mem_stored, List.mem_cons, not_or, ← mem_stored] at hs
      rw [since_cons (Ne.symm hs.1)]
      obtain rfl | hh := List.mem_cons.mp hh
      · exact List.mem_cons_self
      · exact List.mem_cons_of_mem x (ih hs.2 hh)

end Record

/-! ## Lists -/

/-- The endpoints are distinct and at most five. -/
def WellFormed (items : List PushSubscription) : Prop :=
  (items.map PushSubscription.endpoint).Nodup ∧ items.length ≤ 5

instance (items : List PushSubscription) : Decidable (WellFormed items) :=
  inferInstanceAs (Decidable (_ ∧ _))

section Lists

variable {log : List Happening} {s t : PushSubscription} {items l : List PushSubscription}

theorem WellFormed.sublist (hw : WellFormed items) (hl : l.Sublist items) : WellFormed l :=
  ⟨(hl.map _).nodup hw.1, hl.length_le.trans hw.2⟩

theorem length_rtake_le {α : Type} (l : List α) (n : Nat) : (l.rtake n).length ≤ n := by
  unfold List.rtake
  rw [List.length_drop]
  omega

theorem nodup_withSubscription (hw : WellFormed items) :
    ((items.filter (fun item => item.endpoint ≠ s.endpoint) ++ [s]).map PushSubscription.endpoint).Nodup := by
  rw [List.map_append, List.nodup_append]
  refine ⟨((List.filter_sublist).map _).nodup hw.1, List.nodup_singleton _, ?_⟩
  intro a ha b hb hab
  obtain ⟨x, hx, rfl⟩ := List.mem_map.mp ha
  have hne := (List.mem_filter.mp hx).2
  simp only [List.map_cons, List.map_nil, List.mem_singleton] at hb
  rw [hab, hb] at hne
  simp at hne

theorem WellFormed.withSubscription (hw : WellFormed items) : WellFormed (withSubscription s items) := by
  refine ⟨?_, length_rtake_le _ 5⟩
  unfold PushService.withSubscription List.rtake
  exact ((List.drop_sublist _ _).map _).nodup (nodup_withSubscription hw)

/-- The last elements of a list still have one that fewer than as many follow. -/
theorem rtake_append_cons {α : Type} (front rest : List α) (a : α) {n : Nat} (hn : rest.length < n) :
    (front ++ a :: rest).rtake n = front.rtake (n - (rest.length + 1)) ++ a :: rest := by
  unfold List.rtake
  have hle : (front ++ a :: rest).length - n ≤ front.length := by
    rw [List.length_append, List.length_cons]
    omega
  rw [List.drop_append_of_le_length hle]
  congr 2
  rw [List.length_append, List.length_cons]
  omega

/-- The new subscription is the last one. -/
theorem withSubscription_eq (s : PushSubscription) (items : List PushSubscription) :
    ∃ front, withSubscription s items = front ++ [s] := by
  refine ⟨(items.filter fun item => item.endpoint ≠ s.endpoint).rtake 4, ?_⟩
  exact rtake_append_cons (n := 5) _ [] s (by decide)

/-- It has its place, and so has one for the same endpoint that it replaces. -/
theorem stands_withSubscription (heq : s = t ∨ s ∈ stored (since (.stored s :: log) t))
    (hend : s.endpoint = t.endpoint) : Stands (.stored s :: log) t (withSubscription s items) := by
  obtain ⟨front, hfront⟩ := withSubscription_eq s items
  refine ⟨front, s, [], hfront, hend, heq, ?_⟩
  intro x hx
  exact absurd hx List.not_mem_nil

/-- Subscriptions for distinct endpoints that were all stored later are fewer than five. -/
theorem Owed.length_lt (ho : Owed log t) (hnodup : (l.map PushSubscription.endpoint).Nodup)
    (hl : ∀ x ∈ l, x.endpoint ∈ newer t.endpoint (since log t)) : l.length < 5 := by
  have hsub : l.map PushSubscription.endpoint ⊆ newer t.endpoint (since log t) := by
    intro e he
    obtain ⟨x, hx, rfl⟩ := List.mem_map.mp he
    exact hl x hx
  have hle := (hnodup.subperm hsub).length_le
  rw [List.length_map] at hle
  exact Nat.lt_of_le_of_lt hle ho.2.2

/-- Another subscription is stored: who is owed still has its place. -/
theorem Stands.withSubscription (hw : WellFormed items) (hst : Stands log t items)
    (ho : Owed (.stored s :: log) t) (hne : s ≠ t) :
    Stands (.stored s :: log) t (withSubscription s items) := by
  have hhappening : Happening.stored s ≠ .stored t := by
    intro heq
    cases heq
    exact hne rfl
  have hlatest : s ∈ stored (since (.stored s :: log) t) := by
    rw [since_cons hhappening, mem_stored]
    exact List.mem_cons_self
  by_cases hend : s.endpoint = t.endpoint
  · exact stands_withSubscription (.inr hlatest) hend
  · have hkept : ∀ x ∈ items, x.endpoint = t.endpoint →
        x ∈ items.filter fun item => item.endpoint ≠ s.endpoint := by
      intro x hmem hx
      rw [List.mem_filter, decide_eq_true_eq, hx]
      exact ⟨hmem, Ne.symm hend⟩
    obtain ⟨front, u, rest, hitems, hu, heq, hrest⟩ :=
      (hst.cons hhappening).sublist hw.1 List.filter_sublist hkept
    have hnodup := nodup_withSubscription (s := s) hw
    -- Behind its place come the new one and those that were there.
    have hbehind : ∀ x ∈ rest ++ [s], x.endpoint ∈ newer t.endpoint (since (.stored s :: log) t) := by
      intro x hx
      obtain hx | hx := List.mem_append.mp hx
      · exact hrest x hx
      · rw [List.mem_singleton.mp hx, mem_newer]
        exact ⟨⟨s, mem_stored.mp hlatest, rfl⟩, hend⟩
    rw [hitems, List.append_assoc, List.cons_append] at hnodup
    have hlength : (rest ++ [s]).length < 5 := by
      refine ho.length_lt (hnodup.sublist ?_) hbehind
      exact (List.sublist_append_of_sublist_right (List.sublist_cons_self u _)).map _
    unfold PushService.withSubscription
    rw [hitems, List.append_assoc, List.cons_append, rtake_append_cons front _ u hlength]
    exact ⟨_, u, rest ++ [s], rfl, hu, heq, hbehind⟩

end Lists

/-! ## The cycles of the requests -/

/-- How far a request has come. -/
inductive Stage where
  | reading
  /-- It has read `subs`; a sender still has to deliver to `rest`, and keeps `keep` of those before. -/
  | holding (subs rest keep : List PushSubscription)
  | done

namespace Request

def sends : Request → Bool
  | .subscribe _ _ => false
  | .unsubscribe _ _ => false
  | .notifyOffline _ _ => true
  | .sendToUser _ _ => true

/-- The request deletes the whole list, without reading it. -/
def clears : Request → Bool
  | .unsubscribe _ endpoint => endpoint.filter (· ≠ []) = none
  | _ => false

/-- The list that the request writes. -/
def next (o : Request) (subs keep : List PushSubscription) : List PushSubscription :=
  match o with
  | .subscribe _ s => withSubscription s subs
  | .unsubscribe _ endpoint => withoutEndpoint (endpoint.getD []) subs
  | .notifyOffline _ _ => keep
  | .sendToUser _ _ => keep

/-- The request stores a subscription for the endpoint. -/
def renews (o : Request) (e : Text) : Bool :=
  match o with
  | .subscribe _ s => s.endpoint = e
  | _ => false

/-- What the write of the request is to the owner of the list. -/
def effect (o : Request) : List Happening :=
  match o with
  | .subscribe _ s => [.stored s]
  | .unsubscribe _ endpoint => if o.clears then [.cleared] else [.unsubscribed (endpoint.getD [])]
  | .notifyOffline _ _ => []
  | .sendToUser _ _ => []

end Request

/-- The user whose list the call writes, with the list. -/
def Call.written : Call → Option (UserId × List PushSubscription)
  | .set u items => some (u, items)
  | .del u => some (u, [])
  | _ => none

/-- The calls of a request, in their order. -/
def cycle (o : Request) : Protocol Call Call.Answer PushError Stage where
  allowed g c := match g with
    | .reading => c = .get o.userId ∨ c = .getPresence o.userId ∨ o.clears = true ∧ c = .del o.userId
    | .holding _ (sub :: _) _ => ∃ data, c = .sendNotification sub data
    | .holding subs [] keep => c.written = some (o.userId, o.next subs keep)
    | .done => False
  next g c r := match g, c, r with
    | .reading, .get _, .ok raw => .holding (parsed raw) (if o.sends then parsed raw else []) []
    | .reading, .getPresence _, _ => .reading
    | .holding subs (sub :: rest) keep, .sendNotification _ _, .ok _ => .holding subs rest (keep ++ [sub])
    | .holding subs (sub :: rest) keep, .sendNotification _ _, .error e =>
      .holding subs rest (if e.gone then keep else keep ++ [sub])
    | _, _, _ => .done
  answers c r := match c with
    | .sendNotification _ _ => True
    | _ => ∃ a, r = .ok a

section Follows

variable {o : Request} {u : UserId} {data : Payload} {subs : List PushSubscription}

/-- What a request returns is of no interest. -/
def Ended (_ : Request) (_ : Except PushError Unit) (_ : Stage) : Prop := True

theorem deliver_follows (rest keep : List PushSubscription) :
    Follows (cycle o) (fun r g => ∃ kept, r = .ok kept ∧ g = .holding subs [] kept)
      (deliver data rest keep) (.holding subs rest keep) := by
  induction rest generalizing keep with
  | nil => exact ⟨keep, rfl, rfl⟩
  | cons sub rest ih =>
    refine ⟨⟨data, rfl⟩, fun r _ => ?_⟩
    cases r with
    | ok a => exact ih (keep ++ [sub])
    | error e =>
      change Follows (cycle o) _ (if e.gone then deliver data rest keep else deliver data rest (keep ++ [sub]))
        (.holding subs rest (if e.gone then keep else keep ++ [sub]))
      split
      · exact ih keep
      · exact ih (keep ++ [sub])

theorem sendToUser_follows (hu : o.userId = u) (hsends : o.sends = true)
    (hnext : ∀ subs keep, o.next subs keep = keep) :
    Follows (cycle o) (Ended o) (sendToUser u data) .reading := by
  subst hu
  refine ⟨.inl rfl, fun r hr => ?_⟩
  obtain ⟨raw, rfl⟩ := hr
  change Follows (cycle o) _ _ (.holding (parsed raw) (if o.sends then parsed raw else []) [])
  rw [if_pos hsends]
  change Follows (cycle o) _ (if (parsed raw).length = 0 then _ else deliver data (parsed raw) [] >>= _) _
  split
  · trivial
  · refine follows_bind (deliver_follows (parsed raw) []) ?_ ?_
    · rintro kept _ ⟨_, ⟨⟩, rfl⟩
      by_cases hempty : kept.length = 0
      · rw [if_pos hempty]
        refine follows_perform ?_ fun _ _ => trivial
        rw [List.length_eq_zero_iff] at hempty
        change some _ = some (o.userId, o.next _ _)
        rw [hnext, hempty]
      · rw [if_neg hempty]
        by_cases hlength : kept.length ≠ (parsed raw).length
        · rw [if_pos hlength]
          refine follows_perform ?_ fun _ _ => trivial
          change some _ = some (o.userId, o.next _ _)
          rw [hnext]
        · rw [if_neg hlength]
          trivial
    · rintro _ _ ⟨_, ⟨⟩, _⟩

theorem program_follows (o : Request) : Follows (cycle o) (Ended o) o.program .reading := by
  cases o with
  | subscribe u s =>
    refine ⟨.inl rfl, fun r hr => ?_⟩
    obtain ⟨raw, rfl⟩ := hr
    exact follows_perform rfl fun _ _ => trivial
  | unsubscribe u endpoint =>
    simp only [Request.program, PushService.unsubscribe]
    cases hend : endpoint.filter (· ≠ []) with
    | none =>
      refine follows_perform (.inr (.inr ⟨?_, rfl⟩)) fun _ _ => trivial
      exact decide_eq_true hend
    | some e =>
      obtain ⟨hendpoint, _⟩ := Option.filter_eq_some_iff.mp hend
      refine ⟨.inl rfl, fun r hr => ?_⟩
      obtain ⟨raw, rfl⟩ := hr
      change Follows (cycle _) _ (if (withoutEndpoint e (parsed raw)).length = 0 then perform (.del u)
        else perform (.set u (withoutEndpoint e (parsed raw)))) (.holding (parsed raw) [] [])
      split
      · next hempty =>
        refine follows_perform ?_ fun _ _ => trivial
        rw [List.length_eq_zero_iff] at hempty
        simp [cycle, Call.written, Request.next, Request.userId, hendpoint, hempty]
      · refine follows_perform ?_ fun _ _ => trivial
        simp [cycle, Call.written, Request.next, Request.userId, hendpoint]
  | notifyOffline u data =>
    refine ⟨.inr (.inl rfl), fun r hr => ?_⟩
    obtain ⟨status, rfl⟩ := hr
    change Follows (cycle _) _ (if status ≠ .offline then return () else sendToUser u data) .reading
    split
    · trivial
    · exact sendToUser_follows rfl rfl fun _ _ => rfl
  | sendToUser u data => exact sendToUser_follows rfl rfl fun _ _ => rfl

theorem cycle_answers (o : Request) (w : World) (c : Call) : (cycle o).answers c (exec c w).1 := by
  cases c with
  | sendNotification sub data => trivial
  | _ => exact ⟨_, rfl⟩

end Follows

/-! ## What a call changes -/

/-- The list of a user. -/
def World.items (w : World) (u : UserId) : List PushSubscription := parsed (w.redis.lookup u)

/-- What a call of a request is to the list of the user. -/
def happened (u : UserId) (o : Request) (i : Nat) (c : Call) (r : Except PushError c.Answer) : List Happening :=
  if o.userId ≠ u then []
  else match c, r with
    | .get _, _ => [.read i]
    | .set _ _, _ => o.effect
    | .del _, _ => o.effect
    | .sendNotification sub _, .error e => if e.gone then [.gone sub.endpoint] else []
    | _, _ => []

/-- No subscription that is owed even after the request has written the list was stored since the request has
read it, but for the endpoint that the request itself stores. -/
def Fresh (log : List Happening) (i : Nat) (o : Request) : Prop :=
  ∀ s ∈ stored (meanwhile log i), Owed (o.effect ++ log) s → o.renews s.endpoint = true

instance (log : List Happening) (i : Nat) (o : Request) : Decidable (Fresh log i o) :=
  inferInstanceAs (Decidable (∀ s ∈ _, _))

section Calls

variable {u v : UserId} {w w' : World} {c : Call} {o : Request} {i : Nat} {items subs keep : List PushSubscription}
  {log hs : List Happening} {gs : List (Request × Stage)} {g g' : Stage}

theorem items_written (hc : c.written = some (v, items)) : (exec c w).2.items v = items := by
  cases c with
  | set u' next =>
    cases hc
    simp [exec, World.items, parsed, AList.lookup_insert]
  | del u' =>
    cases hc
    simp [exec, World.items, parsed, AList.lookup_erase]
  | _ => cases hc

theorem items_unwritten (hc : ∀ items, c.written ≠ some (u, items)) : (exec c w).2.items u = w.items u := by
  cases c with
  | set u' next =>
    have hne : u ≠ u' := fun heq => hc next (by rw [heq]; rfl)
    simp [exec, World.items, AList.lookup_insert_ne hne]
  | del u' =>
    have hne : u ≠ u' := fun heq => hc [] (by rw [heq]; rfl)
    simp [exec, World.items, AList.lookup_erase_ne hne]
  | _ => rfl

/-- A request writes the list of its own user only. -/
theorem written_own (hc : (cycle o).allowed g c) (hw : c.written = some (v, items)) : v = o.userId := by
  cases g with
  | reading =>
    obtain rfl | rfl | ⟨_, rfl⟩ := hc <;> cases hw
    rfl
  | holding subs rest keep =>
    cases rest with
    | nil =>
      rw [show c.written = _ from hc] at hw
      cases hw
      rfl
    | cons sub rest =>
      obtain ⟨data, rfl⟩ := hc
      cases hw
  | done => exact hc.elim

theorem items_other (hc : (cycle o).allowed g c) (hu : o.userId ≠ u) : (exec c w).2.items u = w.items u :=
  items_unwritten fun _ hw => hu (written_own hc hw).symm

/-! ## Distinct endpoints, at most five -/

/-- What a request holds is well formed, and a sender keeps a part of what it has delivered to. -/
def Stage.Formed (o : Request) : Stage → Prop
  | .holding subs rest keep =>
    WellFormed subs ∧ (o.sends = true → ∃ sent, subs = sent ++ rest ∧ keep.Sublist sent)
  | _ => True

structure Formed (u : UserId) (w : World) (gs : List (Request × Stage)) : Prop where
  list : WellFormed (w.items u)
  stage : ∀ (i : Nat) (o : Request) (g : Stage), gs[i]? = some (o, g) → o.userId = u → g.Formed o

theorem Stage.Formed.keep_sublist (hg : (Stage.holding subs [] keep).Formed o) (hsends : o.sends = true) :
    keep.Sublist subs := by
  obtain ⟨sent, rfl, hkeep⟩ := hg.2 hsends
  rw [List.append_nil]
  exact hkeep

theorem Stage.Formed.next (hg : (Stage.holding subs [] keep).Formed o) : WellFormed (o.next subs keep) := by
  cases o with
  | subscribe u s => exact hg.1.withSubscription
  | unsubscribe u endpoint => exact hg.1.sublist List.filter_sublist
  | notifyOffline u data => exact hg.1.sublist (hg.keep_sublist rfl)
  | sendToUser u data => exact hg.1.sublist (hg.keep_sublist rfl)

theorem Formed.set (h : Formed u w gs) (hg : gs[i]? = some (o, g)) (hlist : WellFormed (w'.items u))
    (hg' : o.userId = u → g'.Formed o) : Formed u w' (gs.set i (o, g')) := by
  refine ⟨hlist, ?_⟩
  intro j q x hj hu
  obtain ⟨rfl, heq⟩ | ⟨_, hj⟩ := (getElem?_set_iff hg).mp hj
  · cases heq
    exact hg' hu
  · exact h.stage j q x hj hu

/-- The step lemma: every call of a request keeps the lists well formed. -/
theorem Formed.call (h : Formed u w gs) (hg : gs[i]? = some (o, g)) (hc : (cycle o).allowed g c) :
    Formed u (exec c w).2 (gs.set i (o, (cycle o).next g c (exec c w).1)) := by
  by_cases hu : o.userId = u
  · have hstage := h.stage i o g hg hu
    subst hu
    cases g with
    | reading =>
      obtain rfl | rfl | ⟨_, rfl⟩ := hc
      · refine h.set hg h.list fun _ => ⟨h.list, fun hsends => ⟨[], ?_, List.Sublist.refl _⟩⟩
        rw [if_pos hsends]
        rfl
      · exact h.set hg h.list fun _ => trivial
      · refine h.set hg ?_ fun _ => trivial
        rw [items_written rfl]
        exact ⟨List.nodup_nil, Nat.zero_le 5⟩
    | holding subs rest keep =>
      cases rest with
      | nil =>
        have hnext : (cycle o).next (.holding subs [] keep) c (exec c w).1 = .done := by
          cases c <;> rfl
        refine h.set hg ?_ fun _ => by rw [hnext]; trivial
        rw [items_written hc]
        exact hstage.next
      | cons sub rest =>
        obtain ⟨data, rfl⟩ := hc
        refine h.set hg h.list fun _ => ?_
        have hmoves : ∀ kept, kept = keep ∨ kept = keep ++ [sub] → (Stage.holding subs rest kept).Formed o := by
          intro kept hkept
          refine ⟨hstage.1, fun hsends => ?_⟩
          obtain ⟨sent, hsubs, hsent⟩ := hstage.2 hsends
          refine ⟨sent ++ [sub], by simp [hsubs], ?_⟩
          obtain rfl | rfl := hkept
          · exact List.sublist_append_of_sublist_left hsent
          · exact hsent.append (List.Sublist.refl _)
        cases hr : w.answer sub.endpoint with
        | ok a =>
          simp only [exec, cycle, hr]
          exact hmoves _ (.inr rfl)
        | error e =>
          simp only [exec, cycle, hr]
          refine hmoves _ ?_
          split
          · exact .inl rfl
          · exact .inr rfl
    | done => exact hc.elim
  · refine h.set hg ?_ fun hu' => absurd hu' hu
    rw [items_other hc hu]
    exact h.list

/-! ## Who keeps its place -/

/-- What was owed when a request has read the list has its place in what the request holds, and a sender has
seen the endpoints it leaves out reported as gone. -/
def Stage.Kept (log : List Happening) (i : Nat) (o : Request) : Stage → Prop
  | .holding subs rest keep =>
    (∀ s, Owed log s → s ∉ stored (meanwhile log i) → Stands log s subs) ∧
      (o.sends = true → ∀ t ∈ subs, t ∈ rest ∨ t ∈ keep ∨ .gone t.endpoint ∈ meanwhile log i)
  | _ => True

structure Kept (u : UserId) (w : World) (gs : List (Request × Stage)) (log : List Happening) : Prop where
  list : ∀ s, Owed log s → Stands log s (w.items u)
  stage : ∀ (i : Nat) (o : Request) (g : Stage), gs[i]? = some (o, g) → o.userId = u → g.Kept log i o

/-- What a request holds while others go on. -/
theorem Stage.Kept.append (hg : g.Kept log i o) (hother : ∀ h ∈ hs, h ≠ .read i) : g.Kept (hs ++ log) i o := by
  induction hs with
  | nil => exact hg
  | cons h hs ih =>
    have hne : h ≠ .read i := hother h List.mem_cons_self
    have hrest := ih fun x hx => hother x (List.mem_cons_of_mem h hx)
    rw [List.cons_append]
    cases g with
    | holding subs rest keep =>
      obtain ⟨hplaces, hgone⟩ := hrest
      refine ⟨fun s ho hunread => ?_, fun hsends t ht => ?_⟩
      · rw [meanwhile_cons hne, mem_stored, List.mem_cons, not_or, ← mem_stored] at hunread
        have hstored : h ≠ .stored s := Ne.symm hunread.1
        exact (hplaces s (ho.of_cons hstored).1 hunread.2).cons hstored
      · rw [meanwhile_cons hne]
        obtain hrest | hkeep | hdead := hgone hsends t ht
        · exact .inl hrest
        · exact .inr (.inl hkeep)
        · exact .inr (.inr (List.mem_cons_of_mem h hdead))
    | _ => trivial

theorem Kept.set (h : Kept u w gs log) (hg : gs[i]? = some (o, g))
    (hlist : ∀ s, Owed (hs ++ log) s → Stands (hs ++ log) s (w'.items u))
    (hothers : ∀ j, j ≠ i → ∀ h ∈ hs, h ≠ .read j) (hg' : o.userId = u → g'.Kept (hs ++ log) i o) :
    Kept u w' (gs.set i (o, g')) (hs ++ log) := by
  refine ⟨hlist, ?_⟩
  intro j q x hj hu
  obtain ⟨rfl, heq⟩ | ⟨hji, hj⟩ := (getElem?_set_iff hg).mp hj
  · cases heq
    exact hg' hu
  · have hstage : x.Kept log j q := h.stage j q x hj hu
    exact hstage.append (hothers j hji)

theorem stands_subscribe {t s : PushSubscription} (hw : WellFormed subs)
    (hplace : Owed log s → s ∉ stored (meanwhile log i) → Stands log s subs)
    (hfresh : s ∈ stored (meanwhile log i) → t.endpoint = s.endpoint)
    (ho : Owed (.stored t :: log) s) : Stands (.stored t :: log) s (withSubscription t subs) := by
  by_cases hts : t = s
  · exact stands_withSubscription (.inl hts) (by rw [hts])
  · have hne : Happening.stored t ≠ .stored s := by
      intro heq
      cases heq
      exact hts rfl
    obtain ⟨hbefore, _⟩ := ho.of_cons hne
    by_cases hunread : s ∈ stored (meanwhile log i)
    · refine stands_withSubscription (.inr ?_) (hfresh hunread)
      rw [since_cons hne, mem_stored]
      exact List.mem_cons_self
    · exact (hplace hbefore hunread).withSubscription hw ho hts

theorem stands_unsubscribe {e : Text} {s : PushSubscription} (hw : WellFormed subs)
    (hplace : Owed log s → Stands log s subs) (ho : Owed (.unsubscribed e :: log) s) :
    Stands (.unsubscribed e :: log) s (withoutEndpoint e subs) := by
  obtain ⟨hbefore, hfree⟩ := ho.of_cons (by simp)
  have hother : e ≠ s.endpoint := of_decide_eq_false hfree
  refine ((hplace hbefore).cons (by simp)).sublist hw.1 List.filter_sublist ?_
  intro t ht hend
  unfold withoutEndpoint
  rw [List.mem_filter, decide_eq_true_eq, hend]
  exact ⟨ht, Ne.symm hother⟩

/-- A sender leaves out only whom it has seen reported as gone. -/
theorem stands_sender (hformed : (Stage.holding subs [] keep).Formed o)
    (hkept : (Stage.holding subs [] keep).Kept log i o) (hsends : o.sends = true) {s : PushSubscription}
    (hunread : s ∉ stored (meanwhile log i)) (ho : Owed log s) : Stands log s keep := by
  refine (hkept.1 s ho hunread).sublist hformed.1.1 (hformed.keep_sublist hsends) ?_
  intro t ht hend
  obtain hrest | hkeep | hdead := hkept.2 hsends t ht
  · exact absurd hrest List.not_mem_nil
  · exact hkeep
  · have hfree := ho.2.1 _ (mem_since_of_meanwhile hunread hdead)
    rw [hend] at hfree
    simp [Happening.frees] at hfree

theorem effect_ne_read {x : Happening} (hx : x ∈ o.effect) {j : Nat} : x ≠ .read j := by
  intro heq
  subst heq
  cases o with
  | unsubscribe u endpoint =>
    simp only [Request.effect] at hx
    split at hx <;> simp at hx
  | _ => simp [Request.effect] at hx

/-- What a request writes keeps the place of everyone who is owed one afterwards. -/
theorem Stage.Kept.next (hformed : (Stage.holding subs [] keep).Formed o)
    (hkept : (Stage.holding subs [] keep).Kept log i o) (hfresh : Fresh log i o) {s : PushSubscription}
    (ho : Owed (o.effect ++ log) s) : Stands (o.effect ++ log) s (o.next subs keep) := by
  have hunread : o.renews s.endpoint = false → s ∉ stored (meanwhile log i) := by
    intro hrenews hmem
    rw [hfresh s hmem ho] at hrenews
    cases hrenews
  cases o with
  | subscribe u t =>
    refine stands_subscribe hformed.1 (hkept.1 s) (fun hmem => ?_) ho
    exact of_decide_eq_true (hfresh s hmem ho)
  | unsubscribe u endpoint =>
    cases hclears : (Request.unsubscribe u endpoint).clears with
    | true =>
      simp only [Request.effect, hclears, if_true] at ho
      obtain ⟨_, hfree⟩ := Owed.of_cons ho (by simp)
      cases hfree
    | false =>
      simp only [Request.effect, hclears] at ho ⊢
      exact stands_unsubscribe hformed.1 (fun hbefore => hkept.1 s hbefore (hunread rfl)) ho
  | notifyOffline u data => exact stands_sender hformed hkept rfl (hunread rfl) ho
  | sendToUser u data => exact stands_sender hformed hkept rfl (hunread rfl) ho

theorem happened_written (hu : o.userId = u) (hc : c.written = some (v, items)) {r : Except PushError c.Answer} :
    happened u o i c r = o.effect := by
  unfold happened
  rw [if_neg (not_not_intro hu)]
  cases c with
  | set _ _ => rfl
  | del _ => rfl
  | _ => cases hc

/-- The sender has delivered to a subscription, or failed for the moment. -/
theorem Stage.Kept.delivered {sub : PushSubscription} {rest : List PushSubscription}
    (hg : (Stage.holding subs (sub :: rest) keep).Kept log i o) :
    (Stage.holding subs rest (keep ++ [sub])).Kept log i o := by
  refine ⟨hg.1, fun hsends t ht => ?_⟩
  obtain hrest | hkeep | hdead := hg.2 hsends t ht
  · obtain rfl | hrest := List.mem_cons.mp hrest
    · exact .inr (.inl (by simp))
    · exact .inl hrest
  · exact .inr (.inl (List.mem_append_left _ hkeep))
  · exact .inr (.inr hdead)

/-- The sender leaves out a subscription whose endpoint is reported as gone. -/
theorem Stage.Kept.undeliverable {sub : PushSubscription} {rest : List PushSubscription}
    (hg : (Stage.holding subs (sub :: rest) keep).Kept log i o) :
    (Stage.holding subs rest keep).Kept (.gone sub.endpoint :: log) i o := by
  have hnow : (Stage.holding subs (sub :: rest) keep).Kept ([.gone sub.endpoint] ++ log) i o := by
    refine hg.append fun x hx => ?_
    rw [List.mem_singleton.mp hx]
    simp
  refine ⟨hnow.1, fun hsends t ht => ?_⟩
  obtain hrest | hkeep | hdead := hnow.2 hsends t ht
  · obtain rfl | hrest := List.mem_cons.mp hrest
    · refine .inr (.inr ?_)
      rw [meanwhile_cons (by simp)]
      exact List.mem_cons_self
    · exact .inl hrest
  · exact .inr (.inl hkeep)
  · exact .inr (.inr hdead)

/-- The step lemma: a call keeps the places of those who are owed one, if the list was read late enough. -/
theorem Kept.call (hformed : Formed u w gs) (h : Kept u w gs log) (hg : gs[i]? = some (o, g))
    (hc : (cycle o).allowed g c) (hfresh : o.userId = u → c.written ≠ none → Fresh log i o) :
    Kept u (exec c w).2 (gs.set i (o, (cycle o).next g c (exec c w).1))
      (happened u o i c (exec c w).1 ++ log) := by
  by_cases hu : o.userId = u
  · have hstage := h.stage i o g hg hu
    have hok := hformed.stage i o g hg hu
    subst hu
    cases g with
    | reading =>
      obtain rfl | rfl | ⟨hclears, rfl⟩ := hc
      · simp only [happened, not_not_intro, if_false]
        refine h.set hg (fun s ho => ?_) (fun j hj x hx => ?_) fun _ => ⟨fun s ho _ => ?_, fun hsends t ht => ?_⟩
        · exact (h.list s (ho.of_cons (by simp)).1).cons (by simp)
        · rw [List.mem_singleton.mp hx]
          intro heq
          cases heq
          exact hj rfl
        · exact (h.list s (ho.of_cons (by simp)).1).cons (by simp)
        · rw [if_pos hsends]
          exact .inl ht
      · simp only [happened, not_not_intro, if_false]
        exact h.set hg h.list (fun _ _ _ hx => absurd hx List.not_mem_nil) fun _ => trivial
      · have heffect : o.effect = [.cleared] := by
          cases o with
          | unsubscribe u endpoint => exact if_pos hclears
          | _ => cases hclears
        rw [happened_written rfl rfl, heffect]
        refine h.set hg (fun s ho => ?_) (fun j _ x hx => ?_) fun _ => trivial
        · obtain ⟨_, hfree⟩ := ho.of_cons (by simp)
          cases hfree
        · rw [List.mem_singleton.mp hx]
          simp
    | holding subs rest keep =>
      cases rest with
      | nil =>
        have hwritten : c.written = some (o.userId, o.next subs keep) := hc
        have hnext : (cycle o).next (.holding subs [] keep) c (exec c w).1 = .done := by
          cases c <;> rfl
        rw [happened_written rfl hwritten, hnext]
        refine h.set hg (fun s ho => ?_) (fun j _ x hx => ?_) fun _ => trivial
        · rw [items_written hwritten]
          refine hstage.next hok (hfresh rfl ?_) ho
          rw [hwritten]
          simp
        · exact effect_ne_read hx
      | cons sub rest =>
        obtain ⟨data, rfl⟩ := hc
        have hkeeps : Kept o.userId w (gs.set i (o, .holding subs rest (keep ++ [sub]))) ([] ++ log) :=
          h.set hg h.list (fun _ _ _ hx => absurd hx List.not_mem_nil) fun _ => hstage.delivered
        cases hr : w.answer sub.endpoint with
        | ok a =>
          simp only [happened, not_not_intro, if_false, exec, cycle, hr]
          exact hkeeps
        | error e =>
          cases hgone : e.gone with
          | false =>
            simp only [happened, not_not_intro, if_false, exec, cycle, hr, hgone]
            exact hkeeps
          | true =>
            simp only [happened, not_not_intro, if_false, exec, cycle, hr, hgone, if_true]
            refine h.set hg (fun s ho => ?_) (fun j _ x hx => ?_) fun _ => hstage.undeliverable
            · exact (h.list s (ho.of_cons (by simp)).1).cons (by simp)
            · rw [List.mem_singleton.mp hx]
              simp
    | done => exact hc.elim
  · unfold happened
    rw [if_pos hu]
    refine h.set hg ?_ (fun _ _ _ hx => absurd hx List.not_mem_nil) fun hu' => absurd hu' hu
    rw [items_other hc hu]
    exact h.list

end Calls

/-! ## Runs -/

/-- A request makes its next call, or the world around the requests changes. -/
abbrev Event := Pool.Event Empty ((UserId → PresenceStatus) × (Text → Except PushError Unit))

abbrev Requests := Pool Call Call.Answer PushError Unit World

/-- The requests, none of which has made a call. -/
def arrived (os : List Request) (w : World) : Requests := ⟨w, os.map Request.program⟩

/-- What an event is to the list of the user. -/
def note (u : UserId) (os : List Request) (p : Requests) (e : Event) : List Happening :=
  match e with
  | .advance i =>
    match os[i]?, p.nextCall i with
    | some o, some c => happened u o i c (exec c p.store).1
    | _, _ => []
  | _ => []

/-- The requests run, and what happens to the list of the user is recorded. -/
def recorded (u : UserId) (os : List Request) : Event → Requests × List Happening → Requests × List Happening :=
  Runs.noting (Pool.step exec Empty.elim fun d w => w.turn d) (note u os)

/-- The history only watches: the requests run as they do without it. -/
theorem final_recorded (u : UserId) (os : List Request) (es : List Event) (p : Requests) :
    (Runs.final (recorded u os) es (p, [])).1 =
      Runs.final (Pool.step exec Empty.elim fun d w => w.turn d) es p :=
  Runs.final_noting _ es p []

/-- If the event makes a request write the list of the user, the request has read it late enough. -/
def Timely (u : UserId) (os : List Request) (st : Requests × List Happening) (e : Event) : Prop :=
  match e with
  | .advance i =>
    match os[i]?, st.1.nextCall i with
    | some o, some c => o.userId = u → c.written ≠ none → Fresh st.2 i o
    | _, _ => True
  | _ => True

instance (u : UserId) (os : List Request) (st : Requests × List Happening) (e : Event) :
    Decidable (Timely u os st e) := by
  unfold Timely
  split
  · split <;> infer_instance
  · infer_instance

section Runs

variable {u : UserId} {w : World} {os : List Request} {p : Requests} {gs : List (Request × Stage)}
  {log : List Happening}

/-- Each request keeps to its cycle. -/
def Cycles (os : List Request) (p : Requests) (gs : List (Request × Stage)) : Prop :=
  Pool.Follow (Protocol.each cycle) (fun _ _ => True) p gs ∧ gs.map Prod.fst = os

theorem cycles_arrived (os : List Request) (w : World) :
    Cycles os (arrived os w) (os.map fun o => (o, .reading)) := by
  constructor
  · unfold Pool.Follow arrived
    rw [List.forall₂_map_left_iff, List.forall₂_map_right_iff]
    refine List.forall₂_same.mpr fun o _ => ?_
    exact (Protocol.follows_each (program_follows o)).mono fun _ _ _ => trivial
  · rw [List.map_map]
    exact List.map_id os

theorem reading_arrived {i : Nat} {o : Request} {g : Stage}
    (hg : (os.map fun o => (o, Stage.reading))[i]? = some (o, g)) : g = .reading := by
  rw [List.getElem?_map] at hg
  obtain ⟨q, _, heq⟩ := Option.map_eq_some_iff.mp hg
  cases heq
  rfl

/-- What an event does: a request makes a call of its cycle, or no list changes. -/
theorem event_cases (h : Cycles os p gs) (e : Event) :
    (∃ i o g c, e = .advance i ∧ os[i]? = some o ∧ p.nextCall i = some c ∧ gs[i]? = some (o, g) ∧
      (cycle o).allowed g c ∧
      (Pool.step exec Empty.elim (fun d w => w.turn d) e p).store = (exec c p.store).2 ∧
      Cycles os (Pool.step exec Empty.elim (fun d w => w.turn d) e p)
        (gs.set i (o, (cycle o).next g c (exec c p.store).1))) ∨
    note u os p e = [] ∧ Cycles os (Pool.step exec Empty.elim (fun d w => w.turn d) e p) gs ∧
      (Pool.step exec Empty.elim (fun d w => w.turn d) e p).store.items u = p.store.items u := by
  obtain ⟨o, rfl, heq⟩ | ⟨i, c, k, rfl, hi, heq⟩ | ⟨i, rfl, hnone, heq⟩ | ⟨d, rfl, heq⟩ :=
    Pool.step_cases exec Empty.elim (fun d w => World.turn d w) p e
  · exact o.elim
  · obtain ⟨⟨o, g⟩, hg, hallowed, hset⟩ := h.1.call hi
    have ho : os[i]? = some o := by
      rw [← h.2, List.getElem?_map, hg]
      rfl
    refine .inl ⟨i, o, g, c, rfl, ho, Pool.nextCall_of_thread hi, hg, hallowed, by rw [heq], ?_⟩
    rw [heq]
    refine ⟨hset _ fun q => cycle_answers q p.store c, ?_⟩
    rw [List.map_set, h.2]
    exact set_self ho
  · refine .inr ⟨?_, by rw [heq]; exact h, by rw [heq]⟩
    simp only [note, hnone]
    cases os[i]? <;> rfl
  · rw [heq]
    exact .inr ⟨rfl, h, rfl⟩

/-- The lists stay well formed, whatever the requests do. -/
theorem Formed.step (h : Cycles os p gs) (hformed : Formed u p.store gs) (e : Event) :
    ∃ gs', Cycles os (Pool.step exec Empty.elim (fun d w => w.turn d) e p) gs' ∧
      Formed u (Pool.step exec Empty.elim (fun d w => w.turn d) e p).store gs' := by
  obtain ⟨i, o, g, c, rfl, _, _, hg, hallowed, hstore, hcycles⟩ | ⟨_, hcycles, hitems⟩ :=
    event_cases (u := u) h e
  · refine ⟨_, hcycles, ?_⟩
    rw [hstore]
    exact hformed.call hg hallowed
  · refine ⟨gs, hcycles, ?_, hformed.stage⟩
    rw [hitems]
    exact hformed.list

theorem Kept.step (h : Cycles os p gs) (hformed : Formed u p.store gs) (hkept : Kept u p.store gs log)
    {e : Event} (he : Timely u os (p, log) e) :
    ∃ gs', Cycles os (recorded u os e (p, log)).1 gs' ∧ Formed u (recorded u os e (p, log)).1.store gs' ∧
      Kept u (recorded u os e (p, log)).1.store gs' (recorded u os e (p, log)).2 := by
  unfold recorded Runs.noting
  obtain ⟨i, o, g, c, rfl, ho, hc, hg, hallowed, hstore, hcycles⟩ | ⟨hnote, hcycles, hitems⟩ :=
    event_cases (u := u) h e
  · refine ⟨_, hcycles, ?_⟩
    simp only [Timely, ho, hc] at he
    simp only [hstore, note, ho, hc]
    exact ⟨hformed.call hg hallowed, hkept.call hformed hg hallowed he⟩
  · refine ⟨gs, hcycles, ⟨?_, hformed.stage⟩, ?_⟩
    · rw [hitems]
      exact hformed.list
    · rw [hnote]
      refine ⟨fun s hs => ?_, hkept.stage⟩
      rw [hitems]
      exact hkept.list s hs

end Runs

/-- Endpoints are distinct and at most five throughout every run. A subscription that `subscribe` has stored
stays until it is removed, its endpoint is reported as gone or five other endpoints are stored, in every run in
which each write is timely. -/
theorem subscriptions_kept (u : UserId) {w : World} (hw : WellFormed (w.items u)) (os : List Request)
    (es : List Event) :
    Runs.Always (recorded u os) (fun st => WellFormed (st.1.store.items u)) es (arrived os w, []) ∧
    (Runs.Along (recorded u os) (Timely u os) es (arrived os w, []) →
      Runs.Always (recorded u os) (fun st => ∀ s, Owed st.2 s → Present st.2 s (st.1.store.items u)) es
        (arrived os w, [])) := by
  have hformed : Formed u (arrived os w).store (os.map fun o => (o, .reading)) := by
    refine ⟨hw, fun i o g hg _ => ?_⟩
    rw [reading_arrived hg]
    trivial
  constructor
  · have hstep : ∀ (st : Requests × List Happening) (e : Event),
        (∃ gs, Cycles os st.1 gs ∧ Formed u st.1.store gs) →
        ∃ gs, Cycles os (recorded u os e st).1 gs ∧ Formed u (recorded u os e st).1.store gs := by
      rintro st e ⟨gs, h, hf⟩
      exact hf.step h e
    refine (Runs.Always.of_step hstep ⟨_, cycles_arrived os w, hformed⟩).mono ?_
    rintro st ⟨gs, _, hf⟩
    exact hf.list
  · intro htimely
    have hkept : Kept u (arrived os w).store (os.map fun o => (o, .reading)) [] := by
      refine ⟨fun s ho => absurd ho.1 List.not_mem_nil, fun i o g hg _ => ?_⟩
      rw [reading_arrived hg]
      trivial
    have hstep : ∀ (st : Requests × List Happening) (e : Event),
        (∃ gs, Cycles os st.1 gs ∧ Formed u st.1.store gs ∧ Kept u st.1.store gs st.2) → Timely u os st e →
        ∃ gs, Cycles os (recorded u os e st).1 gs ∧ Formed u (recorded u os e st).1.store gs ∧
          Kept u (recorded u os e st).1.store gs (recorded u os e st).2 := by
      rintro st e ⟨gs, h, hf, hk⟩ he
      exact hk.step h hf he
    refine (Runs.Always.of_along hstep ⟨_, cycles_arrived os w, hformed, hkept⟩ htimely).mono ?_
    rintro st ⟨gs, _, _, hk⟩ s ho
    exact (hk.list s ho).present

/-! ## A dead endpoint -/

def user : UserId := ⟨['a'], Eq.refl true⟩

def old : PushSubscription := ⟨['o'], ['k'], ['x']⟩

def fresh : PushSubscription := ⟨['n'], ['k'], ['x']⟩

def news : Payload := ⟨['t'], ['b'], 0, none, none, none, none⟩

/-- The endpoint of the old subscription is dead. -/
def World.initial : World where
  redis := ∅
  presence := fun _ => .offline
  answer := fun e => if e = ['o'] then .error ⟨some 410⟩ else .ok ()

/-- A sender for the old subscription and a new one. -/
def dead : List Request := [.subscribe user old, .sendToUser user news, .subscribe user fresh]

/-- The new subscription is stored after the sender has ended. -/
def apart : List Event :=
  [.advance 0, .advance 0, .advance 1, .advance 1, .advance 1, .advance 2, .advance 2]

/-- The new subscription is stored while the sender delivers. -/
def overlapping : List Event :=
  [.advance 0, .advance 0, .advance 1, .advance 2, .advance 2, .advance 1, .advance 1]

theorem subscriptions_kept_apart :
    Runs.Always (recorded user dead) (fun st => WellFormed (st.1.store.items user)) apart
        (arrived dead World.initial, []) ∧
      Runs.Always (recorded user dead) (fun st => ∀ s, Owed st.2 s → Present st.2 s (st.1.store.items user)) apart
        (arrived dead World.initial, []) :=
  have hkept := subscriptions_kept user (w := World.initial) (by decide) dead apart
  ⟨hkept.1, hkept.2 (by decide +kernel)⟩

/-- The sender deletes the list that it has read, and the new subscription with it. -/
theorem subscriptions_kept_fails :
    ¬ ∀ (os : List Request) (es : List Event),
      Runs.Always (recorded user os) (fun st => ∀ s, Owed st.2 s → Present st.2 s (st.1.store.items user)) es
        (arrived os World.initial, []) := by
  intro h
  have hend := (h dead overlapping).final fresh (by decide +kernel)
  exact absurd hend (by decide +kernel)

end Relay.Gateway.PushService
