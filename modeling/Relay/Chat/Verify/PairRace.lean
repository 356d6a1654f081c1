import Mathlib.Data.Char
import Mathlib.Data.List.Lex
import Relay.Lib.Requests
import Relay.Chat.Verify.Pairs

/-!
# Both users open the conversation at once

`createPrivate` looks the pair up and inserts the conversation where there is none, and the index refuses
the second insert. `sameConversation_iff` says for which interleavings of the two requests both get the
conversation: there is one already, or neither request looks it up while the other is about to insert it.
-/

namespace Relay.Chat

open Relay.Lib Relay.Lib.Prog

theorem privatePairKey_comm (a b : UserId) : privatePairKey a b = privatePairKey b a := by
  unfold privatePairKey
  rcases lt_trichotomy a.text b.text with h | h | h
  · rw [if_neg (lt_asymm h), if_pos h]
  · rw [h]
  · rw [if_pos h, if_neg (lt_asymm h)]

/-! ## One request -/

/-- How far a request has come. -/
inductive Getting where
  /-- It has not looked yet. -/
  | looking
  /-- It has found nothing. -/
  | absent
  /-- It is about to insert. -/
  | clear
  | got (c : ConversationId)
  | refused
deriving DecidableEq

namespace Getting

/-- The request of `x` for a conversation with `y`. -/
def Allowed (x y : UserId) : Getting → Call → Prop
  | looking, c => c = .findPrivateByPairKey (privatePairKey x y)
  | absent, c => c = .countBlocks y x
  | clear, c => c = .createPrivateTx x y (privatePairKey x y)
  | got _, c => ReadCall c
  | refused, _ => False

def next : Getting → (c : Call) → Except Failure c.Answer → Getting
  | looking, .findPrivateByPairKey _, .ok (some cv) => got cv.id
  | looking, .findPrivateByPairKey _, _ => absent
  | absent, .countBlocks _ _, .ok n => if 0 < n then refused else clear
  | clear, .createPrivateTx _ _ _, .ok cv => got cv.id
  | clear, .createPrivateTx _ _ _, .error _ => refused
  | g, _, _ => g

/-- Between the lookup that found nothing and the insert, or refused. -/
def Late : Getting → Prop
  | absent | clear | refused => True
  | _ => False

end Getting

abbrev Couple := UserId × UserId

def getting (o : Couple) : Protocol Call Call.Answer Failure Getting where
  allowed := Getting.Allowed o.1 o.2
  next := Getting.next
  answers c r := ∃ db, r = (exec c db).1

/-- A request that succeeds has got the conversation. -/
def Gets (o : Couple) (r : Except Failure ConversationView) (g : Getting) : Prop :=
  match r with
  | .ok view => g = .got view.id
  | .error _ => g = .refused ∨ o.1 = o.2

section Follows

variable {α β : Type} {o : Couple} {id : ConversationId} {Q : Except Failure α → Getting → Prop}

theorem next_got (c : Call) (r : Except Failure c.Answer) : (Getting.got id).next c r = .got id := by
  cases c <;> rfl

/-- A read that makes the view. -/
theorem follows_read {c : Call} (h : ReadCall c) {f : c.Answer → M α}
    (hf : ∀ a, Follows (getting o) Q (f a) (.got id)) :
    Follows (getting o) Q (perform c >>= f) (.got id) := by
  refine ⟨h, ?_⟩
  rintro r ⟨db, rfl⟩
  obtain ⟨a, ha⟩ := h.answered db
  rw [ha, show (getting o).next (.got id) c (.ok a) = .got id from next_got c (.ok a)]
  exact hf a

theorem follows_flags (cv : ConversationWithMembers) (u : UserId) {f : BlockFlags → M α}
    (hf : ∀ flags, Follows (getting o) Q (f flags) (.got id)) :
    Follows (getting o) Q (blockFlagsForConversation cv u >>= f) (.got id) := by
  unfold blockFlagsForConversation
  split
  · exact hf _
  · cases findOther cv.members u with
    | none => exact hf _
    | some other =>
      unfold hasBlock
      simp only [bind_assoc, pure_bind]
      exact follows_read (c := .countBlocks _ _) trivial fun _ =>
        follows_read (c := .countBlocks _ _) trivial fun _ => hf _

theorem follows_view (cv : ConversationWithMembers) (u : UserId) :
    Follows (getting o) (Gets o) (viewConversation cv u) (.got cv.id) := by
  unfold viewConversation unreadCountFor unreadCounts
  rw [if_neg (List.cons_ne_nil _ _)]
  simp only [bind_assoc, pure_bind]
  exact follows_read (c := .unreadRows _ _) trivial fun _ => follows_flags cv u fun _ => rfl

/-- The end of a request that has found nothing. -/
def insertPrivate (x y : UserId) : M ConversationView := do
  let saved ← perform (.createPrivateTx x y (privatePairKey x y))
  let flags ← blockFlagsForConversation saved x
  return toConversationView saved x 0 none flags

theorem insertPrivate_follows (x y : UserId) :
    Follows (getting (x, y)) (Gets (x, y)) (insertPrivate x y) .clear := by
  refine ⟨rfl, fun r _ => ?_⟩
  cases r with
  | error e => exact .inl rfl
  | ok cv => exact follows_flags cv x fun _ => rfl

theorem createPrivate_follows (x y : UserId) :
    Follows (getting (x, y)) (Gets (x, y)) (createPrivate x y) .looking := by
  rw [createPrivate_eq]
  unfold rejectIf
  split
  · next heq => exact .inr heq
  rw [pure_bind]
  refine ⟨rfl, ?_⟩
  rintro r ⟨db, rfl⟩
  have hlookup : (exec (.findPrivateByPairKey (privatePairKey x y)) db).1 =
      .ok ((db.underKey (privatePairKey x y)).map db.withMembers) := rfl
  rw [hlookup]
  cases db.underKey (privatePairKey x y) with
  | some row => exact follows_view (db.withMembers row) x
  | none =>
    refine ⟨rfl, ?_⟩
    rintro r ⟨db, rfl⟩
    have hcount : (exec (.countBlocks y x) db).1 = .ok (db.blocks y x).length := rfl
    rw [hcount]
    change Follows (getting (x, y)) (Gets (x, y)) (rejectIf (decide (0 < (db.blocks y x).length) = true)
      (RpcErrors.forbidden "You cannot start a chat with this user") >>= fun _ => insertPrivate x y)
      ((getting (x, y)).next .absent (.countBlocks y x) (.ok (db.blocks y x).length))
    by_cases hblocked : 0 < (db.blocks y x).length
    · have hnext : (getting (x, y)).next .absent (.countBlocks y x) (.ok (db.blocks y x).length) =
        .refused := if_pos hblocked
      rw [hnext]
      unfold rejectIf
      rw [if_pos (decide_eq_true hblocked)]
      exact .inl rfl
    · have hnext : (getting (x, y)).next .absent (.countBlocks y x) (.ok (db.blocks y x).length) =
        .clear := if_neg hblocked
      rw [hnext]
      unfold rejectIf
      rw [if_neg fun h => hblocked (of_decide_eq_true h)]
      exact insertPrivate_follows x y

end Follows

/-! ## One call -/

/-- Two users neither of whom has blocked the other. -/
structure Db.Friendly (db : Db) (a b : UserId) : Prop where
  inv : Inv db
  distinct : a.canon ≠ b.canon
  unblocked : db.blocks a b = [] ∧ db.blocks b a = []

/-- What a request does with its next call. -/
inductive Getting.Moves (key : Text) (s : Db) : Getting → Getting → Db → Prop where
  | finds {row : Conversation} (h : s.underKey key = some row) : Moves key s .looking (.got row.id) s
  | misses (h : s.underKey key = none) : Moves key s .looking .absent s
  | checks : Moves key s .absent .clear s
  | fails {row : Conversation} (h : s.underKey key = some row) : Moves key s .clear .refused s
  | inserts {row : Conversation} {t : Db} (h : s.underKey key = none) (ht : t.underKey key = some row) :
      Moves key s .clear (.got row.id) t
  | views {c : ConversationId} : Moves key s (.got c) (.got c) s

section Moves

variable {a b : UserId} {s : Db}

theorem Db.Friendly.swap (h : s.Friendly a b) : s.Friendly b a :=
  ⟨h.inv, h.distinct.symm, h.unblocked.symm⟩

theorem underKey_append {t : Db} {key : Text} {row : Conversation}
    (h : t.conversations = s.conversations ++ [row]) (hnone : s.underKey key = none)
    (hrow : row.pairKey = some key ∧ row.type = .priv ∧ row.deletedAt = none) :
    t.underKey key = some row := by
  unfold Db.underKey at hnone ⊢
  rw [h, List.find?_append, hnone, Option.none_or]
  exact List.find?_cons_of_pos (decide_eq_true hrow)

theorem Db.Friendly.moves (h : s.Friendly a b) {g : Getting} {c : Call} (hc : g.Allowed a b c) :
    g.Moves (privatePairKey a b) s (g.next c (exec c s).1) (exec c s).2 ∧ (exec c s).2.Friendly a b := by
  cases g with
  | looking =>
    cases hc
    refine ⟨?_, h⟩
    change Getting.Moves _ s .looking (Getting.next .looking (.findPrivateByPairKey (privatePairKey a b))
      (.ok ((s.underKey (privatePairKey a b)).map s.withMembers))) s
    cases hfound : s.underKey (privatePairKey a b) with
    | some row => exact .finds hfound
    | none => exact .misses hfound
  | absent =>
    cases hc
    refine ⟨?_, h⟩
    change Getting.Moves _ s .absent (if 0 < (s.blocks b a).length then .refused else .clear) s
    rw [h.unblocked.2]
    exact .checks
  | clear =>
    cases hc
    cases hfound : s.underKey (privatePairKey a b) with
    | some row =>
      rw [exec_createPrivateTx_taken h.inv hfound]
      exact ⟨.fails hfound, h⟩
    | none =>
      have hinv := h.inv.exec (c := .createPrivateTx a b (privatePairKey a b)) rfl
      obtain ⟨cv, t, htx, hid, hconversations, hblocks⟩ := exec_createPrivateTx h.inv h.distinct hfound
      rw [htx] at hinv ⊢
      have hrow := underKey_append hconversations hfound ⟨rfl, rfl, rfl⟩
      refine ⟨?_, hinv, h.distinct, ?_⟩
      · change Getting.Moves _ s .clear (.got cv.id) t
        rw [hid]
        exact .inserts hfound hrow
      · unfold Db.blocks
        rw [hblocks]
        exact h.unblocked
  | got id =>
    have hsame := ReadCall.exec hc s
    rw [hsame, next_got]
    exact ⟨.views, h⟩
  | refused => exact hc.elim

theorem Getting.Moves.underKey {key : Text} {g g' : Getting} {t : Db} (h : Getting.Moves key s g g' t)
    {row : Conversation} (hrow : s.underKey key = some row) : t.underKey key = some row := by
  cases h with
  | inserts hnone _ =>
    rw [hnone] at hrow
    cases hrow
  | _ => exact hrow

end Moves

/-! ## Turns -/

/-- How many turns each request has had. -/
def tally (e : Pool.Event Empty Nat) (n : Nat → Nat) : Nat → Nat :=
  match e with
  | .advance i => fun k => if k = i then n k + 1 else n k
  | _ => n

/-- A request that looks the pair up does so before the lookup or after the insert of the other one. These
are the first and the third of its calls. -/
def LooksApart (n : Nat → Nat) : Pool.Event Empty Nat → Prop
  | .advance i => i < 2 → n i = 0 → n (1 - i) = 0 ∨ 3 ≤ n (1 - i)
  | _ => True

/-- No request looks the pair up between the lookup and the insert of the other one. -/
def Apart (es : List (Pool.Event Empty Nat)) : Prop := Runs.Along tally LooksApart es fun _ => 0

namespace Getting

/-- The turns of a request at a stage, and of the other request, where there was no conversation at first. -/
def Counted (n m : Nat) : Getting → Prop
  | looking => n = 0
  | absent => n = 1
  | clear => n = 2
  | got _ => 1 ≤ n ∧ (3 ≤ n ∨ 3 ≤ m)
  | refused => 3 ≤ n

theorem Counted.later {n m : Nat} {g : Getting} (h : g.Counted n m) : g.Counted n (m + 1) := by
  cases g with
  | got c => exact ⟨h.1, h.2.imp_right Nat.le_succ_of_le⟩
  | _ => exact h

/-- One of the two will fail, or has failed. -/
def Doomed (g h : Getting) : Prop := g.Late ∧ h ≠ looking ∨ h.Late ∧ g ≠ looking

/-- What two requests for a pair without a conversation know of each other. -/
structure Rivals (key : Text) (s : Db) (g h : Getting) (n m : Nat) : Prop where
  first : g.Counted n m
  second : h.Counted m n
  made : s.underKey key ≠ none ↔ (∃ c, g = got c) ∨ ∃ c, h = got c
  lost : (g = refused → ∃ c, h = got c) ∧ (h = refused → ∃ c, g = got c)

theorem Rivals.swap {key : Text} {s : Db} {g h : Getting} {n m : Nat} (hr : Rivals key s g h n m) :
    Rivals key s h g m n := ⟨hr.second, hr.first, hr.made.trans or_comm, hr.lost.symm⟩

theorem doomed_comm {g h : Getting} : Doomed g h ↔ Doomed h g := or_comm

theorem Rivals.moves {key : Text} {s t : Db} {g g' h : Getting} {n m : Nat} (hr : Rivals key s g h n m)
    (hm : Moves key s g g' t) :
    Rivals key t g' h (n + 1) m ∧ (Doomed g' h ↔ Doomed g h ∨ ¬ (n = 0 → m = 0 ∨ 3 ≤ m)) := by
  have hlater := hr.second.later
  obtain ⟨hfirst, hsecond, hmade, hlost⟩ := hr
  cases hm with
  | finds hrow =>
    refine ⟨⟨?_, hlater, ?_, ?_⟩, ?_⟩ <;> cases h <;> simp_all [Counted, Doomed, Late]
  | misses hnone =>
    refine ⟨⟨?_, hlater, ?_, ?_⟩, ?_⟩ <;> cases h <;> simp_all [Counted, Doomed, Late]
  | checks =>
    refine ⟨⟨?_, hlater, ?_, ?_⟩, ?_⟩ <;> cases h <;> simp_all [Counted, Doomed, Late]
  | fails hrow =>
    refine ⟨⟨?_, hlater, ?_, ?_⟩, ?_⟩ <;> cases h <;> simp_all [Counted, Doomed, Late]
  | inserts hnone hrow =>
    refine ⟨⟨?_, hlater, ?_, ?_⟩, ?_⟩ <;> cases h <;> simp_all [Counted, Doomed, Late]
  | views =>
    obtain ⟨hpos, hthird⟩ := hfirst
    refine ⟨⟨⟨by omega, by omega⟩, hlater, hmade, hlost⟩, (or_iff_left fun hnot => hnot fun hzero => ?_).symm⟩
    omega

end Getting

/-! ## Two requests -/

abbrev Racing := Staged Call Call.Answer Failure ConversationView Db (Couple × Getting)

def raceStep : Pool.Event Empty Nat → Racing → Racing :=
  serve exec (fun d db => db.wait d) getting fun _ _ => false

/-- The requests of both users, at their first call. -/
def bothOpen (a b : UserId) (s : Db) : Racing :=
  requests (fun o => createPrivate o.1 o.2) (fun _ => .looking) [(a, b), (b, a)] s

/-- What is known of the requests; `found` says that there was a conversation at first. -/
structure Shared (a b : UserId) (found : Prop) (s : Db) (gs : List (Couple × Getting)) : Prop where
  friendly : s.Friendly a b
  couples : ∀ (i : Nat) (o : Couple) (g : Getting), gs[i]? = some (o, g) → o = (a, b) ∨ o = (b, a)
  got : ∀ (i : Nat) (o : Couple) (c : ConversationId), gs[i]? = some (o, .got c) → ∃ row, s.underKey (privatePairKey a b) = some row ∧ row.id = c
  calm : found → s.underKey (privatePairKey a b) ≠ none ∧
    ∀ (i : Nat) (o : Couple) (g : Getting), gs[i]? = some (o, g) → ¬ g.Late

section Race

variable {a b : UserId} {found : Prop} {s : Db} {gs : List (Couple × Getting)}

theorem Shared.moves (h : Shared a b found s gs) {i : Nat} {o : Couple} {g : Getting} {c : Call}
    (hg : gs[i]? = some (o, g)) (hc : g.Allowed o.1 o.2 c) :
    g.Moves (privatePairKey a b) s (g.next c (exec c s).1) (exec c s).2 ∧ (exec c s).2.Friendly a b := by
  obtain rfl | rfl := h.couples i o g hg
  · exact h.friendly.moves hc
  · obtain ⟨hmoves, hfriendly⟩ := h.friendly.swap.moves hc
    rw [privatePairKey_comm b a] at hmoves
    exact ⟨hmoves, hfriendly.swap⟩

theorem Shared.call (h : Shared a b found s gs) {i : Nat} {o : Couple} {g : Getting} {c : Call}
    (hg : gs[i]? = some (o, g)) (hc : g.Allowed o.1 o.2 c) :
    Shared a b found (exec c s).2 (gs.set i (o, g.next c (exec c s).1)) := by
  obtain ⟨hmoves, hfriendly⟩ := h.moves hg hc
  refine ⟨hfriendly, fun j o' g' hg' => ?_, fun j o' id hg' => ?_, fun hfound => ⟨?_, fun j o' g' hg' => ?_⟩⟩
  · obtain ⟨rfl, heq⟩ | ⟨_, hold⟩ := (getElem?_set_iff hg).mp hg'
    · cases heq
      exact h.couples _ _ _ hg
    · exact h.couples j o' g' hold
  · obtain ⟨rfl, heq⟩ | ⟨_, hold⟩ := (getElem?_set_iff hg).mp hg'
    · have hnext : Getting.got id = g.next c (exec c s).1 := congrArg Prod.snd heq
      rw [← hnext] at hmoves
      generalize (exec c s).2 = t at hmoves
      cases hmoves with
      | finds hrow => exact ⟨_, hrow, rfl⟩
      | inserts _ hrow => exact ⟨_, hrow, rfl⟩
      | views => exact h.got _ _ _ hg
    · obtain ⟨row, hrow, hid⟩ := h.got j o' id hold
      exact ⟨row, hmoves.underKey hrow, hid⟩
  · obtain ⟨row, hrow⟩ := Option.ne_none_iff_exists'.mp (h.calm hfound).1
    rw [hmoves.underKey hrow]
    exact nofun
  · obtain ⟨hsome, hcalm⟩ := h.calm hfound
    obtain ⟨rfl, heq⟩ | ⟨_, hold⟩ := (getElem?_set_iff hg).mp hg'
    · obtain ⟨rfl, rfl⟩ := Prod.mk.inj heq
      have hnot := hcalm _ _ _ hg
      generalize g.next c (exec c s).1 = g', (exec c s).2 = t at hmoves
      cases hmoves with
      | finds hrow => exact id
      | misses hnone => exact absurd hnone hsome
      | checks => exact absurd trivial hnot
      | fails hrow => exact absurd trivial hnot
      | inserts _ hrow => exact id
      | views => exact id
    · exact hcalm j o' g' hold

abbrev RaceServing (a b : UserId) (found : Prop) : Racing → Prop :=
  Serving getting Gets (Shared a b found) [(a, b), (b, a)]

theorem bothOpen_serving (h : s.Friendly a b) :
    RaceServing a b (s.underKey (privatePairKey a b) ≠ none) (bothOpen a b s) := by
  have hstage : ∀ (i : Nat) (o : Couple) (g : Getting),
      ([((a, b), Getting.looking), ((b, a), .looking)] : List (Couple × Getting))[i]? = some (o, g) →
      (o = (a, b) ∨ o = (b, a)) ∧ g = .looking := by
    intro i o g hg
    match i with
    | 0 =>
      cases hg
      exact ⟨.inl rfl, rfl⟩
    | 1 =>
      cases hg
      exact ⟨.inr rfl, rfl⟩
    | i + 2 => cases hg
  have hfollows : ∀ o : Couple, Follows (getting o) (Gets o) (createPrivate o.1 o.2) .looking :=
    fun o => createPrivate_follows o.1 o.2
  refine Serving.start hfollows ⟨h, fun i o g hg => (hstage i o g hg).1,
    fun i o c hg => ?_, fun hfound => ⟨hfound, fun i o g hg => ?_⟩⟩
  · cases (hstage i o _ hg).2
  · rw [(hstage i o g hg).2]
    exact id

theorem Db.Friendly.wait (h : s.Friendly a b) (d : Nat) : (s.wait d).Friendly a b :=
  ⟨h.inv.wait d, h.distinct, h.unblocked⟩

theorem RaceServing.step {w : Racing} (h : RaceServing a b found w) (e : Pool.Event Empty Nat) :
    RaceServing a b found (raceStep e w) := by
  have hcall : ∀ s gs i o g c, Shared a b found s gs → gs[i]? = some (o, g) →
      (getting o).allowed g c → (fun (_ : Db) (_ : Call) => false) s c = false → True →
      Shared a b found (exec c s).2 (gs.set i (o, (getting o).next g c (exec c s).1)) :=
    fun s gs i o g c hJ hg hc _ _ => hJ.call hg hc
  have hanswers : ∀ (o : Couple) (s : Db) (c : Call), (getting o).answers c (exec c s).1 :=
    fun _ s _ => ⟨s, rfl⟩
  have hwait : ∀ (d : Nat) (s : Db) (gs : List (Couple × Getting)), Shared a b found s gs →
      Shared a b found (s.wait d) gs := fun d s gs hJ =>
    ⟨hJ.friendly.wait d, hJ.couples, hJ.got, hJ.calm⟩
  exact Serving.step (L := fun _ _ _ _ => True) hanswers hcall hwait h (Staged.meets_true _ w e)

/-- The two requests for a pair that had no conversation, and their turns. -/
structure Race (a b : UserId) (st : Racing × (Nat → Nat)) : Prop where
  serving : RaceServing a b False st.1
  rivals : ∃ g h, st.1.stages = [((a, b), g), ((b, a), h)] ∧
    Getting.Rivals (privatePairKey a b) st.1.pool.store g h (st.2 0) (st.2 1)

/-- One of the two requests will fail, or has failed. -/
def RaceDoomed (st : Racing × (Nat → Nat)) : Prop :=
  ∃ o g o' h, st.1.stages = [(o, g), (o', h)] ∧ Getting.Doomed g h

theorem raceDoomed_iff {st : Racing × (Nat → Nat)} {o o' : Couple} {g h : Getting}
    (hstages : st.1.stages = [(o, g), (o', h)]) : RaceDoomed st ↔ Getting.Doomed g h := by
  constructor
  · rintro ⟨p, g', p', h', heq, hdoomed⟩
    rw [hstages] at heq
    cases heq
    exact hdoomed
  · exact fun hdoomed => ⟨o, g, o', h, hstages, hdoomed⟩

/-- A request that has ended has had a turn that counts. -/
theorem counted_idle {o : Couple} {g : Getting} {r : Except Failure ConversationView} {n m : Nat}
    (hgets : Gets o r g) (hne : o.1 ≠ o.2) (hc : g.Counted n m) : n ≠ 0 ∧ g.Counted (n + 1) m := by
  have hstage : g = .refused ∨ ∃ c, g = .got c := by
    cases r with
    | ok view => exact .inr ⟨_, hgets⟩
    | error e => exact .inl (hgets.resolve_right hne)
  obtain rfl | ⟨c, rfl⟩ := hstage
  · have hc : 3 ≤ n := hc
    exact ⟨by omega, Nat.le_succ_of_le hc⟩
  · exact ⟨Nat.ne_of_gt hc.1, Nat.le_succ_of_le hc.1, hc.2.imp_left Nat.le_succ_of_le⟩

theorem Race.step {st : Racing × (Nat → Nat)} (h : Race a b st) (e : Pool.Event Empty Nat) :
    Race a b (Runs.beside raceStep tally e st) ∧
      (¬ RaceDoomed (Runs.beside raceStep tally e st) ↔ ¬ RaceDoomed st ∧ LooksApart st.2 e) := by
  obtain ⟨w, n⟩ := st
  obtain ⟨hserving, g, g', hstages, hrivals⟩ := h
  have hserving' := hserving.step e
  have hne : a ≠ b := fun heq => hserving.inv.friendly.distinct (congrArg UserId.canon heq)
  have hdoomed : RaceDoomed (w, n) ↔ Getting.Doomed g g' := raceDoomed_iff hstages
  -- the stages and turns after the event say what is left to show
  have hdone : ∀ {w' : Racing} {k k' : Getting}, raceStep e w = w' →
      w'.stages = [((a, b), k), ((b, a), k')] →
      Getting.Rivals (privatePairKey a b) w'.pool.store k k' (tally e n 0) (tally e n 1) →
      (¬ Getting.Doomed k k' ↔ ¬ Getting.Doomed g g' ∧ LooksApart n e) →
      Race a b (Runs.beside raceStep tally e (w, n)) ∧
        (¬ RaceDoomed (Runs.beside raceStep tally e (w, n)) ↔ ¬ RaceDoomed (w, n) ∧ LooksApart n e) := by
    rintro w' k k' rfl hstages' hrivals' hiff
    have hdoomed' : RaceDoomed (Runs.beside raceStep tally e (w, n)) ↔ Getting.Doomed k k' :=
      raceDoomed_iff hstages'
    rw [hdoomed, hdoomed']
    exact ⟨⟨hserving', k, k', hstages', hrivals'⟩, hiff⟩
  obtain ⟨i, c, o, g₀, rfl, -, hg, hc, -, hstore, hset⟩ | ⟨hsame, hmeets, hpass⟩ | ⟨d, rfl, hsame⟩ :=
    hserving.event_cases exec (fun d db => Db.wait db d) (fun _ _ => false) e
  · obtain ⟨hmoves, -⟩ := hserving.inv.moves hg hc
    have hcases := hg
    rw [hstages] at hcases
    match i with
    | 0 =>
      cases hcases
      obtain ⟨hrivals', hiff⟩ := hrivals.moves hmoves
      refine hdone rfl (hset.trans (by rw [hstages]; rfl)) ?_ ?_
      · rw [show (raceStep (.advance 0) w).pool.store = _ from hstore]
        exact hrivals'
      · refine (not_congr hiff).trans ?_
        rw [not_or, not_not]
        exact and_congr_right fun _ => ⟨fun h _ => h, fun h => h (by decide)⟩
    | 1 =>
      cases hcases
      obtain ⟨hrivals', hiff⟩ := hrivals.swap.moves hmoves
      refine hdone rfl (hset.trans (by rw [hstages]; rfl)) ?_ ?_
      · rw [show (raceStep (.advance 1) w).pool.store = _ from hstore]
        exact hrivals'.swap
      · refine (not_congr (Getting.doomed_comm.trans hiff)).trans ?_
        rw [not_or, not_not, Getting.doomed_comm]
        exact and_congr_right fun _ => ⟨fun h _ => h, fun h => h (by decide)⟩
    | i + 2 => cases hcases
  · cases e with
    | start o => exact o.elim
    | pass d => exact absurd rfl (hpass d)
    | advance i =>
      have hcall : w.pool.nextCall i = none := by
        have hfalse : Staged.Meets (fun _ _ => false) (fun _ _ _ _ => False) w (.advance i) := hmeets _
        unfold Staged.Meets at hfalse
        cases hcall : w.pool.nextCall i with
        | none => rfl
        | some c =>
          simp only [hcall, forall_true_left] at hfalse
      match i with
      | 0 =>
        obtain ⟨r, g₀, -, hg, hgets⟩ := hserving.ended (o := (a, b)) rfl hcall
        rw [hstages] at hg
        cases hg
        obtain ⟨hpos, hcounted⟩ := counted_idle hgets hne hrivals.first
        refine hdone hsame hstages ⟨hcounted, hrivals.second.later, hrivals.made, hrivals.lost⟩ ?_
        exact (and_iff_left fun _ hzero => absurd hzero hpos).symm
      | 1 =>
        obtain ⟨r, g₀, -, hg, hgets⟩ := hserving.ended (o := (b, a)) rfl hcall
        rw [hstages] at hg
        cases hg
        obtain ⟨hpos, hcounted⟩ := counted_idle hgets hne.symm hrivals.second
        refine hdone hsame hstages ⟨hrivals.first.later, hcounted, hrivals.made, hrivals.lost⟩ ?_
        exact (and_iff_left fun _ hzero => absurd hzero hpos).symm
      | i + 2 =>
        refine hdone hsame hstages hrivals (and_iff_left fun hlt => ?_).symm
        omega
  · refine hdone hsame hstages ?_ (and_iff_left trivial).symm
    exact ⟨hrivals.first, hrivals.second, hrivals.made, hrivals.lost⟩

/-! ## The answers -/

/-- Both requests have been answered, with one conversation. -/
def SameConversation (p : Pool Call Call.Answer Failure ConversationView Db) : Prop :=
  ∃ v v', p.result 0 = some (.ok v) ∧ p.result 1 = some (.ok v') ∧ v.id = v'.id

/-- Where both have ended, the stages say whether they got the conversation. -/
theorem sameConversation_of_serving {w : Racing} (h : RaceServing a b found w) (hne : a ≠ b)
    (hended : (w.pool.result 0).isSome ∧ (w.pool.result 1).isSome) :
    ∃ g g', w.stages = [((a, b), g), ((b, a), g')] ∧ g ≠ .looking ∧ g' ≠ .looking ∧
      (SameConversation w.pool ↔ ¬ g.Late ∧ ¬ g'.Late) := by
  obtain ⟨r, hr⟩ := Option.isSome_iff_exists.mp hended.1
  obtain ⟨r', hr'⟩ := Option.isSome_iff_exists.mp hended.2
  obtain ⟨g, hg, hgets⟩ := h.result (o := (a, b)) rfl hr
  obtain ⟨g', hg', hgets'⟩ := h.result (o := (b, a)) rfl hr'
  have hlength : w.stages.length = 2 := by
    have hmap := congrArg List.length h.served
    rwa [List.length_map] at hmap
  have hstages : w.stages = [((a, b), g), ((b, a), g')] := by
    obtain ⟨x, y, hxy⟩ := List.length_eq_two.mp hlength
    rw [hxy] at hg hg' ⊢
    cases hg
    cases hg'
    rfl
  refine ⟨g, g', hstages, ?_⟩
  unfold SameConversation
  rw [hr, hr']
  cases r with
  | error e =>
    obtain rfl : g = .refused := hgets.resolve_right hne
    refine ⟨nofun, ?_, iff_of_false (fun ⟨v, v', hv, _⟩ => nomatch hv) fun hlate => hlate.1 trivial⟩
    cases r' with
    | error e' => rw [hgets'.resolve_right hne.symm]; exact nofun
    | ok v' => rw [show g' = .got v'.id from hgets']; exact nofun
  | ok v =>
    obtain rfl : g = .got v.id := hgets
    refine ⟨nofun, ?_⟩
    cases r' with
    | error e' =>
      obtain rfl : g' = .refused := hgets'.resolve_right hne.symm
      exact ⟨nofun, iff_of_false (fun ⟨v, v', _, hv, _⟩ => nomatch hv) fun hlate => hlate.2 trivial⟩
    | ok v' =>
      obtain rfl : g' = .got v'.id := hgets'
      obtain ⟨row, hrow, hid⟩ := h.inv.got 0 (a, b) v.id hg
      obtain ⟨row', hrow', hid'⟩ := h.inv.got 1 (b, a) v'.id hg'
      have hsame : v.id = v'.id := by
        rw [← hid, ← hid', Option.some.inj (hrow.symm.trans hrow')]
      exact ⟨nofun, iff_of_true ⟨v, v', rfl, rfl, hsame⟩ ⟨id, id⟩⟩

theorem raceStep_pool (a b : UserId) (s : Db) (es : List (Pool.Event Empty Nat)) :
    (Runs.final raceStep es (bothOpen a b s)).pool =
      Runs.final (Pool.step exec Empty.elim fun d db => Db.wait db d) es
        ⟨s, [createPrivate a b, createPrivate b a]⟩ :=
  serve_pool es

/-- For which interleavings both users get the conversation. -/
theorem sameConversation_iff (hs : Reachable s) (hne : a.canon ≠ b.canon)
    (hblocks : s.blocks a b = [] ∧ s.blocks b a = []) (es : List (Pool.Event Empty Nat))
    (hended :
      let p := Runs.final (Pool.step exec Empty.elim fun d db => Db.wait db d) es
        ⟨s, [createPrivate a b, createPrivate b a]⟩
      (p.result 0).isSome ∧ (p.result 1).isSome) :
    SameConversation (Runs.final (Pool.step exec Empty.elim fun d db => Db.wait db d) es
        ⟨s, [createPrivate a b, createPrivate b a]⟩) ↔
      s.underKey (privatePairKey a b) ≠ none ∨ Apart es := by
  have hdistinct : a ≠ b := fun heq => hne (congrArg UserId.canon heq)
  have hfriendly : s.Friendly a b := ⟨hs.inv, hne, hblocks⟩
  rw [← raceStep_pool] at hended ⊢
  have hserving : RaceServing a b (s.underKey (privatePairKey a b) ≠ none)
      (Runs.final raceStep es (bothOpen a b s)) :=
    (Runs.Always.of_step (fun _ e h => h.step e) (bothOpen_serving hfriendly)).final
  obtain ⟨g, g', hstages, hg, hg', hiff⟩ := sameConversation_of_serving hserving hdistinct hended
  rw [hiff]
  by_cases hfound : s.underKey (privatePairKey a b) = none
  · have hstart : Race a b (bothOpen a b s, fun _ => 0) := by
      refine ⟨?_, .looking, .looking, rfl, rfl, rfl, ?_, nofun, nofun⟩
      · have h := bothOpen_serving hfriendly
        rw [eq_false (p := s.underKey _ ≠ none) (not_not.mpr hfound)] at h
        exact h
      · exact iff_of_false (not_not.mpr hfound) fun h => h.elim (fun ⟨c, hc⟩ => nomatch hc) fun ⟨c, hc⟩ => nomatch hc
    have hnotDoomed : ¬ RaceDoomed (bothOpen a b s, fun _ => 0) := fun h =>
      ((raceDoomed_iff rfl).mp h).elim And.left And.left
    have hrun := Runs.final_iff_along (I := fun st => ¬ RaceDoomed st) es
      (fun st e h => (Race.step h e).1) (fun st e h => (Race.step h e).2) hstart
    rw [Runs.final_beside, and_iff_right hnotDoomed, Runs.along_beside] at hrun
    rw [or_iff_right (not_not.mpr hfound), Apart, ← hrun, raceDoomed_iff hstages]
    unfold Getting.Doomed
    rw [not_or, and_iff_left hg', and_iff_left hg]
  · refine iff_of_true ?_ (.inl hfound)
    have hcalm := (hserving.inv.calm hfound).2
    rw [hstages] at hcalm
    exact ⟨hcalm 0 _ _ rfl, hcalm 1 _ _ rfl⟩

end Race

/-- The second request comes when the first has been answered. -/
def oneByOne : List (Pool.Event Empty Nat) :=
  List.replicate 5 (.advance 0) ++ List.replicate 4 (.advance 1)

/-- Both look the pair up before either inserts. -/
def bothLook : List (Pool.Event Empty Nat) :=
  [.advance 0, .advance 1] ++ List.replicate 4 (.advance 0) ++ List.replicate 4 (.advance 1)

theorem sameConversation_iff_oneByOne :
    SameConversation (Runs.final (Pool.step exec Empty.elim fun d db => Db.wait db d) oneByOne
        ⟨Db.empty 0 0, [createPrivate userA userB, createPrivate userB userA]⟩) ↔
      (Db.empty 0 0).underKey (privatePairKey userA userB) ≠ none ∨ Apart oneByOne :=
  sameConversation_iff (reachable_empty 0 0) (by decide) ⟨rfl, rfl⟩ oneByOne (by decide +kernel)

/-- The loser of the race for the index fails; it does not read the row of the winner. -/
theorem sameConversation_fails :
    ¬ ∀ (s : Db) (a b : UserId) (es : List (Pool.Event Empty Nat)), Reachable s → a.canon ≠ b.canon →
      s.blocks a b = [] ∧ s.blocks b a = [] →
      (let p := Runs.final (Pool.step exec Empty.elim fun d db => Db.wait db d) es
        ⟨s, [createPrivate a b, createPrivate b a]⟩
      (p.result 0).isSome ∧ (p.result 1).isSome) →
      SameConversation (Runs.final (Pool.step exec Empty.elim fun d db => Db.wait db d) es
        ⟨s, [createPrivate a b, createPrivate b a]⟩) := by
  intro h
  obtain ⟨v, v', -, hsecond, -⟩ :=
    h _ userA userB bothLook (reachable_empty 0 0) (by decide) ⟨rfl, rfl⟩ (by decide +kernel)
  have hrefused : (Runs.final (Pool.step exec Empty.elim fun d db => Db.wait db d) bothLook
      ⟨Db.empty 0 0, [createPrivate userA userB, createPrivate userB userA]⟩).result 1 =
        some (.error (.query (.uniqueViolation "UQ_conversations_pairKey_active"))) := by
    rfl
  rw [hrefused] at hsecond
  cases hsecond

end Relay.Chat
