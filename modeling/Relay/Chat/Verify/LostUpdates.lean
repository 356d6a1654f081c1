import Relay.Chat.Verify.Updates

/-!
# Lost updates

Requests that set different fields of conversations and memberships run side by side. The save of one
writes back what it has loaded in the columns of the others. `SavesFresh` is the condition that these have
not changed in between, and `updates_stay_iff` says that it is exact: the updates of all requests that have
saved stay in the tables, and the dates never move back.
-/

namespace Relay.Chat

open Relay.Lib Relay.Lib.Rows Prog

def Db.value (db : Db) (k : Row.Key) (f : Column) : Option Column.Value := (db.row k).map fun r => r.get f

/-- The columns besides the one that the request sets are in the table as the request saves them. -/
def SavesFresh (s : Db) (gs : List (UpdateOp × Update)) (i : Nat) (c : Call) : Prop :=
  ∀ row ∈ c.saves, ∀ o ∈ (gs[i]?).map Prod.fst, s.Accepts c →
    ∀ f, f ≠ o.column → s.value row.key f = some (row.get f)

instance (s : Db) (gs : List (UpdateOp × Update)) (i : Nat) (c : Call) : Decidable (SavesFresh s gs i c) :=
  inferInstanceAs (Decidable (∀ row ∈ c.saves, ∀ o ∈ (gs[i]?).map Prod.fst, s.Accepts c →
    ∀ f, f ≠ o.column → s.value row.key f = some (row.get f)))

abbrev Updating := Staged Call Call.Answer Failure Response Db (UpdateOp × Update)

/-- No call has to wait. -/
def updateStep : Pool.Event Empty Nat → Updating → Updating :=
  serve exec (fun d db => db.wait d) updates fun _ _ => false

def updating (ops : List UpdateOp) (s : Db) : Updating :=
  requests (fun o => o.op.program) (fun _ => .idle) ops s

/-- The columns that requests have set and saved are in the tables. -/
def UpdatesKept (w : Updating) : Prop :=
  ∀ (i : Nat) (o : UpdateOp) (row : Row), w.stages[i]? = some (o, .saved row) →
    w.pool.store.value row.key o.column = some (row.get o.column)

/-- From one database to a later one: no date of a conversation or of a read marker moves back. -/
def DatesForward (s t : Db) : Prop :=
  ∀ k f x, f = .lastMessageAt ∨ f = .lastReadAt → s.value k f = some (.time (some x)) →
    ∃ y, t.value k f = some (.time (some y)) ∧ x ≤ y

theorem DatesForward.of_value {s t : Db} (h : ∀ k f, t.value k f = s.value k f) : DatesForward s t :=
  fun k f x _ hx => ⟨x, (h k f).trans hx, Nat.le_refl x⟩

theorem DatesForward.trans {s t u : Db} (h : DatesForward s t) (h' : DatesForward t u) : DatesForward s u := by
  intro k f x hf hx
  obtain ⟨y, hy, hxy⟩ := h k f x hf hx
  obtain ⟨z, hz, hyz⟩ := h' k f y hf hy
  exact ⟨z, hz, Nat.le_trans hxy hyz⟩

/-! ## What is known of the requests -/

/-- The row is about what the request is about, and it is in the table. -/
structure Places (s : Db) (o : UpdateOp) (row : Row) : Prop where
  place : row.place = o.place
  stored : ∃ r, s.row row.key = some r ∧ r.place = o.place

/-- A row that a request has loaded: its columns are as they are in the table, or another request has set
and saved them since. -/
structure HasLoaded (s : Db) (gs : List (UpdateOp × Update)) (o : UpdateOp) (row : Row) : Prop where
  places : Places s o row
  columns : ∀ f, s.value row.key f = some (row.get f) ∨
    ∃ (j : Nat) (o' : UpdateOp) (e : Row), gs[j]? = some (o', .saved e) ∧ e.key = row.key ∧ o'.column = f

/-- The time a request has been told is not before the date it has loaded; for a read marker it is what the
clock of JavaScript says. -/
def ToldTime (now : Time) : Row → Option Time → Prop
  | .conversation c, time => Past now c.lastMessageAt ∧ ∀ t, time = some t → t ≤ now ∧ Past t c.lastMessageAt
  | .member _, time => ∀ t, time = some t → jsDate t = t

structure Tracked (s : Db) (gs : List (UpdateOp × Update)) : Prop where
  keyed : WellKeyed s
  dated : s.Dated
  /-- No two requests set the same field. -/
  distinct : (gs.map fun x => x.1.field).Nodup
  loaded : ∀ (i : Nat) (o : UpdateOp) (row : Row) (time : Option Time), gs[i]? = some (o, .loaded row time) →
    HasLoaded s gs o row ∧ ToldTime s.now row time
  saved : ∀ (i : Nat) (o : UpdateOp) (row : Row), gs[i]? = some (o, .saved row) →
    Places s o row ∧ s.value row.key o.column = some (row.get o.column)

section Tracked

variable {s t : Db} {gs gs' : List (UpdateOp × Update)} {o o' : UpdateOp} {row row' new : Row} {time : Option Time}

theorem ToldTime.later {now later : Time} (h : ToldTime now row time) (hle : now ≤ later) : ToldTime later row time := by
  cases row with
  | conversation c => exact ⟨h.1.later hle, fun t ht => ⟨Nat.le_trans (h.2 t ht).1 hle, (h.2 t ht).2⟩⟩
  | member m => exact h

theorem Places.of_row (h : Places s o row) (hrow : ∀ k, t.row k = s.row k) : Places t o row :=
  ⟨h.place, by rw [hrow]; exact h.stored⟩

theorem value_of_row (hrow : ∀ k, t.row k = s.row k) (k : Row.Key) (f : Column) : t.value k f = s.value k f := by
  rw [Db.value, Db.value, hrow]

/-- Rows with one key are about the same. -/
theorem Places.place_eq (h : Places s o row) (h' : Places s o' row') (hkey : row.key = row'.key) :
    o.place = o'.place := by
  obtain ⟨r, hr, hplace⟩ := h.stored
  obtain ⟨r', hr', hplace'⟩ := h'.stored
  rw [hkey, hr'] at hr
  cases hr
  exact hplace.symm.trans hplace'

/-- The requests that have saved are still there. -/
def SavesStay (gs gs' : List (UpdateOp × Update)) : Prop :=
  ∀ (j : Nat) (o : UpdateOp) (e : Row), gs[j]? = some (o, .saved e) → gs'[j]? = some (o, .saved e)

theorem savesStay_set {i : Nat} {g g' : Update} (hi : gs[i]? = some (o, g)) (hg : ∀ e, g ≠ .saved e) :
    SavesStay gs (gs.set i (o, g')) := by
  intro j o' e hj
  refine (getElem?_set_iff hi).mpr (.inr ⟨?_, hj⟩)
  rintro rfl
  rw [hi] at hj
  cases hj
  exact hg e rfl

/-- What a request has loaded, after others have gone on without a save. -/
theorem HasLoaded.mono (h : HasLoaded s gs o row) (hrow : ∀ k, t.row k = s.row k) (hsaved : SavesStay gs gs') :
    HasLoaded t gs' o row where
  places := h.places.of_row hrow
  columns f := by
    rw [value_of_row hrow]
    refine (h.columns f).imp_right ?_
    rintro ⟨j, o', e, hj, hkey, hcolumn⟩
    exact ⟨j, o', e, hsaved j o' e hj, hkey, hcolumn⟩

/-- The clock goes on, or a call leaves the tables alone. -/
theorem Tracked.calm (h : Tracked s gs) (hkeyed : WellKeyed t) (hdated : t.Dated) (hrow : ∀ k, t.row k = s.row k)
    (hnow : s.now ≤ t.now) : Tracked t gs where
  keyed := hkeyed
  dated := hdated
  distinct := h.distinct
  loaded i o row time hi :=
    have ⟨hloaded, htold⟩ := h.loaded i o row time hi
    ⟨hloaded.mono hrow fun _ _ _ hj => hj, htold.later hnow⟩
  saved i o row hi :=
    have ⟨hplaces, hvalue⟩ := h.saved i o row hi
    ⟨hplaces.of_row hrow, (value_of_row hrow _ _).trans hvalue⟩

/-- The fields of different requests are different. -/
theorem Tracked.eq_of_field (h : Tracked s gs) {i j : Nat} {g g' : Update} (hi : gs[i]? = some (o, g))
    (hj : gs[j]? = some (o', g')) (hfield : o.field = o'.field) : i = j := by
  obtain ⟨hlt, hi⟩ := List.getElem?_eq_some_iff.mp hi
  obtain ⟨hlt', hj⟩ := List.getElem?_eq_some_iff.mp hj
  have hlength : (gs.map fun x => x.1.field).length = gs.length := List.length_map _
  have hsame : (gs.map fun x => x.1.field)[i] = (gs.map fun x => x.1.field)[j] := by
    rw [List.getElem_map, List.getElem_map, hi, hj]
    exact hfield
  exact h.distinct.getElem_inj_iff.mp hsame

theorem map_field_set {i : Nat} {g g' : Update} (hi : gs[i]? = some (o, g)) :
    ((gs.set i (o, g')).map fun x => x.1.field) = gs.map fun x => x.1.field := by
  rw [List.map_set]
  exact set_self (by rw [List.getElem?_map, hi]; rfl)

/-- A request loads its row, or is told the time. -/
theorem Tracked.tell (h : Tracked s gs) {i : Nat} {g g' : Update} (hi : gs[i]? = some (o, g))
    (hg : ∀ e, g ≠ .saved e) (hg' : ∀ e, g' ≠ .saved e)
    (hloaded : ∀ row time, g' = .loaded row time → HasLoaded s gs o row ∧ ToldTime s.now row time) :
    Tracked s (gs.set i (o, g')) := by
  have hsaved : SavesStay gs (gs.set i (o, g')) := savesStay_set hi hg
  refine ⟨h.keyed, h.dated, (map_field_set hi).symm ▸ h.distinct, fun j o' row time hj => ?_, fun j o' e hj => ?_⟩
  · obtain ⟨rfl, heq⟩ | ⟨_, hj⟩ := (getElem?_set_iff hi).mp hj
    · obtain ⟨rfl, hstage⟩ := Prod.mk.inj heq
      obtain ⟨hload, htold⟩ := hloaded row time hstage.symm
      exact ⟨hload.mono (fun _ => rfl) hsaved, htold⟩
    · obtain ⟨hload, htold⟩ := h.loaded j o' row time hj
      exact ⟨hload.mono (fun _ => rfl) hsaved, htold⟩
  · obtain ⟨rfl, heq⟩ | ⟨_, hj⟩ := (getElem?_set_iff hi).mp hj
    · exact absurd (Prod.mk.inj heq).2.symm (hg' e)
    · exact h.saved j o' e hj

theorem jsDate_jsDate (t : Time) : jsDate (jsDate t) = jsDate t := by
  unfold jsDate
  rw [Nat.mul_div_cancel _ (by decide)]

/-- The row picked from a conversation that has just been loaded. -/
theorem loaded_pick (hkeyed : WellKeyed s) (hdated : s.Dated) {c : Conversation}
    (hc : s.findConversation o.place.1 = some c) (hpick : o.pick (s.withMembers c) = some row) :
    HasLoaded s gs o row ∧ ToldTime s.now row none := by
  obtain ⟨hmem, hid, _⟩ := Db.findConversation_eq_some hc
  have stored {r : Row} (hplace : r.place = o.place) (hrow : s.row r.key = some r) : HasLoaded s gs o r :=
    ⟨⟨hplace, r, hrow, hplace⟩, fun f => .inl (by rw [Db.value, hrow]; rfl)⟩
  unfold UpdateOp.pick at hpick
  split at hpick
  · next hnone =>
    cases hpick
    have hplace : (Row.conversation c).place = o.place := Prod.ext hid hnone.symm
    exact ⟨stored hplace (Db.row_conversation hkeyed hmem), hdated c hmem, nofun⟩
  · next u hu =>
    obtain ⟨m, hm, rfl⟩ := Option.map_eq_some_iff.mp hpick
    have hactive := List.mem_of_find?_eq_some hm
    obtain ⟨hm', hconv⟩ := Db.mem_membersOf.mp (mem_activeMembers.mp hactive).1
    have huser : m.userId = u := by
      have hfound := List.find?_some hm
      simp only [decide_eq_true_eq] at hfound
      exact hfound.1
    have hplace : (Row.member m).place = o.place := by
      refine Prod.ext (hconv.trans hid) ?_
      rw [hu, ← huser]
      rfl
    exact ⟨stored hplace (Db.row_member hkeyed hm'), nofun⟩

theorem Tracked.load (h : Tracked s gs) {i : Nat} {g : Update} (hi : gs[i]? = some (o, g))
    (hg : ∀ e, g ≠ .saved e) (c : ConversationId) :
    Tracked s (gs.set i (o, o.next g (.findConversation c) (exec (.findConversation c) s).1)) := by
  simp only [exec]
  cases hfind : s.findConversation c with
  | none =>
    have hnext : o.next g (.findConversation c) (.ok none) = g := by cases g <;> rfl
    rw [Option.map_none, hnext, set_self hi]
    exact h
  | some row =>
    have hnext : o.next g (.findConversation c) (.ok (some (s.withMembers row))) =
        if c = o.place.1 then o.load (s.withMembers row) else g := by
      cases g with
      | saved e => exact absurd rfl (hg e)
      | _ => rfl
    rw [Option.map_some, hnext]
    split
    · next hc =>
      subst hc
      unfold UpdateOp.load
      cases hpick : o.pick (s.withMembers row) with
      | none =>
        exact h.tell hi hg Update.idle_ne_saved fun r' time' heq => absurd heq (Update.idle_ne_loaded r' time')
      | some r =>
        refine h.tell hi hg (Update.loaded_ne_saved _ _) fun r' time' heq => ?_
        cases heq
        exact loaded_pick h.keyed h.dated hfind hpick
    · rw [set_self hi]
      exact h

theorem CalmCall.exec {c : Call} (hc : CalmCall c) (s : Db) :
    (exec c s).2.conversations = s.conversations ∧ (exec c s).2.members = s.members := by
  have hquiet : ∀ c, QuietCall c → (Chat.exec c s).2.conversations = s.conversations ∧
      (Chat.exec c s).2.members = s.members := fun c hc => ⟨(hc.exec s).1, (hc.exec s).2.1⟩
  cases c with
  | insertMessage d => exact ⟨rfl, rfl⟩
  | _ => exact hquiet _ hc

theorem CalmCall.savesNone {c : Call} (hc : CalmCall c) : SavesNone c := by
  cases c <;> first | exact trivial | exact hc.elim

/-- A call that leaves the tables alone. -/
theorem Tracked.calmCall (h : Tracked s gs) {i : Nat} {g : Update} (hi : gs[i]? = some (o, g)) {c : Call}
    (hc : CalmCall c) : Tracked (exec c s).2 (gs.set i (o, o.next g c (exec c s).1)) := by
  have htables : Tracked (exec c s).2 gs :=
    h.calm (h.keyed.exec c) (h.dated.exec (hc.savesNone.dated s)) (Db.row_congr (hc.exec s).1 (hc.exec s).2)
      (ticks_exec c s)
  have hsame (heq : o.next g c (exec c s).1 = g) : Tracked (exec c s).2 (gs.set i (o, o.next g c (exec c s).1)) := by
    rw [heq, set_self hi]
    exact htables
  by_cases hg : ∃ e, g = .saved e
  · obtain ⟨e, rfl⟩ := hg
    exact hsame rfl
  · have hg : ∀ e, g ≠ .saved e := fun e heq => hg ⟨e, heq⟩
    by_cases hidle : IdleCall c
    · exact hsame (hidle.next o g _)
    · cases c with
      | findConversation c => exact h.load hi hg c
      | newDate =>
        cases g with
        | idle => exact hsame rfl
        | saved e => exact absurd rfl (hg e)
        | loaded row time =>
          refine htables.tell hi hg (Update.loaded_ne_saved _ _) fun row' time' heq => ?_
          cases heq
          obtain ⟨hload, htold⟩ := h.loaded i o row time hi
          refine ⟨hload, ?_⟩
          cases row with
          | member m =>
            rintro t ⟨⟩
            exact jsDate_jsDate s.now
          | conversation c =>
            refine ⟨htold.1, ?_⟩
            rintro t ⟨⟩
            refine ⟨Nat.div_mul_le_self _ _, ?_⟩
            rw [Past, jsDate_jsDate]
            exact htold.1
      | insertMessage d =>
        cases g with
        | idle => exact hsame rfl
        | saved e => exact absurd rfl (hg e)
        | loaded row time =>
          cases row with
          | member m => exact hsame rfl
          | conversation c =>
            refine htables.tell hi hg (Update.loaded_ne_saved _ _) fun row' time' heq => ?_
            cases heq
            obtain ⟨hload, htold⟩ := htables.loaded i o _ time hi
            refine ⟨hload, htold.1, ?_⟩
            rintro t ⟨⟩
            exact ⟨Nat.le_refl _, htold.1⟩
      | _ => exact absurd hc hidle

/-! ### The saves -/

/-- A conversation is not saved with a date that is still to come. -/
theorem UpdateOp.set_past {now : Time} {c : Conversation} (hset : o.set row time = some (.conversation c))
    (htold : ToldTime now row time) : Past now c.lastMessageAt := by
  unfold set at hset
  split at hset
  · cases hset
    rintro x ⟨⟩
    exact jsDate_mono (htold.2 _ rfl).1
  · cases hset
    rintro x ⟨⟩
    exact jsDate_mono (htold.2 _ rfl).1
  · cases hset
    exact htold.1
  · cases hset
    exact htold.1
  · split at hset <;> cases hset
  · cases hset
  · cases hset
  · cases hset

theorem UpdateOp.set_forward {now x : Time} (hset : o.set row time = some new) (htold : ToldTime now row time)
    (hdate : o.column = .lastMessageAt ∨ o.column = .lastReadAt) (hx : row.get o.column = .time (some x)) :
    ∃ y, new.get o.column = .time (some y) ∧ x ≤ y := by
  unfold set at hset
  split at hset
  · cases hset
    exact ⟨_, rfl, (htold.2 _ rfl).2 x (Column.Value.time.inj hx)⟩
  · cases hset
    exact ⟨_, rfl, (htold.2 _ rfl).2 x (Column.Value.time.inj hx)⟩
  · obtain hdate | hdate := hdate <;> cases hdate
  · obtain hdate | hdate := hdate <;> cases hdate
  · next m t =>
    split at hset
    · next hlater =>
      cases hset
      rw [Column.Value.time.inj hx, Option.all_some, decide_eq_true_eq] at hlater
      refine ⟨t, rfl, ?_⟩
      by_contra hlt
      have hle : jsDate t ≤ jsDate x := jsDate_mono (Nat.le_of_not_le hlt)
      rw [htold t rfl] at hle
      exact Nat.lt_irrefl _ (Nat.lt_of_lt_of_le hlater hle)
    · cases hset
  · obtain hdate | hdate := hdate <;> cases hdate
  · obtain hdate | hdate := hdate <;> cases hdate
  · cases hset

theorem savesDated_of_set {c : Call} (hsaves : c.saves = some new) (hset : o.set row time = some new)
    (htold : ToldTime s.now row time) : SavesDated s c := by
  cases c with
  | saveConversation cv =>
    cases hsaves
    exact UpdateOp.set_past hset htold
  | _ => trivial

/-- The column of a request is as it was loaded: nobody else sets it. -/
theorem Tracked.own_column (h : Tracked s gs) {i : Nat} (hi : gs[i]? = some (o, .loaded row time)) :
    s.value row.key o.column = some (row.get o.column) := by
  have hload := (h.loaded i o row time hi).1
  obtain hsame | ⟨j, o', e, hj, hkey, hcolumn⟩ := hload.columns o.column
  · exact hsame
  · have hplace : o'.place = o.place := (h.saved j o' e hj).1.place_eq hload.places hkey
    have hij := h.eq_of_field hi hj (Prod.ext hplace.symm hcolumn.symm)
    subst hij
    rw [hi] at hj
    cases hj

/-- What a fresh save leaves in the tables. -/
theorem Db.Puts.value (hputs : s.Puts t new) (k : Row.Key) (f : Column) :
    t.value k f = if k = new.key then some (new.get f) else s.value k f := by
  obtain ⟨stored, _, hget, hrow⟩ := hputs
  rw [Db.value, hrow]
  split
  · rw [Option.map_some, hget]
  · rfl

theorem Db.Puts.places (hputs : s.Puts t new) (hnew : Places s o new) (h : Places s o' row) : Places t o' row := by
  obtain ⟨stored, hplace, _, hrow⟩ := hputs
  refine ⟨h.place, ?_⟩
  rw [hrow]
  split
  · next hkey =>
    exact ⟨stored, rfl, (hplace.trans hnew.place).trans (hnew.place_eq h hkey.symm)⟩
  · exact h.stored

/-- A save that writes its own column only. -/
theorem Tracked.save (h : Tracked s gs) {i : Nat} (hi : gs[i]? = some (o, .loaded row time))
    (hset : o.set row time = some new) (hputs : s.Puts t new) (hkeyed : WellKeyed t) (hdated : t.Dated)
    (hnow : t.now = s.now) (hfresh : ∀ f, f ≠ o.column → s.value new.key f = some (new.get f)) :
    Tracked t (gs.set i (o, .saved new)) := by
  obtain ⟨hkey, hplace, -⟩ := UpdateOp.set_eq_some hset
  have hload := (h.loaded i o row time hi).1
  have hnew : Places s o new := ⟨hplace.trans hload.places.place, hkey ▸ hload.places.stored⟩
  have hvalue : ∀ k f, ¬ (k = new.key ∧ f = o.column) → t.value k f = s.value k f := by
    intro k f hother
    rw [hputs.value]
    split
    · next hk =>
      rw [hk, hfresh f fun hf => hother ⟨hk, hf⟩]
    · rfl
  refine ⟨hkeyed, hdated, (map_field_set hi).symm ▸ h.distinct, fun j o' row' time' hj => ?_, fun j o' e hj => ?_⟩
  · obtain ⟨rfl, heq⟩ | ⟨_, hj⟩ := (getElem?_set_iff hi).mp hj
    · cases heq
    · obtain ⟨hload', htold'⟩ := h.loaded j o' row' time' hj
      refine ⟨⟨hputs.places hnew hload'.places, fun f => ?_⟩, hnow.symm ▸ htold'⟩
      by_cases hcell : row'.key = new.key ∧ f = o.column
      · exact .inr ⟨i, o, new, (getElem?_set_iff hi).mpr (.inl ⟨rfl, rfl⟩), hcell.1.symm, hcell.2.symm⟩
      · rw [hvalue _ _ hcell]
        refine (hload'.columns f).imp_right ?_
        rintro ⟨j', o'', e, hj', hkey', hcolumn⟩
        exact ⟨j', o'', e, savesStay_set hi (Update.loaded_ne_saved _ _) j' o'' e hj', hkey', hcolumn⟩
  · obtain ⟨rfl, heq⟩ | ⟨hne, hj⟩ := (getElem?_set_iff hi).mp hj
    · cases heq
      exact ⟨hputs.places hnew hnew, by rw [hputs.value, if_pos rfl]⟩
    · obtain ⟨hplaces, hkept⟩ := h.saved j o' e hj
      refine ⟨hputs.places hnew hplaces, ?_⟩
      rw [hvalue, hkept]
      rintro ⟨hkey', hcolumn⟩
      exact hne (h.eq_of_field hj hi (Prod.ext (hplaces.place_eq hnew hkey') hcolumn))

/-- A request whose turn it is loads, saves or does something else. -/
theorem Tracked.call (h : Tracked s gs) {i : Nat} {g : Update} (hi : gs[i]? = some (o, g)) {c : Call}
    (hallowed : o.Allows g c) (hfresh : SavesFresh s gs i c) :
    Tracked (exec c s).2 (gs.set i (o, o.next g c (exec c s).1)) := by
  obtain hcalm | ⟨row, time, new, rfl, hset, hsaves⟩ := hallowed
  · exact h.calmCall hi hcalm
  · by_cases haccept : s.Accepts c
    · obtain ⟨hload, htold⟩ := h.loaded i o row time hi
      obtain ⟨hkey, -, -⟩ := UpdateOp.set_eq_some hset
      obtain ⟨old, hold, -⟩ := hload.places.stored
      obtain ⟨⟨a, ha⟩, hputs⟩ := exec_accepted hsaves haccept (hkey ▸ hold)
      rw [ha, UpdateOp.next_ok hsaves]
      exact h.save hi hset hputs (h.keyed.exec c) (h.dated.exec (savesDated_of_set hsaves hset htold))
        (exec_now c s) (hfresh new hsaves o (by rw [hi]; rfl) haccept)
    · obtain ⟨⟨e, he⟩, hstore⟩ := exec_refused hsaves haccept
      rw [he, UpdateOp.next_error hsaves, set_self hi, hstore]
      exact h

/-- A fresh save moves no date back. -/
theorem Tracked.forward (h : Tracked s gs) {i : Nat} {g : Update} (hi : gs[i]? = some (o, g)) {c : Call}
    (hallowed : o.Allows g c) (hfresh : SavesFresh s gs i c) : DatesForward s (exec c s).2 := by
  obtain hcalm | ⟨row, time, new, rfl, hset, hsaves⟩ := hallowed
  · exact .of_value (value_of_row (Db.row_congr (hcalm.exec s).1 (hcalm.exec s).2))
  · by_cases haccept : s.Accepts c
    · obtain ⟨hload, htold⟩ := h.loaded i o row time hi
      obtain ⟨hkey, -, -⟩ := UpdateOp.set_eq_some hset
      obtain ⟨old, hold, -⟩ := hload.places.stored
      obtain ⟨-, hputs⟩ := exec_accepted hsaves haccept (hkey ▸ hold)
      intro k f x hdate hx
      rw [hputs.value]
      by_cases hk : k = new.key
      · subst hk
        rw [if_pos rfl]
        by_cases hf : f = o.column
        · subst hf
          rw [hkey, h.own_column hi] at hx
          obtain ⟨y, hy, hle⟩ := UpdateOp.set_forward hset htold hdate (Option.some.inj hx)
          exact ⟨y, congrArg some hy, hle⟩
        · rw [hfresh new hsaves o (by rw [hi]; rfl) haccept f hf] at hx
          exact ⟨x, hx, Nat.le_refl x⟩
      · rw [if_neg hk]
        exact ⟨x, hx, Nat.le_refl x⟩
    · rw [(exec_refused hsaves haccept).2]
      exact .of_value fun _ _ => rfl

theorem CalmCall.saves {c : Call} (hc : CalmCall c) : c.saves = none := by
  cases c <;> first | rfl | exact hc.elim

/-- A save that is not fresh undoes the update of another request. -/
theorem Tracked.fresh_of_kept (h : Tracked s gs) {i : Nat} {g : Update} (hi : gs[i]? = some (o, g)) {c : Call}
    (hallowed : o.Allows g c)
    (hkept : ∀ (j : Nat) (o' : UpdateOp) (e : Row), j ≠ i → gs[j]? = some (o', .saved e) →
      (exec c s).2.value e.key o'.column = some (e.get o'.column)) : SavesFresh s gs i c := by
  intro r hr o₁ ho₁ haccept f hf
  rw [hi] at ho₁
  cases ho₁
  obtain hcalm | ⟨row, time, new, rfl, hset, hsaves⟩ := hallowed
  · rw [hcalm.saves] at hr
    cases hr
  · rw [hsaves] at hr
    cases hr
    have hload := (h.loaded i o row time hi).1
    obtain ⟨hkey, -, hget⟩ := UpdateOp.set_eq_some hset
    obtain ⟨old, hold, -⟩ := hload.places.stored
    obtain ⟨-, hputs⟩ := exec_accepted hsaves haccept (hkey ▸ hold)
    obtain hsame | ⟨j, o', e, hj, hkey', rfl⟩ := hload.columns f
    · rw [hkey, hget f hf]
      exact hsame
    · have hne : j ≠ i := by
        rintro rfl
        rw [hi] at hj
        cases hj
      have hstored := (h.saved j o' e hj).2
      have hafter := hkept j o' e hne hj
      rw [hputs.value, if_pos (hkey'.trans hkey.symm)] at hafter
      rw [hkey, ← hkey', hstored, hafter]

end Tracked

/-! ## Runs -/

theorem updates_answers (o : UpdateOp) (s : Db) (c : Call) : (updates o).answers c (exec c s).1 := trivial

/-- Where each request is in its protocol, and what is known of it. -/
abbrev UpdatesTracked (ops : List UpdateOp) : Updating → Prop :=
  Serving updates UpdateOp.Ends Tracked ops

section Runs

variable {ops : List UpdateOp} {w : Updating}

theorem updatesTracked_start {s : Db} (hs : Reachable s) (hdistinct : (ops.map UpdateOp.field).Nodup) :
    UpdatesTracked ops (updating ops s) := by
  have hidle {i : Nat} {o : UpdateOp} {g : Update}
      (hi : (ops.map fun o => (o, Update.idle))[i]? = some (o, g)) : g = .idle := by
    rw [List.getElem?_map] at hi
    obtain ⟨o', _, heq⟩ := Option.map_eq_some_iff.mp hi
    exact (Prod.mk.inj heq).2.symm
  refine Serving.start UpdateOp.follows ⟨hs.inv.keyed, hs.dated, ?_, fun i o row time hi => ?_, fun i o row hi => ?_⟩
  · rw [List.map_map]
    exact hdistinct
  · cases hidle hi
  · cases hidle hi

theorem updatesTracked_step (h : UpdatesTracked ops w) {e : Pool.Event Empty Nat}
    (hfresh : Staged.Meets (fun _ _ => false) SavesFresh w e) : UpdatesTracked ops (updateStep e w) :=
  h.step updates_answers (fun _ _ _ _ _ _ hJ hi hallowed _ hfresh => hJ.call hi hallowed hfresh)
    (fun d _ _ hJ => hJ.calm (hJ.keyed.wait d) (hJ.dated.wait d) (fun _ => rfl) (Nat.le_add_right _ _)) hfresh

theorem UpdatesTracked.kept (h : UpdatesTracked ops w) : UpdatesKept w :=
  fun i o row hi => (h.inv.saved i o row hi).2

/-- A step keeps the updates and moves no date back exactly if its save is fresh. -/
theorem updates_step_iff (h : UpdatesTracked ops w) (e : Pool.Event Empty Nat) :
    UpdatesKept (updateStep e w) ∧ DatesForward w.pool.store (updateStep e w).pool.store ↔
      Staged.Meets (fun _ _ => false) SavesFresh w e := by
  constructor
  · rintro ⟨hkept, -⟩
    obtain ⟨i, c, o, g, rfl, hc, hg, hallowed, -, hstore, hstages⟩ | ⟨-, hmeets, -⟩ | ⟨d, rfl, -⟩ :=
      h.event_cases exec (fun d db => db.wait d) (fun _ _ => false) e
    · simp only [Staged.Meets, hc, forall_const]
      refine h.inv.fresh_of_kept hg hallowed fun j o' e hne hj => ?_
      rw [← hstore]
      refine hkept j o' e ?_
      rw [updateStep, hstages]
      exact (getElem?_set_iff hg).mpr (.inr ⟨hne, hj⟩)
    · exact hmeets SavesFresh
    · trivial
  · intro hfresh
    refine ⟨(updatesTracked_step h hfresh).kept, ?_⟩
    obtain ⟨i, c, o, g, rfl, hc, hg, hallowed, -, hstore, -⟩ | ⟨heq, -, -⟩ | ⟨d, rfl, heq⟩ :=
      h.event_cases exec (fun d db => db.wait d) (fun _ _ => false) e
    · simp only [Staged.Meets, hc, forall_const] at hfresh
      rw [updateStep, hstore]
      exact h.inv.forward hg hallowed hfresh
    · rw [updateStep, heq]
      exact .of_value fun _ _ => rfl
    · rw [updateStep, heq]
      exact .of_value fun _ _ => rfl

/-- A request that has succeeded has saved its row, or its read marker needed no move. -/
theorem done_of_success (s : Db) (ops : List UpdateOp) (es : List (Pool.Event Empty Nat)) {i : Nat} {o : UpdateOp}
    {a : Response} (ho : ops[i]? = some o)
    (hr : (Runs.final updateStep es (updating ops s)).pool.result i = some (.ok a)) :
    ∃ g, (Runs.final updateStep es (updating ops s)).stages[i]? = some (o, g) ∧ o.Done g := by
  have hserving : Runs.Always updateStep (Serving updates UpdateOp.Ends (fun _ _ => True) ops) es (updating ops s) :=
    Runs.Always.of_step (fun w e h => h.step updates_answers (fun _ _ _ _ _ _ _ _ _ _ _ => trivial)
      (fun _ _ _ _ => trivial) (Staged.meets_true _ w e)) (Serving.start UpdateOp.follows trivial)
  obtain ⟨g, hg, hends⟩ := hserving.final.result ho hr
  exact ⟨g, hg, hends a rfl⟩

/-- In a run of requests that set different fields all updates stay, and no date moves back, exactly when
every save finds the other columns of its row as its request has loaded them. -/
theorem updates_stay_iff {s : Db} (hs : Reachable s) {ops : List UpdateOp}
    (hdistinct : (ops.map UpdateOp.field).Nodup) (es : List (Pool.Event Empty Nat)) :
    (∀ es₁ es₂ es₃, es = es₁ ++ es₂ ++ es₃ →
      UpdatesKept (Runs.final updateStep (es₁ ++ es₂) (updating ops s)) ∧
        DatesForward (Runs.final updateStep es₁ (updating ops s)).pool.store
          (Runs.final updateStep (es₁ ++ es₂) (updating ops s)).pool.store) ↔
      Runs.Along updateStep (Staged.Meets (fun _ _ => false) SavesFresh) es (updating ops s) := by
  let stays (v w : Updating) : Prop := UpdatesKept v → UpdatesKept w ∧ DatesForward v.pool.store w.pool.store
  have hstart := updatesTracked_start hs hdistinct
  have hsteps : Runs.Along updateStep (fun w e => stays w (updateStep e w)) es (updating ops s) ↔
      Runs.Along updateStep (Staged.Meets (fun _ _ => false) SavesFresh) es (updating ops s) :=
    Runs.along_iff_along (fun _ _ h => updatesTracked_step h)
      (fun w e h => (forall_prop_of_true h.kept).trans (updates_step_iff h e)) hstart
  rw [← hsteps, ← Runs.along_iff_later (fun w hw => ⟨hw, .of_value fun _ _ => rfl⟩) fun u v w h h' hu =>
    have ⟨hv, huv⟩ := h hu
    have ⟨hw, hvw⟩ := h' hv
    ⟨hw, huv.trans hvw⟩]
  constructor
  · exact fun h es₁ es₂ es₃ heq _ => h es₁ es₂ es₃ heq
  · intro h es₁ es₂ es₃ heq
    have hkept : UpdatesKept (Runs.final updateStep es₁ (updating ops s)) :=
      (h [] es₁ (es₂ ++ es₃) (by rw [heq, List.nil_append, List.append_assoc]) hstart.kept).1
    exact h es₁ es₂ es₃ heq hkept

end Runs

/-- A and B have a conversation. -/
def twoUsers : Db := (Db.empty 0 0).serve [.createPrivate userA userB]

theorem reachable_twoUsers : Reachable twoUsers := (reachable_empty 0 0).serve _

/-- A mutes the conversation and has seen it. -/
def muteAndSee : List UpdateOp := [.muteConversation 0 userA true, .markSeen 0 userA none]

/-- One after the other. -/
def inTurn : List (Pool.Event Empty Nat) := List.replicate 6 (.advance 0) ++ List.replicate 3 (.advance 1)

theorem updates_stay_iff_inTurn :
    Runs.Along updateStep (Staged.Meets (fun _ _ => false) SavesFresh) inTurn (updating muteAndSee twoUsers) ∧
      ∀ es₁ es₂ es₃, inTurn = es₁ ++ es₂ ++ es₃ →
        UpdatesKept (Runs.final updateStep (es₁ ++ es₂) (updating muteAndSee twoUsers)) ∧
          DatesForward (Runs.final updateStep es₁ (updating muteAndSee twoUsers)).pool.store
            (Runs.final updateStep (es₁ ++ es₂) (updating muteAndSee twoUsers)).pool.store :=
  have hfresh : Runs.Along updateStep (Staged.Meets (fun _ _ => false) SavesFresh) inTurn
      (updating muteAndSee twoUsers) := by decide
  ⟨hfresh, (updates_stay_iff reachable_twoUsers (by decide) inTurn).mpr hfresh⟩

/-- The read marker is moved while the other request is under way. -/
def lateMute : List (Pool.Event Empty Nat) :=
  List.replicate 2 (.advance 0) ++ List.replicate 3 (.advance 1) ++ [.advance 0]

theorem updates_stay_fails :
    ¬ ∀ (s : Db) (o o' : UpdateOp) (es : List (Pool.Event Empty Nat)), Reachable s → o.place = o'.place →
      o.column ≠ o'.column → UpdatesKept (Runs.final updateStep es (updating [o, o'] s)) ∧
        DatesForward s (Runs.final updateStep es (updating [o, o'] s)).pool.store := by
  intro h
  obtain ⟨hkept, -⟩ := h twoUsers (.muteConversation 0 userA true) (.markSeen 0 userA none) lateMute
    reachable_twoUsers rfl (by decide)
  have hlost : (Runs.final updateStep lateMute (updating muteAndSee twoUsers)).pool.store.value
      (.member 1) .lastReadAt = some (.time none) := by decide
  have hsaved : (Runs.final updateStep lateMute (updating muteAndSee twoUsers)).stages[1]? =
      some (.markSeen 0 userA none, .saved (.member ⟨1, 0, userA, .member, 0, some 0, none, none, none⟩)) := by
    decide
  have hvalue := hkept 1 _ _ hsaved
  rw [show UpdateOp.column (.markSeen 0 userA none) = .lastReadAt from rfl] at hvalue
  exact absurd (hlost.symm.trans hvalue) (by decide)

end Relay.Chat
