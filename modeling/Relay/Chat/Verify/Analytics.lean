import Relay.Chat.Verify.Unread

/-!
# The chart of the week

`getAnalytics` counts the messages since local midnight six days ago, groups them by local day, and looks up
seven days. These are named by the UTC day of local midnight. East of Greenwich local midnight is still in the
UTC day before, so the seven names begin a day too early and today's messages are counted under none of them
(`weekly_counts_iff`).
-/

namespace Relay.Chat

open Relay.Lib Relay.Lib.Rows Prog

variable {s : Db}

/-- A fixed offset from UTC: less than a day either way, in whole milliseconds. -/
def IsOffset (timeZone : Int) : Prop := -dayLength < timeZone ∧ timeZone < dayLength ∧ 1000 ∣ timeZone

instance (timeZone : Int) : Decidable (IsOffset timeZone) := inferInstanceAs (Decidable (_ ∧ _ ∧ _))

/-- Local midnight six days ago. -/
def Db.weekAgo (db : Db) : Int := startOfDay db.timeZone (jsDate db.now) - 6 * dayLength

/-- The local days of the messages of the week. -/
def Db.weekDays (db : Db) : List Int :=
  (db.messages.filter fun m => db.weekAgo ≤ (m.createdAt : Int)).map fun m => localDay db.timeZone m.createdAt

/-! ## Days -/

/-- A message of the week is at most six days old. -/
theorem localDay_mem_week {timeZone t now : Int} (hweek : startOfDay timeZone now - 6 * dayLength ≤ t) (hpast : t ≤ now) :
    localDay timeZone now - 6 ≤ localDay timeZone t ∧ localDay timeZone t ≤ localDay timeZone now := by
  unfold startOfDay at hweek
  unfold localDay dayLength at *
  omega

/-- The date that the program reads is in the same local day. -/
theorem localDay_jsDate {timeZone : Int} (h : IsOffset timeZone) (now : Time) :
    localDay timeZone (jsDate now) = localDay timeZone now := by
  obtain ⟨_, _, k, rfl⟩ := h
  unfold localDay jsDate dayLength
  omega

/-- The first day that is looked up. -/
theorem isoDay_weekAgo {timeZone : Int} (h : IsOffset timeZone) (now : Int) :
    isoDay (startOfDay timeZone now - 6 * dayLength) =
      if timeZone ≤ 0 then localDay timeZone now - 6 else localDay timeZone now - 7 := by
  obtain ⟨hlo, hhi, _⟩ := h
  unfold isoDay startOfDay
  generalize localDay timeZone now = day
  unfold dayLength at *
  split <;> omega

theorem isoDay_add (t : Int) (i : Nat) : isoDay (t + i * dayLength) = isoDay t + i := by
  unfold isoDay dayLength
  omega

/-- Local midnight lies between yesterday's times and today's. -/
theorem startOfDay_le_iff (timeZone t now : Int) :
    startOfDay timeZone now ≤ t ↔ localDay timeZone now ≤ localDay timeZone t := by
  unfold startOfDay localDay dayLength
  omega

/-! ## Counting by day -/

/-- The counts of consecutive days add up to the entries within them, by induction on their number. -/
theorem sum_counts_days (days : List Int) (first : Int) (n : Nat) :
    ((List.range n).map fun i : Nat => days.count (first + i)).sum =
      (days.filter fun d => first ≤ d ∧ d < first + n).length := by
  induction n with
  | zero =>
    have hnone : (days.filter fun d => first ≤ d ∧ d < first + (0 : Nat)) = [] := by
      rw [List.filter_eq_nil_iff]
      intro d _
      simp only [decide_eq_true_eq]
      omega
    rw [hnone]
    rfl
  | succ n ih =>
    rw [List.range_succ, List.map_append, List.sum_append, ih, List.map_singleton, List.sum_singleton]
    clear ih
    induction days with
    | nil => rfl
    | cons d days ih =>
      rw [List.count_cons, List.filter_cons, List.filter_cons]
      simp only [beq_iff_eq, decide_eq_true_eq]
      by_cases hlast : d = first + n
      · subst hlast
        have hin : first ≤ first + (n : Int) ∧ first + (n : Int) < first + ((n + 1 : Nat) : Int) := by omega
        have hout : ¬ (first ≤ first + (n : Int) ∧ first + (n : Int) < first + (n : Int)) := by omega
        rw [if_pos rfl, if_pos hin, if_neg hout, List.length_cons]
        omega
      · have hsame : (first ≤ d ∧ d < first + ((n + 1 : Nat) : Int)) ↔ (first ≤ d ∧ d < first + (n : Int)) := by omega
        rw [if_neg hlast, if_congr hsame rfl rfl]
        split
        · rw [List.length_cons, List.length_cons]
          omega
        · omega

theorem lookup_map_key {κ β : Type} [DecidableEq κ] (f : κ → β) (ks : List κ) (k : κ) :
    (ks.map fun k => (k, f k)).lookup k = if k ∈ ks then some (f k) else none := by
  induction ks with
  | nil => rfl
  | cons k' ks ih =>
    rw [List.map_cons, List.lookup_cons]
    by_cases hk : k = k'
    · subst hk
      simp
    · have hmem : k ∈ k' :: ks ↔ k ∈ ks := by simp [hk]
      rw [beq_eq_false_iff_ne.mpr hk, if_congr hmem rfl rfl, ← ih]

/-- What the loop finds under a key. -/
theorem lookup_dayRows (s : Db) (day : Int) : ((s.dayRows s.weekAgo).lookup day).getD 0 = s.weekDays.count day := by
  have hrows : s.dayRows s.weekAgo = s.weekDays.eraseDups.map fun d => (d, s.weekDays.count d) := rfl
  rw [hrows, lookup_map_key]
  by_cases hday : day ∈ s.weekDays
  · rw [if_pos (List.mem_eraseDups.mpr hday), Option.getD_some]
  · rw [if_neg fun h => hday (List.mem_eraseDups.mp h), Option.getD_none, List.count_eq_zero.mpr hday]

/-- The days that are looked up, with their counts. -/
def Db.chart (db : Db) : List (Int × Nat) :=
  (List.range 7).map fun i : Nat =>
    (isoDay (db.weekAgo + i * dayLength), ((db.dayRows db.weekAgo).lookup (isoDay (db.weekAgo + i * dayLength))).getD 0)

/-- `getAnalytics` only reads. -/
theorem run_getAnalytics (s : Db) : ∃ view, run exec getAnalytics s = (.ok view, s) ∧
    view.messagesThisWeek = s.countSince s.weekAgo ∧ view.messagesByDay = s.chart :=
  ⟨_, rfl, rfl, rfl⟩

/-- The chart counts seven consecutive days. -/
theorem sum_chart (s : Db) : (s.chart.map Prod.snd).sum =
    (s.weekDays.filter fun d => isoDay s.weekAgo ≤ d ∧ d < isoDay s.weekAgo + 7).length := by
  have hcounts : s.chart.map Prod.snd = (List.range 7).map fun i : Nat => s.weekDays.count (isoDay s.weekAgo + i) := by
    unfold Db.chart
    rw [List.map_map]
    refine List.map_congr_left fun i _ => ?_
    simp only [Function.comp_apply, isoDay_add, lookup_dayRows]
  rw [hcounts, sum_counts_days]
  rfl

/-- The chart is complete if and only if every day of the week is looked up. -/
theorem sum_chart_eq_iff (s : Db) : (s.chart.map Prod.snd).sum = s.countSince s.weekAgo ↔
    ∀ m ∈ s.messages, s.weekAgo ≤ m.createdAt → isoDay s.weekAgo ≤ localDay s.timeZone m.createdAt ∧
      localDay s.timeZone m.createdAt < isoDay s.weekAgo + 7 := by
  have hweek : s.countSince s.weekAgo = s.weekDays.length := (List.length_map _).symm
  rw [sum_chart, hweek, List.length_filter_eq_length_iff]
  unfold Db.weekDays
  simp only [List.forall_mem_map, List.mem_filter, decide_eq_true_eq, and_imp]

/-- For messages that are not later than now and any fixed offset: the chart of the week adds up to the messages of
the week, if and only if the local time is not ahead of UTC or no message was sent today. -/
theorem weekly_counts_iff (hpast : ∀ m ∈ s.messages, m.createdAt ≤ s.now) (hzone : IsOffset s.timeZone) :
    ∃ view, run exec getAnalytics s = (.ok view, s) ∧
      ((view.messagesByDay.map Prod.snd).sum = view.messagesThisWeek ↔
        s.timeZone ≤ 0 ∨ ∀ m ∈ s.messages, (m.createdAt : Int) < startOfDay s.timeZone s.now) := by
  obtain ⟨view, hrun, hweek, hchart⟩ := run_getAnalytics s
  refine ⟨view, hrun, ?_⟩
  rw [hweek, hchart, sum_chart_eq_iff]
  have hweekAgo : s.weekAgo = startOfDay s.timeZone s.now - 6 * dayLength := by
    unfold Db.weekAgo startOfDay
    rw [localDay_jsDate hzone]
  have hfirst : isoDay s.weekAgo = if s.timeZone ≤ 0 then localDay s.timeZone s.now - 6
      else localDay s.timeZone s.now - 7 := by
    rw [hweekAgo]
    exact isoDay_weekAgo hzone s.now
  have hold : ∀ m ∈ s.messages, s.weekAgo ≤ m.createdAt → localDay s.timeZone s.now - 6 ≤
      localDay s.timeZone m.createdAt ∧ localDay s.timeZone m.createdAt ≤ localDay s.timeZone s.now := by
    intro m hm hweek
    exact localDay_mem_week (hweekAgo ▸ hweek) (Int.ofNat_le.mpr (hpast m hm))
  have htoday : ∀ m : Message, (m.createdAt : Int) < startOfDay s.timeZone s.now ↔
      localDay s.timeZone m.createdAt < localDay s.timeZone s.now := by
    intro m
    rw [← not_le, startOfDay_le_iff, not_le]
  simp only [htoday]
  rw [hfirst]
  by_cases hwest : s.timeZone ≤ 0
  · rw [if_pos hwest]
    refine iff_of_true (fun m hm hweek => ?_) (.inl hwest)
    have hin := hold m hm hweek
    omega
  · rw [if_neg hwest, or_iff_right hwest]
    constructor
    · intro hlisted m hm
      by_cases hweek : s.weekAgo ≤ m.createdAt
      · have hin := hlisted m hm hweek
        omega
      · -- older messages are not of today
        have hbefore : (m.createdAt : Int) < startOfDay s.timeZone s.now := by
          unfold dayLength at hweekAgo
          omega
        exact (htoday m).mp hbefore
    · intro hnone m hm hweek
      have hin := hold m hm hweek
      have hbefore := hnone m hm
      omega

/-- A message is sent now, in a group made now. -/
def Db.sentNow (timeZone : Int) : Db :=
  (Db.empty 300 timeZone).serve [.createGroup userA ['g'] [userB], .sendMessage (textMessage userA 0 ['h', 'i'])]

/-- One hour behind UTC. -/
theorem weekly_counts_west : ∃ view, run exec getAnalytics (Db.sentNow (-3600000000)) =
      (.ok view, Db.sentNow (-3600000000)) ∧
    ((view.messagesByDay.map Prod.snd).sum = view.messagesThisWeek ↔ (Db.sentNow (-3600000000)).timeZone ≤ 0 ∨
      ∀ m ∈ (Db.sentNow (-3600000000)).messages, (m.createdAt : Int) <
        startOfDay (Db.sentNow (-3600000000)).timeZone (Db.sentNow (-3600000000)).now) :=
  weekly_counts_iff (by decide +kernel) (by decide +kernel)

/-- One hour ahead of UTC, the message is counted for the week and under no day. -/
theorem weekly_counts_fails : ¬ ∀ s : Db, (∀ m ∈ s.messages, m.createdAt ≤ s.now) → IsOffset s.timeZone →
    ∀ view, (run exec getAnalytics s).1 = .ok view →
      (view.messagesByDay.map Prod.snd).sum = view.messagesThisWeek := by
  intro hall
  obtain ⟨view, hrun, hweek, hchart⟩ := run_getAnalytics (Db.sentNow 3600000000)
  have hsum := hall (Db.sentNow 3600000000) (by decide +kernel) (by decide +kernel) view (by rw [hrun])
  rw [hweek, hchart] at hsum
  have hcounts : ((Db.sentNow 3600000000).chart.map Prod.snd).sum = 0 ∧
      (Db.sentNow 3600000000).countSince (Db.sentNow 3600000000).weekAgo = 1 := by decide +kernel
  omega

end Relay.Chat
