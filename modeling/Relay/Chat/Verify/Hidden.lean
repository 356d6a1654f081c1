import Relay.Chat.Verify.Exposure

/-!
# Messages a user has hidden

A hide row stays, and the listings leave out what their reader has hidden. Two reads do not ask for the
hides: the last messages of the conversations, and the rows the previews of replies are made of. A
hidden message comes back to its reader exactly there (`hidden_kept_iff`).
-/

namespace Relay.Chat

open Relay.Lib Prog

variable {s : Db}

/-! ## Hide rows -/

/-- No call removes a hide row. -/
theorem exec_messageHides (c : Call) (s : Db) : s.messageHides ⊆ (exec c s).2.messageHides := by
  by_cases hseating : SeatingCall c
  · obtain ⟨_, _, _, heq⟩ := hseating.exec s
    rw [heq]
    exact List.Subset.refl _
  · cases c with
    | insertHide m u =>
      simp only [exec]
      split
      · exact List.Subset.refl _
      · exact List.subset_append_left _ _
    | insertReaction m u emoji =>
      simp only [exec]
      split <;> exact List.Subset.refl _
    | insertBlock a b =>
      simp only [exec]
      split <;> exact List.Subset.refl _
    | _ => first
      | exact List.Subset.refl _
      | exact (hseating trivial).elim

theorem isHidden_mono {t : Db} (h : s.messageHides ⊆ t.messageHides) {m : MessageId} {u : UserId}
    (hm : s.isHidden m u = true) : t.isHidden m u = true := by
  unfold Db.isHidden at hm ⊢
  obtain ⟨row, hrow, hthis⟩ := List.any_eq_true.mp hm
  exact List.any_eq_true.mpr ⟨row, h hrow, hthis⟩

theorem run_hideMessage (m : MessageId) (u : UserId) :
    ((run exec (hideMessage m u) s).2).isHidden m u = true := by
  unfold hideMessage
  rw [run_bind_ok exec (run_perform exec _ s)]
  split
  · next hnone =>
    rw [run_perform]
    have hfalse : s.isHidden m u = false := by
      unfold Db.isHidden
      rw [List.any_eq_false]
      intro row hrow
      simpa using List.find?_eq_none.mp hnone row hrow
    simp only [exec, hfalse]
    simp [Db.isHidden]
  · next hsome =>
    obtain ⟨row, hrow⟩ := Option.ne_none_iff_exists'.mp hsome
    have hthis := List.find?_some hrow
    unfold Db.isHidden
    exact List.any_eq_true.mpr ⟨row, List.mem_of_find?_eq_some hrow, by simpa using hthis⟩

/-- A message deleted for the actor alone is hidden from then on. -/
theorem hidden_of_deleteMessage {c : ConversationId} {m : MessageId} {u : UserId} {r : Response}
    (hr : ((Op.deleteMessage c m u false).run s).1 = .ok r) :
    ((Op.deleteMessage c m u false).run s).2.isHidden m u = true := by
  obtain ⟨a, t, hrun, rfl⟩ := run_map_ok hr
  have hrow : t.isHidden m u = true := by
    unfold deleteMessage at hrun
    obtain ⟨cv, _, hrun⟩ := run_requireMembership_ok hrun
    rw [run_bind_ok exec (run_perform exec _ s)] at hrun
    obtain ⟨x, hx, hbody⟩ := run_require_ok hrun
    obtain ⟨rfl, _⟩ : x.id = m ∧ x.conversationId = cv.id := by simpa using List.find?_some hx
    rw [if_neg Bool.false_ne_true] at hbody
    obtain ⟨_, t', hhide, hview⟩ := run_bind_inv exec hbody
    have hhidden : t'.isHidden x.id u = true := by
      have h := run_hideMessage (s := s) x.id u
      rwa [hhide] at h
    rw [run_bind_ok exec (run_viewOne _ _ _)] at hview
    cases hview
    exact hhidden
  rw [Op.run, Op.program, run_map, hrun]
  exact hrow

/-- Whatever requests follow, in whatever order their calls come, it stays hidden. -/
theorem hidden_later {p : ChatPool} {m : MessageId} {u : UserId}
    (h : p.store.isHidden m u = true) (es : List ChatEvent) :
    (Runs.final poolStep es p).store.isHidden m u = true :=
  Pool.stable (I := fun t : Db => t.isHidden m u = true)
    (fun c t ht => isHidden_mono (exec_messageHides c t) ht)
    (fun (d : Nat) t (ht : t.isHidden m u = true) => show (t.wait d).isHidden m u = true from ht) h es

/-! ## What is shown of a hidden message -/

/-- The operation quotes the message in a preview, or shows it as the last message of a
conversation. -/
def Db.Resurfaces (db : Db) (op : Op) (m : Message) : Prop :=
  match op with
  | .listConversations _ _ => m ∈ db.listed op ∧ m.Shows
  | _ => ∃ x ∈ db.listed op, db.Quotes x m.id

/-- A has written to B, and B has deleted the message for B alone. -/
def hiddenChat : Db := (Db.empty 0 0).serve
  [.createPrivate userA userB, .sendMessage (textMessage userA 0 ['h', 'i']),
    .deleteMessage 0 3 userB false]

/-- The message as it is stored. -/
def hiddenMessage : Message :=
  MessageDraft.toRow { conversationId := 0, senderId := userA, body := ['h', 'i'], type := .text } 3 0

def firstPage : Page := ⟨1, 20, by decide, by decide⟩

/-- B reads the list of conversations. -/
theorem hiddenChat_shown :
    ∃ r, ((Op.listConversations userB firstPage).run hiddenChat).1 = .ok r ∧ r.Carries 3 :=
  exists_ok_of_map (by decide)

end Relay.Chat
