import Relay.Gateway.ChatDto
import Relay.Chat.Verify.Contents

/-!
# What a validated request stores in its columns

The texts and the size a request stores, the checks they pass at the gateway and the columns they are stored in.
A stored text is what is left of the request's when it is trimmed, or one of a few short texts. The checks leave
some requests whose values do not fit: `attachmentUrl` may be twice as long as its column, a body is not
measured when something is attached, `attachmentSize` has no largest value, and variation selectors need not
count. Of the accepted requests exactly the others store values that fit (`written_fits_iff`).
-/

namespace Relay.Gateway.ChatDto

open Relay.Lib Relay.Chat

/-! ## The columns -/

/-- The largest value of an `int` column. -/
def MAX_INT : Nat := 2147483647

/-- The content fits the columns of `messages` and of `scheduled_messages`. -/
structure FitsColumns (x : Content) : Prop where
  body : x.body.length ≤ 4000
  attachmentUrl : ∀ t ∈ x.attachmentUrl, t.length ≤ 500
  attachmentMime : ∀ t ∈ x.attachmentMime, t.length ≤ 120
  attachmentName : ∀ t ∈ x.attachmentName, t.length ≤ 255
  attachmentSize : ∀ n ∈ x.attachmentSize, n ≤ MAX_INT

/-- What the checks do not bound, or not by the size of its column, is small enough as well. -/
structure SendMessageDto.Narrow (dto : SendMessageDto) : Prop where
  attachmentUrl : ∀ t ∈ dto.attachmentUrl, (Js.trim t).length ≤ 500
  attachmentSize : ∀ n, dto.attachmentSize = some (.int n) → n ≤ MAX_INT
  body : ∀ t ∈ dto.body, dto.validatesBody = false ∨ t.any isVariationSelector = true →
    (Js.trim t).length ≤ 4000
  attachmentMime : ∀ t ∈ dto.attachmentMime, t.any isVariationSelector = true → (Js.trim t).length ≤ 120
  attachmentName : ∀ t ∈ dto.attachmentName, t.any isVariationSelector = true → (Js.trim t).length ≤ 255

/-! ## The texts -/

theorem trimmed_le_iff {t : Option Text} {n : Nat} :
    (∀ u ∈ trimmed t, u.length ≤ n) ↔ ∀ u ∈ t, (Js.trim u).length ≤ n := by
  cases t with
  | none => exact ⟨nofun, nofun⟩
  | some t =>
    unfold trimmed orNull
    by_cases hempty : Js.trim t = []
    · simp [hempty]
    · simp [hempty]

/-- A text without variation selectors is no longer than it measures. -/
theorem length_trim_le_of_measure {length : TextLength} {t : Text} {n : Nat} (h : length.measure t ≤ n)
    (hplain : t.any isVariationSelector = false) : (Js.trim t).length ≤ n := by
  rw [length.plain t hplain] at h
  exact (Js.length_trim_le t).trans h

theorem maxLength_iff {length : TextLength} {t : Option Text} {n : Nat} (h : maxLength length n t = true) :
    (∀ u ∈ t, (Js.trim u).length ≤ n) ↔
      ∀ u ∈ t, u.any isVariationSelector = true → (Js.trim u).length ≤ n := by
  constructor
  · intro hle u hu _
    exact hle u hu
  · intro hle u hu
    cases hplain : u.any isVariationSelector with
    | true => exact hle u hu hplain
    | false =>
      have hmeasure : length.measure u ≤ n := by
        have hall := (Option.all_eq_true _ _).mp h u hu
        exact of_decide_eq_true hall
      exact length_trim_le_of_measure hmeasure hplain

/-- The placeholders for an empty body are short. -/
theorem length_bodyOf_le_iff (t : Text) (type : MessageType) :
    (bodyOf t type).length ≤ 4000 ↔ t.length ≤ 4000 := by
  unfold bodyOf
  split
  · exact Iff.rfl
  · next hempty =>
    rw [not_not.mp hempty]
    cases type <;> decide

/-- The MIME type of a recorded voice note is short under both its names. -/
theorem attachmentMimeOf_le_iff (mime type : Option Text) :
    (∀ u ∈ attachmentMimeOf mime type, u.length ≤ 120) ↔ ∀ u ∈ mime, (Js.trim u).length ≤ 120 := by
  rw [← trimmed_le_iff]
  unfold attachmentMimeOf
  dsimp only
  split
  · next h =>
    rw [h.1]
    decide
  · exact Iff.rfl

/-! ## Validated requests -/

section Valid

variable {length : TextLength} {dto : SendMessageDto}

theorem failed_eq_nil_iff {checks : List (String × Bool)} :
    failed checks = [] ↔ ∀ check ∈ checks, check.2 = true := by
  unfold failed
  rw [List.map_eq_nil_iff, List.filter_eq_nil_iff]
  simp

/-- The request passes its checks. -/
structure SendMessageDto.Valid (length : TextLength) (dto : SendMessageDto) : Prop where
  body : dto.validatesBody = true → requiredText length 4000 dto.body = true
  attachmentMime : maxLength length 120 dto.attachmentMime = true
  attachmentName : maxLength length 255 dto.attachmentName = true
  attachmentSize : minInt 1 dto.attachmentSize = true

theorem valid_of_checks (h : ∀ check ∈ dto.checks length, check.2 = true) : dto.Valid length := by
  simp only [SendMessageDto.checks, List.forall_mem_cons] at h
  obtain ⟨hbody, _, _, hmime, hname, hsize, _⟩ := h
  exact ⟨fun hvalidates => by simpa [hvalidates] using hbody, hmime, hname, hsize⟩

theorem SendMessageDto.Valid.body_iff (h : dto.Valid length) :
    (Js.trim (dto.body.getD [])).length ≤ 4000 ↔
      ∀ t ∈ dto.body, dto.validatesBody = false ∨ t.any isVariationSelector = true →
        (Js.trim t).length ≤ 4000 := by
  cases hbody : dto.body with
  | none => exact iff_of_true (by decide) nofun
  | some t =>
    simp only [Option.getD_some, Option.mem_def, Option.some.injEq, forall_eq']
    refine ⟨fun hle _ => hle, fun hle => ?_⟩
    cases hvalidates : dto.validatesBody with
    | false => exact hle (.inl hvalidates)
    | true =>
      cases hplain : t.any isVariationSelector with
      | true => exact hle (.inr hplain)
      | false =>
        have hrequired := h.body hvalidates
        rw [hbody] at hrequired
        have hmeasure : t ≠ [] ∧ length.measure t ≤ 4000 := of_decide_eq_true hrequired
        exact length_trim_le_of_measure hmeasure.2 hplain

theorem SendMessageDto.Valid.size_iff (h : dto.Valid length) :
    (∀ n ∈ dto.attachmentSize.map JsNumber.toNat, n ≤ MAX_INT) ↔
      ∀ n, dto.attachmentSize = some (.int n) → n ≤ MAX_INT := by
  have hsize := h.attachmentSize
  cases hn : dto.attachmentSize with
  | none => exact iff_of_true nofun nofun
  | some n =>
    rw [hn] at hsize
    cases n with
    | other => cases hsize
    | int n => simp [JsNumber.toNat]

/-- What a valid request asks to store fits its columns exactly when the request is narrow. -/
theorem SendMessageDto.Valid.fits_iff (h : dto.Valid length) {u : UserId} {v : ConversationId} {x : Content}
    (hx : (dto.payload u v).Composes x) : FitsColumns x ↔ dto.Narrow := by
  obtain ⟨requested, members, replyTo, _, rfl⟩ := hx
  have hbody := (length_bodyOf_le_iff (Js.trim (dto.body.getD [])) (attachmentType
    (trimmed dto.attachmentUrl) (attachmentMimeOf dto.attachmentMime dto.type) dto.type requested)).trans
      h.body_iff
  have hurl : (∀ t ∈ trimmed dto.attachmentUrl, t.length ≤ 500) ↔ _ := trimmed_le_iff
  have hmime := (attachmentMimeOf_le_iff dto.attachmentMime dto.type).trans (maxLength_iff h.attachmentMime)
  have hname := (trimmed_le_iff (n := 255)).trans (maxLength_iff h.attachmentName)
  constructor
  · intro hfits
    exact ⟨hurl.mp hfits.attachmentUrl, h.size_iff.mp hfits.attachmentSize, hbody.mp hfits.body,
      hmime.mp hfits.attachmentMime, hname.mp hfits.attachmentName⟩
  · intro hnarrow
    exact ⟨hbody.mpr hnarrow.body, hurl.mpr hnarrow.attachmentUrl, hmime.mpr hnarrow.attachmentMime,
      hname.mpr hnarrow.attachmentName, h.size_iff.mpr hnarrow.attachmentSize⟩

end Valid

/-! ## What a request stores -/

section Stores

variable {α ρ : Type} {db : Db} {P : ρ → Prop}

/-- Only rows with the property come to the end of the table. -/
def Appends (table : Db → List ρ) (P : ρ → Prop) (s t : Db) : Prop :=
  ∃ rows, table t = table s ++ rows ∧ ∀ row ∈ rows, P row

theorem appends_refl (table : Db → List ρ) (s : Db) : Appends table P s s :=
  ⟨[], (List.append_nil _).symm, fun _ h => absurd h List.not_mem_nil⟩

theorem Appends.trans {table : Db → List ρ} {r s t : Db} (hrs : Appends table P r s)
    (hst : Appends table P s t) : Appends table P r t := by
  obtain ⟨rows, hs, hrows⟩ := hrs
  obtain ⟨rows', ht, hrows'⟩ := hst
  refine ⟨rows ++ rows', by rw [ht, hs, List.append_assoc], fun row h => ?_⟩
  rcases List.mem_append.mp h with h | h
  · exact hrows row h
  · exact hrows' row h

/-- A program whose calls only append such rows only appends such rows. -/
theorem appends_run {table : Db → List ρ} {p : Chat.M α}
    (h : Uses (fun c => ∀ s, Appends table P s (Chat.exec c s).2) p) (db : Db) :
    Appends table P db (Prog.run Chat.exec p db).2 :=
  Prog.Sat.preserves (I := Appends table P db) (fun s _ hc hs => hs.trans (hc s)) h (appends_refl table db)

/-- A request that is turned away at the gateway appends nothing. -/
theorem appends_serve {table : Db → List ρ} {checks : List (String × Bool)} {type : Option Text}
    {refusal : String} {p : Chat.M α}
    (h : (∀ check ∈ checks, check.2 = true) → Appends table P db (Prog.run Chat.exec p db).2) :
    Appends table P db (serve checks type refusal p db).2 := by
  unfold serve
  split
  · exact appends_refl table db
  · next hvalid =>
    split
    · exact appends_refl table db
    · exact h (failed_eq_nil_iff.mp (not_not.mp hvalid))

theorem besides_appends_messages {P : Message → Prop} {c : Call} (h : Besides c) (s : Db) :
    Appends Db.messages P s (Chat.exec c s).2 := by
  have hsame : (Chat.exec c s).2.messages = s.messages := by
    refine exec_messages ?_ ?_ s
    · rintro d rfl
      exact h.elim
    · rintro m rfl
      exact h.elim
  exact ⟨[], by rw [hsame, List.append_nil], fun _ h => absurd h List.not_mem_nil⟩

theorem besides_appends_scheduled {P : ScheduledMessage → Prop} {c : Call} (h : Besides c) (s : Db) :
    Appends Db.scheduledMessages P s (Chat.exec c s).2 := by
  have hsame : (Chat.exec c s).2.scheduledMessages = s.scheduledMessages := by
    cases c with
    | findScheduled id v u => rfl
    | insertScheduled d => exact h.elim
    | claimScheduled id => exact h.elim
    | saveScheduled row => exact h.elim
    | _ =>
      refine UnscheduledCall.exec ?_ s (by rintro d ⟨⟩)
      exact trivial
  exact ⟨[], by rw [hsame, List.append_nil], fun _ h => absurd h List.not_mem_nil⟩

/-- A message a user sends has the content the request asks for. -/
theorem appends_sendMessage {payload : SendMessage} (hsystem : payload.systemCall = false) (db : Db) :
    Appends Db.messages (fun m => payload.Composes m.content) db
      (Prog.run Chat.exec (Chat.sendMessage payload) db).2 := by
  refine appends_run (uses_sendMessage_of (fun _ hc => ?_) payload (fun _ _ => ?_) (fun d hcall => ?_)
    (fun d hd s => ?_) (fun _ => ?_) fun _ _ _ _ _ => ?_) db
  · exact besides_appends_messages hc.aside.besides
  · exact besides_appends_messages trivial
  · exact absurd (hcall.symm.trans hsystem) (by decide)
  · refine ⟨[_], rfl, fun m hm => ?_⟩
    rw [List.mem_singleton.mp hm]
    exact hd
  · exact besides_appends_messages trivial
  · exact besides_appends_messages trivial

theorem appends_scheduleMessage (payload : ScheduleMessage) (db : Db) :
    Appends Db.scheduledMessages (fun row => payload.toSend.Composes row.content) db
      (Prog.run Chat.exec (Chat.scheduleMessage payload) db).2 := by
  refine appends_run (uses_scheduleMessage_of (fun _ hc => ?_) payload fun d hd s => ?_) db
  · exact besides_appends_scheduled hc.aside.besides
  · refine ⟨[_], rfl, fun row hrow => ?_⟩
    rw [List.mem_singleton.mp hrow]
    exact hd

theorem Appends.imp {Q : ρ → Prop} {table : Db → List ρ} {s t : Db} (h : Appends table P s t)
    (hPQ : ∀ row, P row → Q row) : Appends table Q s t := by
  obtain ⟨rows, ht, hrows⟩ := h
  exact ⟨rows, ht, fun row hrow => hPQ row (hrows row hrow)⟩

end Stores

/-- A request stores values that fit their columns exactly when it is narrow. -/
theorem written_fits_iff (length : TextLength) (u : UserId) (v : ConversationId) (db : Db) :
    (∀ dto : SendMessageDto, Appends Db.messages (fun m => FitsColumns m.content ↔ dto.Narrow) db
      (sendMessage length u v dto db).2) ∧
    ∀ dto : ScheduleMessageDto, Appends Db.scheduledMessages
      (fun row => FitsColumns row.content ↔ dto.Narrow) db (scheduleMessage length u v dto db).2 := by
  constructor
  · intro dto
    refine appends_serve fun hchecks => ?_
    exact (appends_sendMessage rfl db).imp fun m hm => (valid_of_checks hchecks).fits_iff hm
  · intro dto
    refine appends_serve fun hchecks => ?_
    have hvalid := valid_of_checks fun check hcheck => hchecks check (List.mem_append_left _ hcheck)
    exact (appends_scheduleMessage _ db).imp fun row hrow => hvalid.fits_iff (u := u) (v := v) hrow

/-- All characters count. -/
def characters : TextLength := ⟨List.length, fun _ _ => rfl⟩

/-- An attachment under a URL of 501 characters. -/
def longLink : SendMessageDto where
  body := none
  type := none
  replyToMessageId := none
  attachmentUrl := some (List.replicate 501 'u')
  attachmentMime := none
  attachmentName := none
  attachmentSize := none
  mentionUserIds := none
  linkPreview := none

theorem written_fits_fails :
    ¬ ∀ (length : TextLength) (u : UserId) (v : ConversationId) (db : Db),
      (∀ dto : SendMessageDto, Appends Db.messages (fun m => FitsColumns m.content) db
        (sendMessage length u v dto db).2) ∧
      ∀ dto : ScheduleMessageDto, Appends Db.scheduledMessages (fun row => FitsColumns row.content) db
        (scheduleMessage length u v dto db).2 := by
  intro h
  obtain ⟨rows, hrows, hfits⟩ := (h characters userA 0 quietChat).1 longLink
  have hnone : quietChat.messages = [] := by decide
  rw [hnone, List.nil_append] at hrows
  have hlong : (sendMessage characters userA 0 longLink quietChat).2.messages.map
      (fun m => m.attachmentUrl.map List.length) = [some 501] := by
    decide +kernel
  rw [hrows] at hlong
  obtain ⟨row, hrow, hurl⟩ : ∃ row ∈ rows, row.attachmentUrl.map List.length = some 501 := by
    have hmem : some 501 ∈ rows.map fun m => m.attachmentUrl.map List.length := by
      rw [hlong]
      exact List.mem_singleton_self _
    exact List.mem_map.mp hmem
  obtain ⟨t, ht, hlength⟩ := Option.map_eq_some_iff.mp hurl
  have hle := (hfits row hrow).attachmentUrl t ht
  omega

end Relay.Gateway.ChatDto
