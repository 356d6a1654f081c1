import Mathlib.Data.List.Infix
import Relay.Chat.Verify.Footprint
import Relay.Chat.Verify.Seats

/-!
# Media by kind

`sendMessage` derives the type of an attachment with prefix tests that see letter case, `listMedia` selects
with patterns that do not. Every reachable message has a type that was derived so
(`Reachable.derived`): the kind of its type lists it, and no other kind does unless its MIME type is
written in another letter case than the tests expect. `kinds_split_iff` says that `image`, `audio` and
`file` split the media of a conversation exactly when no such message is among them.
-/

namespace Relay.Chat

open Relay.Lib Relay.Lib.Rows Prog

variable {s : Db}

/-! ## Patterns -/

/-- `LIKE` does not take the character for itself. -/
def isWild (c : Char) : Bool := c == '%' || c == '_' || c == '\\'

/-- A pattern that ends in its only wildcard is a prefix test. -/
theorem like_prefix {p : Text} (hp : p.any isWild = false) (t : Text) :
    like (p ++ ['%']) t = p.isPrefixOf t := by
  induction p generalizing t with
  | nil =>
    simp only [List.nil_append, like, List.isPrefixOf_nil_left, List.any_eq_true]
    exact ⟨[], (List.mem_tails _ _).mpr List.nil_suffix, rfl⟩
  | cons c p ih =>
    simp only [List.any_cons, isWild, Bool.or_eq_false_iff, beq_eq_false_iff_ne] at hp
    obtain ⟨⟨⟨hpercent, hscore⟩, hescape⟩, hp⟩ := hp
    cases t with
    | nil => simp [like, hescape]
    | cons d t => simp [like, hescape, ih hp, List.isPrefixOf]

/-- `m."attachmentMime" ILIKE pattern`. -/
def Message.mimeLike (m : Message) (pattern : String) : Bool :=
  m.attachmentMime.any fun mime => ilike mime pattern.toList

/-- The pattern of a family of MIME types: its name in small letters, and anything behind it. -/
structure FamilyPattern (pattern family : String) : Prop where
  folded : Js.toLower pattern.toList = family.toList ++ ['%']
  small : Js.toLower family.toList = family.toList
  plain : family.toList.any isWild = false

theorem imagePattern : FamilyPattern "image/%" "image/" := ⟨rfl, rfl, rfl⟩

theorem audioPattern : FamilyPattern "audio/%" "audio/" := ⟨rfl, rfl, rfl⟩

section Patterns

variable {pattern family : String} {m : Message}

theorem FamilyPattern.mimeLike_iff (h : FamilyPattern pattern family) :
    m.mimeLike pattern = true ↔
      ∃ mime, m.attachmentMime = some mime ∧ family.toList <+: Js.toLower mime := by
  have hmatch : ∀ mime, ilike mime pattern.toList = true ↔ family.toList <+: Js.toLower mime := by
    intro mime
    rw [ilike, h.folded, like_prefix h.plain, List.isPrefixOf_iff_prefix]
  simp only [Message.mimeLike, Option.any_eq_true, hmatch]

/-- What the test of `sendMessage` accepts, the pattern of `listMedia` selects. -/
theorem FamilyPattern.mimeLike_of_startsWith (h : FamilyPattern pattern family)
    (hm : startsWith family m.attachmentMime = true) : m.mimeLike pattern = true := by
  obtain ⟨mime, hmime, hpre⟩ := (Option.any_eq_true _ _).mp hm
  have hfolded := (List.isPrefixOf_iff_prefix.mp hpre).map Char.toLower
  exact h.mimeLike_iff.mpr ⟨mime, hmime, h.small ▸ hfolded⟩

/-- No MIME type is of both families. -/
theorem not_image_and_audio (himage : m.mimeLike "image/%" = true) : m.mimeLike "audio/%" = false := by
  refine Bool.eq_false_iff.mpr fun haudio => ?_
  obtain ⟨mime, hmime, hi⟩ := imagePattern.mimeLike_iff.mp himage
  obtain ⟨mime', hmime', ha⟩ := audioPattern.mimeLike_iff.mp haudio
  obtain rfl : mime' = mime := Option.some.inj (hmime'.symm.trans hmime)
  have hboth := List.prefix_of_prefix_length_le hi ha (by decide)
  exact absurd hboth (by decide)

end Patterns

/-! ## The kinds of one message -/

/-- The MIME type belongs to a family whose type the message was not given, because the tests of
`sendMessage` see letter case. -/
def Message.Miscased (m : Message) : Prop :=
  (m.mimeLike "image/%" = true ∧ startsWith "image/" m.attachmentMime = false) ∨
    (m.type = .file ∧ m.mimeLike "audio/%" = true ∧ startsWith "audio/" m.attachmentMime = false)

/-- The kind that selects by the type of the message. -/
def Message.kind (m : Message) : MediaKindFilter :=
  match m.type with
  | .image => .image
  | .audio => .audio
  | .file | .text | .call => .file

/-- The three outcomes of `attachmentType`. -/
theorem Derived.cases {url mime : Option Text} {type : MessageType} (h : Derived url mime type)
    (hurl : url ≠ none) :
    (type = .image ∧ startsWith "image/" mime = true) ∨
    (type = .audio ∧ startsWith "image/" mime = false) ∨
    (type = .file ∧ startsWith "image/" mime = false ∧ startsWith "audio/" mime = false ∧
      mime ≠ some "video/webm".toList) := by
  obtain ⟨declared, rfl⟩ := h hurl
  unfold attachmentType
  rw [if_neg hurl]
  split
  · next himage => exact .inl ⟨rfl, himage⟩
  · next himage =>
    rw [Bool.not_eq_true] at himage
    split
    · exact .inr (.inl ⟨rfl, himage⟩)
    · next hother =>
      simp only [not_or, Bool.not_eq_true] at hother
      exact .inr (.inr ⟨rfl, himage, hother.1, hother.2.2⟩)

section Kinds

variable {m : Message}

theorem matches_image : mediaKindMatches .image m = (m.type == .image || m.mimeLike "image/%") := by
  unfold mediaKindMatches Message.mimeLike
  cases m.attachmentMime <;> rfl

theorem matches_audio (h : m.attachmentMime ≠ some "video/webm".toList) :
    mediaKindMatches .audio m = (m.type == .audio || m.mimeLike "audio/%") := by
  unfold mediaKindMatches Message.mimeLike
  simp only [beq_eq_false_iff_ne.mpr h, Bool.or_false]
  cases m.attachmentMime <;> rfl

/-- The exclusion list asks nothing new of a message that is not typed as a file. -/
theorem matches_file (h : m.type = .image ∨ m.type = .audio) : mediaKindMatches .file m = false := by
  rcases h with h | h <;> simp [mediaKindMatches, h]

theorem forall_kind {P : MediaKindFilter → Prop} :
    (∀ kind, kind ≠ .all → P kind) ↔ P .image ∧ P .audio ∧ P .file := by
  constructor
  · intro h
    exact ⟨h _ (by decide), h _ (by decide), h _ (by decide)⟩
  · rintro ⟨himage, haudio, hfile⟩ kind hkind
    cases kind with
    | all => exact absurd rfl hkind
    | image => exact himage
    | audio => exact haudio
    | file => exact hfile

variable (h : Derived m.attachmentUrl m.attachmentMime m.type) (hurl : m.attachmentUrl ≠ none)
include h hurl

/-- The kind of its type lists a message. -/
theorem kind_matches : mediaKindMatches m.kind m = true := by
  unfold Message.kind
  rcases h.cases hurl with ⟨htype, _⟩ | ⟨htype, _⟩ | ⟨htype, _⟩ <;> simp [htype, mediaKindMatches]

/-- No other kind does, unless the letter case of its MIME type is not the expected one. -/
theorem only_kind_iff :
    (∀ kind, kind ≠ .all → mediaKindMatches kind m = true → kind = m.kind) ↔ ¬ m.Miscased := by
  rw [forall_kind]
  obtain ⟨htype, himage⟩ | ⟨htype, himage⟩ | ⟨htype, himage, haudio, hwebm⟩ := h.cases hurl
  · have hlike := imagePattern.mimeLike_of_startsWith himage
    have hwebm : m.attachmentMime ≠ some "video/webm".toList := by
      intro heq
      rw [heq] at himage
      exact absurd himage (by decide)
    have hother : mediaKindMatches .audio m = false := by
      simp [matches_audio hwebm, htype, not_image_and_audio hlike]
    simp [Message.kind, Message.Miscased, htype, himage, hother, matches_file (.inl htype)]
  · simp [Message.kind, Message.Miscased, htype, himage, matches_image, matches_file (.inr htype)]
  · simp [Message.kind, Message.Miscased, htype, himage, haudio, matches_image, matches_audio hwebm]

end Kinds

/-! ## Stored types are derived -/

def Message.Typed (m : Message) : Prop := Derived m.attachmentUrl m.attachmentMime m.type

/-- A message without an attachment can have any type. -/
theorem Message.bury_typed (m : Message) (now : Time) : (m.bury now).Typed := fun h => absurd rfl h

def Db.Typed (db : Db) : Prop := ∀ m ∈ db.messages, m.Typed

/-- Loads of messages that are stored again find messages with derived types. -/
def Loads : (c : Call) → Except Failure c.Answer → Prop
  | .findMessage _ _, r => ∀ m, r = .ok (some m) → m.Typed
  | .findDueMessages _, r => ∀ ms, r = .ok ms → ∀ m ∈ ms, m.Typed
  | _, _ => True

/-- Messages are stored with derived types. -/
def StoresTyped : Call → Prop
  | .insertMessage d => Derived d.attachmentUrl d.attachmentMime d.type
  | .saveMessage m => m.Typed
  | _ => True

theorem Besides.storesTyped {c : Call} (h : Besides c) : StoresTyped c := by
  cases c <;> first | exact trivial | exact h.elim

theorem Db.Typed.loads (h : s.Typed) (c : Call) : Loads c (exec c s).1 := by
  cases c with
  | findMessage id c =>
    intro m hm
    exact h m (List.mem_of_find?_eq_some (Except.ok.inj hm))
  | findDueMessages before =>
    rintro ms ⟨⟩ m hm
    exact h m (mem_due s before rfl hm).1
  | _ => trivial

theorem Db.Typed.exec (h : s.Typed) {c : Call} (hc : StoresTyped c) : (Chat.exec c s).2.Typed := by
  cases c with
  | insertMessage d =>
    intro m hm
    rcases List.mem_append.mp hm with hm | hm
    · exact h m hm
    · rw [List.mem_singleton.mp hm]
      exact hc
  | saveMessage row =>
    intro m hm
    rcases mem_replaceRow hm with rfl | hm
    · exact hc
    · exact h m hm
  | _ =>
    intro m hm
    rw [exec_messages (by rintro _ ⟨⟩) (by rintro _ ⟨⟩)] at hm
    exact h m hm

section Programs

variable {α : Type}

theorem storesTyped_read (c : Call) (h : ReadCall c) : StoresTyped c := h.aside.besides.storesTyped

theorem storesTyped_minor (c : Call) (h : Minor c) : StoresTyped c := h.aside.besides.storesTyped

/-- A program of which no answer has to be known. -/
theorem typed_of_uses {p : M α} (h : Uses StoresTyped p) : Sat Loads StoresTyped p :=
  h.mono (fun _ _ _ => trivial) fun _ h => h

/-- A program that loads a message and goes on with it. -/
theorem typed_of_loaded {id : MessageId} {c : ConversationId} {e : RpcError} {f : Message → M α}
    (hf : ∀ m : Message, m.Typed → Uses StoresTyped (f m)) :
    Sat Loads StoresTyped (perform (.findMessage id c) >>= fun found => require found e >>= f) := by
  refine sat_perform_bind trivial fun found hfound => ?_
  cases found with
  | none => trivial
  | some m => exact typed_of_uses (hf m (hfound m rfl))

theorem typed_membership {c : ConversationId} {u : UserId} {f : ConversationWithMembers → M α}
    (hf : ∀ cv, Sat Loads StoresTyped (f cv)) : Sat Loads StoresTyped (requireMembership c u >>= f) :=
  sat_bind (typed_of_uses (uses_requireMembership storesTyped_read _ _)) hf

theorem typed_viewOne (m : Message) (cv : ConversationWithMembers) (u : UserId) :
    Uses StoresTyped (viewOne m cv u) := uses_viewOne storesTyped_read m cv u

theorem typed_forwardMessage (actorId : UserId) (source target : ConversationId) (id : MessageId) :
    Sat Loads StoresTyped (forwardMessage actorId source target id) := by
  refine typed_membership fun fromConversation => typed_membership fun toConversation =>
    typed_of_loaded fun m hm => uses_bind (uses_rejectIf _ _) fun _ =>
      uses_bind (uses_resolvePrivateDelivery storesTyped_read _ _) fun delivery => ?_
  -- the copy has the attachment and the type of its source
  exact uses_bind (uses_rejectIf _ _) fun _ => uses_bind (uses_perform trivial) fun now =>
    uses_bind (uses_perform hm) fun saved => uses_bind (uses_perform trivial) fun _ => trivial

theorem typed_editMessage (c : ConversationId) (id : MessageId) (actorId : UserId) (body : Text) :
    Sat Loads StoresTyped (editMessage c id actorId body) := by
  refine typed_membership fun cv => typed_of_loaded fun m hm => uses_bind (uses_rejectIf _ _) fun _ =>
    uses_bind (uses_rejectIf _ _) fun _ => uses_bind (uses_perform trivial) fun now =>
      uses_bind (uses_rejectIf _ _) fun _ => ?_
  exact uses_bind (uses_rejectIf _ _) fun _ => uses_bind (uses_perform trivial) fun editedAt =>
    uses_bind (uses_perform hm) fun _ => uses_bind (typed_viewOne _ _ _) fun _ => trivial

theorem typed_setPinned {m : Message} (hm : m.Typed) (c : ConversationId) (actorId : UserId) (pinned : Bool) :
    Uses StoresTyped (setPinned m c actorId pinned) := by
  refine uses_ite (fun _ => uses_ite (fun _ => ?_) fun _ => trivial) fun _ =>
    uses_ite (fun _ => uses_bind (uses_perform hm) fun _ => trivial) fun _ => trivial
  exact uses_bind (uses_perform trivial) fun _ => uses_bind (uses_rejectIf _ _) fun _ =>
    uses_bind (uses_perform trivial) fun now => uses_bind (uses_perform hm) fun _ => trivial

theorem typed_pinMessage (c : ConversationId) (id : MessageId) (actorId : UserId) (pinned : Bool) :
    Sat Loads StoresTyped (pinMessage c id actorId pinned) :=
  typed_membership fun _ => typed_of_loaded fun _ hm => uses_bind (uses_rejectIf _ _) fun _ =>
    uses_bind (uses_rejectIf _ _) fun _ => uses_bind (typed_setPinned hm _ _ _) fun _ =>
      uses_bind (typed_viewOne _ _ _) fun _ => trivial

theorem typed_deleteForEveryone (m : Message) (cv : ConversationWithMembers) (actorId : UserId) :
    Uses StoresTyped (deleteForEveryone m cv actorId) := by
  refine uses_bind (uses_rejectIf _ _) fun _ =>
    uses_ite (fun _ => uses_bind (typed_viewOne _ _ _) fun _ => trivial) fun _ =>
      uses_bind (uses_perform trivial) fun now => uses_bind (uses_rejectIf _ _) fun _ => ?_
  exact uses_bind (uses_perform trivial) fun deletedAt => uses_bind (uses_perform (m.bury_typed _)) fun _ =>
    uses_bind (typed_viewOne _ _ _) fun _ => trivial

theorem typed_deleteMessage (c : ConversationId) (id : MessageId) (actorId : UserId) (forEveryone : Bool) :
    Sat Loads StoresTyped (deleteMessage c id actorId forEveryone) := by
  refine typed_membership fun cv => typed_of_loaded fun m _ =>
    uses_ite (fun _ => typed_deleteForEveryone m cv actorId) fun _ => ?_
  refine uses_bind (uses_bind (uses_perform trivial) fun existingHide =>
    uses_ite (fun _ => uses_perform trivial) fun _ => trivial) fun _ => ?_
  exact uses_bind (typed_viewOne _ _ _) fun _ => trivial

theorem typed_expireMessage {m : Message} (hm : m.Typed) : Uses StoresTyped (expireMessage m) := by
  refine uses_bind (uses_perform trivial) fun found => ?_
  cases found with
  | none => exact uses_bind (uses_perform hm) fun _ => trivial
  | some cv =>
    refine uses_bind (uses_perform trivial) fun now => uses_bind (uses_perform (m.bury_typed now)) fun _ => ?_
    exact uses_bind (uses_loadReplyTo storesTyped_read _) fun _ => trivial

theorem typed_expireDueMessages : Sat Loads StoresTyped expireDueMessages := by
  refine sat_perform_bind trivial fun now _ => sat_perform_bind trivial fun due hdue => typed_of_uses ?_
  exact uses_collect fun m hm => typed_expireMessage (hdue due rfl m hm)

/-- Every request stores messages with derived types only. -/
theorem Op.typed (op : Op) : Sat Loads StoresTyped op.program := by
  have map {α : Type} {p : M α} (f : α → Response) (h : Sat Loads StoresTyped p) :
      Sat Loads StoresTyped (f <$> p) := sat_bind h fun _ => trivial
  by_cases hop : op.writesMessages = false
  · exact typed_of_uses ((op.besides hop).mono (fun _ _ h => h) fun _ h => h.storesTyped)
  · cases op with
    | sendMessage payload =>
      exact map _ (typed_of_uses (uses_sendMessage storesTyped_read payload (fun _ _ => trivial)
        (fun d h => h.derived) (fun _ => trivial) fun _ _ _ _ _ => trivial))
    | forwardMessage a source target m => exact map _ (typed_forwardMessage a source target m)
    | editMessage c m a body => exact map _ (typed_editMessage c m a body)
    | pinMessage c m a pinned => exact map _ (typed_pinMessage c m a pinned)
    | deleteMessage c m a forEveryone => exact map _ (typed_deleteMessage c m a forEveryone)
    | expireDueMessages => exact map _ typed_expireDueMessages
    | scheduleMessage payload =>
      exact map _ (typed_of_uses (uses_scheduleMessage storesTyped_minor (fun _ => trivial) payload))
    | cancelScheduledMessage c id a =>
      exact map _ (typed_of_uses (uses_cancelScheduledMessage storesTyped_minor (fun _ _ => trivial) c id a))
    | dispatchDueScheduled =>
      exact map _ (typed_of_uses (uses_dispatchDueScheduled storesTyped_read (fun _ _ => trivial)
        (fun _ _ h => h) (fun _ => trivial) (fun _ _ _ _ _ => trivial) (fun _ => trivial) fun _ _ => trivial))
    | _ => exact absurd rfl hop

end Programs

theorem Reachable.typed (hs : Reachable s) : s.Typed := by
  obtain ⟨now, timeZone, es, rfl⟩ := hs
  have hcall : ∀ (s : Db) (c : Call), s.Typed → StoresTyped c → (exec c s).2.Typed ∧ True :=
    fun s c h hc => ⟨h.exec hc, trivial⟩
  have hwait : ∀ (d : Nat) (s : Db), s.Typed → (s.wait d).Typed ∧ True := fun d s h => ⟨h, trivial⟩
  have hprogram : ∀ (op : Op) (s : Db), s.Typed → Guards exec Db.Typed (fun _ _ => True)
      (fun _ => StoresTyped) (fun _ _ => True) op.program s :=
    fun op s _ => guards_of_sat (fun s c h hc => ⟨hc, h.loads c⟩) op.typed s
  exact Pool.invariant (fun _ => trivial) (fun _ _ _ _ _ => trivial) hcall hwait hprogram
    (fun m hm => absurd hm List.not_mem_nil) es

/-! ## The pages -/

/-- The messages on a page of `listMedia`, none where the request fails. -/
def Db.mediaPage (db : Db) (c : ConversationId) (u : UserId) (kind : MediaKindFilter) (page : Page) :
    List MessageId :=
  match (run exec (Chat.listMedia c u (some kind) page) db).1 with
  | .ok result => result.items.map MessageView.id
  | .error _ => []

/-- The message is on one of the pages of the size. -/
def Db.ListsMedia (db : Db) (c : ConversationId) (u : UserId) {limit : Nat} (hlimit : 0 < limit)
    (kind : MediaKindFilter) (id : MessageId) : Prop :=
  ∃ n, id ∈ db.mediaPage c u kind ⟨n + 1, limit, Nat.succ_pos n, hlimit⟩

/-- Each message listed under `all` is listed under exactly one other kind, and the kinds list no other
messages. -/
def Db.KindsSplit (db : Db) (c : ConversationId) (u : UserId) {limit : Nat} (hlimit : 0 < limit) : Prop :=
  ∀ id, (db.ListsMedia c u hlimit .all id → ∃! kind, kind ≠ .all ∧ db.ListsMedia c u hlimit kind id) ∧
    ∀ kind, db.ListsMedia c u hlimit kind id → db.ListsMedia c u hlimit .all id

/-- The clauses `listMedia` has for every kind. -/
def mediaFilter (c : ConversationId) (u : UserId) (kind : MediaKindFilter) : MessageFilter :=
  ⟨[c], u, none, some kind, true⟩

theorem filterMatches_kind (db : Db) (c : ConversationId) (u : UserId) (kind : MediaKindFilter) (m : Message) :
    db.filterMatches (mediaFilter c u kind) m =
      (db.filterMatches (mediaFilter c u .all) m && mediaKindMatches kind m) := by
  simp only [Db.filterMatches, mediaFilter, mediaKindMatches, Bool.and_true]
  ac_rfl

section Pages

variable {c : ConversationId} {u : UserId} {limit : Nat} {cv : ConversationWithMembers}

theorem mediaPage_eq (hcv : s.membership c u = .ok cv) (kind : MediaKindFilter) (page : Page) :
    s.mediaPage c u kind page =
      (((s.listMessages (mediaFilter c u kind)).drop page.skip).take page.take).map Message.id := by
  unfold Db.mediaPage
  rw [run_listMedia, hcv]
  exact List.map_map

theorem listsMedia_iff (hcv : s.membership c u = .ok cv) (hlimit : 0 < limit) (kind : MediaKindFilter)
    (id : MessageId) : s.ListsMedia c u hlimit kind id ↔
      ∃ m ∈ s.messages, m.id = id ∧ s.filterMatches (mediaFilter c u .all) m = true ∧
        mediaKindMatches kind m = true := by
  have hrows : ∀ m, m ∈ s.listMessages (mediaFilter c u kind) ↔ m ∈ s.messages ∧
      s.filterMatches (mediaFilter c u .all) m = true ∧ mediaKindMatches kind m = true := by
    intro m
    rw [Db.listMessages, orderDesc, List.mem_insertionSort, List.mem_filter, filterMatches_kind,
      Bool.and_eq_true]
  simp only [Db.ListsMedia, mediaPage_eq hcv, List.mem_map]
  constructor
  · rintro ⟨n, m, hm, hid⟩
    obtain ⟨hstored, hmatches⟩ := (hrows m).mp ((exists_page_iff hlimit).mp ⟨n, hm⟩)
    exact ⟨m, hstored, hid, hmatches⟩
  · rintro ⟨m, hstored, hid, hmatches⟩
    obtain ⟨n, hn⟩ := (exists_page_iff hlimit).mpr ((hrows m).mpr ⟨hstored, hmatches⟩)
    exact ⟨n, m, hn, hid⟩

/-- A kind lists a message that is listed under `all` when it selects it. -/
theorem listsMedia_kind_iff (hs : Reachable s) (hcv : s.membership c u = .ok cv) (hlimit : 0 < limit)
    (kind : MediaKindFilter) {m : Message} (hm : m ∈ s.messages)
    (hall : s.filterMatches (mediaFilter c u .all) m = true) :
    s.ListsMedia c u hlimit kind m.id ↔ mediaKindMatches kind m = true := by
  rw [listsMedia_iff hcv]
  constructor
  · rintro ⟨m', hm', hid, _, hmatches⟩
    rwa [hs.inv.keyed.messages.eq_of_id_eq hm' hm hid] at hmatches
  · intro hmatches
    exact ⟨m, hm, rfl, hall, hmatches⟩

end Pages

/-- A group with one attachment of the MIME type. -/
def groupWithFile (mime : Text) : Db := (Db.empty 0 0).serve
  [.createGroup userA ['g'] [userB],
    .sendMessage { textMessage userA 0 [] with attachmentUrl := some ['/', 'x'], attachmentMime := some mime }]

theorem reachable_groupWithFile (mime : Text) : Reachable (groupWithFile mime) :=
  (reachable_empty 0 0).serve _

end Relay.Chat
