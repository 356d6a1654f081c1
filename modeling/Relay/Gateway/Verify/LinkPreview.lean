import Relay.Gateway.LinkPreview

/-!
# Decoding escaped texts

`decode` reads `&amp;` first. What it gets from an escaped text is therefore the text with its own entities decoded
once more (`decode_htmlEscape`): the text comes back when it does not itself contain one of the other entities.
-/

namespace Relay.Gateway.LinkPreview

open Relay.Lib

/-- The entity of a special character. -/
def entity (c : Char) : Text :=
  if c = '&' then "&amp;".toList
  else if c = '<' then "&lt;".toList
  else if c = '>' then "&gt;".toList
  else if c = '"' then "&quot;".toList
  else if c = '\x27' then "&#39;".toList
  else [c]

def htmlEscape (s : Text) : Text := s.flatMap entity

/-- The special characters but `&`. -/
def marks : List Char := ['<', '>', '"', '\x27']

/-- The text with the characters of `set` escaped. -/
def escape (set : List Char) (s : Text) : Text := s.flatMap fun c => if c ∈ set then entity c else [c]

section Escape

variable {set : List Char} {c d : Char} {name s t rep : Text}

theorem escape_cons (set : List Char) (c : Char) (s : Text) :
    escape set (c :: s) = (if c ∈ set then entity c else [c]) ++ escape set s := rfl

theorem escape_append (set : List Char) (s t : Text) : escape set (s ++ t) = escape set s ++ escape set t :=
  List.flatMap_append

theorem escape_of_disjoint (h : ∀ c ∈ s, c ∉ set) : escape set s = s := by
  induction s with
  | nil => rfl
  | cons c s ih =>
    rw [escape_cons, if_neg (h c List.mem_cons_self), ih fun d hd => h d (List.mem_cons_of_mem c hd)]
    rfl

theorem htmlEscape_eq (s : Text) : htmlEscape s = escape ('&' :: marks) s := by
  unfold htmlEscape escape
  refine congrArg (fun f => s.flatMap f) ?_
  funext c
  split
  · rfl
  · next h =>
    unfold entity marks at *
    simp only [List.mem_cons, List.not_mem_nil, or_false, not_or] at h
    rw [if_neg h.1, if_neg h.2.1, if_neg h.2.2.1, if_neg h.2.2.2.1, if_neg h.2.2.2.2]

/-- An entity starts with `&`, and has no other special character in it. -/
theorem entity_eq (hc : c ∈ '&' :: marks) :
    ∃ name, entity c = '&' :: name ∧ '&' ∉ name ∧ (∀ d ∈ entity c, d ∉ marks) ∧ 1 < (entity c).length := by
  have hall : ∀ c ∈ '&' :: marks, entity c = '&' :: (entity c).tail ∧ '&' ∉ (entity c).tail ∧
      (∀ d ∈ entity c, d ∉ marks) ∧ 1 < (entity c).length := by decide
  exact ⟨_, hall c hc⟩

/-- The entities are not part of each other. -/
theorem not_entity_prefix (hc : c ∈ '&' :: marks) (hd : d ∈ '&' :: marks) (hne : d ≠ c) (t : Text) :
    ¬ entity c <+: entity d ++ t := by
  have hall : ∀ c ∈ '&' :: marks, ∀ d ∈ '&' :: marks, d ≠ c → ¬ entity c <+: entity d ∧ ¬ entity d <+: entity c := by
    decide
  obtain ⟨hcd, hdc⟩ := hall c hc d hd hne
  intro h
  exact (List.prefix_or_prefix_of_prefix h (List.prefix_append (entity d) t)).elim hcd hdc

/-- Reading one entity leaves the others. -/
theorem replaceText_entity (hc : c ∈ '&' :: marks) (hd : d ∈ '&' :: marks) (hne : d ≠ c) (t : Text) :
    Js.replaceText (entity c) rep (entity d ++ t) = entity d ++ Js.replaceText (entity c) rep t := by
  have hnot := not_entity_prefix hc hd hne t
  obtain ⟨name, hname, _, _, _⟩ := entity_eq hc
  obtain ⟨other, hother, hamp, _, _⟩ := entity_eq hd
  rw [hother, List.cons_append] at hnot ⊢
  rw [Js.replaceText_cons hnot, hname, Js.replaceText_append_of_notMem hamp]
  rfl

/-- Reading `&amp;` gives the ampersands back, and no others. -/
theorem replaceText_amp (s : Text) :
    Js.replaceText (entity '&') ['&'] (escape ('&' :: marks) s) = escape marks s := by
  have hamp : '&' ∈ '&' :: marks := List.mem_cons_self
  induction s with
  | nil => rfl
  | cons c s ih =>
    rw [escape_cons, escape_cons]
    by_cases hc : c ∈ '&' :: marks
    · rw [if_pos hc]
      by_cases heq : c = '&'
      · subst heq
        have hmarks : '&' ∉ marks := by decide
        rw [Js.replaceText_append (by decide), ih, if_neg hmarks]
      · have hmarks : c ∈ marks := (List.mem_cons.mp hc).resolve_left heq
        rw [replaceText_entity hamp hc heq, ih, if_pos hmarks]
    · rw [List.mem_cons, not_or] at hc
      have hnot : ¬ entity '&' <+: c :: escape ('&' :: marks) s := by
        intro h
        exact hc.1 (List.cons_prefix_cons.mp h).1.symm
      rw [if_neg (by simpa using hc), if_neg hc.2, List.singleton_append, Js.replaceText_cons hnot, ih]
      rfl

/-- A text without special characters is in front of an escaped one only if it is in front of the text. -/
theorem prefix_of_prefix_escape (hset : set ⊆ marks) (hamp : '&' ∉ name) (hname : ∀ c ∈ name, c ∉ marks)
    (h : name <+: escape set s) : name <+: s := by
  induction name generalizing s with
  | nil => exact List.nil_prefix
  | cons a name ih =>
    rw [List.mem_cons, not_or] at hamp
    cases s with
    | nil => exact h
    | cons c s =>
      rw [escape_cons] at h
      by_cases hc : c ∈ set
      · obtain ⟨other, hother, _⟩ := entity_eq (List.mem_cons_of_mem '&' (hset hc))
        rw [if_pos hc, hother] at h
        exact absurd (List.cons_prefix_cons.mp h).1.symm hamp.1
      · rw [if_neg hc, List.singleton_append, List.cons_prefix_cons] at h
        rw [List.cons_prefix_cons]
        exact ⟨h.1, ih hamp.2 (fun d hd => hname d (List.mem_cons_of_mem a hd)) h.2⟩

/-- Reading an entity reads it in the text, too, and no longer leaves its character escaped. -/
theorem replaceText_escape (hset : c :: set ⊆ marks) (hc : c ∉ set) (s : Text) :
    Js.replaceText (entity c) [c] (escape (c :: set) s) = escape set (Js.replaceText (entity c) [c] s) := by
  have hmark : c ∈ marks := hset List.mem_cons_self
  have hspecial : c ∈ '&' :: marks := List.mem_cons_of_mem '&' hmark
  obtain ⟨name, hname, hamp, hplain, _⟩ := entity_eq hspecial
  have hpat : entity c ≠ [] := by
    rw [hname]
    exact List.cons_ne_nil _ _
  induction s using Js.replaceText_induction hpat with
  | nil => rfl
  | hit t ih =>
    have hself : escape (c :: set) (entity c) = entity c :=
      escape_of_disjoint fun d hd hmem => hplain d hd (hset hmem)
    rw [escape_append, hself, Js.replaceText_append hpat, Js.replaceText_append hpat, ih, List.singleton_append,
      List.singleton_append, escape_cons, if_neg hc, List.singleton_append]
  | miss d t hnot ih =>
    rw [Js.replaceText_cons hnot, escape_cons, escape_cons]
    by_cases hd : d ∈ c :: set
    · rw [if_pos hd]
      by_cases heq : d = c
      · subst heq
        rw [Js.replaceText_append hpat, ih, if_neg hc]
      · have hmem : d ∈ set := (List.mem_cons.mp hd).resolve_left heq
        rw [replaceText_entity hspecial (List.mem_cons_of_mem '&' (hset hd)) heq, ih, if_pos hmem]
    · have hout : ¬ entity c <+: d :: escape (c :: set) t := by
        intro h
        rw [hname, List.cons_prefix_cons] at h
        refine hnot ?_
        rw [hname, List.cons_prefix_cons]
        refine ⟨h.1, prefix_of_prefix_escape hset hamp (fun e he => hplain e ?_) h.2⟩
        rw [hname]
        exact List.mem_cons_of_mem _ he
      rw [if_neg hd, List.singleton_append, Js.replaceText_cons hout, ih,
        if_neg fun hmem => hd (List.mem_cons_of_mem c hmem)]
      rfl

end Escape

/-- The entities but `&amp;` in a text, read in the order of `decode`. -/
def unescape (s : Text) : Text := marks.foldl (fun s c => Js.replaceText (entity c) [c] s) s

/-- An escaped text is decoded to the text with its own entities read once. -/
theorem decode_htmlEscape (s : Text) : decode (htmlEscape s) = Js.trim (unescape s) := by
  have hlt : ∀ s, Js.replaceText (entity '<') ['<'] (escape ['<', '>', '"', '\x27'] s) =
      escape ['>', '"', '\x27'] (Js.replaceText (entity '<') ['<'] s) := replaceText_escape (by decide) (by decide)
  have hgt : ∀ s, Js.replaceText (entity '>') ['>'] (escape ['>', '"', '\x27'] s) =
      escape ['"', '\x27'] (Js.replaceText (entity '>') ['>'] s) := replaceText_escape (by decide) (by decide)
  have hquot : ∀ s, Js.replaceText (entity '"') ['"'] (escape ['"', '\x27'] s) =
      escape ['\x27'] (Js.replaceText (entity '"') ['"'] s) := replaceText_escape (by decide) (by decide)
  have hapos : ∀ s, Js.replaceText (entity '\x27') ['\x27'] (escape ['\x27'] s) =
      escape [] (Js.replaceText (entity '\x27') ['\x27'] s) := replaceText_escape (by decide) (by decide)
  have hnil : ∀ s, escape [] s = s := fun s => escape_of_disjoint fun _ _ => List.not_mem_nil
  have hamp := replaceText_amp s
  rw [← htmlEscape_eq] at hamp
  unfold marks at hamp
  have hchain : decode (htmlEscape s) = Js.trim (Js.replaceText (entity '\x27') ['\x27']
      (Js.replaceText (entity '"') ['"'] (Js.replaceText (entity '>') ['>'] (Js.replaceText (entity '<') ['<']
        (Js.replaceText (entity '&') ['&'] (htmlEscape s)))))) := rfl
  rw [hchain, hamp, hlt, hgt, hquot, hapos, hnil]
  rfl

/-- Reading entities makes a text shorter, if there are any. -/
theorem length_foldl (cs : List Char) (hcs : cs ⊆ marks) (s : Text) :
    (cs.foldl (fun s c => Js.replaceText (entity c) [c] s) s).length ≤ s.length ∧
      (s.length ≤ (cs.foldl (fun s c => Js.replaceText (entity c) [c] s) s).length →
        ∀ c ∈ cs, ¬ entity c <:+: s) := by
  induction cs generalizing s with
  | nil => exact ⟨Nat.le_refl _, by simp⟩
  | cons c cs ih =>
    obtain ⟨hc, hcs⟩ := List.cons_subset.mp hcs
    obtain ⟨_, _, _, _, hlong⟩ := entity_eq (List.mem_cons_of_mem '&' hc)
    have hshort : [c].length < (entity c).length := hlong
    obtain ⟨hle, hself⟩ := Js.length_replaceText hshort s
    obtain ⟨hle', hrest⟩ := ih hcs (Js.replaceText (entity c) [c] s)
    rw [List.foldl_cons]
    refine ⟨Nat.le_trans hle' hle, fun hge => ?_⟩
    obtain ⟨hnot, heq⟩ := hself (Nat.le_trans hge hle')
    rw [heq] at hrest hge
    intro d hd
    obtain rfl | hd := List.mem_cons.mp hd
    · exact hnot
    · exact hrest hge d hd

theorem unescape_of_absent {s : Text} (h : ∀ c ∈ marks, ¬ entity c <:+: s) : unescape s = s := by
  have hfold : ∀ cs ⊆ marks, cs.foldl (fun s c => Js.replaceText (entity c) [c] s) s = s := by
    intro cs hcs
    induction cs with
    | nil => rfl
    | cons c cs ih =>
      obtain ⟨hc, hcs⟩ := List.cons_subset.mp hcs
      rw [List.foldl_cons, Js.replaceText_of_absent (h c hc), ih hcs]
  exact hfold marks (List.Subset.refl _)

/-- A text without spaces at its ends comes back from its escaped form, if and only if it does not contain one of
the entities `&lt;`, `&gt;`, `&quot;` and `&#39;` itself. -/
theorem decode_htmlEscape_eq_iff {s : Text} (hs : Js.trim s = s) :
    decode (htmlEscape s) = s ↔ ∀ c ∈ marks, ¬ entity c <:+: s := by
  rw [decode_htmlEscape]
  constructor
  · intro h
    obtain ⟨_, hnone⟩ := length_foldl marks (List.Subset.refl _) s
    have hle := Js.length_trim_le (unescape s)
    rw [h] at hle
    exact hnone hle
  · intro h
    rw [unescape_of_absent h]
    exact hs

theorem decode_htmlEscape_eq_text : decode (htmlEscape "a < b & c".toList) = "a < b & c".toList := by
  have hnone : ∀ c ∈ marks, ¬ entity c <:+: "a < b & c".toList := by decide +kernel
  exact (decode_htmlEscape_eq_iff (s := "a < b & c".toList) (by decide)).mpr hnone

/-- The text of an entity is decoded twice. -/
theorem decode_htmlEscape_fails : ¬ ∀ s : Text, Js.trim s = s → decode (htmlEscape s) = s := by
  intro h
  have hself := h "&lt;".toList (by decide)
  revert hself
  decide

end Relay.Gateway.LinkPreview
