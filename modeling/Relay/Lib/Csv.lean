import Mathlib.Data.List.Basic
import Mathlib.Data.List.Forall2
import Relay.Lib.Js

/-!
# Comma-separated values

A reader of RFC 4180 that takes a line feed for a line break as well. It reads back every table whose fields are
written in a way it understands (`Spells`): in quotes with the quotes in them doubled, or, if there are neither
commas, quotes nor line breaks in them, as they are.
-/

namespace Relay.Lib.Csv

/-- Where in a field the reader is; `lineFeed` is after a carriage return that ends a record. -/
inductive Place where
  | start | plain | quoted | closed | lineFeed
deriving DecidableEq

/-- The records read, the fields of the record that is read, and the field that is read. -/
structure Reader where
  records : List (List (List Char))
  fields : List (List Char)
  field : List Char
  place : Place
deriving DecidableEq

namespace Reader

def endField (r : Reader) : Reader := { r with fields := r.fields ++ [r.field], field := [], place := .start }

def endRecord (r : Reader) : Reader where
  records := r.records ++ [r.fields ++ [r.field]]
  fields := []
  field := []
  place := .start

/-- The characters that can follow a field. -/
def delimit (r : Reader) (c : Char) : Option Reader :=
  if c = ',' then some r.endField
  else if c = '\n' then some r.endRecord
  else if c = '\r' then some { r with place := .lineFeed }
  else none

def step (r : Reader) (c : Char) : Option Reader :=
  match r.place with
  | .start =>
    if c = '"' then some { r with place := .quoted }
    else r.delimit c <|> some { r with field := [c], place := .plain }
  | .plain =>
    if c = '"' then none
    else r.delimit c <|> some { r with field := r.field ++ [c] }
  | .quoted =>
    if c = '"' then some { r with place := .closed }
    else some { r with field := r.field ++ [c] }
  | .closed =>
    if c = '"' then some { r with field := r.field ++ [c], place := .quoted }
    else r.delimit c
  | .lineFeed => if c = '\n' then some r.endRecord else none

/-- The records at the end of the text; the last one may lack its line break. -/
def finish (r : Reader) : Option (List (List (List Char))) :=
  match r.place with
  | .start => some (if r.fields = [] then r.records else r.endRecord.records)
  | .plain | .closed => some r.endRecord.records
  | .quoted | .lineFeed => none

def feed (r : Reader) (text : List Char) : Option Reader := text.foldlM step r

end Reader

/-- The records of a text, if it is well formed. -/
def read (text : List Char) : Option (List (List (List Char))) :=
  ((Reader.mk [] [] [] .start).feed text).bind Reader.finish

/-- A value in quotes. -/
def quote (value : List Char) : List Char := '"' :: Js.replaceAll '"' ['"', '"'] value ++ ['"']

/-! ## Fields -/

section Fields

variable {r : Reader} {c : Char} {s t value : List Char} {records : List (List (List Char))}
  {fields : List (List Char)} {field : List Char}

theorem feed_cons (r : Reader) (c : Char) (s : List Char) : r.feed (c :: s) = (r.step c).bind (·.feed s) := rfl

theorem feed_append (r : Reader) (s t : List Char) : r.feed (s ++ t) = (r.feed s).bind (·.feed t) :=
  List.foldlM_append

/-- The text is a way to write the value as a field. -/
def Spells (text value : List Char) : Prop :=
  ∀ records fields, ∃ place, (place = .plain ∨ place = .closed) ∧
    (Reader.mk records fields [] .start).feed text = some ⟨records, fields, value, place⟩

/-- Within quotes everything is taken as it is, doubled quotes as one. -/
theorem feed_doubled (value : List Char) :
    (Reader.mk records fields field .quoted).feed (Js.replaceAll '"' ['"', '"'] value) =
      some ⟨records, fields, field ++ value, .quoted⟩ := by
  induction value generalizing field with
  | nil => simp [Js.replaceAll, Reader.feed]
  | cons c value ih =>
    have hcons : Js.replaceAll '"' ['"', '"'] (c :: value) =
        (if c = '"' then ['"', '"'] else [c]) ++ Js.replaceAll '"' ['"', '"'] value := rfl
    rw [hcons, feed_append]
    by_cases hc : c = '"'
    · subst hc
      have hstep : (Reader.mk records fields field .quoted).feed ['"', '"'] =
        some ⟨records, fields, field ++ ['"'], .quoted⟩ := rfl
      rw [if_pos rfl, hstep, Option.bind_some, ih]
      simp
    · have hstep : (Reader.mk records fields field .quoted).feed [c] =
          some ⟨records, fields, field ++ [c], .quoted⟩ := by
        simp [Reader.feed, Reader.step, hc]
      rw [if_neg hc, hstep, Option.bind_some, ih]
      simp

theorem spells_quote (value : List Char) : Spells (quote value) value := by
  intro records fields
  refine ⟨.closed, .inr rfl, ?_⟩
  have hopen : (Reader.mk records fields [] .start).step '"' = some ⟨records, fields, [], .quoted⟩ := rfl
  have hclose : (Reader.mk records fields value .quoted).feed ['"'] = some ⟨records, fields, value, .closed⟩ := rfl
  unfold quote
  rw [List.cons_append, feed_cons, hopen, Option.bind_some, feed_append, feed_doubled, Option.bind_some,
    List.nil_append, hclose]

/-- The characters that a field without quotes can have. -/
def isPlain (c : Char) : Bool := c ∉ ['"', ',', '\n', '\r']

theorem delimit_of_plain (hc : isPlain c = true) : c ≠ '"' ∧ r.delimit c = none := by
  have hne : c ≠ '"' ∧ c ≠ ',' ∧ c ≠ '\n' ∧ c ≠ '\r' := by simpa [isPlain] using hc
  unfold Reader.delimit
  rw [if_neg hne.2.1, if_neg hne.2.2.1, if_neg hne.2.2.2]
  exact ⟨hne.1, rfl⟩

theorem feed_plain (hvalue : ∀ c ∈ value, isPlain c = true) :
    (Reader.mk records fields field .plain).feed value = some ⟨records, fields, field ++ value, .plain⟩ := by
  induction value generalizing field with
  | nil => simp [Reader.feed]
  | cons c value ih =>
    obtain ⟨hquote, hdelimit⟩ := delimit_of_plain (r := ⟨records, fields, field, .plain⟩) (hvalue c List.mem_cons_self)
    have hstep : (Reader.mk records fields field .plain).step c = some ⟨records, fields, field ++ [c], .plain⟩ := by
      simp [Reader.step, hquote, hdelimit]
    rw [feed_cons, hstep, Option.bind_some, ih fun d hd => hvalue d (List.mem_cons_of_mem c hd)]
    simp

theorem spells_plain (hne : value ≠ []) (hvalue : ∀ c ∈ value, isPlain c = true) : Spells value value := by
  intro records fields
  obtain ⟨c, value, rfl⟩ := List.exists_cons_of_ne_nil hne
  obtain ⟨hquote, hdelimit⟩ := delimit_of_plain (r := ⟨records, fields, [], .start⟩) (hvalue c List.mem_cons_self)
  have hstep : (Reader.mk records fields [] .start).step c = some ⟨records, fields, [c], .plain⟩ := by
    simp [Reader.step, hquote, hdelimit]
  refine ⟨.plain, .inl rfl, ?_⟩
  rw [feed_cons, hstep, Option.bind_some, feed_plain fun d hd => hvalue d (List.mem_cons_of_mem c hd)]
  rfl

end Fields

/-! ## Records -/

section Records

variable {text line : List Char} {texts values record lines : List (List Char)}
  {records done : List (List (List Char))} {place : Place} {fields : List (List Char)} {last : List Char}

/-- The text is a way to write the record. -/
def SpellsRecord (line : List Char) (record : List (List Char)) : Prop :=
  ∀ records, ∃ fields last place, (place = .plain ∨ place = .closed) ∧ fields ++ [last] = record ∧
    (Reader.mk records [] [] .start).feed line = some ⟨records, fields, last, place⟩

/-- A field can be followed by a delimiter. -/
theorem step_delimiter (hplace : place = .plain ∨ place = .closed) {c : Char} (hc : c ≠ '"') {r : Reader}
    (hr : (Reader.mk records fields last place).delimit c = some r) :
    (Reader.mk records fields last place).step c = some r := by
  obtain rfl | rfl := hplace
  · simp [Reader.step, hc, hr]
  · simp [Reader.step, hc, hr]

theorem feed_fields (h : List.Forall₂ Spells texts values) (hne : texts ≠ []) (records : List (List (List Char)))
    (front : List (List Char)) :
    ∃ fields last place, (place = .plain ∨ place = .closed) ∧ fields ++ [last] = front ++ values ∧
      (Reader.mk records front [] .start).feed ([','].intercalate texts) = some ⟨records, fields, last, place⟩ := by
  induction h generalizing front with
  | nil => exact absurd rfl hne
  | @cons text value texts values hfield hrest ih =>
    obtain ⟨place, hplace, hfeed⟩ := hfield records front
    cases hrest with
    | nil =>
      refine ⟨front, value, place, hplace, rfl, ?_⟩
      rw [List.intercalate_singleton, hfeed]
    | @cons next _ texts values _ _ =>
      obtain ⟨fields, last, place', hplace', heq, hfeed'⟩ := ih (List.cons_ne_nil _ _) (front ++ [value])
      have hcomma : (Reader.mk records front value place).step ',' =
          some ⟨records, front ++ [value], [], .start⟩ := step_delimiter hplace (by decide) rfl
      refine ⟨fields, last, place', hplace', ?_, ?_⟩
      · rw [heq]
        simp
      · rw [List.intercalate_cons_cons, List.append_assoc, feed_append, hfeed, Option.bind_some,
          List.singleton_append, feed_cons, hcomma, Option.bind_some, hfeed']

/-- Fields are separated by commas. -/
theorem spellsRecord_of_fields (h : List.Forall₂ Spells texts values) (hne : texts ≠ []) :
    SpellsRecord ([','].intercalate texts) values := fun records => feed_fields h hne records []

theorem finish_of_field (hplace : place = .plain ∨ place = .closed) :
    (Reader.mk records fields last place).finish = some (records ++ [fields ++ [last]]) := by
  obtain rfl | rfl := hplace <;> rfl

/-- A line break ends a record. -/
theorem feed_line (h : SpellsRecord line record) (done : List (List (List Char))) (rest : List Char) :
    (Reader.mk done [] [] .start).feed (line ++ '\n' :: rest) =
      (Reader.mk (done ++ [record]) [] [] .start).feed rest := by
  obtain ⟨fields, last, place, hplace, heq, hfeed⟩ := h done
  have hbreak : (Reader.mk done fields last place).step '\n' = some ⟨done ++ [record], [], [], .start⟩ := by
    rw [← heq]
    exact step_delimiter hplace (by decide) rfl
  rw [feed_append, hfeed, Option.bind_some, feed_cons, hbreak, Option.bind_some]

/-- Records are separated by line breaks. -/
theorem finish_lines (h : List.Forall₂ SpellsRecord lines records) (done : List (List (List Char))) :
    ((Reader.mk done [] [] .start).feed (['\n'].intercalate lines)).bind Reader.finish =
      some (done ++ records) := by
  induction h generalizing done with
  | nil =>
    rw [List.append_nil]
    rfl
  | @cons line record lines records hline hrest ih =>
    cases hrest with
    | nil =>
      obtain ⟨fields, last, place, hplace, rfl, hfeed⟩ := hline done
      rw [List.intercalate_singleton, hfeed, Option.bind_some, finish_of_field hplace]
    | @cons next _ lines records _ _ =>
      rw [List.intercalate_cons_cons, List.append_assoc, List.singleton_append, feed_line hline, ih]
      simp

/-- A header and the lines below it are read as its record and theirs, also if there are no lines. -/
theorem read_table {header : List Char} (hheader : SpellsRecord header record)
    (hlines : List.Forall₂ SpellsRecord lines records) :
    read (header ++ '\n' :: ['\n'].intercalate lines) = some (record :: records) := by
  unfold read
  rw [feed_line hheader, finish_lines hlines]
  rfl

end Records

end Relay.Lib.Csv
