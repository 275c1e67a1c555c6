import Mathlib.Data.List.Basic
import Mathlib.Tactic.Common
import Sentential.Json.Printer
import Sentential.Json.Reader

/-!
# The grammar of JSON

What a JSON document is, without reference to how one is printed: the grammar derives the texts of values
(`Json.IsValue`) and, for objects, says under which keys the values stand (`Json.IsObject`).

Every value is printed as a text that the grammar derives (`Json.isValue_printAt`), and an object as one
with its own keys in order (`Json.isObject_printAt`).
-/

namespace Sentential.Json

/-! ### The grammar -/

/-- White space between the tokens of a document. -/
def IsBlank (t : Text) : Prop :=
  ∀ c ∈ t, c = ' ' ∨ c = '\t' ∨ c = '\n' ∨ c = '\r'

/-- `SpellsChars t s`: between quotation marks, `s` stands for the text `t`. -/
inductive SpellsChars : Text → Text → Prop
  /-- The end. -/
  | nil : SpellsChars [] []
  /-- A character that stands for itself. -/
  | plain {c : Char} {t s : Text} (hcontrol : 0x20 ≤ c.toNat) (hquote : c ≠ '"') (hslash : c ≠ '\\')
    (h : SpellsChars t s) : SpellsChars (c :: t) (c :: s)
  /-- An escape of one letter. -/
  | letter {c e : Char} {t s : Text} (he : letterEscape? e = some c) (h : SpellsChars t s) :
    SpellsChars (c :: t) ('\\' :: e :: s)
  /-- An escaped code point. -/
  | codePoint {c : Char} {digits t s : Text} (hc : readCodePoint (digits ++ s) = some (c, s))
    (h : SpellsChars t s) : SpellsChars (c :: t) ('\\' :: 'u' :: digits ++ s)

/-- `SpellsText t s`: with its quotation marks, `s` stands for the text `t`. -/
def SpellsText (t s : Text) : Prop :=
  ∃ inner, SpellsChars t inner ∧ s = '"' :: inner ++ ['"']

/-- One or more decimal digits. -/
def IsDigits (t : Text) : Prop :=
  t ≠ [] ∧ ∀ c ∈ t, c.isDigit = true

/-- A number: a sign, an integer without leading zeros, a fraction and an exponent. -/
def IsNumber (t : Text) : Prop :=
  ∃ sign integer fraction exponent, t = sign ++ integer ++ fraction ++ exponent ∧
    (sign = [] ∨ sign = ['-']) ∧
    (IsDigits integer ∧ (integer.head? = some '0' → integer = ['0'])) ∧
    (fraction = [] ∨ ∃ ds, IsDigits ds ∧ fraction = '.' :: ds) ∧
    (exponent = [] ∨ ∃ e esign ds, (e = 'e' ∨ e = 'E') ∧ (esign = [] ∨ esign = ['+'] ∨ esign = ['-']) ∧
      IsDigits ds ∧ exponent = e :: esign ++ ds)

/-- Something with white space around it. -/
structure Padded where
  /-- The white space in front. -/
  before : Text
  /-- What stands between. -/
  core : Text
  /-- The white space behind. -/
  after : Text

namespace Padded

/-- How it is written. -/
def text (p : Padded) : Text :=
  p.before ++ p.core ++ p.after

/-- There is white space around it. -/
def IsProper (p : Padded) : Prop :=
  IsBlank p.before ∧ IsBlank p.after

end Padded

/-- A field of an object. -/
structure Field where
  /-- The key. -/
  key : Text
  /-- How the key is written. -/
  name : Padded
  /-- How the value is written. -/
  value : Padded

namespace Field

/-- How the field is written. -/
def text (f : Field) : Text :=
  f.name.text ++ ':' :: f.value.text

/-- The key is written as a text, with white space around it, and so is the value. -/
def IsProper (f : Field) : Prop :=
  f.name.IsProper ∧ SpellsText f.key f.name.core ∧ f.value.IsProper

end Field

/-- The text of a value. -/
inductive IsValue : Text → Prop
  /-- The value `null`. -/
  | null : IsValue "null".toList
  /-- A truth value. -/
  | bool (b : Bool) : IsValue (if b then "true".toList else "false".toList)
  /-- A number. -/
  | number {s : Text} (h : IsNumber s) : IsValue s
  /-- A text. -/
  | text {t s : Text} (h : SpellsText t s) : IsValue s
  /-- A list. -/
  | list {items : List Padded} {close : Text} (hitems : ∀ p ∈ items, p.IsProper)
    (hclose : IsBlank close) (h : ∀ p ∈ items, IsValue p.core) :
    IsValue ('[' :: Text.join [','] (items.map Padded.text) ++ close ++ [']'])
  /-- An object. -/
  | object {fields : List Field} {close : Text} (hfields : ∀ f ∈ fields, f.IsProper)
    (hclose : IsBlank close) (h : ∀ f ∈ fields, IsValue f.value.core) :
    IsValue ('\x7b' :: Text.join [','] (fields.map Field.text) ++ close ++ ['\x7d'])

/-- The text of an object with the given fields. -/
def IsObject (fields : List Field) (s : Text) : Prop :=
  ∃ close, (∀ f ∈ fields, f.IsProper) ∧ IsBlank close ∧ (∀ f ∈ fields, IsValue f.value.core) ∧
    s = '\x7b' :: Text.join [','] (fields.map Field.text) ++ close ++ ['\x7d']

/-- A document: a value with white space around it. -/
def IsDocument (t : Text) : Prop :=
  ∃ p : Padded, p.IsProper ∧ IsValue p.core ∧ t = p.text

/-- A text that ends with an object in which the text `value` stands under `key`. -/
def EndsWithField (key value t : Text) : Prop :=
  ∃ before object after fields, t = before ++ object ++ after ∧ IsBlank after ∧
    IsObject fields object ∧ ∃ f ∈ fields, f.key = key ∧ SpellsText value f.value.core

/-! ### Printed texts -/

section Printed

variable {c : Char} {t s : Text}

theorem eq_ofNat_of_toNat_eq {n : Nat} (h : c.toNat = n) : c = Char.ofNat n := by
  rw [← h, Char.ofNat_toNat]

/-- The digits of a control character give its code point. -/
theorem readCodePoint_hexByte (hc : c.toNat < 0x20) (s : Text) :
    readCodePoint ('0' :: '0' :: hexByte c.toNat ++ s) = some (c, s) := by
  have hall : ∀ n < 0x20, Numeral.value? 16 ('0' :: '0' :: hexByte n) = some n := by decide
  have hvalue := hall c.toNat hc
  have hsurrogate : ¬ (0xD800 ≤ c.toNat ∧ c.toNat < 0xDC00) := by omega
  have hsurrogate' : ¬ (0xDC00 ≤ c.toNat ∧ c.toNat < 0xE000) := by omega
  rw [hexByte] at hvalue ⊢
  simp only [readCodePoint, readUnit, List.cons_append, List.nil_append, hvalue, Option.map_some,
    if_neg hsurrogate, if_neg hsurrogate', Char.ofNat_toNat]

/-- A character stands for itself, or is escaped. -/
theorem spellsChars_escapedChar (h : SpellsChars t s) : SpellsChars (c :: t) (escapedChar c ++ s) := by
  unfold escapedChar
  split
  case h_8 hquote hslash _ _ _ _ _ =>
    split
    · next hcontrol =>
      have hcode := SpellsChars.codePoint (readCodePoint_hexByte hcontrol s) h
      exact hcode
    · next hcontrol =>
      refine .plain (Nat.not_lt.1 hcontrol) ?_ ?_ h
      · rintro rfl
        exact hquote rfl
      · rintro rfl
        exact hslash rfl
  all_goals
    next hc =>
    rw [eq_ofNat_of_toNat_eq hc]
    exact .letter (by decide) h

/-- A text is written between quotation marks. -/
theorem spellsText_quoted (t : Text) : SpellsText t (quoted t) := by
  refine ⟨t.flatMap escapedChar, ?_, rfl⟩
  induction t with
  | nil => exact .nil
  | cons c t ih =>
    rw [List.flatMap_cons]
    exact spellsChars_escapedChar ih

theorem isBlank_nil : IsBlank [] := by
  simp [IsBlank]

theorem isBlank_newLine (level : Nat) : IsBlank (newLine level) := by
  refine List.forall_mem_cons.2 ⟨by simp, fun c hc => ?_⟩
  exact .inl (List.eq_of_mem_replicate hc)

end Printed

/-! ### Printed values -/

/-- Induction over values, where the members of a list and the fields of an object are taken all at
once. -/
@[elab_as_elim]
theorem induction {motive : Json → Prop} (null : motive .null) (bool : ∀ b, motive (.bool b))
    (text : ∀ t, motive (.text t))
    (list : ∀ items, (∀ x ∈ items, motive x) → motive (.list items))
    (object : ∀ fields, (∀ f ∈ fields, motive f.2) → motive (.object fields)) (j : Json) : motive j :=
  Json.rec (motive_2 := fun items => ∀ x ∈ items, motive x)
    (motive_3 := fun fields => ∀ f ∈ fields, motive f.2) (motive_4 := fun f => motive f.2)
    null bool text list object
    (fun _ h => absurd h List.not_mem_nil)
    (fun _ _ hhead htail => List.forall_mem_cons.2 ⟨hhead, htail⟩)
    (fun _ h => absurd h List.not_mem_nil)
    (fun _ _ hhead htail => List.forall_mem_cons.2 ⟨hhead, htail⟩)
    (fun _ _ h => h) j

theorem join_cons (separator part : Text) (parts : List Text) :
    Text.join separator (part :: parts) = part ++ parts.flatMap (separator ++ ·) := by
  induction parts generalizing part with
  | nil => simp [Text.join]
  | cons next parts ih =>
    rw [Text.join, List.intercalate_cons_cons, ← Text.join, ih, List.flatMap_cons]
    simp only [List.append_assoc]

/-- How a member is printed on a level. -/
def printedItem (level : Nat) (x : Json) : Padded :=
  ⟨newLine level, printAt level x, []⟩

/-- How a field is printed on a level. -/
def printedField (level : Nat) (f : Text × Json) : Field :=
  ⟨f.1, ⟨newLine level, quoted f.1, []⟩, ⟨[' '], printAt level f.2, []⟩⟩

theorem printItems_eq (level : Nat) (items : List Json) :
    printItems level items = items.flatMap fun x => ',' :: (printedItem level x).text := by
  induction items with
  | nil => rfl
  | cons x rest ih => simp [printItems, ih, printedItem, Padded.text]

theorem printFields_eq (level : Nat) (fields : List (Text × Json)) :
    printFields level fields = fields.flatMap fun f => ',' :: (printedField level f).text := by
  induction fields with
  | nil => rfl
  | cons f rest ih => simp [printFields, ih, printedField, Padded.text, Field.text]

theorem exists_printAt_list (level : Nat) (items : List Json) :
    ∃ close, IsBlank close ∧ printAt level (.list items) =
      '[' :: Text.join [','] ((items.map (printedItem (level + 1))).map Padded.text) ++ close ++
        [']'] := by
  cases items with
  | nil => exact ⟨[], isBlank_nil, rfl⟩
  | cons x rest =>
    refine ⟨newLine level, isBlank_newLine level, ?_⟩
    rw [printAt, printItems_eq, List.map_cons, List.map_cons, join_cons, List.map_map, List.flatMap_map]
    simp [printedItem, Padded.text]

theorem exists_printAt_object (level : Nat) (fields : List (Text × Json)) :
    ∃ close, IsBlank close ∧ printAt level (.object fields) =
      '\x7b' :: Text.join [','] ((fields.map (printedField (level + 1))).map Field.text) ++ close ++
        ['\x7d'] := by
  cases fields with
  | nil => exact ⟨[], isBlank_nil, rfl⟩
  | cons f rest =>
    refine ⟨newLine level, isBlank_newLine level, ?_⟩
    rw [printAt, printFields_eq, List.map_cons, List.map_cons, join_cons, List.map_map,
      List.flatMap_map]
    simp [printedField, Padded.text, Field.text]

theorem isProper_printedField (level : Nat) (f : Text × Json) : (printedField level f).IsProper :=
  ⟨⟨isBlank_newLine level, isBlank_nil⟩, spellsText_quoted f.1, by simp [printedField, IsBlank],
    isBlank_nil⟩

/-- Every value is printed as the text of a value. -/
theorem isValue_printAt (level : Nat) (j : Json) : IsValue (printAt level j) := by
  induction j using Json.induction generalizing level with
  | null => exact .null
  | bool b => exact .bool b
  | text t => exact .text (spellsText_quoted t)
  | list items ih =>
    obtain ⟨close, hclose, hprint⟩ := exists_printAt_list level items
    rw [hprint]
    exact .list (List.forall_mem_map.2 fun x _ => ⟨isBlank_newLine _, isBlank_nil⟩) hclose
      (List.forall_mem_map.2 fun x hx => ih x hx (level + 1))
  | object fields ih =>
    obtain ⟨close, hclose, hprint⟩ := exists_printAt_object level fields
    rw [hprint]
    exact .object (List.forall_mem_map.2 fun f _ => isProper_printedField (level + 1) f) hclose
      (List.forall_mem_map.2 fun f hf => ih f hf (level + 1))

/-- An object is printed as the text of an object with its fields. -/
theorem isObject_printAt (level : Nat) (fields : List (Text × Json)) :
    IsObject (fields.map (printedField (level + 1))) (printAt level (.object fields)) := by
  obtain ⟨close, hclose, hprint⟩ := exists_printAt_object level fields
  exact ⟨close, List.forall_mem_map.2 fun f _ => isProper_printedField (level + 1) f, hclose,
    List.forall_mem_map.2 fun f _ => isValue_printAt (level + 1) f.2, hprint⟩

/-! ### Lengths -/

/-- A text is not longer than it is written. -/
theorem SpellsChars.length_le {t s : Text} (h : SpellsChars t s) : t.length ≤ s.length := by
  induction h with
  | nil => exact Nat.le_refl 0
  | plain _ _ _ _ ih => exact Nat.succ_le_succ ih
  | letter _ _ ih =>
    simp only [List.length_cons]
    omega
  | codePoint _ _ ih =>
    simp only [List.length_cons, List.length_append]
    omega

theorem SpellsText.length_le {t s : Text} (h : SpellsText t s) : t.length + 2 ≤ s.length := by
  obtain ⟨inner, hinner, rfl⟩ := h
  have := hinner.length_le
  simp only [List.length_cons, List.length_append, List.length_nil]
  omega

theorem length_le_join {separator part : Text} {parts : List Text} (h : part ∈ parts) :
    part.length ≤ (Text.join separator parts).length := by
  obtain ⟨before, after, rfl⟩ := List.append_of_mem h
  cases before with
  | nil => simp [join_cons]
  | cons first before =>
    simp only [List.cons_append, join_cons, List.flatMap_append, List.flatMap_cons, List.length_append]
    omega

/-- An object is longer than a key and the text under it. -/
theorem IsObject.length_le {fields : List Field} {s : Text} (h : IsObject fields s) {f : Field}
    (hf : f ∈ fields) {value : Text} (hvalue : SpellsText value f.value.core) :
    f.key.length + value.length + 7 ≤ s.length := by
  obtain ⟨close, hfields, -, -, rfl⟩ := h
  have hkey := (hfields f hf).2.1.length_le
  have hlength := hvalue.length_le
  have hjoin : f.text.length ≤ (Text.join [','] (fields.map Field.text)).length :=
    length_le_join (List.mem_map_of_mem hf)
  simp only [Field.text, Padded.text, List.length_append, List.length_cons] at hjoin
  simp only [List.length_append, List.length_cons, List.length_nil]
  omega

end Sentential.Json
