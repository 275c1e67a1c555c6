import Mathlib.Tactic.Common
import Sentential.Proofs.Words
import Sentential.Style

/-!
# Styling puts control sequences into a text

A control sequence that selects a rendition consists of an escape character, an opening bracket, numbers
with semicolons between them, and an `m`.  `Style.unstyled` deletes these sequences.  Styled text is the
text itself with control sequences put in (`Style.IsStyled`), whatever the colors are, so that deleting
them leaves the text, as long as there is no escape character in it (`Style.unstyled_of_isStyled`).
-/

namespace Sentential.Style

/-! ### Deleting control sequences -/

/-- The characters of the numbers in a control sequence, and between them. -/
def isParameter (c : Char) : Bool :=
  c.isDigit || c = ';'

/-- The length of the control sequence with which a text begins; zero if it begins with none. -/
def renditionLength : Text → Nat
  | escape :: bracket :: rest =>
    if escape = Char.ofNat 0x1B ∧ bracket = '[' ∧ (rest.dropWhile isParameter).head? = some 'm' then
      (rest.takeWhile isParameter).length + 3
    else 0
  | _ => 0

/-- The text without the control sequences in it that select renditions.  The first argument says how
many characters are still to be left out. -/
def unstyledFrom : Nat → Text → Text
  | _, [] => []
  | k + 1, _ :: rest => unstyledFrom k rest
  | 0, c :: rest =>
    match renditionLength (c :: rest) with
    | 0 => c :: unstyledFrom 0 rest
    | k + 1 => unstyledFrom k rest

/-- The text without the control sequences in it that select renditions. -/
def unstyled (t : Text) : Text :=
  unstyledFrom 0 t

theorem unstyledFrom_length (part rest : Text) :
    unstyledFrom part.length (part ++ rest) = unstyled rest := by
  induction part with
  | nil => rfl
  | cons c part ih => exact ih

theorem renditionLength_select {code : Text} (hcode : ∀ c ∈ code, isParameter c = true) (rest : Text) :
    renditionLength (select code ++ rest) = (select code).length := by
  have hend : ∀ c ∈ ('m' :: rest).head?, isParameter c = false := by simp [isParameter]
  have htake := takeWhile_append_of_head hcode hend
  have hdrop := dropWhile_append_of_head hcode hend
  simp [select, renditionLength, htake, hdrop]

/-- A control sequence leaves nothing. -/
theorem unstyled_select {code : Text} (hcode : ∀ c ∈ code, isParameter c = true) (rest : Text) :
    unstyled (select code ++ rest) = unstyled rest := by
  have hlength := renditionLength_select hcode rest
  have hskip := unstyledFrom_length ('[' :: code ++ ['m']) rest
  rw [select, List.cons_append, List.cons_append] at hlength ⊢
  rw [unstyled, unstyledFrom, hlength]
  exact hskip

/-- Any character but an escape character stays. -/
theorem unstyled_cons {c : Char} (hc : c ≠ Char.ofNat 0x1B) (rest : Text) :
    unstyled (c :: rest) = c :: unstyled rest := by
  have hlength : renditionLength (c :: rest) = 0 := by
    cases rest <;> simp [renditionLength, hc]
  rw [unstyled, unstyledFrom, hlength]
  rfl

/-! ### Styled texts -/

/-- The first text is the second one with control sequences put in. -/
inductive IsStyled : Text → Text → Prop
  /-- Nothing is put into the empty text. -/
  | nil : IsStyled [] []
  /-- A character of the text. -/
  | char (c : Char) {s t : Text} (h : IsStyled s t) : IsStyled (c :: s) (c :: t)
  /-- A control sequence. -/
  | select {code : Text} (hcode : ∀ c ∈ code, isParameter c = true) {s t : Text} (h : IsStyled s t) :
    IsStyled (select code ++ s) t

/-- Without its control sequences, a styled text is the text itself. -/
theorem unstyled_of_isStyled {s t : Text} (h : IsStyled s t) (ht : Char.ofNat 0x1B ∉ t) :
    unstyled s = t := by
  induction h with
  | nil => rfl
  | char c _ ih =>
    obtain ⟨hc, ht⟩ := not_or.1 (List.mem_cons.not.1 ht)
    rw [unstyled_cons (Ne.symm hc), ih ht]
  | select hcode _ ih => rw [unstyled_select hcode, ih ht]

namespace IsStyled

variable {s t s' t' : Text}

theorem refl (t : Text) : IsStyled t t := by
  induction t with
  | nil => exact nil
  | cons c t ih => exact char c ih

theorem append (h : IsStyled s t) (h' : IsStyled s' t') : IsStyled (s ++ s') (t ++ t') := by
  induction h with
  | nil => exact h'
  | char c _ ih => exact char c ih
  | select hcode _ ih =>
    rw [List.append_assoc]
    exact select hcode ih

/-- A text between two control sequences. -/
theorem between {first last : Text} (hfirst : ∀ c ∈ first, isParameter c = true)
    (hlast : ∀ c ∈ last, isParameter c = true) (h : IsStyled s t) :
    IsStyled (Style.select first ++ s ++ Style.select last) t := by
  have hend : IsStyled (Style.select last) [] := by simpa using select hlast nil
  rw [List.append_assoc, ← List.append_nil t]
  exact select hfirst (h.append hend)

theorem flatMap {α : Type} {f g : α → Text} {xs : List α} (h : ∀ x ∈ xs, IsStyled (f x) (g x)) :
    IsStyled (xs.flatMap f) (xs.flatMap g) := by
  induction xs with
  | nil => exact nil
  | cons x xs ih =>
    obtain ⟨hx, hxs⟩ := List.forall_mem_cons.1 h
    rw [List.flatMap_cons, List.flatMap_cons]
    exact hx.append (ih hxs)

/-- Styled parts make a styled text. -/
theorem join {α : Type} (separator : Text) {f g : α → Text} {xs : List α}
    (h : ∀ x ∈ xs, IsStyled (f x) (g x)) :
    IsStyled (Text.join separator (xs.map f)) (Text.join separator (xs.map g)) := by
  cases xs with
  | nil => exact nil
  | cons x xs =>
    obtain ⟨hx, hxs⟩ := List.forall_mem_cons.1 h
    have hrest := flatMap fun x hmem => (refl separator).append (hxs x hmem)
    rw [Text.join, Text.join, List.map_cons, List.map_cons, intercalate_cons, intercalate_cons,
      List.flatMap_map, List.flatMap_map]
    exact hx.append hrest

end IsStyled

/-! ### Colors -/

/-- The digits of a number can stand in a control sequence. -/
theorem isParameter_of_mem_toDigits (n : Nat) : ∀ d ∈ Nat.toDigits 10 n, isParameter d = true := by
  intro d hd
  rw [isParameter, Nat.isDigit_of_mem_toDigits (by decide) (by decide) hd, Bool.true_or]

/-- The code of a color consists of numbers and semicolons. -/
theorem isParameter_of_mem_code (c : Color) : ∀ d ∈ c.code, isParameter d = true := by
  have hdigits := isParameter_of_mem_toDigits
  have hlead : ∀ d ∈ "38;2;".toList, isParameter d = true := List.all_eq_true.1 (by decide)
  have hsemicolon : ∀ d ∈ ";".toList, isParameter d = true := List.all_eq_true.1 (by decide)
  unfold Color.code
  simp only [List.forall_mem_append]
  exact ⟨⟨⟨⟨⟨hlead, hdigits c.red⟩, hsemicolon⟩, hdigits c.green⟩, hsemicolon⟩, hdigits c.blue⟩

variable {s t : Text} (on : Bool)

theorem isStyled_bold (h : IsStyled s t) : IsStyled (bold on s) t := by
  have hfirst : ∀ c ∈ "1".toList, isParameter c = true := List.all_eq_true.1 (by decide)
  have hlast : ∀ c ∈ "0".toList, isParameter c = true := List.all_eq_true.1 (by decide)
  cases on with
  | false => exact h
  | true => exact h.between hfirst hlast

theorem isStyled_colored (c : Color) (h : IsStyled s t) : IsStyled (colored on c s) t := by
  have hlast : ∀ c ∈ "39".toList, isParameter c = true := List.all_eq_true.1 (by decide)
  cases on with
  | false => exact h
  | true => exact h.between (isParameter_of_mem_code c) hlast

theorem isStyled_symbolText (s : Symbol) : IsStyled (symbolText on s) (symbolText false s) := by
  cases s with
  | var v => exact isStyled_bold on (isStyled_colored on accent (.refl v.name))
  | connective c => exact isStyled_colored on warm (.refl [c.glyph])
  | opening | closing | space t | other t => exact .refl _

/-- A formula is styled as it is shown without colors. -/
theorem isStyled_formulaText (formula : Text) :
    IsStyled (formulaText on formula) (formulaText false formula) :=
  .flatMap fun s _ => isStyled_symbolText on s

end Sentential.Style
