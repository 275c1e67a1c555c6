import Mathlib.Tactic.Common
import Sentential.Proofs.LiteralScalars

/-!
# How texts are written

The style in which a text is written is one in which it can be read back.  All that is written is shown as
it is, and a key that needs no question mark takes one line and few bytes.
-/

namespace Sentential.Yaml

variable {c : Char} {t : Text} {indent : Nat}

/-! ### Styles -/

/-- What makes a style fit for a text. -/
def Fits : Style → Text → Prop
  | .plain, t => IsPlain t ∧ plainAllowed t = true ∧ plainValue t = .text t
  | .singleQuoted, t => IsQuotable t
  | .doubleQuoted, _ => True
  | .literal, t => t ≠ [] ∧ ∀ c ∈ t, isPrintable c = true

theorem eq_of_plainValue_eq_text {u : Text} (h : plainValue t = .text u) : u = t := by
  unfold plainValue at h
  repeat' split at h
  all_goals cases h
  rfl

theorem plainValue_of_readsAsText (h : readsAsText t = true) : plainValue t = .text t := by
  simp only [readsAsText, Bool.and_eq_true] at h
  obtain ⟨-, h⟩ := h
  split at h
  · next u hu => rw [hu, eq_of_plainValue_eq_text hu]
  · cases h

/-- A text without escapes is shown as it is. -/
theorem isPrintable_of_needsEscape (h : needsEscape t = false) : ∀ c ∈ t, isPrintable c = true := by
  simp only [needsEscape, Bool.or_eq_false_iff, List.any_eq_false, Bool.not_eq_true',
    Bool.not_eq_false] at h
  exact h.1

/-- A text is written in a style that fits. -/
theorem fits_styleOf (t : Text) : Fits (styleOf t) t := by
  unfold styleOf
  split_ifs with hfeed hliteral hplain hsingle
  · -- literal
    simp only [literalAllowed, Bool.not_eq_true', Bool.or_eq_false_iff] at hliteral
    exact ⟨List.ne_nil_of_mem hfeed, isPrintable_of_needsEscape hliteral.1⟩
  · trivial
  · -- plain
    simp only [Bool.and_eq_true] at hplain
    have hvalue := plainValue_of_readsAsText hplain.1
    have hne : t ≠ [] := by
      rintro rfl
      cases hvalue
    exact ⟨isPlain_of_plainAllowed hplain.2 hne, hplain.2, hvalue⟩
  · -- between single quotes
    simp only [singleQuotedAllowed, Bool.not_eq_true', Bool.or_eq_false_iff] at hsingle
    have hescape := hsingle.1
    simp only [needsEscape, Bool.or_eq_false_iff] at hescape
    exact ⟨isPrintable_of_needsEscape hsingle.1, hfeed, hescape.2, hsingle.2⟩
  · trivial

/-- A text on one line is not written line by line. -/
theorem styleOf_ne_literal (h : IsOneLine t) : styleOf t ≠ .literal := by
  have hfeed : '\n' ∉ t := fun hmem => absurd (h _ hmem) (by decide)
  unfold styleOf
  rw [if_neg hfeed]
  split_ifs <;> decide

/-- The line behind a scalar is ended, unless its text has done so. -/
theorem endLine_eq (t : Text) :
    endLine t = if styleOf t = .literal then lineEnd t else ['\n'] := by
  by_cases h : styleOf t = .literal <;> simp [endLine, lineEnd, h]

/-! ### Characters -/

/-- What is put into lines is spaces and the characters of the text. -/
theorem mem_indentLines {atStart : Bool} (h : c ∈ indentLines indent atStart t) : c = ' ' ∨ c ∈ t := by
  induction t generalizing atStart with
  | nil => cases h
  | cons d t ih =>
    rw [indentLines] at h
    split at h
    · rcases List.mem_cons.1 h with rfl | h
      · exact .inr List.mem_cons_self
      · exact (ih h).imp_right (List.mem_cons_of_mem d)
    · rcases List.mem_append.1 h with h | h
      · split at h
        · exact .inl (List.eq_of_mem_replicate h)
        · cases h
      · rcases List.mem_cons.1 h with rfl | h
        · exact .inr List.mem_cons_self
        · exact (ih h).imp_right (List.mem_cons_of_mem d)

/-- What is put between single quotes is spaces, quotes and the characters of the text. -/
theorem mem_singleQuoted (h : c ∈ singleQuoted indent t) : c = ' ' ∨ c = quote ∨ c ∈ t := by
  rw [singleQuoted_eq, quotedBody] at h
  simp only [List.mem_cons, List.mem_append, List.not_mem_nil, or_false] at h
  rcases h with rfl | (h | h) | rfl
  · exact .inr (.inl rfl)
  · rcases mem_indentLines h with rfl | h
    · exact .inl rfl
    · obtain ⟨d, hd, hc⟩ := List.mem_flatMap.1 h
      split at hc
      · exact .inr (.inl (by simpa using hc))
      · obtain rfl : c = d := by simpa using hc
        exact .inr (.inr hd)
  · split at h
    · exact .inl (List.eq_of_mem_replicate h)
    · cases h
  · exact .inr (.inl rfl)

/-- What is put between double quotes is shown within a line. -/
theorem isPrintable_of_mem_doubleQuoted (h : c ∈ doubleQuoted t) :
    isPrintable c = true ∧ isBreak c = false := by
  rw [doubleQuoted_eq] at h
  simp only [List.mem_cons, List.mem_append, List.mem_flatMap, List.not_mem_nil, or_false] at h
  rcases h with rfl | ⟨d, -, h⟩ | rfl
  · decide
  · unfold doubleQuotedChar at h
    split_ifs at h with hspecial
    · obtain ⟨letter, digits, hescape⟩ := exists_isEscape d
      rw [hescape.escaped_eq] at h
      rcases List.mem_cons.1 h with rfl | h
      · decide
      · have hbyte := hescape.isByte c h
        exact ⟨hbyte.1, hbyte.2.1⟩
    · obtain rfl : c = d := by simpa using h
      simp only [Bool.or_eq_true, Bool.not_eq_true', not_or, Bool.not_eq_false,
        Bool.not_eq_true] at hspecial
      exact hspecial.1.1
  · decide

/-- What is written line by line is the header, spaces, line feeds and the characters of the text. -/
theorem isPrintable_of_mem_literal (ht : ∀ c ∈ t, isPrintable c = true) (h : c ∈ literal indent t) :
    isPrintable c = true := by
  have hsign : (chompingSign t).all isPrintable = true := by
    unfold chompingSign
    split
    · decide
    · split_ifs <;> decide
  have hhint :
      (if t.head?.any (fun c => c = ' ' || isBreak c) then ['2'] else []).all isPrintable = true := by
    split_ifs <;> decide
  simp only [literal, List.cons_append, List.append_assoc, List.mem_cons, List.mem_append,
    List.not_mem_nil, false_or] at h
  rcases h with rfl | h | h | rfl | h
  · decide
  · exact List.all_eq_true.1 hhint c h
  · exact List.all_eq_true.1 hsign c h
  · decide
  · rcases mem_indentLines h with rfl | h
    · decide
    · exact ht c h

/-- What is written of a scalar is shown as it is. -/
theorem isPrintable_of_mem_scalar (h : c ∈ scalar indent t) : isPrintable c = true := by
  have hfits := fits_styleOf t
  unfold scalar at h
  cases hstyle : styleOf t with
  | plain =>
    rw [hstyle] at h hfits
    obtain ⟨-, -, -, -, hescape⟩ := plainAllowed_iff.1 hfits.2.1
    exact isPrintable_of_needsEscape hescape c h
  | singleQuoted =>
    rw [hstyle] at h hfits
    rcases mem_singleQuoted h with rfl | rfl | h
    · decide
    · decide
    · exact hfits.printable c h
  | doubleQuoted =>
    rw [hstyle] at h
    exact (isPrintable_of_mem_doubleQuoted h).1
  | literal =>
    rw [hstyle] at h hfits
    exact isPrintable_of_mem_literal hfits.2 h

/-- What is shown as it is may stand in a stream. -/
theorem isAllowed_of_isPrintable (h : isPrintable c = true) : isAllowed c = true := by
  simp only [isPrintable, isAllowed, Bool.or_eq_true, Bool.and_eq_true, beq_iff_eq,
    decide_eq_true_eq] at h ⊢
  omega

/-! ### Keys -/

/-- A text on one line is written on one line. -/
theorem isOneLine_scalar (h : IsOneLine t) (indent : Nat) : IsOneLine (scalar indent t) := by
  intro c hc
  unfold scalar at hc
  cases hstyle : styleOf t with
  | plain =>
    rw [hstyle] at hc
    exact h c hc
  | singleQuoted =>
    rw [hstyle] at hc
    rcases mem_singleQuoted hc with rfl | rfl | hc
    · decide
    · decide
    · exact h c hc
  | doubleQuoted =>
    rw [hstyle] at hc
    exact (isPrintable_of_mem_doubleQuoted hc).2
  | literal => exact absurd hstyle (styleOf_ne_literal h)

/-- If every character becomes at most `n` times as long, so does a text. -/
theorem byteLength_flatMap_le {f : Char → Text} {n : Nat}
    (h : ∀ c, (f c).byteLength ≤ n * c.utf8Size) (t : Text) :
    Text.byteLength (t.flatMap f) ≤ n * t.byteLength := by
  induction t with
  | nil => exact Nat.zero_le _
  | cons c t ih =>
    have hc := h c
    rw [List.flatMap_cons, byteLength_append, Text.byteLength, Nat.mul_add]
    omega

theorem byteLength_of_isByte (h : ∀ c ∈ t, IsByte c) : t.byteLength = t.length := by
  induction t with
  | nil => rfl
  | cons c t ih =>
    obtain ⟨⟨-, -, hc⟩, ht⟩ := List.forall_mem_cons.1 h
    rw [Text.byteLength, ih ht, hc, List.length_cons, Nat.add_comm]

theorem byteLength_doubleQuotedChar_le (c : Char) :
    Text.byteLength (doubleQuotedChar c) ≤ 4 * c.utf8Size := by
  unfold doubleQuotedChar
  split_ifs
  · obtain ⟨letter, digits, h⟩ := exists_isEscape c
    have hbyte : ∀ d ∈ '\\' :: letter :: digits, IsByte d :=
      List.forall_mem_cons.2 ⟨by decide, h.isByte⟩
    rw [h.escaped_eq, byteLength_of_isByte hbyte]
    exact h.length_le
  · simp only [Text.byteLength]
    omega

/-- Between single quotes a text on one line is indented nowhere. -/
theorem quotedBody_of_isOneLine (h : IsOneLine t) (indent : Nat) :
    quotedBody indent t = t.flatMap fun c => if c = quote then [quote, quote] else [c] := by
  induction t with
  | nil => rfl
  | cons c t ih =>
    obtain ⟨hc, ht⟩ := isOneLine_cons.1 h
    rw [quotedBody_cons hc, ih ht, List.flatMap_cons]

/-- A text on one line is written with few bytes. -/
theorem byteLength_scalar_le (h : IsOneLine t) (indent : Nat) :
    Text.byteLength (scalar indent t) ≤ 4 * t.byteLength + 2 := by
  unfold scalar
  cases hstyle : styleOf t with
  | plain =>
    dsimp only
    omega
  | singleQuoted =>
    have hdoubled := byteLength_flatMap_le (f := fun c => if c = quote then [quote, quote] else [c])
      (n := 2) (fun c => by
        split_ifs with hc
        · rw [hc]
          decide
        · simp only [Text.byteLength]
          omega) t
    have hquote : quote.utf8Size = 1 := rfl
    simp only [singleQuoted_eq, quotedBody_of_isOneLine h, byteLength_append, Text.byteLength, hquote]
    omega
  | doubleQuoted =>
    have hescaped := byteLength_flatMap_le byteLength_doubleQuotedChar_le t
    have hquote : Char.utf8Size '"' = 1 := rfl
    simp only [doubleQuoted_eq, byteLength_append, Text.byteLength, hquote]
    omega
  | literal => exact absurd hstyle (styleOf_ne_literal h)

end Sentential.Yaml
