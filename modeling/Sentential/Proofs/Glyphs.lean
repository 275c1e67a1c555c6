import Mathlib.Data.List.Forall2
import Mathlib.Tactic.Common
import Sentential.Proofs.Asking
import Sentential.Proofs.Spellings
import Sentential.Style

/-!
# Connectives written as glyphs

Without colors, a styled formula has the glyph of each connective in place of its spelling, and is
otherwise the same text (`Style.formulaText false`).  What has been replaced could meet its neighbours
in a new way: a `-` that stood alone may now stand in front of something else.  But a glyph begins no
spelling but its own and stands inside none, so that whatever begins a spelling now has begun it before
(`IsReading.isPrefix_of_isPrefix_glyphs`), and the reading stays the same (`IsReading.glyphs`).

A formula that is written with glyphs is thus read piece by piece as before, where the pieces are those of
the formula with the connectives replaced (`Symbol.withGlyph`).  It has the same variables, and it is
rendered alike (`render_formulaText`).
-/

namespace Sentential

open Style (symbolText formulaText)

/-! ### Glyphs -/

/-- Whether a character is the glyph of a connective. -/
def IsGlyph (c : Char) : Prop :=
  ∃ conn : Connective, conn.glyph = c

theorem isDigit_eq_false_of_isGlyph {c : Char} (h : IsGlyph c) : c.isDigit = false := by
  obtain ⟨conn, rfl⟩ := h
  cases conn <;> decide

theorem isSpace_eq_false_of_isGlyph {c : Char} (h : IsGlyph c) : isSpace c = false := by
  obtain ⟨conn, rfl⟩ := h
  cases conn <;> decide

theorem glyph_mem_spellings (c : Connective) : [c.glyph] ∈ c.spellings :=
  List.mem_cons_self ..

/-- A spelling is the glyph of its connective, or holds no glyph. -/
theorem eq_glyph_or_not_isGlyph {c : Connective} {w : Text} (hw : w ∈ c.spellings) :
    w = [c.glyph] ∨ ∀ d ∈ w, ¬ IsGlyph d := by
  have hascii : ∀ c ∈ Connective.all, ∀ w ∈ c.ascii, ∀ conn ∈ Connective.all, conn.glyph ∉ w := by
    decide
  rcases List.mem_cons.1 hw with hw | hw
  · exact .inl hw
  · refine .inr fun d hd => ?_
    rintro ⟨conn, rfl⟩
    exact hascii c (Connective.mem_all c) w hw conn (Connective.mem_all conn) hd

/-! ### The text with glyphs -/

/-- A piece of a formula with glyphs: a connective is written as its glyph, and everything else is kept as it
is spelled. -/
def Symbol.withGlyph : Symbol → Text → Text
  | connective c, _ => [c.glyph]
  | _, w => w

/-- Without colors, a symbol is shown as its piece. -/
theorem Symbol.Spells.symbolText_eq {s : Symbol} {w : Text} (h : s.Spells w) :
    symbolText false s = s.withGlyph w := by
  cases h <;> rfl

/-- What is written for a symbol is its spelling, or a glyph. -/
theorem Symbol.withGlyph_eq (s : Symbol) (w : Text) :
    s.withGlyph w = w ∨ ∃ c : Connective, s.withGlyph w = [c.glyph] := by
  cases s with
  | connective c => exact .inr ⟨c, rfl⟩
  | var | opening | closing | space | other => exact .inl rfl

/-- A symbol can be spelled as it is shown. -/
theorem Symbol.Spells.symbolText {s : Symbol} {w : Text} (h : s.Spells w) :
    s.Spells (symbolText false s) := by
  cases h with
  | connective hw => exact .connective (glyph_mem_spellings _)
  | var v => exact .var v
  | opening => exact .opening
  | closing => exact .closing
  | space => exact .space w
  | other => exact .other w

section Readings

variable {formula w : Text} {s : Symbol} {ss : List Symbol} {ws : List Text}

/-- What begins the text with glyphs, and holds none, begins the text itself. -/
theorem IsReading.isPrefix_of_isPrefix_glyphs (h : IsReading formula ss ws) {u : Text}
    (hu : ∀ c ∈ u, ¬ IsGlyph c) (hstarts : u <+: ss.flatMap (symbolText false)) : u <+: formula := by
  induction h using IsReading.induction generalizing u with
  | nil => exact (List.prefix_nil.1 hstarts) ▸ List.nil_prefix
  | @cons formula w s ss ws hss hs _ ih =>
    rw [List.flatMap_cons] at hstarts
    rw [hs.symbolText_eq] at hstarts
    rcases s.withGlyph_eq w with hshown | ⟨c, hshown⟩ <;> rw [hshown] at hstarts
    · rcases List.prefix_or_prefix_of_prefix hstarts (List.prefix_append w _) with hshort | ⟨v, rfl⟩
      · exact hshort.trans (List.prefix_append w _)
      · have hv : v <+: ss.flatMap (Style.symbolText false) :=
          (List.prefix_append_right_inj w).1 hstarts
        exact (List.prefix_append_right_inj w).2
          (ih (fun c hc => hu c (List.mem_append_right w hc)) hv)
    · -- the glyph cannot belong to the beginning, so that this is empty
      cases u with
      | nil => exact List.nil_prefix
      | cons d u =>
        obtain ⟨rfl, -⟩ := List.cons_prefix_cons.1 hstarts
        exact absurd ⟨c, rfl⟩ (hu _ (List.mem_cons_self ..))

/-- The text with glyphs begins like the text itself, or with a glyph. -/
theorem IsReading.mem_head?_or_isGlyph (h : IsReading formula ss ws) {c : Char}
    (hc : c ∈ (ss.flatMap (symbolText false)).head?) : c ∈ formula.head? ∨ IsGlyph c := by
  by_cases hglyph : IsGlyph c
  · exact .inr hglyph
  · obtain ⟨tail, htail⟩ := List.head?_eq_some_iff.1 hc
    have hstarts : [c] <+: ss.flatMap (symbolText false) := ⟨tail, htail.symm⟩
    obtain ⟨rest, rfl⟩ := h.isPrefix_of_isPrefix_glyphs (by simpa using hglyph) hstarts
    exact .inl rfl

/-- A symbol goes as far as it can in front of glyphs as well. -/
theorem IsReading.isMaximal_glyphs (h : IsReading formula ss ws) (hs : s.Spells w)
    (hmax : s.IsMaximal w formula) :
    s.IsMaximal (symbolText false s) (ss.flatMap (symbolText false)) := by
  cases hs with
  | var v =>
    intro c hc
    rcases h.mem_head?_or_isGlyph hc with hc | hc
    · exact hmax c hc
    · exact isDigit_eq_false_of_isGlyph hc
  | connective hw => exact (Symbol.connectiveAt?_eq_some_iff.1 (connectiveAt?_glyph _ _)).2.2
  | opening | closing => trivial
  | space t =>
    obtain ⟨hne, hblank, hrest⟩ := hmax
    refine ⟨hne, hblank, fun c hc => ?_⟩
    rcases h.mem_head?_or_isGlyph hc with hc | hc
    · exact hrest c hc
    · exact isSpace_eq_false_of_isGlyph hc
  | other t =>
    obtain ⟨c, rfl, hspace, hopen, hclose, hupper, hnone⟩ := hmax
    refine ⟨c, rfl, hspace, hopen, hclose, hupper, fun d w hw hstarts => ?_⟩
    -- a spelling that begins with this character has begun with it before
    obtain ⟨first, tail, rfl, -⟩ := Connective.exists_cons_of_mem_spellings hw
    obtain ⟨rfl, htail⟩ := List.cons_prefix_cons.1 hstarts
    refine hnone d _ hw (List.cons_prefix_cons.2 ⟨rfl, ?_⟩)
    rcases eq_glyph_or_not_isGlyph hw with hglyph | hnot
    · obtain ⟨-, rfl⟩ := List.cons_eq_cons.1 hglyph
      exact List.nil_prefix
    · exact h.isPrefix_of_isPrefix_glyphs (List.forall_mem_cons.1 hnot).2 htail

/-- With glyphs, a text is read as the same symbols, piece by piece. -/
theorem IsReading.glyphs (h : IsReading formula ss ws) :
    IsReading (ss.flatMap (symbolText false)) ss (List.zipWith Symbol.withGlyph ss ws) := by
  induction h using IsReading.induction with
  | nil => exact isReading_nil
  | cons h hs hmax ih =>
    rw [List.flatMap_cons, List.zipWith_cons_cons, ← hs.symbolText_eq]
    exact ih.cons hs.symbolText (h.isMaximal_glyphs hs hmax)

end Readings

/-- A styled formula without colors is read as the formula. -/
theorem symbolsOf_formulaText (formula : Text) :
    symbolsOf (formulaText false formula) = symbolsOf formula := by
  obtain ⟨ws, hws⟩ := exists_isReading_symbolsOf formula
  exact hws.glyphs.symbolsOf_eq

/-! ### What depends on the symbols alone -/

/-- Only white space is spelled by white space. -/
theorem Symbol.Spells.isBlank_eq {s : Symbol} {w rest : Text} (hs : s.Spells w)
    (hmax : s.IsMaximal w rest) : w.isBlank = s.isWhite := by
  have hfirst {c : Char} (tail : Text) (hc : isSpace c = false) : Text.isBlank (c :: tail) = false := by
    simp [Text.isBlank, hc]
  cases hs with
  | var v => exact hfirst v.digits (isSpace_eq_false_of_isUpper v.letter_isUpper)
  | connective hw =>
    obtain ⟨c, tail, rfl, hc⟩ := Connective.exists_cons_of_mem_spellings hw
    exact hfirst tail hc
  | opening | closing => exact hfirst [] (by decide)
  | space t => exact hmax.2.1
  | other t =>
    obtain ⟨c, rfl, hc, -⟩ := hmax
    exact hfirst [] hc

/-- A text is blank exactly if all of its symbols are white space. -/
theorem isBlank_eq_all_isWhite (formula : Text) :
    formula.isBlank = (symbolsOf formula).all Symbol.isWhite := by
  obtain ⟨ws, hws⟩ := exists_isReading_symbolsOf formula
  generalize symbolsOf formula = ss at hws
  induction hws using IsReading.induction with
  | nil => rfl
  | cons _ hs hmax ih =>
    have hw := hs.isBlank_eq hmax
    rw [Text.isBlank] at hw ih ⊢
    rw [List.all_append, hw, ih, List.all_cons]

section Alike

variable {formula formula' : Text}

theorem variablesIn_congr (h : symbolsOf formula = symbolsOf formula') :
    variablesIn formula = variablesIn formula' := by
  rw [variablesIn, h, variablesIn]

theorem isBlank_congr (h : symbolsOf formula = symbolsOf formula') :
    formula.isBlank = formula'.isBlank := by
  rw [isBlank_eq_all_isWhite, h, isBlank_eq_all_isWhite]

theorem renderWith_congr (h : symbolsOf formula = symbolsOf formula') (isVerb : VerbDetector)
    (meanings : List Legend.Entry) :
    renderWith isVerb formula meanings = renderWith isVerb formula' meanings := by
  rw [renderWith, isBlank_congr h, h, renderWith]

/-- Formulas with the same symbols are rendered alike. -/
theorem render_congr (h : symbolsOf formula = symbolsOf formula') (isVerb : VerbDetector) {σ : Type}
    (ask : MeaningSource σ) (s : σ) :
    render isVerb formula ask s = render isVerb formula' ask s := by
  simp only [render, isBlank_congr h, variablesIn_congr h, renderWith_congr h]

end Alike

/-- A formula without colors is written piece by piece, each connective as its glyph and everything else as it
is spelled, and this changes no symbol of it.  So it cannot be done twice to any effect, it leaves the
variables as they are, and the formula is rendered alike: with the same sentence or the same failure, from
the same questions and with the same meanings. -/
theorem render_formulaText (formula : Text) :
    let glyphs := formulaText false formula
    (∃ ws, IsReading formula (symbolsOf formula) ws ∧
      IsReading glyphs (symbolsOf formula) (List.zipWith Symbol.withGlyph (symbolsOf formula) ws)) ∧
      symbolsOf glyphs = symbolsOf formula ∧ formulaText false glyphs = glyphs ∧
      variablesIn glyphs = variablesIn formula ∧
      (∀ (isVerb : VerbDetector) (meanings : List Legend.Entry),
        renderWith isVerb glyphs meanings = renderWith isVerb formula meanings) ∧
      ∀ (isVerb : VerbDetector) {σ : Type} (ask : MeaningSource σ) (s : σ),
        render isVerb glyphs ask s = render isVerb formula ask s ∧
          render isVerb glyphs ask.logging (s, []) = render isVerb formula ask.logging (s, []) := by
  intro glyphs
  have h : symbolsOf glyphs = symbolsOf formula := symbolsOf_formulaText formula
  obtain ⟨ws, hws⟩ := exists_isReading_symbolsOf formula
  refine ⟨⟨ws, hws, hws.glyphs⟩, h, ?_, variablesIn_congr h, renderWith_congr h, fun isVerb σ ask s =>
    ⟨render_congr h isVerb ask s, render_congr h isVerb ask.logging (s, [])⟩⟩
  rw [formulaText, h]
  rfl

end Sentential
