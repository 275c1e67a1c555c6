import Mathlib.Tactic.Common
import Sentential.Proofs.ReadBack
import Sentential.Proofs.RoundTrip
import Sentential.Proofs.UniqueReading

/-!
# When a sentence makes the round trip

A sentence that can be formalized is rendered with its own legend.  The rendered sentence need not be
formalized to the same formula: a clause may keep an *ou* at its end, and the comma behind a condition,
or the next connective, puts something behind it.

The round trip gives the same formula exactly if each connective of the rendered sentence is one that
was put there (`Formalization.KeepsConnectives`), and each literal is read with its sign and its variable
(`Formalization.KeepsLiterals`).  That it is necessary rests on two facts: formulas that are displayed
alike are alike (`Formula.IsRooted.eq_of_display_eq`), and a sentence cannot be cut elsewhere into the
same rows (`keepsConnectives_of_namedFrame_eq`).
-/

namespace Sentential

open Text

/-! ### The round trip -/

namespace Formalization

/-- The formula of a formalization, with the words of its literals in their place. -/
def wordFrame (r : Formalization) (isVerb : VerbDetector) : Frame (List (List (List Text))) :=
  r.formula.frame.mapLiterals (literalWords isVerb r.legend.clauseFor)

/-- The connectives of the rendered sentence are those that were put there. -/
def KeepsConnectives (r : Formalization) (isVerb : VerbDetector) : Prop :=
  (r.wordFrame isVerb).KeepsConnectives

/-- The words of each literal are read with its sign and its variable. -/
structure KeepsLiterals (r : Formalization) (isVerb : VerbDetector) : Prop where
  /-- The sign is read, and a clause is left. -/
  signs : ∀ l ∈ r.formula.frame.literals,
    (literalAt (literalWords isVerb r.legend.clauseFor l)).negated = l.1 ∧
      (literalAt (literalWords isVerb r.legend.clauseFor l)).clause ≠ []
  /-- Literals are read over the same clause if they are over the same variable, and only then. -/
  clauses : ∀ l ∈ r.formula.frame.literals, ∀ l' ∈ r.formula.frame.literals,
    (literalAt (literalWords isVerb r.legend.clauseFor l)).clause.trim.lower =
      (literalAt (literalWords isVerb r.legend.clauseFor l')).clause.trim.lower ↔ l.2 = l'.2

/-- Rendering a formalization with its own legend gives a sentence that is formalized to a formula
which is displayed alike. -/
def RoundTrips (r : Formalization) (isVerb : VerbDetector) : Prop :=
  ∃ rendering r', render isVerb r.formula.display (.ofTable r.legend.get?) () = (.ok rendering, ()) ∧
    formalize rendering.sentence = .ok r' ∧ r'.formula.display = r.formula.display

end Formalization

/-- The variables of the literals are the first ones. -/
theorem distinct_literals_namedFrame (sides : Frame (List Token)) :
    Variable.distinct ((namedFrame sides).literals.map Prod.snd) =
      firstVariables (formalizationOf sides).legend.size := by
  rw [← atoms_frame, ← formula_formalizationOf, distinct_atoms_formula, vars_legend]

section Sentence

variable {sentence : Text} {sides : Frame (List Token)}
  (hsides : sidesOf? (tokenize sentence) = some sides)
  (hread : ∀ side ∈ sides.members, ReadableRows (sideRows side)) (isVerb : VerbDetector)

include hread in
theorem wordFrame_formalizationOf :
    (formalizationOf sides).wordFrame isVerb =
      (namedFrame sides).mapLiterals (backWords isVerb sides) := by
  rw [Formalization.wordFrame, frame_formalizationOf hread]
  rfl

include hsides hread

theorem fitsSide_of_mem_wordFrame :
    ∀ rows ∈ ((formalizationOf sides).wordFrame isVerb).members, FitsSide rows := by
  rw [wordFrame_formalizationOf hread, mapLiterals_namedFrame, Frame.members_map, List.forall_mem_map]
  exact fun side hside => fitsSide_backRows hsides hread isVerb hside

/-- The rendered sentence is the one of the words of the literals. -/
theorem roundTrips_formalizationOf_iff :
    (formalizationOf sides).RoundTrips isVerb ↔
      ∃ r, formalize (unwords ((formalizationOf sides).wordFrame isVerb).words) = .ok r ∧
        r.formula.display = (formalizationOf sides).formula.display := by
  have hwords : spoken ((formalizationOf sides).formula.reading isVerb
      (formalizationOf sides).legend.clauseFor) =
        ((formalizationOf sides).wordFrame isVerb).words := by
    rw [wordFrame_formalizationOf hread, formula_formalizationOf, spoken_reading]
    rfl
  have hrender := render_formalizationOf hsides hread isVerb
  rw [hwords] at hrender
  constructor
  · rintro ⟨rendering, r, hrendering, hformalize, hdisplay⟩
    rw [hrender] at hrendering
    obtain rfl := Except.ok.inj (congrArg Prod.fst hrendering)
    exact ⟨r, hformalize, hdisplay⟩
  · rintro ⟨r, hformalize, hdisplay⟩
    exact ⟨_, r, hrender, hformalize, hdisplay⟩

/-- Where connectives and literals are kept, so is the formula. -/
theorem roundTrips_of_keeps (hconnectives : (formalizationOf sides).KeepsConnectives isVerb)
    (hliterals : (formalizationOf sides).KeepsLiterals isVerb) :
    (formalizationOf sides).RoundTrips isVerb := by
  obtain ⟨hsigns, hclauses⟩ := hliterals
  have hfits := fitsSide_of_mem_wordFrame hsides hread isVerb
  rw [frame_formalizationOf hread] at hsigns hclauses
  rw [Formalization.KeepsConnectives, wordFrame_formalizationOf hread] at hconnectives
  rw [wordFrame_formalizationOf hread] at hfits
  rw [roundTrips_formalizationOf_iff hsides hread, wordFrame_formalizationOf hread,
    formalize_words hconnectives hfits hsigns hclauses (distinct_literals_namedFrame sides)]
  exact ⟨_, rfl, by rw [formula_formalizationOf]⟩

/-- Where the formula is kept, so are connectives and literals. -/
theorem keeps_of_roundTrips (h : (formalizationOf sides).RoundTrips isVerb) :
    (formalizationOf sides).KeepsConnectives isVerb ∧
      (formalizationOf sides).KeepsLiterals isVerb := by
  have hfits := fitsSide_of_mem_wordFrame hsides hread isVerb
  obtain ⟨r, hformalize, hdisplay⟩ := (roundTrips_formalizationOf_iff hsides hread isVerb).1 h
  obtain ⟨sides', hsides', hread', rfl⟩ := formalize_eq_ok_iff.1 hformalize
  rw [trim_unwords (Frame.isWords_words hfits)] at hsides'
  have hformula : (formalizationOf sides').formula = (formalizationOf sides).formula :=
    (isFlat_formula hread').isRooted.eq_of_display_eq (isFlat_formula hread).isRooted hdisplay
  have hsame : namedFrame sides' = namedFrame sides := by
    rw [← frame_formalizationOf hread', hformula, frame_formalizationOf hread]
  have hkeeps : (formalizationOf sides).KeepsConnectives isVerb := by
    rw [wordFrame_formalizationOf hread, mapLiterals_namedFrame] at hsides'
    rw [Formalization.KeepsConnectives, wordFrame_formalizationOf hread, mapLiterals_namedFrame]
    exact keepsConnectives_of_namedFrame_eq hsides hread hsides' hread' hsame
  refine ⟨hkeeps, ?_⟩
  -- the sides of the rendered sentence are those with which it was written
  obtain ⟨sides'', hsides'', hrows⟩ := Frame.KeepsConnectives.exists_sides hkeeps hfits
  obtain rfl : sides'' = sides' := Option.some.inj (hsides''.symm.trans hsides')
  rw [Formalization.wordFrame, Frame.mapLiterals_mapLiterals, frame_formalizationOf hread] at hrows
  have hclausesIn := clausesIn_of_sideRows hrows
  rw [namedFrame_of_sideRows hrows, Frame.mapLiterals_eq_self_iff] at hsame
  have hmem : ∀ l ∈ (namedFrame sides).literals,
      (literalAt (literalWords isVerb (formalizationOf sides).legend.clauseFor l)).clause ∈
        clausesIn sides'' := by
    rw [hclausesIn]
    exact fun l hl => List.mem_map_of_mem hl
  refine ⟨fun l hl => ⟨?_, ?_⟩, fun l hl l' hl' => ?_⟩
  · rw [frame_formalizationOf hread] at hl
    exact congrArg Prod.fst (hsame l hl)
  · rw [frame_formalizationOf hread] at hl
    exact (clause_ne_nil_and_trim hsides' hread' (hmem l hl)).1
  · rw [frame_formalizationOf hread] at hl hl'
    have hvar := congrArg Prod.snd (hsame l hl)
    have hvar' := congrArg Prod.snd (hsame l' hl')
    rw [← hvar, ← hvar']
    exact (naming_eq_iff (hmem l hl)).symm

end Sentence

/-- A sentence that can be formalized makes the round trip exactly if the rendered sentence keeps its
connectives and its literals. -/
theorem roundTrips_iff_keeps {sentence : Text} {r : Formalization} (h : formalize sentence = .ok r)
    (isVerb : VerbDetector) :
    r.RoundTrips isVerb ↔ r.KeepsConnectives isVerb ∧ r.KeepsLiterals isVerb := by
  obtain ⟨sides, hsides, hread, rfl⟩ := formalize_eq_ok_iff.1 h
  constructor
  · exact keeps_of_roundTrips hsides hread isVerb
  · rintro ⟨hconnectives, hliterals⟩
    exact roundTrips_of_keeps hsides hread isVerb hconnectives hliterals

/-- A conditional that makes the round trip, although *não* moves. -/
theorem exists_keeps_conditional :
    ∃ r, formalize "se chove ou João não dorme então Maria estuda e chove".toList = .ok r ∧
      r.RoundTrips VerbLexicon.standard.isVerb ∧ r.KeepsConnectives VerbLexicon.standard.isVerb ∧
        r.KeepsLiterals VerbLexicon.standard.isVerb := by
  let p := Variable.nth 0
  let q := Variable.nth 1
  let s := Variable.nth 2
  let r : Formalization :=
    ⟨.imp (.disj [.atom p, .neg (.atom q)]) (.conj [.atom s, .atom p]),
      ⟨[⟨p, "chove".toList⟩, ⟨q, "João dorme".toList⟩, ⟨s, "Maria estuda".toList⟩]⟩⟩
  have hread : formalize "se chove ou João não dorme então Maria estuda e chove".toList = .ok r := by
    decide +kernel
  have hrender : render VerbLexicon.standard.isVerb r.formula.display (.ofTable r.legend.get?) () =
      (.ok ⟨"Se chove ou João dorme não, então Maria estuda e chove".toList, r.legend.entries⟩, ()) := by
    decide +kernel
  have hagain : formalize "Se chove ou João dorme não, então Maria estuda e chove".toList = .ok r := by
    decide +kernel
  have hround : r.RoundTrips VerbLexicon.standard.isVerb := ⟨_, r, hrender, hagain, rfl⟩
  exact ⟨r, hread, hround, (roundTrips_iff_keeps hread _).1 hround⟩

/-- Not all sentences make the round trip: the comma behind a condition that ends in an *ou* makes an
inner *ou* of it, and nothing is left behind it. -/
theorem not_forall_roundTrips :
    ¬ ∀ sentence r, formalize sentence = .ok r → r.RoundTrips VerbLexicon.standard.isVerb := by
  intro h
  let p := Variable.nth 0
  let q := Variable.nth 1
  let r : Formalization :=
    ⟨.imp (.atom p) (.atom q), ⟨[⟨p, "chove ou".toList⟩, ⟨q, "neva".toList⟩]⟩⟩
  have hread : formalize "se chove ou então neva".toList = .ok r := by decide +kernel
  have hrender : render VerbLexicon.standard.isVerb r.formula.display (.ofTable r.legend.get?) () =
      (.ok ⟨"Se chove ou, então neva".toList, r.legend.entries⟩, ()) := by
    decide +kernel
  obtain ⟨rendering, r', hrendering, hagain, -⟩ := h _ _ hread
  rw [hrender] at hrendering
  obtain rfl := Except.ok.inj (congrArg Prod.fst hrendering)
  have hfails : formalize "Se chove ou, então neva".toList = .error (.emptyClause [',']) := by
    decide +kernel
  rw [hfails] at hagain
  cases hagain

end Sentential
