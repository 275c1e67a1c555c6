import Mathlib.Data.List.Basic
import Mathlib.Tactic.Common
import Sentential.Proofs.Naming
import Sentential.Proofs.Sides
import Sentential.Sentence.Formalization

/-!
# What a sentence is formalized to

A sentence is formalized exactly if it can be cut into sides whose rows can be read
(`formalize_eq_ok_iff`).  Its formula and its legend are then known from the literals of its sides:
the formula is flat, and the legend lists the different clauses in the order in which they stand in
the sentence.
-/

namespace Sentential

/-- The clauses of the sides of a sentence, from left to right. -/
def clausesIn (sides : Frame (List Token)) : List Text :=
  sides.members.flatMap fun side => (sideRows side).flatten.map Literal.clause

/-- The formula of rows of literals whose clauses have got variables. -/
def namedRows (name : Text → Variable) (rows : List (List Literal)) : Formula Variable :=
  Formula.ofRows (rows.map fun row => row.map fun l => (l.negated, name l.clause))

/-- What sides are formalized to: each clause is named, and the legend lists the different ones. -/
def formalizationOf (sides : Frame (List Token)) : Formalization where
  formula := (sides.map fun side => namedRows (naming (clausesIn sides)) (sideRows side)).formula
  legend := ⟨entriesFrom 0 (clausesOf (clausesIn sides))⟩

theorem atoms_rowsOutline (rows : List (List Literal)) :
    (rowsOutline rows).atoms = rows.flatten.map Literal.clause := by
  simp [rowsOutline, List.map_flatten, Literal.signed, Function.comp_def]

theorem map_rowsOutline (name : Text → Variable) (rows : List (List Literal)) :
    (rowsOutline rows).map name = namedRows name rows := by
  simp [rowsOutline, namedRows, Literal.signed, Function.comp_def]

theorem ofOutline_rowsOutline (sides : Frame (List Token)) :
    Formalization.ofOutline (sides.map fun side => rowsOutline (sideRows side)).formula =
      formalizationOf sides := by
  have hatoms : (sides.map fun side => rowsOutline (sideRows side)).formula.atoms =
      clausesIn sides := by
    simp [clausesIn, List.flatMap_map, atoms_rowsOutline]
  rw [ofOutline_eq, hatoms, formalizationOf]
  cases sides <;> simp [Frame.map, map_rowsOutline]

/-- A sentence without tokens cannot be read. -/
theorem not_readable_of_nil {sides : Frame (List Token)} (h : sidesOf? [] = some sides) :
    ¬ ∀ side ∈ sides.members, ReadableRows (sideRows side) := by
  obtain rfl : sides = .single [] := (Option.some.inj h).symm
  intro hread
  exact (hread [] (by simp [Frame.members])).1 rfl

/-- A sentence is formalized exactly if it can be cut into sides whose rows can be read. -/
theorem formalize_eq_ok_iff {sentence : Text} {r : Formalization} :
    formalize sentence = .ok r ↔
      ∃ sides, sidesOf? (tokenize sentence.trim) = some sides ∧
        (∀ side ∈ sides.members, ReadableRows (sideRows side)) ∧ r = formalizationOf sides := by
  unfold formalize
  by_cases hempty : sentence.trim = []
  · rw [hempty]
    constructor
    · nofun
    · rintro ⟨sides, hsides, hread, -⟩
      exact absurd hread (not_readable_of_nil hsides)
  · have hnot : ¬ (sentence.trim.isEmpty = true) := by simpa using hempty
    simp only [hnot]
    constructor
    · intro h
      cases hout : outline sentence.trim (tokenize sentence.trim) with
      | error e =>
        rw [hout] at h
        cases h
      | ok f =>
        rw [hout] at h
        obtain ⟨sides, hsides, hread, rfl⟩ := outline_eq_ok_iff.1 hout
        cases h
        exact ⟨sides, hsides, hread, ofOutline_rowsOutline sides⟩
    · rintro ⟨sides, hsides, hread, rfl⟩
      rw [← ofOutline_rowsOutline, outline_eq_ok_iff.2 ⟨sides, hsides, hread, rfl⟩]
      rfl

theorem mem_clauses {sides : Frame (List Token)} {side : List Token} (hside : side ∈ sides.members)
    {row : List Literal} (hrow : row ∈ sideRows side) {l : Literal} (hl : l ∈ row) :
    l.clause ∈ clausesIn sides := by
  refine List.mem_flatMap.2 ⟨side, hside, List.mem_map_of_mem ?_⟩
  exact List.mem_flatten.2 ⟨row, hrow, hl⟩

/-- The legend knows the variable of each clause of the sentence. -/
theorem variableFor?_legend {sides : Frame (List Token)} {c : Text} (hc : c ∈ clausesIn sides) :
    (formalizationOf sides).legend.variableFor? c = some (naming (clausesIn sides) c) := by
  have hmem : clauseKey c ∈ (clausesOf (clausesIn sides)).map clauseKey :=
    key_mem_firstsBy_iff.2 (List.mem_map_of_mem hc)
  rw [formalizationOf, variableFor?_entriesFrom, if_pos hmem, Nat.zero_add, naming]

/-! ### The rows of a formula -/

/-- The rows of a side of a sentence, with variables in place of clauses. -/
def signedRows (sides : Frame (List Token)) (side : List Token) : List (List (Bool × Variable)) :=
  (sideRows side).map fun row => row.map fun l => (l.negated, naming (clausesIn sides) l.clause)

/-- The rows of all sides of a sentence. -/
def namedFrame (sides : Frame (List Token)) : Frame (List (List (Bool × Variable))) :=
  sides.map (signedRows sides)

theorem formula_formalizationOf (sides : Frame (List Token)) :
    (formalizationOf sides).formula = ((namedFrame sides).map Formula.ofRows).formula := by
  cases sides <;> rfl

/-- No side is without rows, and no row without literals. -/
theorem ne_nil_of_mem_namedFrame {sides : Frame (List Token)}
    (hread : ∀ side ∈ sides.members, ReadableRows (sideRows side)) :
    ∀ rows ∈ (namedFrame sides).members, rows ≠ [] ∧ ∀ row ∈ rows, row ≠ [] := by
  intro rows hrows
  rw [namedFrame, Frame.members_map] at hrows
  obtain ⟨side, hside, rfl⟩ := List.mem_map.1 hrows
  obtain ⟨hne, hrow⟩ := hread side hside
  refine ⟨by simpa [signedRows] using hne, ?_⟩
  simp only [signedRows, List.forall_mem_map]
  exact fun row hmem => by simpa using (hrow row hmem).1

/-- The formula of a sentence is flat. -/
theorem isFlat_formula {sides : Frame (List Token)}
    (hread : ∀ side ∈ sides.members, ReadableRows (sideRows side)) :
    (formalizationOf sides).formula.IsFlat :=
  Formula.isFlat_iff.2
    ⟨namedFrame sides, ne_nil_of_mem_namedFrame hread, formula_formalizationOf sides⟩

/-- The rows of a formula are those of its sentence. -/
theorem frame_formalizationOf {sides : Frame (List Token)}
    (hread : ∀ side ∈ sides.members, ReadableRows (sideRows side)) :
    (formalizationOf sides).formula.frame = namedFrame sides := by
  rw [formula_formalizationOf, Formula.frame_formula (ne_nil_of_mem_namedFrame hread)]

end Sentential
