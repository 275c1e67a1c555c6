import Sentential.Proofs.Cuts
import Sentential.Proofs.Flat
import Sentential.Proofs.Tokens
import Sentential.Proofs.Words
import Sentential.Sentence.Outline

/-!
# When tokens have an outline

The tokens of a side are cut into parts and the parts into runs, and each run is read as a literal:
this gives the rows of the side (`sideRows`).  A side has an outline exactly if it has a row, no row
is empty and no literal has lost its clause, and then the outline is the formula of its rows
(`sideOutline_eq_ok_iff`).

The sentence that the tokens come from matters for the wording of errors only.
-/

namespace Sentential

theorem bind_eq_ok_iff {ε α β : Type} {x : Except ε α} {next : α → Except ε β} {y : β} :
    x >>= next = .ok y ↔ ∃ a, x = .ok a ∧ next a = .ok y := by
  cases x <;> simp [bind, Except.bind]

/-- Where two steps fail, the first one does, or the one after it. -/
theorem bind_eq_error {ε α β : Type} {x : Except ε α} {next : α → Except ε β} {e : ε}
    (h : x >>= next = .error e) : x = .error e ∨ ∃ y, x = .ok y ∧ next y = .error e := by
  cases x with
  | error e' => exact .inl (congrArg Except.error (Except.error.inj h))
  | ok y => exact .inr ⟨y, rfl, h⟩

/-- Where a reader succeeds on the readable inputs only, it succeeds on all members of a list exactly
if all of them are readable. -/
theorem mapM_eq_ok_iff {ε α β : Type} {read : α → Except ε β} {readable : α → Prop}
    {meaning : α → β} (hread : ∀ x y, read x = .ok y ↔ readable x ∧ y = meaning x)
    {xs : List α} {ys : List β} :
    xs.mapM read = .ok ys ↔ (∀ x ∈ xs, readable x) ∧ ys = xs.map meaning := by
  induction xs generalizing ys with
  | nil =>
    rw [List.mapM_nil]
    constructor
    · rintro ⟨⟩
      exact ⟨by simp, rfl⟩
    · rintro ⟨-, rfl⟩
      rfl
  | cons x xs ih =>
    rw [List.mapM_cons, List.forall_mem_cons, List.map_cons]
    simp only [bind_eq_ok_iff, hread, ih]
    constructor
    · rintro ⟨_, ⟨hx, rfl⟩, _, ⟨hxs, rfl⟩, ⟨⟩⟩
      exact ⟨⟨hx, hxs⟩, rfl⟩
    · rintro ⟨⟨hx, hxs⟩, rfl⟩
      exact ⟨_, ⟨hx, rfl⟩, _, ⟨hxs, rfl⟩, rfl⟩

/-! ### Rows -/

/-- The members of a list that are not empty. -/
def nonEmpty {α : Type} (parts : List (List α)) : List (List α) :=
  parts.filter fun part => !part.isEmpty

theorem mem_nonEmpty {α : Type} {parts : List (List α)} {part : List α} :
    part ∈ nonEmpty parts ↔ part ∈ parts ∧ part ≠ [] := by
  simp [nonEmpty]

theorem nonEmpty_append {α : Type} (parts parts' : List (List α)) :
    nonEmpty (parts ++ parts') = nonEmpty parts ++ nonEmpty parts' :=
  List.filter_append parts parts'

theorem nonEmpty_eq_self {α : Type} {parts : List (List α)} (h : ∀ part ∈ parts, part ≠ []) :
    nonEmpty parts = parts :=
  List.filter_eq_self.2 fun part hpart => by simpa using h part hpart

/-- What is read from the parts that are not empty stays the same if it does for the last part, when a
member is put behind the last one of all. -/
theorem map_nonEmpty_appendLast {α β : Type} {read : List α → β} {x z : α}
    (hread : ∀ part, read (part ++ [z] ++ [x]) = read (part ++ [z])) (parts : List (List α)) :
    (nonEmpty (appendLast x (appendLast z parts))).map read =
      (nonEmpty (appendLast z parts)).map read := by
  have hlast (part : List α) :
      (nonEmpty [part ++ [z] ++ [x]]).map read = (nonEmpty [part ++ [z]]).map read := by
    simpa [nonEmpty] using hread part
  induction parts with
  | nil => exact hlast []
  | cons part parts ih =>
    cases parts with
    | nil => exact hlast part
    | cons next parts =>
      have hsplit (rest : List (List α)) : (nonEmpty (part :: rest)).map read =
          (nonEmpty [part]).map read ++ (nonEmpty rest).map read := by
        rw [← List.singleton_append, nonEmpty_append, List.map_append]
      rw [appendLast_cons part (List.cons_ne_nil next parts),
        appendLast_cons part (appendLast_ne_nil z _), hsplit (appendLast x _),
        hsplit (appendLast z _), ih]

/-- The sign and the clause of a literal. -/
def Literal.signed (l : Literal) : Bool × Text :=
  (l.negated, l.clause)

/-- The literals of a part of a side. -/
def partRow (part : List Token) : List Literal :=
  (nonEmpty (cuts Token.isAnd part)).map literalOf

/-- The literals of a side, row by row. -/
def sideRows (side : List Token) : List (List Literal) :=
  (nonEmpty (innerCuts Token.isOr side)).map partRow

/-- Separators at the end of a list add no parts that are not empty. -/
theorem nonEmpty_cuts_append {α : Type} {separates : α → Bool} {tail : List α}
    (htail : ∀ x ∈ tail, separates x = true) (xs : List α) :
    nonEmpty (cuts separates (xs ++ tail)) = nonEmpty (cuts separates xs) := by
  induction tail generalizing xs with
  | nil => rw [List.append_nil]
  | cons s tail ih =>
    obtain ⟨hs, htail⟩ := List.forall_mem_cons.1 htail
    have hrest : nonEmpty (cuts separates tail) = [] := ih htail []
    rw [cuts_append_cons hs, nonEmpty_append, hrest, List.append_nil]

/-- Separators at the end of a part add no literal. -/
theorem partRow_append_separators {tail : List Token} (htail : ∀ t ∈ tail, t.isAnd = true)
    (part : List Token) : partRow (part ++ tail) = partRow part := by
  rw [partRow, nonEmpty_cuts_append htail, partRow]

/-- A row can be read if it has a literal, and each of its literals has a clause. -/
def ReadableRow (row : List Literal) : Prop :=
  row ≠ [] ∧ ∀ l ∈ row, l.clause ≠ []

/-- Rows can be read if there is one, and each of them can be read. -/
def ReadableRows (rows : List (List Literal)) : Prop :=
  rows ≠ [] ∧ ∀ row ∈ rows, ReadableRow row

/-- The outline that rows of literals stand for. -/
def rowsOutline (rows : List (List Literal)) : Formula Text :=
  Formula.ofRows (rows.map fun row => row.map Literal.signed)

/-! ### Clauses -/

/-- The tokens of the clause of a run, without its negation. -/
def clauseTokens (run : List Token) : List Token :=
  let core := stripPunctuation run
  (if opensNegated core then core.drop 1 else core).filter fun t => !t.isNot

theorem clause_literalOf (run : List Token) :
    (literalOf run).clause = joinTokens (clauseTokens run) := rfl

/-- The tokens of a clause are tokens of its run, in order. -/
theorem clauseTokens_sublist (run : List Token) : (clauseTokens run).Sublist run := by
  have hstrip : (stripPunctuation run).Sublist run :=
    (List.reverse_sublist.2 (List.dropWhile_sublist _)).trans
      (by rw [List.reverse_reverse]; exact List.dropWhile_sublist _)
  unfold clauseTokens
  refine List.filter_sublist.trans (.trans ?_ hstrip)
  split
  · exact List.drop_sublist 1 _
  · exact .refl _

theorem stripPunctuation_eq_dropEnds (run : List Token) :
    stripPunctuation run = dropEnds Token.isClausePunctuation run := rfl

/-- A run without punctuation at its ends, and without a negation sign in front, is negated exactly if
it has a negation word, and its clause is what remains without these. -/
theorem literalOf_eq {run : List Token} (hends : EndsWithout Token.isClausePunctuation run)
    (hhead : ∀ t ∈ run.head?, t.kind ≠ .negation) :
    literalOf run = ⟨run.any Token.isNot, joinTokens (run.filter fun t => !t.isNot)⟩ := by
  have hstrip : stripPunctuation run = run := dropEnds_eq_self hends
  rw [literalOf, hstrip]
  match run, hhead with
  | [], _ => rfl
  | [t], _ => simp [opensNegated]
  | t :: u :: rest, hhead =>
    have hkind : t.kind ≠ .negation := hhead t rfl
    -- if the first token opens a negation, it is a negation word
    cases hnot : t.isNot with
    | true => simp [opensNegated, hnot]
    | false => simp [opensNegated, hnot, hkind]

/-- Each literal of a side is read from a run of it, which holds no separator of a conjunction. -/
theorem exists_run_of_mem_sideRows {side : List Token} {row : List Literal}
    (hrow : row ∈ sideRows side) {l : Literal} (hl : l ∈ row) :
    ∃ run, run <:+: side ∧ (∀ t ∈ run, t.isAnd = false) ∧ l = literalOf run := by
  obtain ⟨part, hpart, rfl⟩ := List.mem_map.1 hrow
  obtain ⟨run, hrun, rfl⟩ := List.mem_map.1 hl
  have hcut := (mem_nonEmpty.1 hrun).1
  exact ⟨run, ((interleaved_cuts Token.isAnd part).isInfix_of_mem hcut).trans
    ((interleaved_innerCuts Token.isOr side).1.isInfix_of_mem (mem_nonEmpty.1 hpart).1),
    fun t ht => separates_eq_false_of_mem_cuts hcut ht, rfl⟩

/-! ### Outlines -/

theorem literalOf_nil : literalOf [] = ⟨false, []⟩ := rfl

theorem Literal.formula_eq (l : Literal) : l.formula = Formula.literal l.negated l.clause := rfl

/-- A run has an outline if its clause is not empty. -/
theorem runOutline_eq_ok_iff {source : Text} {run : List Token} {f : Formula Text} :
    runOutline source run = .ok f ↔
      (literalOf run).clause ≠ [] ∧ f = (literalOf run).formula := by
  unfold runOutline
  by_cases hclause : (literalOf run).clause = []
  · simp [hclause]
  · simpa [hclause] using eq_comm

/-- Something has to remain when the empty parts are dropped. -/
theorem dropEmpty_eq_ok_iff {source : Text} {whole : List Token}
    {parts kept : List (List Token)} :
    dropEmpty source whole parts = .ok kept ↔ nonEmpty parts ≠ [] ∧ kept = nonEmpty parts := by
  unfold dropEmpty
  change (if (nonEmpty parts).isEmpty then _ else Except.ok (nonEmpty parts)) = _ ↔ _
  by_cases hkept : nonEmpty parts = []
  · simp [hkept]
  · simpa [hkept] using eq_comm

/-- A group can be read exactly if some parts are not empty and each of those can be read. -/
theorem group_eq_ok_iff {source : Text} {whole : List Token} {parts : List (List Token)}
    {read : List Token → Except SentenceError (Formula Text)} {readable : List Token → Prop}
    {meaning : List Token → Formula Text} (group : List (Formula Text) → Formula Text)
    (hread : ∀ part g, read part = .ok g ↔ readable part ∧ g = meaning part) {f : Formula Text} :
    (do
      let kept ← dropEmpty source whole parts
      let fs ← kept.mapM read
      return group fs) = .ok f ↔
      (nonEmpty parts ≠ [] ∧ ∀ part ∈ nonEmpty parts, readable part) ∧
        f = group ((nonEmpty parts).map meaning) := by
  simp only [bind_eq_ok_iff, dropEmpty_eq_ok_iff, mapM_eq_ok_iff hread]
  constructor
  · rintro ⟨_, ⟨hne, rfl⟩, _, ⟨hall, rfl⟩, ⟨⟩⟩
    exact ⟨⟨hne, hall⟩, rfl⟩
  · rintro ⟨⟨hne, hall⟩, rfl⟩
    exact ⟨_, ⟨hne, rfl⟩, _, ⟨hall, rfl⟩, rfl⟩

/-- A single part that is not empty is what remains; an empty one leaves nothing. -/
theorem nonEmpty_singleton {α : Type} (part : List α) :
    nonEmpty [part] = if part = [] then [] else [part] := by
  cases part <;> rfl

/-- A part can be read exactly if its row can, and its formula is that of the row. -/
theorem partOutline_eq_ok_iff {source : Text} {part : List Token} {f : Formula Text} :
    partOutline source part = .ok f ↔
      ReadableRow (partRow part) ∧
        f = Formula.ofRow ((partRow part).map Literal.signed) := by
  have hrow : ReadableRow (partRow part) ↔ nonEmpty (cuts Token.isAnd part) ≠ [] ∧
      ∀ run ∈ nonEmpty (cuts Token.isAnd part), (literalOf run).clause ≠ [] := by
    simp [ReadableRow, partRow]
  have hmap : (partRow part).map Literal.signed =
      (nonEmpty (cuts Token.isAnd part)).map fun run => (literalOf run).signed := by
    simp [partRow]
  rw [hrow, hmap]
  unfold partOutline
  split
  · next run hcuts =>
    -- the run is the whole part, so that the part is empty exactly if nothing remains
    have hrun : run = part :=
      (hcuts ▸ interleaved_cuts Token.isAnd part : Interleaved [run] _ part).eq_of_single
    rw [hcuts, hrun, nonEmpty_singleton, runOutline_eq_ok_iff]
    by_cases hpart : part = []
    · simp [hpart, literalOf_nil]
    · simp [hpart, Formula.ofRow, Formula.conjunction, Literal.signed, Literal.formula_eq]
  · rw [group_eq_ok_iff Formula.conjunction fun _ _ => runOutline_eq_ok_iff]
    simp only [Formula.ofRow, List.map_map, Function.comp_def, Literal.signed, Literal.formula_eq]

/-- A side can be read exactly if its rows can, and its formula is that of the rows. -/
theorem sideOutline_eq_ok_iff {source : Text} {side : List Token} {f : Formula Text} :
    sideOutline source side = .ok f ↔
      ReadableRows (sideRows side) ∧ f = rowsOutline (sideRows side) := by
  have hrows : ReadableRows (sideRows side) ↔ nonEmpty (innerCuts Token.isOr side) ≠ [] ∧
      ∀ part ∈ nonEmpty (innerCuts Token.isOr side), ReadableRow (partRow part) := by
    simp [ReadableRows, sideRows]
  have hmap : rowsOutline (sideRows side) = Formula.disjunction
      ((nonEmpty (innerCuts Token.isOr side)).map fun part =>
        Formula.ofRow ((partRow part).map Literal.signed)) := by
    simp [rowsOutline, sideRows, Formula.ofRows, Function.comp_def]
  rw [hrows, hmap]
  unfold sideOutline
  split
  · next part hcuts =>
    have hpart : part = side :=
      (hcuts ▸ (interleaved_innerCuts Token.isOr side).1 : Interleaved [part] _ side).eq_of_single
    rw [hcuts, hpart, nonEmpty_singleton, partOutline_eq_ok_iff]
    by_cases hside : side = []
    · simp [hside, partRow, cuts, nonEmpty, ReadableRow]
    · simp [hside, Formula.disjunction]
  · rw [group_eq_ok_iff Formula.disjunction fun _ _ => partOutline_eq_ok_iff]

/-! ### The sides of a sentence -/

/-- How the tokens of a sentence are split into sides. -/
def sidesOf? (ts : List Token) : Option (Frame (List Token)) :=
  match splitIff? ts with
  | some (left, right) => some (.iff left right)
  | none =>
    if ts.any (Token.isWord ifWord) && ts.any Token.isThen then
      (splitImplication? ts).map fun sides => .imp sides.1 sides.2
    else some (.single ts)

/-- The outline of a sentence that is split into sides: they are read one after the other. -/
def frameOutline (source : Text) : Frame (List Token) → Except SentenceError (Formula Text)
  | .single side => sideOutline source side
  | .imp condition conclusion => do
    let f ← sideOutline source condition
    let g ← sideOutline source conclusion
    return .imp f g
  | .iff left right => do
    let f ← sideOutline source left
    let g ← sideOutline source right
    return .iff f g

/-- A sentence is split into sides first, and then the sides are read. -/
theorem outline_eq (source : Text) (ts : List Token) :
    outline source ts =
      match sidesOf? ts with
      | some sides => frameOutline source sides
      | none => .error .unparsableConditional := by
  cases hiff : splitIff? ts with
  | some sides => simp only [outline, sidesOf?, hiff, frameOutline]
  | none =>
    cases hwords : ts.any (Token.isWord ifWord) && ts.any Token.isThen with
    | false => simp [outline, sidesOf?, hiff, hwords, frameOutline]
    | true =>
      cases himp : splitImplication? ts <;>
        simp [outline, sidesOf?, hiff, hwords, himp, frameOutline]

/-- Sides can be read exactly if the rows of each of them can. -/
theorem frameOutline_eq_ok_iff {source : Text} {sides : Frame (List Token)} {f : Formula Text} :
    frameOutline source sides = .ok f ↔
      (∀ side ∈ sides.members, ReadableRows (sideRows side)) ∧
        f = (sides.map fun side => rowsOutline (sideRows side)).formula := by
  have hpair {left right : List Token} {connect : Formula Text → Formula Text → Formula Text} :
      (do
        let f ← sideOutline source left
        let g ← sideOutline source right
        return connect f g) = .ok f ↔
        (ReadableRows (sideRows left) ∧ ReadableRows (sideRows right)) ∧
          f = connect (rowsOutline (sideRows left)) (rowsOutline (sideRows right)) := by
    simp only [bind_eq_ok_iff, sideOutline_eq_ok_iff]
    constructor
    · rintro ⟨_, ⟨hleft, rfl⟩, _, ⟨hright, rfl⟩, ⟨⟩⟩
      exact ⟨⟨hleft, hright⟩, rfl⟩
    · rintro ⟨⟨hleft, hright⟩, rfl⟩
      exact ⟨_, ⟨hleft, rfl⟩, _, ⟨hright, rfl⟩, rfl⟩
  cases sides with
  | single side =>
    rw [frameOutline, sideOutline_eq_ok_iff]
    simp [Frame.members, Frame.map, Frame.formula]
  | imp condition conclusion =>
    rw [frameOutline, hpair]
    simp [Frame.members, Frame.map, Frame.formula]
  | iff left right =>
    rw [frameOutline, hpair]
    simp [Frame.members, Frame.map, Frame.formula]

/-- Sides cannot be read if one of them cannot. -/
theorem frameOutline_eq_error {source : Text} {sides : Frame (List Token)} {e : SentenceError}
    (h : frameOutline source sides = .error e) :
    ∃ side ∈ sides.members, sideOutline source side = .error e := by
  have hpair {left right : List Token} {connect : Formula Text → Formula Text → Formula Text}
      (h : (do
        let f ← sideOutline source left
        let g ← sideOutline source right
        return connect f g) = .error e) :
      ∃ side ∈ [left, right], sideOutline source side = .error e := by
    rcases bind_eq_error h with hleft | ⟨f, -, hrest⟩
    · exact ⟨left, by simp, hleft⟩
    · rcases bind_eq_error hrest with hright | ⟨g, -, hpure⟩
      · exact ⟨right, by simp, hright⟩
      · cases hpure
  cases sides with
  | single side => exact ⟨side, List.mem_singleton_self side, h⟩
  | imp condition conclusion => exact hpair h
  | iff left right => exact hpair h

/-- A sentence can be read exactly if it can be split and the rows of each side can be read. -/
theorem outline_eq_ok_iff {source : Text} {ts : List Token} {f : Formula Text} :
    outline source ts = .ok f ↔
      ∃ sides, sidesOf? ts = some sides ∧
        (∀ side ∈ sides.members, ReadableRows (sideRows side)) ∧
          f = (sides.map fun side => rowsOutline (sideRows side)).formula := by
  rw [outline_eq]
  cases sidesOf? ts with
  | none => simp
  | some sides => simp [frameOutline_eq_ok_iff]

end Sentential
