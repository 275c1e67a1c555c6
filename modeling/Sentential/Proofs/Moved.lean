import Mathlib.Data.List.Basic
import Mathlib.Tactic.Common
import Sentential.Proofs.Joining
import Sentential.Proofs.Outline

/-!
# Tokens at other places

Where a token starts matters only for the gap in front of it.  Tokens that are moved without opening or
closing a gap are split into the same sides, cut at the same places, and stand for the same rows of
literals (`sidesOf?_map_move`, `sideRows_map_move`).
-/

namespace Sentential

attribute [ext] Literal

variable {place : Nat → Nat}

/-! ### Literals -/

theorem stripPunctuation_map_move (place : Nat → Nat) (run : List Token) :
    stripPunctuation (run.map (Token.move place)) =
      (stripPunctuation run).map (Token.move place) := by
  have hpunct : Token.isClausePunctuation ∘ Token.move place = Token.isClausePunctuation := rfl
  simp only [stripPunctuation, List.dropWhile_map, ← List.map_reverse, hpunct]

theorem opensNegated_map_move (place : Nat → Nat) (core : List Token) :
    opensNegated (core.map (Token.move place)) = opensNegated core := by
  rcases core with _ | ⟨t, _ | ⟨u, core⟩⟩ <;> rfl

theorem clauseTokens_map_move (place : Nat → Nat) (run : List Token) :
    clauseTokens (run.map (Token.move place)) = (clauseTokens run).map (Token.move place) := by
  have hnot : (fun t : Token => !t.isNot) ∘ Token.move place = fun t => !t.isNot := rfl
  simp only [clauseTokens, stripPunctuation_map_move, opensNegated_map_move]
  split
  · rw [← List.map_drop, List.filter_map, hnot]
  · rw [List.filter_map, hnot]

theorem negated_literalOf_map_move (place : Nat → Nat) (run : List Token) :
    (literalOf (run.map (Token.move place))).negated = (literalOf run).negated := by
  have hnot : Token.isNot ∘ Token.move place = Token.isNot := rfl
  simp only [literalOf, stripPunctuation_map_move, opensNegated_map_move]
  split
  · rw [← List.map_drop, List.any_map, hnot]
  · rw [List.any_map, hnot]

/-- A run whose tokens keep their gaps is read as the same literal. -/
theorem literalOf_map_move {run : List Token} (h : KeepsGaps place run) :
    literalOf (run.map (Token.move place)) = literalOf run := by
  have hclause : (literalOf (run.map (Token.move place))).clause = (literalOf run).clause := by
    rw [clause_literalOf, clause_literalOf, clauseTokens_map_move,
      joinTokens_map_move (h.sublist (clauseTokens_sublist run))]
  exact Literal.ext (negated_literalOf_map_move place run) hclause

/-! ### Rows -/

/-- What is done to parts, and leaves none empty but the empty ones, can be done to those that remain. -/
theorem nonEmpty_map_of_iff {α β : Type} {φ : List α → List β} (hφ : ∀ part, φ part = [] ↔ part = [])
    (parts : List (List α)) : nonEmpty (parts.map φ) = (nonEmpty parts).map φ := by
  have hempty (part : List α) : (φ part).isEmpty = part.isEmpty := by
    rw [Bool.eq_iff_iff, List.isEmpty_iff, List.isEmpty_iff, hφ]
  simp [nonEmpty, List.filter_map, Function.comp_def, hempty]

theorem nonEmpty_map {α β : Type} (f : α → β) (parts : List (List α)) :
    nonEmpty (parts.map (List.map f)) = (nonEmpty parts).map (List.map f) :=
  nonEmpty_map_of_iff (fun _ => List.map_eq_nil_iff) parts

/-- A part whose tokens keep their gaps has the same literals. -/
theorem partRow_map_move {part : List Token} (h : KeepsGaps place part) :
    partRow (part.map (Token.move place)) = partRow part := by
  have hand : Token.isAnd ∘ Token.move place = Token.isAnd := rfl
  rw [partRow, partRow, cuts_map, hand, nonEmpty_map, List.map_map]
  refine List.map_congr_left fun run hrun => ?_
  have hinfix := (interleaved_cuts Token.isAnd part).isInfix_of_mem (mem_nonEmpty.1 hrun).1
  exact literalOf_map_move (h.sublist hinfix.sublist)

/-- A side whose tokens keep their gaps has the same rows. -/
theorem sideRows_map_move {side : List Token} (h : KeepsGaps place side) :
    sideRows (side.map (Token.move place)) = sideRows side := by
  have hor : Token.isOr ∘ Token.move place = Token.isOr := rfl
  rw [sideRows, sideRows, innerCuts_map, hor, nonEmpty_map, List.map_map]
  refine List.map_congr_left fun part hpart => ?_
  have hinfix := (interleaved_innerCuts Token.isOr side).1.isInfix_of_mem (mem_nonEmpty.1 hpart).1
  exact partRow_map_move (h.sublist hinfix.sublist)

/-! ### Sides -/

/-- The two halves of a list, with their members moved. -/
def moveHalves (place : Nat → Nat) (halves : List Token × List Token) : List Token × List Token :=
  (halves.1.map (Token.move place), halves.2.map (Token.move place))

theorem startsPhrase_map_move (place : Nat → Nat) (phrase : List Text) (ts : List Token) :
    startsPhrase phrase (ts.map (Token.move place)) = startsPhrase phrase ts := by
  induction phrase generalizing ts with
  | nil => rfl
  | cons w phrase ih =>
    cases ts with
    | nil => rfl
    | cons t ts =>
      rw [List.map_cons, startsPhrase, startsPhrase, ih]
      rfl

theorem splitIff?_map_move (place : Nat → Nat) (ts : List Token) :
    splitIff? (ts.map (Token.move place)) = (splitIff? ts).map (moveHalves place) := by
  induction ts with
  | nil => rfl
  | cons t rest ih =>
    rw [List.map_cons, splitIff?, splitIff?, ← List.map_cons, startsPhrase_map_move, ih]
    split
    · rw [← List.map_drop]
      rfl
    · rw [Option.map_map, Option.map_map]
      rfl

theorem splitThen?_map_move (place : Nat → Nat) (ts : List Token) :
    splitThen? (ts.map (Token.move place)) = (splitThen? ts).map (moveHalves place) := by
  induction ts with
  | nil => rfl
  | cons t rest ih =>
    cases rest with
    | nil => rfl
    | cons u rest =>
      have hthen : (t.move place).isThen = t.isThen := rfl
      rw [List.map_cons, List.map_cons, splitThen?, splitThen?, ← List.map_cons, ih, hthen]
      split
      · rfl
      · rw [Option.map_map, Option.map_map]
        rfl

theorem splitCondition?_map_move (place : Nat → Nat) (ts : List Token) :
    splitCondition? (ts.map (Token.move place)) = (splitCondition? ts).map (moveHalves place) := by
  cases ts with
  | nil => rfl
  | cons t rest =>
    rw [List.map_cons, splitCondition?, splitCondition?, splitThen?_map_move, Option.map_map,
      Option.map_map]
    rfl

theorem splitImplication?_map_move (place : Nat → Nat) (ts : List Token) :
    splitImplication? (ts.map (Token.move place)) =
      (splitImplication? ts).map (moveHalves place) := by
  induction ts with
  | nil => rfl
  | cons t rest ih =>
    have hif : (t.move place).isWord ifWord = t.isWord ifWord := rfl
    rw [List.map_cons, splitImplication?, splitImplication?, splitCondition?_map_move, ih, hif]
    split
    · cases splitCondition? rest <;> rfl
    · rfl

/-- Tokens that are moved are split into the same sides. -/
theorem sidesOf?_map_move (place : Nat → Nat) (ts : List Token) :
    sidesOf? (ts.map (Token.move place)) =
      (sidesOf? ts).map (Frame.map (List.map (Token.move place))) := by
  have hif : Token.isWord ifWord ∘ Token.move place = Token.isWord ifWord := rfl
  have hthen : Token.isThen ∘ Token.move place = Token.isThen := rfl
  rw [sidesOf?, sidesOf?, splitIff?_map_move, splitImplication?_map_move, List.any_map,
    List.any_map, hif, hthen]
  cases splitIff? ts with
  | some halves => rfl
  | none =>
    simp only [Option.map_none]
    split
    · rw [Option.map_map, Option.map_map]
      rfl
    · rfl

end Sentential
