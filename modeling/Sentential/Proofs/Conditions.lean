import Mathlib.Data.List.TakeDrop
import Mathlib.Tactic.Common
import Sentential.Proofs.Sides

/-!
# Conditions by their places

A condition is complete at the places `i` and `j` of a list of tokens if a *se* stands at `i`, an *então*
at `j`, and neither the condition between them nor the conclusion behind is empty (`CompletesAt`).  The
first such pair of places, in lexicographic order, is the one at which a conditional is split
(`SplitsAt`, `splitsAtFirstCondition_iff`).
-/

namespace Sentential

/-- A *se* stands at place `i` and an *então* at place `j`, with a token between them and another one
behind. -/
structure CompletesAt (ts : List Token) (i j : Nat) : Prop where
  /-- A *se* opens the condition. -/
  opens : ∃ t, ts[i]? = some t ∧ t.isWord ifWord = true
  /-- An *então* closes it. -/
  closes : ∃ t, ts[j]? = some t ∧ t.isThen = true
  /-- The condition is not empty. -/
  condition : i + 2 ≤ j
  /-- The conclusion is not empty. -/
  conclusion : j + 1 < ts.length

/-- The places `i` and `j` are the first ones, in lexicographic order, at which a condition is
complete. -/
def SplitsAt (ts : List Token) (i j : Nat) : Prop :=
  CompletesAt ts i j ∧ ∀ i' j', CompletesAt ts i' j' → i < i' ∨ i = i' ∧ j ≤ j'

section Places

variable {ts before condition conclusion : List Token} {i j : Nat}

/-- A condition that stands between its words is complete at their places. -/
theorem SplitsAtCondition.completesAt (h : SplitsAtCondition ts before condition conclusion) :
    CompletesAt ts before.length (before.length + 1 + condition.length) := by
  obtain ⟨opener, closer, hopener, hcloser, hcondition, hconclusion, rfl⟩ := h
  have hpos := List.length_pos_iff.2 hcondition
  have hpos' := List.length_pos_iff.2 hconclusion
  refine ⟨⟨opener, by simp, hopener⟩, ⟨closer, ?_, hcloser⟩, by omega, ?_⟩
  · rw [List.getElem?_append_right (by omega)]
    have hplace : before.length + 1 + condition.length - before.length = condition.length + 1 := by
      omega
    rw [hplace, List.getElem?_cons_succ, List.getElem?_append_right (Nat.le_refl _)]
    simp
  · simp only [List.length_append, List.length_cons]
    omega

/-- Behind the *se* stand the condition, the *então* and the conclusion. -/
theorem SplitsAtCondition.exists_drop_eq
    (h : SplitsAtCondition ts before condition conclusion) :
    ∃ closer, closer.isThen = true ∧
      ts.drop (before.length + 1) = condition ++ closer :: conclusion := by
  obtain ⟨opener, closer, -, hcloser, -, -, rfl⟩ := h
  refine ⟨closer, hcloser, ?_⟩
  rw [List.drop_append, List.drop_of_length_le (by omega)]
  simp

/-- A condition that is complete at two places stands between their words. -/
theorem CompletesAt.splitsAtCondition (h : CompletesAt ts i j) :
    SplitsAtCondition ts (ts.take i) ((ts.drop (i + 1)).take (j - (i + 1))) (ts.drop (j + 1)) := by
  obtain ⟨⟨opener, hi, hopener⟩, ⟨closer, hj, hcloser⟩, hcondition, hconclusion⟩ := h
  have hdrop : (ts.drop (i + 1)).drop (j - (i + 1)) = closer :: ts.drop (j + 1) := by
    rw [List.drop_drop, Nat.add_sub_cancel' (by omega)]
    exact List.drop_eq_getElem?_toList_append.trans (by rw [hj]; rfl)
  refine ⟨opener, closer, hopener, hcloser, ?_, ?_, ?_⟩
  · apply List.ne_nil_of_length_pos
    simp only [List.length_take, List.length_drop]
    omega
  · apply List.ne_nil_of_length_pos
    simp only [List.length_drop]
    omega
  · rw [← hdrop, List.take_append_drop]
    have hfirst : ts.drop i = opener :: ts.drop (i + 1) :=
      List.drop_eq_getElem?_toList_append.trans (by rw [hi]; rfl)
    rw [← hfirst, List.take_append_drop]

/-- There is a condition between its words exactly if one is complete at some places. -/
theorem exists_splitsAtCondition_iff :
    (∃ before condition conclusion, SplitsAtCondition ts before condition conclusion) ↔
      ∃ i j, CompletesAt ts i j := by
  constructor
  · rintro ⟨before, condition, conclusion, h⟩
    exact ⟨_, _, h.completesAt⟩
  · rintro ⟨i, j, h⟩
    exact ⟨_, _, _, h.splitsAtCondition⟩

/-- The first condition is the one at the first places. -/
theorem splitsAtFirstCondition_iff :
    SplitsAtFirstCondition ts condition conclusion ↔
      ∃ i j, SplitsAt ts i j ∧ condition = (ts.drop (i + 1)).take (j - (i + 1)) ∧
        conclusion = ts.drop (j + 1) := by
  constructor
  · rintro ⟨before, hsplit, hfirst⟩
    refine ⟨before.length, before.length + 1 + condition.length,
      ⟨hsplit.completesAt, fun i' j' h' => ?_⟩, ?_⟩
    · have hle := hfirst _ _ _ h'.splitsAtCondition
      have := h'.condition
      have := h'.conclusion
      simp only [List.length_take, List.length_drop] at hle
      omega
    · obtain ⟨closer, -, hbehind⟩ := hsplit.exists_drop_eq
      rw [hbehind, Nat.add_sub_cancel_left, List.take_left, Nat.add_assoc (before.length + 1),
        ← List.drop_drop, hbehind, List.drop_append, List.drop_of_length_le (Nat.le_succ _)]
      simp
  · rintro ⟨i, j, ⟨hcomplete, hfirst⟩, rfl, rfl⟩
    refine ⟨ts.take i, hcomplete.splitsAtCondition, fun before' condition' conclusion' h' => ?_⟩
    have hle := hfirst _ _ h'.completesAt
    have := hcomplete.condition
    have := hcomplete.conclusion
    simp only [List.length_take, List.length_drop]
    omega

/-- The tokens of a sentence cannot be cut into sides exactly if they have the words of a conditional and
no complete condition, and are no biconditional. -/
theorem sidesOf?_eq_none_iff :
    sidesOf? ts = none ↔ (∀ left right, ¬ SplitsAtPhrase ts left right) ∧ HasConditionalWords ts ∧
      ¬ ∃ i j, CompletesAt ts i j := by
  rw [← exists_splitsAtCondition_iff, sidesOf?]
  cases hiff : splitIff? ts with
  | some sides =>
    obtain ⟨left, right⟩ := sides
    constructor
    · intro hnone
      exact absurd hnone (Option.some_ne_none _)
    · rintro ⟨hphrase, -⟩
      exact absurd (splitIff?_eq_some_iff.1 hiff).1 (hphrase left right)
  | none =>
    have hphrase := splitIff?_eq_none_iff.1 hiff
    by_cases hwords : (ts.any (Token.isWord ifWord) && ts.any Token.isThen) = true
    · simp only [hwords, if_true, Option.map_eq_none_iff, splitImplication?_eq_none_iff]
      constructor
      · intro hnone
        refine ⟨hphrase, hasConditionalWords_iff.1 hwords, ?_⟩
        rintro ⟨before, condition, conclusion, hsplit⟩
        exact hnone before condition conclusion hsplit
      · rintro ⟨-, -, hnone⟩ before condition conclusion hsplit
        exact hnone ⟨before, condition, conclusion, hsplit⟩
    · simp only [hwords]
      constructor
      · intro hnone
        exact absurd hnone (Option.some_ne_none _)
      · rintro ⟨-, hwords', -⟩
        exact absurd (hasConditionalWords_iff.2 hwords') hwords

end Places

end Sentential
