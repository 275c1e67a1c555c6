import Mathlib.Data.List.Basic
import Mathlib.Tactic.Common
import Sentential.Proofs.Acceptance
import Sentential.Proofs.ContentWords
import Sentential.Proofs.Moved
import Sentential.Proofs.Spans

/-!
# Respelling a sentence

The text of some of the tokens of a sentence has these tokens again, and no others: they have the same
kinds and texts, and two of them that stand next to each other touch where they touched before
(`Repeats`).

What becomes of a sentence is known from its tokens and the gaps between them (`outcomeOf`,
`mapError_formalize`).  So a sentence that is written anew from its tokens, with one space for each gap,
is formalized in the same way, or fails for the same reason (`repeats_tokenize_joinTokens`).
-/

namespace Sentential

/-! ### Tokens found again -/

/-- The token at the place `i` of a list touches the one behind it: there is no gap between the two. -/
def TouchAt (ts : List Token) (i : Nat) : Prop :=
  ∃ _ : i + 1 < ts.length, ts[i].stop = ts[i + 1].start

/-- The tokens `us` repeat the tokens `ts`, with gaps at the same places. -/
structure Repeats (us ts : List Token) : Prop where
  /-- The kinds are the same. -/
  kinds : us.map Token.kind = ts.map Token.kind
  /-- The texts are the same. -/
  texts : us.map Token.text = ts.map Token.text
  /-- Neighbours touch at the same places. -/
  touches : ∀ i, TouchAt us i ↔ TouchAt ts i

section Move

variable {place : Nat → Nat} {ts : List Token}

/-- Tokens that are moved touch at the same places, where they overlap neither before nor after. -/
theorem touchAt_map_move (hgaps : KeepsGaps place ts)
    (hbefore : ts.Pairwise fun t u => t.stop ≤ u.start)
    (hafter : (ts.map (Token.move place)).Pairwise fun t u => t.stop ≤ u.start) (i : Nat) :
    TouchAt (ts.map (Token.move place)) i ↔ TouchAt ts i := by
  simp only [TouchAt, List.length_map, List.getElem_map]
  refine exists_congr fun hi => ?_
  have hi' : i < ts.length := by omega
  have hgap := List.pairwise_iff_getElem.1 hgaps i (i + 1) hi' hi (Nat.lt_succ_self i)
  have hle := List.pairwise_iff_getElem.1 hbefore i (i + 1) hi' hi (Nat.lt_succ_self i)
  have hle' := List.pairwise_iff_getElem.1 (List.pairwise_map.1 hafter) i (i + 1) hi' hi
    (Nat.lt_succ_self i)
  omega

end Move

/-- Some of the tokens of a sentence are repeated in their text. -/
theorem repeats_of_sublist {sentence : Text} {ts : List Token} (h : ts.Sublist (tokenize sentence)) :
    Repeats (tokenize (joinTokens ts)) ts := by
  obtain ⟨place, hmoved, hgaps⟩ := exists_tokenize_joinTokens h
  have hbefore := (tiles_tokensFrom 0 sentence).pairwise_stop.sublist h
  have hafter := (tiles_tokensFrom 0 (joinTokens ts)).pairwise_stop
  change (tokenize (joinTokens ts)).Pairwise _ at hafter
  rw [hmoved] at hafter ⊢
  exact ⟨by rw [List.map_map]; rfl, by rw [List.map_map]; rfl, touchAt_map_move hgaps hbefore hafter⟩

/-- The text of some of the tokens of a sentence is the text of its own tokens. -/
theorem joinTokens_tokenize_joinTokens {sentence : Text} {ts : List Token}
    (h : ts.Sublist (tokenize sentence)) : joinTokens (tokenize (joinTokens ts)) = joinTokens ts := by
  obtain ⟨place, hmoved, hgaps⟩ := exists_tokenize_joinTokens h
  rw [hmoved, joinTokens_map_move hgaps]

/-! ### Outcomes -/

/-- The error without the text that it quotes. -/
def SentenceError.unquoted : SentenceError → SentenceError
  | emptyClause _ => emptyClause []
  | e => e

instance (row : List Literal) : Decidable (ReadableRow row) :=
  inferInstanceAs (Decidable (_ ∧ _))

instance (rows : List (List Literal)) : Decidable (ReadableRows rows) :=
  inferInstanceAs (Decidable (_ ∧ _))

/-- What becomes of a sentence with the tokens `ts`, up to the text that an error quotes. -/
def outcomeOf (ts : List Token) : Except SentenceError Formalization :=
  if ts = [] then .error .emptyInput
  else
    match sidesOf? ts with
    | none => .error .unparsableConditional
    | some sides =>
      if ∀ side ∈ sides.members, ReadableRows (sideRows side) then .ok (formalizationOf sides)
      else .error (.emptyClause [])

/-- What becomes of a sentence is known from its tokens. -/
theorem mapError_formalize (sentence : Text) :
    (formalize sentence).mapError SentenceError.unquoted = outcomeOf (tokenize sentence.trim) := by
  rcases formalize_cases sentence with ⟨hnil, hread⟩ | ⟨hne, hnone, hread⟩ |
    ⟨hne, sides, hsides, side, hside, piece, hfaulty, hread⟩ | ⟨hne, sides, hsides, hwell, hread⟩
  · rw [hread, hnil]
    rfl
  · simp [hread, outcomeOf, hne, hnone, Except.mapError, SentenceError.unquoted]
  · have hbad : ¬ ∀ side ∈ sides.members, ReadableRows (sideRows side) := fun hall =>
      (readableRows_iff (isInfix_of_mem_sides hsides hside)).1 (hall side hside) ⟨piece, hfaulty⟩
    simp only [outcomeOf, hne, hsides, hread, if_false, if_neg hbad]
    rfl
  · have hall : ∀ side ∈ sides.members, ReadableRows (sideRows side) := fun side hside =>
      (readableRows_iff (isInfix_of_mem_sides hsides hside)).2 (hwell side hside)
    simp only [outcomeOf, hne, hsides, hread, if_false, if_pos hall]
    rfl

/-- Tokens stand for a formula exactly if they can be split into sides whose rows can be read. -/
theorem outcomeOf_eq_ok_iff {ts : List Token} {r : Formalization} :
    outcomeOf ts = .ok r ↔
      ∃ sides, sidesOf? ts = some sides ∧
        (∀ side ∈ sides.members, ReadableRows (sideRows side)) ∧ r = formalizationOf sides := by
  unfold outcomeOf
  by_cases hnil : ts = []
  · rw [if_pos hnil, hnil]
    constructor
    · nofun
    · rintro ⟨sides, hsides, hread, -⟩
      exact absurd hread (not_readable_of_nil hsides)
  · rw [if_neg hnil]
    cases sidesOf? ts with
    | none => simp
    | some sides =>
      by_cases hread : ∀ side ∈ sides.members, ReadableRows (sideRows side)
      · simp only [if_pos hread, Except.ok.injEq, Option.some.injEq, exists_eq_left']
        exact ⟨fun h => ⟨hread, h.symm⟩, fun h => h.2.symm⟩
      · simp only [if_neg hread, Option.some.injEq, exists_eq_left']
        exact ⟨nofun, fun h => absurd h.1 hread⟩

/-- What the rows are of the sides into which tokens are split. -/
def rowsOf? (ts : List Token) : Option (Frame (List (List Literal))) :=
  (sidesOf? ts).map (Frame.map sideRows)

/-- Sides with the same rows are formalized to the same. -/
theorem formalizationOf_congr {sides sides' : Frame (List Token)}
    (h : sides.map sideRows = sides'.map sideRows) : formalizationOf sides = formalizationOf sides' := by
  have hclauses (sides : Frame (List Token)) : clausesIn sides =
      (sides.map sideRows).members.flatMap fun rows => rows.flatten.map Literal.clause := by
    rw [clausesIn, Frame.members_map, List.flatMap_map]
  have hformula (name : Text → Variable) (sides : Frame (List Token)) :
      sides.map (fun side => namedRows name (sideRows side)) =
        (sides.map sideRows).map (namedRows name) := by
    rw [Frame.map_map]
    rfl
  rw [formalizationOf, formalizationOf, hclauses, hclauses, hformula, hformula, h]

/-- Tokens with the same rows have the same outcome. -/
theorem outcomeOf_congr {ts us : List Token} (hnil : ts = [] ↔ us = [])
    (hrows : rowsOf? ts = rowsOf? us) : outcomeOf ts = outcomeOf us := by
  simp only [outcomeOf, hnil]
  simp only [rowsOf?] at hrows
  cases hts : sidesOf? ts with
  | none =>
    rw [hts, Option.map_none, eq_comm, Option.map_eq_none_iff] at hrows
    rw [hrows]
  | some sides =>
    rw [hts, Option.map_some, eq_comm, Option.map_eq_some_iff] at hrows
    obtain ⟨sides', hus, hsame⟩ := hrows
    have hread (sides : Frame (List Token)) :
        (∀ side ∈ sides.members, ReadableRows (sideRows side)) ↔
          ∀ rows ∈ (sides.map sideRows).members, ReadableRows rows := by
      rw [Frame.members_map, List.forall_mem_map]
    simp only [hus, hread, hsame, formalizationOf_congr hsame]

theorem rowsOf?_map_move {place : Nat → Nat} {ts : List Token} (h : KeepsGaps place ts) :
    rowsOf? (ts.map (Token.move place)) = rowsOf? ts := by
  rw [rowsOf?, rowsOf?, sidesOf?_map_move, Option.map_map]
  refine Option.map_congr fun sides hsides => ?_
  rw [Function.comp_apply, Frame.map_map]
  exact Frame.map_congr fun side hside =>
    sideRows_map_move (h.sublist (isInfix_of_mem_sides hsides hside).sublist)

/-- Tokens that keep their gaps have the same outcome. -/
theorem outcomeOf_map_move {place : Nat → Nat} {ts : List Token} (h : KeepsGaps place ts) :
    outcomeOf (ts.map (Token.move place)) = outcomeOf ts :=
  outcomeOf_congr List.map_eq_nil_iff (rowsOf?_map_move h)

/-- White space around a sentence does not matter for its outcome. -/
theorem mapError_formalize_eq_outcomeOf (sentence : Text) :
    (formalize sentence).mapError SentenceError.unquoted = outcomeOf (tokenize sentence) := by
  obtain ⟨d, hshift⟩ := exists_tokenize_eq_map_shift sentence
  rw [mapError_formalize, hshift]
  exact (outcomeOf_map_move (keepsGaps_add d _)).symm

/-- A sentence is formalized as its tokens tell. -/
theorem formalize_eq_ok_iff_outcomeOf {sentence : Text} {r : Formalization} :
    formalize sentence = .ok r ↔ outcomeOf (tokenize sentence) = .ok r := by
  rw [← mapError_formalize_eq_outcomeOf]
  cases formalize sentence <;> simp [Except.mapError]

/-- A sentence that is written anew from its tokens has the same outcome. -/
theorem mapError_formalize_joinTokens (sentence : Text) :
    (formalize (joinTokens (tokenize sentence))).mapError SentenceError.unquoted =
      (formalize sentence).mapError SentenceError.unquoted := by
  obtain ⟨place, hmoved, hgaps⟩ := exists_tokenize_joinTokens (List.Sublist.refl (tokenize sentence))
  rw [mapError_formalize_eq_outcomeOf, mapError_formalize_eq_outcomeOf, hmoved,
    outcomeOf_map_move hgaps]

/-- Writing a sentence anew from its tokens is stable.  Any of its tokens, in order, are repeated in their
text, so that their text is the text of its own tokens; and the sentence that is written from all of them is
formalized to the same formula with the same legend, or fails with the same error up to the text quoted. -/
theorem repeats_tokenize_joinTokens (sentence : Text) :
    (∀ ts, ts.Sublist (tokenize sentence) →
      Repeats (tokenize (joinTokens ts)) ts ∧
        joinTokens (tokenize (joinTokens ts)) = joinTokens ts) ∧
    (formalize (joinTokens (tokenize sentence))).mapError SentenceError.unquoted =
      (formalize sentence).mapError SentenceError.unquoted :=
  ⟨fun _ h => ⟨repeats_of_sublist h, joinTokens_tokenize_joinTokens h⟩,
    mapError_formalize_joinTokens sentence⟩

/-- Without the sign between them, a word and a hyphen do not run together, and white space shrinks. -/
theorem exists_repeats_hyphen :
    ∃ ts, ts.Sublist (tokenize "Se  guarda¬-chuva".toList) ∧
      joinTokens ts = "Se guarda -chuva".toList ∧ Repeats (tokenize (joinTokens ts)) ts :=
  have hsub : [⟨.word, "Se".toList, 0⟩, ⟨.word, "guarda".toList, 4⟩, ⟨.punctuation, ['-'], 12⟩,
      ⟨.word, "chuva".toList, 13⟩].Sublist (tokenize "Se  guarda¬-chuva".toList) := by
    decide +kernel
  ⟨_, hsub, by decide +kernel, ((repeats_tokenize_joinTokens _).1 _ hsub).1⟩

end Sentential
