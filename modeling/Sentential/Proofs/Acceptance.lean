import Mathlib.Tactic.Common
import Sentential.Proofs.Conditions
import Sentential.Proofs.Grammar
import Sentential.Proofs.Joining
import Sentential.Proofs.Runs

/-!
# Which sentences are accepted

A side of a sentence is ill-formed if it is empty, if one of its parts holds nothing but separators, or
if nothing is left of one of its runs when end marks and negation are taken away (`IllFormed`).  The
tokens at fault are those that the error quotes (`IsFaulty`, `exists_isFaulty_of_sideOutline`).

A sentence has exactly one of four outcomes: it is empty, it has the words of a conditional without a
complete condition, one of its sides is ill-formed, or it is formalized (`formalize_cases`).
-/

namespace Sentential

/-! ### Ill-formed sides -/

/-- A part of a side: it lies between the *ou* that are neither the first nor the last token of the side,
and is not empty. -/
def IsPartOf (part side : List Token) : Prop :=
  part ≠ [] ∧ ∃ parts, part ∈ parts ∧
    Interleaved parts (side.tail.dropLast.filter Token.isOr) side ∧
      (side ≠ [] → parts.head? ≠ some [] ∧ parts.getLast? ≠ some [])

/-- A run of a part: it lies between the commas and the *e* and *mas* of the part, and is not empty. -/
def IsRunOf (run part : List Token) : Prop :=
  run ≠ [] ∧ ∃ runs, run ∈ runs ∧ Interleaved runs (part.filter Token.isAnd) part

/-- Nothing is left of a clause without its negation: it is made of negation words only, or of a negation
sign in front of one or more of them. -/
def LacksClause (core : List Token) : Prop :=
  (∀ t ∈ core, t.isNot = true) ∨
    ∃ sign ws, core = sign :: ws ∧ sign.kind = .negation ∧ ws ≠ [] ∧ ∀ t ∈ ws, t.isNot = true

/-- The tokens `piece` are at fault in a side. -/
inductive IsFaulty (side piece : List Token) : Prop
  /-- The side is empty. -/
  | empty (hside : side = []) (hpiece : piece = side)
  /-- A part holds separators only. -/
  | separators (hpart : IsPartOf piece side) (hall : ∀ t ∈ piece, t.isAnd = true)
  /-- A run has no clause. -/
  | noClause {part core : List Token} (hpart : IsPartOf part side) (hrun : IsRunOf piece part)
    (hcore : StripsTo piece core) (hlacks : LacksClause core)

/-- Some tokens of a side are at fault. -/
def IllFormed (side : List Token) : Prop :=
  ∃ piece, IsFaulty side piece

section Sides

variable {side part run core : List Token}

theorem isPartOf_iff : IsPartOf part side ↔ part ∈ nonEmpty (innerCuts Token.isOr side) := by
  rw [mem_nonEmpty, IsPartOf, and_comm]
  apply and_congr_left
  intro _
  constructor
  · rintro ⟨parts, hpart, hcut⟩
    rwa [innerCuts_eq_iff.2 hcut]
  · intro hpart
    exact ⟨_, hpart, interleaved_innerCuts Token.isOr side⟩

theorem isRunOf_iff : IsRunOf run part ↔ run ∈ nonEmpty (cuts Token.isAnd part) := by
  rw [mem_nonEmpty, IsRunOf, and_comm]
  apply and_congr_left
  intro _
  constructor
  · rintro ⟨runs, hrun, hcut⟩
    rwa [cuts_eq_iff.2 hcut]
  · intro hrun
    exact ⟨_, hrun, interleaved_cuts Token.isAnd part⟩

/-- The runs of a side are those of its parts. -/
theorem mem_sideRuns_iff :
    run ∈ sideRuns side ↔ ∃ part, IsPartOf part side ∧ IsRunOf run part := by
  simp only [sideRuns, List.mem_flatMap, isPartOf_iff, isRunOf_iff]

/-- A part has no run exactly if it holds separators only. -/
theorem nonEmpty_cuts_eq_nil_iff :
    nonEmpty (cuts Token.isAnd part) = [] ↔ ∀ t ∈ part, t.isAnd = true := by
  constructor
  · intro hnone t ht
    by_contra hand
    obtain ⟨before, after, rfl⟩ := List.append_of_mem ht
    have hsep : t ∉ (before ++ t :: after).filter Token.isAnd := fun hmem =>
      hand (List.mem_filter.1 hmem).2
    -- the token stands in a run, which is not empty then
    obtain ⟨parts₁, us, vs, parts₂, -, hcuts, -⟩ :=
      (interleaved_cuts Token.isAnd (before ++ t :: after)).exists_split rfl hsep
    have hmem : us ++ t :: vs ∈ nonEmpty (cuts Token.isAnd (before ++ t :: after)) :=
      mem_nonEmpty.2 ⟨by simp [hcuts], by simp⟩
    rw [hnone] at hmem
    cases hmem
  · intro hall
    exact nonEmpty_cuts_append hall []

/-- Nothing is left of a run exactly if its negation is all that is left between its end marks. -/
theorem clauseTokens_eq_nil_iff :
    clauseTokens run = [] ↔ LacksClause (stripPunctuation run) := by
  obtain ⟨hsign, hplain⟩ := leavesBody_iff.2 (rfl : clauseTokens run = clauseTokens run)
  generalize stripPunctuation run = core at hsign hplain
  by_cases hopens : OpensWithSign core
  · rw [hsign hopens]
    obtain ⟨sign, next, rest, hkind, rfl⟩ := hopens
    have hnot : sign.isNot = false := by simp [Token.isNot, Token.isAnyWord, hkind]
    constructor
    · intro hnil
      refine .inr ⟨sign, next :: rest, rfl, hkind, List.cons_ne_nil next rest, fun t ht => ?_⟩
      simpa using List.filter_eq_nil_iff.1 hnil t ht
    · rintro (hall | ⟨sign', ws, heq, -, -, hall⟩)
      · rw [hall sign (List.mem_cons_self ..)] at hnot
        cases hnot
      · obtain ⟨-, rfl⟩ := List.cons_eq_cons.1 heq
        exact List.filter_eq_nil_iff.2 fun t ht => by simp [hall t ht]
  · rw [hplain hopens]
    constructor
    · intro hnil
      exact .inl fun t ht => by simpa using List.filter_eq_nil_iff.1 hnil t ht
    · rintro (hall | ⟨sign, ws, rfl, hkind, hne, -⟩)
      · exact List.filter_eq_nil_iff.2 fun t ht => by simp [hall t ht]
      · obtain ⟨next, rest, rfl⟩ := List.exists_cons_of_ne_nil hne
        exact absurd ⟨sign, next, rest, hkind, rfl⟩ hopens

end Sides

/-! ### What an error is about -/

section Errors

variable {source : Text} {side part run : List Token} {e : SentenceError}

/-- A reader that fails on a list fails on one of its members. -/
theorem exists_mem_of_mapM_eq_error {ε α β : Type} {read : α → Except ε β} {xs : List α} {e : ε}
    (h : xs.mapM read = .error e) : ∃ x ∈ xs, read x = .error e := by
  induction xs with
  | nil => cases h
  | cons x xs ih =>
    rw [List.mapM_cons] at h
    rcases bind_eq_error h with hx | ⟨y, -, hrest⟩
    · exact ⟨x, List.mem_cons_self .., hx⟩
    · rcases bind_eq_error hrest with hxs | ⟨ys, -, hpure⟩
      · obtain ⟨x', hx', hread⟩ := ih hxs
        exact ⟨x', List.mem_cons_of_mem x hx', hread⟩
      · cases hpure

/-- A group cannot be read if nothing remains of it, or if one of its parts cannot be read. -/
theorem group_eq_error {whole : List Token} {parts : List (List Token)}
    {read : List Token → Except SentenceError (Formula Text)}
    {group : List (Formula Text) → Formula Text}
    (h : (do
      let kept ← dropEmpty source whole parts
      let fs ← kept.mapM read
      return group fs) = .error e) :
    (nonEmpty parts = [] ∧ e = .emptyClause (quoted source whole)) ∨
      ∃ part ∈ nonEmpty parts, read part = .error e := by
  rcases bind_eq_error h with hdrop | ⟨kept, hdrop, hrest⟩
  · left
    unfold dropEmpty at hdrop
    change (if (nonEmpty parts).isEmpty then _ else Except.ok (nonEmpty parts)) = _ at hdrop
    split at hdrop
    · next hnil => exact ⟨List.isEmpty_iff.1 hnil, (Except.error.inj hdrop).symm⟩
    · cases hdrop
  · right
    obtain ⟨-, rfl⟩ := dropEmpty_eq_ok_iff.1 hdrop
    rcases bind_eq_error hrest with hread | ⟨fs, -, hpure⟩
    · exact exists_mem_of_mapM_eq_error hread
    · cases hpure

/-- A run that cannot be read is quoted, and its clause is empty. -/
theorem runOutline_eq_error (h : runOutline source run = .error e) :
    (literalOf run).clause = [] ∧ e = .emptyClause (quoted source run) := by
  unfold runOutline at h
  dsimp only at h
  split at h
  · next hnil => exact ⟨List.isEmpty_iff.1 hnil, (Except.error.inj h).symm⟩
  · cases h

/-- A part that cannot be read holds separators only, or one of its runs cannot be read. -/
theorem partOutline_eq_error (hne : part ≠ []) (h : partOutline source part = .error e) :
    ((∀ t ∈ part, t.isAnd = true) ∧ e = .emptyClause (quoted source part)) ∨
      ∃ run, IsRunOf run part ∧ runOutline source run = .error e := by
  unfold partOutline at h
  split at h
  · next run hcuts =>
    have hrun : run = part :=
      (hcuts ▸ interleaved_cuts Token.isAnd part : Interleaved [run] _ part).eq_of_single
    refine .inr ⟨part, isRunOf_iff.2 (mem_nonEmpty.2 ⟨?_, hne⟩), h⟩
    rw [hcuts, hrun]
    exact List.mem_singleton_self part
  · rcases group_eq_error h with ⟨hnil, rfl⟩ | ⟨run, hrun, hread⟩
    · exact .inl ⟨nonEmpty_cuts_eq_nil_iff.1 hnil, rfl⟩
    · exact .inr ⟨run, isRunOf_iff.2 hrun, hread⟩

/-- A side that cannot be read is empty, or one of its parts cannot be read. -/
theorem sideOutline_eq_error (h : sideOutline source side = .error e) :
    (side = [] ∧ e = .emptyClause (quoted source side)) ∨
      ∃ part, IsPartOf part side ∧ partOutline source part = .error e := by
  by_cases hnil : side = []
  · rw [hnil] at h ⊢
    have hrun : runOutline source [] = .error e := h
    exact .inl ⟨rfl, (runOutline_eq_error hrun).2⟩
  right
  unfold sideOutline at h
  split at h
  · next part hcuts =>
    have hpart : part = side :=
      (hcuts ▸ (interleaved_innerCuts Token.isOr side).1 : Interleaved [part] _ side).eq_of_single
    refine ⟨side, isPartOf_iff.2 (mem_nonEmpty.2 ⟨?_, hnil⟩), h⟩
    rw [hcuts, hpart]
    exact List.mem_singleton_self side
  · rcases group_eq_error h with ⟨hempty, -⟩ | ⟨part, hpart, hread⟩
    · -- the first part of a side that is not empty is not empty
      obtain ⟨part, parts, hcuts⟩ :=
        List.exists_cons_of_ne_nil (innerCuts_ne_nil Token.isOr side)
      have hhead := ((interleaved_innerCuts Token.isOr side).2 hnil).1
      have hmem : part ∈ nonEmpty (innerCuts Token.isOr side) := by
        rw [mem_nonEmpty, hcuts]
        refine ⟨List.mem_cons_self .., ?_⟩
        rintro rfl
        exact hhead (by rw [hcuts]; rfl)
      rw [hempty] at hmem
      cases hmem
    · exact ⟨part, isPartOf_iff.2 hpart, hread⟩

end Errors

section Sentence

variable {sentence : Text} {side : List Token} (hside : side <:+: tokenize sentence)

include hside

/-- In a run of a sentence the punctuation that may stand at an end of a clause is end marks. -/
theorem isClausePunctuation_of_mem_run {part run : List Token} (hpart : IsPartOf part side)
    (hrun : IsRunOf run part) : ∀ t ∈ run, t.isClausePunctuation = t.isEndMark := by
  obtain ⟨-, hstretch, hand⟩ := mem_sideRuns (mem_sideRuns_iff.2 ⟨part, hpart, hrun⟩)
  intro t ht
  have hmem : t ∈ tokenize sentence := (hstretch.trans hside).mem ht
  exact isClausePunctuation_eq (commasAreSeparators_tokenize sentence t hmem) (hand t ht)

/-- Nothing is left of a run of a sentence exactly if its negation is all that is left between its end
marks. -/
theorem clause_eq_nil_iff {part run : List Token} (hpart : IsPartOf part side)
    (hrun : IsRunOf run part) :
    (literalOf run).clause = [] ↔ ∃ core, StripsTo run core ∧ LacksClause core := by
  obtain ⟨-, hstretch, -⟩ := mem_sideRuns (mem_sideRuns_iff.2 ⟨part, hpart, hrun⟩)
  have hvisible : ∀ t ∈ clauseTokens run, t.IsVisible := fun t ht =>
    isVisible_of_mem_tokenize ((hstretch.trans hside).mem ((clauseTokens_sublist run).mem ht))
  rw [clause_literalOf, joinTokens_eq_nil_iff hvisible, clauseTokens_eq_nil_iff]
  simp only [stripsTo_iff (isClausePunctuation_of_mem_run hside hpart hrun), exists_eq_left]

/-- An error about a side quotes tokens that are at fault. -/
theorem exists_isFaulty_of_sideOutline {source : Text} {e : SentenceError}
    (h : sideOutline source side = .error e) :
    ∃ piece, IsFaulty side piece ∧ e = .emptyClause (quoted source piece) := by
  rcases sideOutline_eq_error h with ⟨hnil, rfl⟩ | ⟨part, hpart, hread⟩
  · exact ⟨side, .empty hnil rfl, rfl⟩
  · rcases partOutline_eq_error hpart.1 hread with ⟨hall, rfl⟩ | ⟨run, hrun, hread⟩
    · exact ⟨part, .separators hpart hall, rfl⟩
    · obtain ⟨hclause, rfl⟩ := runOutline_eq_error hread
      obtain ⟨core, hcore, hlacks⟩ := (clause_eq_nil_iff hside hpart hrun).1 hclause
      exact ⟨run, .noClause hpart hrun hcore hlacks, rfl⟩

/-- The rows of a side can be read exactly if the side is not ill-formed. -/
theorem readableRows_iff : ReadableRows (sideRows side) ↔ ¬ IllFormed side := by
  constructor
  · rintro ⟨hne, hrows⟩ ⟨piece, hfaulty⟩
    cases hfaulty with
    | empty hnil => exact hne (by rw [hnil]; rfl)
    | separators hpart hall =>
      have hrow : partRow piece ∈ sideRows side := List.mem_map_of_mem (isPartOf_iff.1 hpart)
      apply (hrows _ hrow).1
      rw [partRow, nonEmpty_cuts_eq_nil_iff.2 hall]
      rfl
    | @noClause part core hpart hrun hcore hlacks =>
      have hrow : partRow part ∈ sideRows side := List.mem_map_of_mem (isPartOf_iff.1 hpart)
      apply (hrows _ hrow).2 _ (List.mem_map_of_mem (isRunOf_iff.1 hrun))
      exact (clause_eq_nil_iff hside hpart hrun).2 ⟨core, hcore, hlacks⟩
  · intro hill
    cases hread : sideOutline sentence side with
    | error e =>
      obtain ⟨piece, hfaulty, -⟩ := exists_isFaulty_of_sideOutline hside hread
      exact absurd ⟨piece, hfaulty⟩ hill
    | ok f => exact (sideOutline_eq_ok_iff.1 hread).1

end Sentence

/-! ### The four outcomes -/

/-- Tokens cannot be read if they cannot be cut into sides, or if one of their sides cannot be read. -/
theorem outline_eq_error {source : Text} {ts : List Token} {e : SentenceError}
    (h : outline source ts = .error e) :
    (sidesOf? ts = none ∧ e = .unparsableConditional) ∨
      ∃ sides, sidesOf? ts = some sides ∧
        ∃ side ∈ sides.members, sideOutline source side = .error e := by
  rw [outline_eq] at h
  cases hsides : sidesOf? ts with
  | none =>
    rw [hsides] at h
    exact .inl ⟨rfl, (Except.error.inj h).symm⟩
  | some sides =>
    rw [hsides] at h
    exact .inr ⟨sides, rfl, frameOutline_eq_error h⟩

/-- Only a blank sentence has no tokens. -/
theorem tokenize_trim_eq_nil_iff {sentence : Text} :
    tokenize sentence.trim = [] ↔ sentence.trim = [] := by
  constructor
  · intro hnil
    have htiles := tiles_tokensFrom 0 sentence.trim
    rw [← tokenize, hnil] at htiles
    cases htrim : sentence.trim with
    | nil => rfl
    | cons c rest =>
      have hhead := (endsWithout_dropEnds isSpace sentence).1 c
      rw [← Text.trim_eq_dropEnds, htrim] at hhead
      rw [htiles.isSpace_of_nil c (by rw [htrim]; exact List.mem_cons_self ..)] at hhead
      exact absurd (hhead rfl) (by decide)
  · intro hnil
    rw [hnil]
    rfl

/-- What becomes of a sentence: it has no tokens, or no complete condition, or a side that is ill-formed,
or all of its sides are formalized. -/
theorem formalize_cases (sentence : Text) :
    (tokenize sentence.trim = [] ∧ formalize sentence = .error .emptyInput) ∨
    (tokenize sentence.trim ≠ [] ∧ sidesOf? (tokenize sentence.trim) = none ∧
      formalize sentence = .error .unparsableConditional) ∨
    (tokenize sentence.trim ≠ [] ∧ ∃ sides, sidesOf? (tokenize sentence.trim) = some sides ∧
      ∃ side ∈ sides.members, ∃ piece, IsFaulty side piece ∧
        formalize sentence = .error (.emptyClause (quoted sentence.trim piece))) ∨
    (tokenize sentence.trim ≠ [] ∧ ∃ sides, sidesOf? (tokenize sentence.trim) = some sides ∧
      (∀ side ∈ sides.members, ¬ IllFormed side) ∧ formalize sentence = .ok (formalizationOf sides)) := by
  by_cases hnil : tokenize sentence.trim = []
  · have hblank := tokenize_trim_eq_nil_iff.1 hnil
    exact .inl ⟨hnil, by simp [formalize, hblank]⟩
  right
  have hne : sentence.trim ≠ [] := fun h => hnil (tokenize_trim_eq_nil_iff.2 h)
  have hread : formalize sentence =
      (outline sentence.trim (tokenize sentence.trim)).map Formalization.ofOutline := by
    simp [formalize, hne]
  cases hout : outline sentence.trim (tokenize sentence.trim) with
  | error e =>
    rw [hout] at hread
    rcases outline_eq_error hout with ⟨hnone, rfl⟩ | ⟨sides, hsides, side, hside, herror⟩
    · exact .inl ⟨hnil, hnone, hread⟩
    · obtain ⟨piece, hfaulty, rfl⟩ :=
        exists_isFaulty_of_sideOutline (isInfix_of_mem_sides hsides hside) herror
      exact .inr (.inl ⟨hnil, sides, hsides, side, hside, piece, hfaulty, hread⟩)
  | ok f =>
    rw [hout] at hread
    obtain ⟨sides, hsides, hrows, heq⟩ := formalize_eq_ok_iff.1 hread
    refine .inr (.inr ⟨hnil, sides, hsides, fun side hside => ?_, by rw [hread, ← heq]; rfl⟩)
    exact (readableRows_iff (isInfix_of_mem_sides hsides hside)).1 (hrows side hside)

/-- An error about an empty clause quotes tokens of a side that are at fault. -/
theorem exists_isFaulty_of_formalize {sentence text : Text}
    (h : formalize sentence = .error (.emptyClause text)) :
    ∃ sides, SplitsInto (tokenize sentence.trim) sides ∧
      ∃ side ∈ sides.members, ∃ piece, IsFaulty side piece ∧
        text = quoted sentence.trim piece := by
  rcases formalize_cases sentence with ⟨-, hread⟩ | ⟨-, -, hread⟩ |
    ⟨-, sides, hsides, side, hside, piece, hfaulty, hread⟩ | ⟨-, sides, -, -, hread⟩
  · rw [hread] at h
    cases h
  · rw [hread] at h
    cases h
  · rw [hread] at h
    injection h with h
    injection h with h
    exact ⟨sides, sidesOf?_eq_some_iff.1 hsides, side, hside, piece, hfaulty, h.symm⟩
  · rw [hread] at h
    cases h

/-- What becomes of a sentence can be told from its tokens.  It is empty if there are none.  It is no
conditional that can be understood if it has the words of one, no place where a condition is complete, and
no phrase of a biconditional.  Otherwise it is cut into sides; it is formalized if none of them is
ill-formed, and has an empty clause if one is.  No other error arises. -/
theorem formalize_outcome_iff (sentence : Text) :
    let ts := tokenize sentence.trim
    (formalize sentence = .error .emptyInput ↔ ts = []) ∧
    (formalize sentence = .error .unparsableConditional ↔
      ts ≠ [] ∧ (∀ left right, ¬ SplitsAtPhrase ts left right) ∧ HasConditionalWords ts ∧
        ¬ ∃ i j, CompletesAt ts i j) ∧
    ((∃ text, formalize sentence = .error (.emptyClause text)) ↔
      ts ≠ [] ∧ ∃ sides, SplitsInto ts sides ∧ ∃ side ∈ sides.members, IllFormed side) ∧
    ((∃ r, formalize sentence = .ok r) ↔
      ts ≠ [] ∧ ∃ sides, SplitsInto ts sides ∧ ∀ side ∈ sides.members, ¬ IllFormed side) ∧
    formalize sentence ≠ .error .noPropositions ∧
    ∀ v, formalize sentence ≠ .error (.missingMeaning v) := by
  intro ts
  rw [← sidesOf?_eq_none_iff]
  simp only [← sidesOf?_eq_some_iff]
  rcases formalize_cases sentence with ⟨hnil, hread⟩ | ⟨hne, hnone, hread⟩ |
    ⟨hne, sides, hsides, side, hside, piece, hfaulty, hread⟩ | ⟨hne, sides, hsides, hwell, hread⟩
  · have hts : ts = [] := hnil
    simp [hread, hts]
  · have hts : sidesOf? ts = none := hnone
    have hne : ts ≠ [] := hne
    simp [hread, hts, hne]
  · have hts : sidesOf? ts = some sides := hsides
    have hne : ts ≠ [] := hne
    have hill : IllFormed side := ⟨piece, hfaulty⟩
    simp only [hread, hts, ne_eq, hne, not_false_eq_true, true_and, Option.some.injEq, exists_eq_left']
    refine ⟨by simp, by simp, ?_, ?_, by simp, by simp⟩
    · exact ⟨fun _ => ⟨side, hside, hill⟩, fun _ => ⟨_, rfl⟩⟩
    · constructor
      · rintro ⟨r, hr⟩
        cases hr
      · intro hwell
        exact absurd hill (hwell side hside)
  · have hts : sidesOf? ts = some sides := hsides
    have hne : ts ≠ [] := hne
    simp only [hread, hts, ne_eq, hne, not_false_eq_true, true_and, Option.some.injEq, exists_eq_left']
    refine ⟨by simp, by simp, ?_, ?_, by simp, by simp⟩
    · constructor
      · rintro ⟨text, hr⟩
        cases hr
      · rintro ⟨side, hside, hill⟩
        exact absurd hill (hwell side hside)
    · exact ⟨fun _ => hwell, fun _ => ⟨_, rfl⟩⟩

/-- A negation sign alone is a clause, and a negation word behind it is not. -/
example : (formalize "¬".toList).isOk = true ∧
    formalize "¬ não".toList = .error (.emptyClause "¬ não".toList) := by
  decide +kernel

end Sentential
