import Mathlib.Data.List.Basic
import Mathlib.Tactic.Common
import Sentential.Proofs.Preambles
import Sentential.Proofs.Respelling

/-!
# Repeated negation words

Negation words that stand next to each other count as one.  `mergeNots` leaves the last of them only.
Since a negation word separates nothing, merging commutes with every cut (`sidesOf?_mergeNots`,
`innerCuts_mergeNots`, `cuts_mergeNots`), and a run is read as the same literal without the words that are
merged (`literalOf_mergeNots`).  So a sentence has the same outcome with and without a repeated negation
word (`mapError_formalize_not_not`).
-/

namespace Sentential

/-- Negation words that stand next to each other, as one: each that has another one behind it is left
out. -/
def mergeNots : List Token → List Token
  | [] => []
  | [t] => [t]
  | t :: u :: rest =>
    if t.isNot && u.isNot then mergeNots (u :: rest) else t :: mergeNots (u :: rest)

/-! ### Negation words and other tokens -/

theorem isNot_eq_false_of_kind {t : Token} (h : t.kind ≠ .word) : t.isNot = false := by
  simp [Token.isNot, Token.isAnyWord, h]

/-- A token with a property that no negation word has is none. -/
theorem isNot_eq_false_of {p : Token → Bool} (hp : ∀ t, t.isNot = true → p t = false) {t : Token}
    (ht : p t = true) : t.isNot = false := by
  by_contra hnot
  rw [hp t (by simpa using hnot)] at ht
  cases ht

section NegationWord

variable {t : Token} (h : t.isNot = true)

include h

theorem kind_of_isNot : t.kind = .word :=
  (of_decide_eq_true h : t.kind = .word ∧ t.text.lower ∈ notWords).1

/-- A negation word is no other word. -/
theorem isAnyWord_eq_false_of_isNot {words : List Text} (hwords : ∀ w ∈ notWords, w ∉ words) :
    t.isAnyWord words = false := by
  have hmem := (of_decide_eq_true h : t.kind = .word ∧ t.text.lower ∈ notWords).2
  simp [Token.isAnyWord, hwords _ hmem]

theorem isWord_eq_false_of_isNot {w : Text} (hw : w ∉ notWords) : t.isWord w = false := by
  have hother : t.isAnyWord [w] = false :=
    isAnyWord_eq_false_of_isNot h fun v hv hmem => hw (List.mem_singleton.1 hmem ▸ hv)
  simpa [Token.isWord, Token.isAnyWord] using hother

theorem isAnd_eq_false_of_isNot : t.isAnd = false := by
  have hother : t.isAnyWord andWords = false := isAnyWord_eq_false_of_isNot h (by decide)
  simp [Token.isAnd, kind_of_isNot h, hother]

theorem isOr_eq_false_of_isNot : t.isOr = false :=
  isWord_eq_false_of_isNot h (by decide)

theorem isThen_eq_false_of_isNot : t.isThen = false :=
  isAnyWord_eq_false_of_isNot h (by decide)

theorem isClausePunctuation_eq_false_of_isNot : t.isClausePunctuation = false := by
  simp [Token.isClausePunctuation, kind_of_isNot h]

end NegationWord

/-! ### Merging -/

/-- A token is left out only if it is a negation word, with another one behind it. -/
theorem mergeNots_cons_cases (t : Token) (ts : List Token) :
    mergeNots (t :: ts) = t :: mergeNots ts ∨
      (t.isNot = true ∧ (∃ u us, u.isNot = true ∧ ts = u :: us) ∧ mergeNots (t :: ts) = mergeNots ts) := by
  cases ts with
  | nil => exact .inl rfl
  | cons u us =>
    rw [mergeNots]
    split
    · next hboth =>
      obtain ⟨ht, hu⟩ := Bool.and_eq_true_iff.1 hboth
      exact .inr ⟨ht, ⟨u, us, hu, rfl⟩, rfl⟩
    · exact .inl rfl

/-- A token that is no negation word stays. -/
theorem mergeNots_cons {t : Token} (ht : t.isNot = false) (ts : List Token) :
    mergeNots (t :: ts) = t :: mergeNots ts := by
  rcases mergeNots_cons_cases t ts with h | ⟨hnot, -⟩
  · exact h
  · rw [ht] at hnot
    cases hnot

/-- What starts with a negation word starts with one when it is merged. -/
theorem exists_mergeNots_eq_cons {t : Token} (ht : t.isNot = true) (ts : List Token) :
    ∃ n rest, n.isNot = true ∧ mergeNots (t :: ts) = n :: rest := by
  induction ts generalizing t with
  | nil => exact ⟨t, [], ht, rfl⟩
  | cons u ts ih =>
    rcases mergeNots_cons_cases t (u :: ts) with h | ⟨-, ⟨u', us, hu, heq⟩, h⟩
    · exact ⟨t, _, ht, h⟩
    · obtain ⟨rfl, -⟩ := List.cons_eq_cons.1 heq
      rw [h]
      exact ih hu

@[simp] theorem mergeNots_eq_nil_iff {ts : List Token} : mergeNots ts = [] ↔ ts = [] := by
  cases ts with
  | nil => simp [mergeNots]
  | cons t ts =>
    cases ht : t.isNot with
    | false => simp [mergeNots_cons ht]
    | true =>
      obtain ⟨n, rest, -, h⟩ := exists_mergeNots_eq_cons ht ts
      simp [h]

theorem mergeNots_sublist (ts : List Token) : (mergeNots ts).Sublist ts := by
  induction ts with
  | nil => exact .slnil
  | cons t ts ih =>
    rcases mergeNots_cons_cases t ts with h | ⟨-, -, h⟩
    · rw [h]
      exact ih.cons_cons t
    · rw [h]
      exact ih.cons t

/-- What stands before and behind a token that is no negation word is merged apart. -/
theorem mergeNots_append_cons {s : Token} (hs : s.isNot = false) (xs ys : List Token) :
    mergeNots (xs ++ s :: ys) = mergeNots xs ++ s :: mergeNots ys := by
  induction xs with
  | nil => exact mergeNots_cons hs ys
  | cons x xs ih =>
    cases xs with
    | nil =>
      have hstay : mergeNots (x :: s :: ys) = x :: mergeNots (s :: ys) := by simp [mergeNots, hs]
      rw [List.singleton_append, hstay, mergeNots_cons hs]
      rfl
    | cons y xs =>
      rw [List.cons_append, List.cons_append, mergeNots, mergeNots, ← List.cons_append, ih]
      split <;> rfl

/-- Tokens without negation words stay in front of what is merged. -/
theorem mergeNots_append {xs : List Token} (hxs : ∀ t ∈ xs, t.isNot = false) (ys : List Token) :
    mergeNots (xs ++ ys) = xs ++ mergeNots ys := by
  induction xs with
  | nil => rfl
  | cons x xs ih =>
    obtain ⟨hx, hxs⟩ := List.forall_mem_cons.1 hxs
    rw [List.cons_append, mergeNots_cons hx, ih hxs, List.cons_append]

/-- Tokens without negation words stay behind what is merged. -/
theorem mergeNots_append_right (xs : List Token) {ys : List Token}
    (hys : ∀ t ∈ ys, t.isNot = false) : mergeNots (xs ++ ys) = mergeNots xs ++ ys := by
  cases ys with
  | nil => rw [List.append_nil, List.append_nil]
  | cons y ys =>
    obtain ⟨hy, hys⟩ := List.forall_mem_cons.1 hys
    have hrest : mergeNots ys = ys := by simpa [mergeNots] using mergeNots_append hys []
    rw [mergeNots_append_cons hy, hrest]

/-- Only negation words are left out. -/
theorem filter_mergeNots {p : Token → Bool} (hp : ∀ t, t.isNot = true → p t = false)
    (ts : List Token) : (mergeNots ts).filter p = ts.filter p := by
  induction ts with
  | nil => rfl
  | cons t ts ih =>
    rcases mergeNots_cons_cases t ts with h | ⟨ht, -, h⟩
    · rw [h, List.filter_cons, List.filter_cons, ih]
    · rw [h, ih, List.filter_cons_of_neg (by simp [hp t ht])]

theorem any_mergeNots {p : Token → Bool} (hp : ∀ t, t.isNot = true → p t = false)
    (ts : List Token) : (mergeNots ts).any p = ts.any p := by
  induction ts with
  | nil => rfl
  | cons t ts ih =>
    rcases mergeNots_cons_cases t ts with h | ⟨ht, -, h⟩
    · rw [h, List.any_cons, List.any_cons, ih]
    · rw [h, ih, List.any_cons, hp t ht, Bool.false_or]

/-- Of negation words that are merged, one is left. -/
theorem any_isNot_mergeNots (ts : List Token) :
    (mergeNots ts).any Token.isNot = ts.any Token.isNot := by
  induction ts with
  | nil => rfl
  | cons t ts ih =>
    rcases mergeNots_cons_cases t ts with h | ⟨ht, ⟨u, us, hu, rfl⟩, h⟩
    · rw [h, List.any_cons, List.any_cons, ih]
    · rw [h, ih, List.any_cons, List.any_cons, List.any_cons, ht, hu, Bool.true_or, Bool.or_self]

/-! ### Literals -/

theorem head?_mergeNots {ts : List Token} {t : Token} (h : t ∈ (mergeNots ts).head?) :
    t ∈ ts.head? ∨ t.isNot = true := by
  cases ts with
  | nil => cases h
  | cons u ts =>
    cases hu : u.isNot with
    | false =>
      rw [mergeNots_cons hu] at h
      exact .inl h
    | true =>
      obtain ⟨n, rest, hn, heq⟩ := exists_mergeNots_eq_cons hu ts
      rw [heq] at h
      obtain rfl : n = t := Option.some.inj h
      exact .inr hn

theorem getLast?_mergeNots (ts : List Token) : (mergeNots ts).getLast? = ts.getLast? := by
  induction ts with
  | nil => rfl
  | cons t ts ih =>
    rcases mergeNots_cons_cases t ts with h | ⟨-, ⟨u, us, -, rfl⟩, h⟩
    · rw [h, List.getLast?_cons, List.getLast?_cons, ih]
    · rw [h, ih, List.getLast?_cons_cons]

/-- Merging leaves the punctuation of a run at its ends. -/
theorem stripPunctuation_mergeNots (run : List Token) :
    stripPunctuation (mergeNots run) = mergeNots (stripPunctuation run) := by
  have hplain {ts : List Token} (h : ∀ t ∈ ts, t.isClausePunctuation = true) :
      ∀ t ∈ ts, t.isNot = false := fun t ht =>
    isNot_eq_false_of (fun _ => isClausePunctuation_eq_false_of_isNot) (h t ht)
  obtain ⟨before, after, hrun, hbefore, hafter⟩ :=
    exists_append_dropEnds Token.isClausePunctuation run
  obtain ⟨hhead, hlast⟩ := endsWithout_dropEnds Token.isClausePunctuation run
  rw [← stripPunctuation_eq_dropEnds] at hrun hhead hlast
  rw [stripPunctuation_eq_dropEnds (mergeNots run), dropEnds_eq_iff]
  refine ⟨⟨before, after, ?_, hbefore, hafter⟩, fun t ht => ?_, fun t ht => ?_⟩
  · conv_lhs => rw [hrun]
    rw [mergeNots_append (hplain hbefore), mergeNots_append_right _ (hplain hafter)]
  · rcases head?_mergeNots ht with ht | hnot
    · exact hhead t ht
    · exact isClausePunctuation_eq_false_of_isNot hnot
  · rw [getLast?_mergeNots] at ht
    exact hlast t ht

/-- A negation sign opens merged tokens exactly if it opens the tokens. -/
theorem opensWithSign_mergeNots {core : List Token} :
    OpensWithSign (mergeNots core) ↔ OpensWithSign core := by
  constructor
  · rintro ⟨sign, next, rest, hkind, hcore⟩
    cases core with
    | nil => cases hcore
    | cons t ts =>
      cases ht : t.isNot with
      | false =>
        rw [mergeNots_cons ht] at hcore
        obtain ⟨rfl, hts⟩ := List.cons_eq_cons.1 hcore
        obtain ⟨u, us, rfl⟩ : ∃ u us, ts = u :: us := List.exists_cons_of_ne_nil (by
          rintro rfl
          cases hts)
        exact ⟨t, u, us, hkind, rfl⟩
      | true =>
        obtain ⟨n, ns, hn, heq⟩ := exists_mergeNots_eq_cons ht ts
        rw [heq] at hcore
        obtain ⟨rfl, -⟩ := List.cons_eq_cons.1 hcore
        rw [isNot_eq_false_of_kind (by simp [hkind])] at hn
        cases hn
  · rintro ⟨sign, next, rest, hkind, rfl⟩
    have hsign : sign.isNot = false := isNot_eq_false_of_kind (by simp [hkind])
    obtain ⟨next', rest', hrest⟩ : ∃ next' rest', mergeNots (next :: rest) = next' :: rest' :=
      List.exists_cons_of_ne_nil (by simp)
    exact ⟨sign, next', rest', hkind, by rw [mergeNots_cons hsign, hrest]⟩

theorem clauseTokens_mergeNots (run : List Token) :
    clauseTokens (mergeNots run) = clauseTokens run := by
  have hfilter := filter_mergeNots (p := fun t => !t.isNot) fun t ht => by simp [ht]
  refine (leavesBody_iff.1 ?_).symm
  obtain ⟨hsign, hplain⟩ := leavesBody_iff.2 (rfl : clauseTokens run = clauseTokens run)
  rw [stripPunctuation_mergeNots, LeavesBody, opensWithSign_mergeNots]
  refine ⟨fun hopens => ?_, fun hopens => ?_⟩
  · have hbody := hsign hopens
    obtain ⟨sign, next, rest, hkind, hcore⟩ := hopens
    have hstay : sign.isNot = false := isNot_eq_false_of_kind (by simp [hkind])
    rw [hbody, hcore, mergeNots_cons hstay, List.tail_cons, List.tail_cons, hfilter]
  · rw [hplain hopens, hfilter]

/-- A run is read as the same literal when its negation words are merged: none of them is part of the
clause, and one of them is enough to negate it. -/
theorem literalOf_mergeNots (run : List Token) : literalOf (mergeNots run) = literalOf run := by
  have hclause : (literalOf (mergeNots run)).clause = (literalOf run).clause := by
    rw [clause_literalOf, clause_literalOf, clauseTokens_mergeNots]
  have hnegated : (literalOf (mergeNots run)).negated = (literalOf run).negated := by
    rw [Bool.eq_iff_iff, negated_literalOf_iff, negated_literalOf_iff, stripPunctuation_mergeNots,
      IsNegated, IsNegated, opensWithSign_mergeNots, ← List.any_eq_true, ← List.any_eq_true,
      any_isNot_mergeNots]
  exact Literal.ext hnegated hclause

/-! ### Rows -/

section Cuts

variable {separates : Token → Bool} (hsep : ∀ t, t.isNot = true → separates t = false)

/-- Parts between separators that are no negation words are merged one by one. -/
theorem Interleaved.map_mergeNots {parts : List (List Token)} {seps ts : List Token}
    (h : Interleaved parts seps ts) (hseps : ∀ s ∈ seps, s.isNot = false) :
    Interleaved (parts.map mergeNots) seps (mergeNots ts) := by
  induction h with
  | single part => exact .single (mergeNots part)
  | cons part s h ih =>
    obtain ⟨hs, hseps⟩ := List.forall_mem_cons.1 hseps
    rw [mergeNots_append_cons hs]
    exact .cons (mergeNots part) s (ih hseps)

include hsep

theorem cuts_mergeNots (ts : List Token) :
    cuts separates (mergeNots ts) = (cuts separates ts).map mergeNots := by
  refine cuts_eq_iff.2 ?_
  rw [filter_mergeNots hsep]
  exact (interleaved_cuts separates ts).map_mergeNots fun s hs =>
    isNot_eq_false_of hsep (List.mem_filter.1 hs).2

theorem innerCuts_mergeNots (ts : List Token) :
    innerCuts separates (mergeNots ts) = (innerCuts separates ts).map mergeNots := by
  obtain rfl | hne := eq_or_ne ts []
  · rfl
  obtain ⟨hcut, hends⟩ := interleaved_innerCuts separates ts
  obtain ⟨hhead, hlast⟩ := hends hne
  have hseps : ∀ s ∈ ts.tail.dropLast.filter separates, separates s = true := fun s hs =>
    (List.mem_filter.1 hs).2
  have hpart {part : Option (List Token)} (h : part ≠ some []) :
      part.map mergeNots ≠ some [] := by
    simpa [Option.map_eq_some_iff] using h
  -- no separator becomes an inner one when tokens are left out
  have hinner : ((mergeNots ts).tail.dropLast).Sublist ts.tail.dropLast := by
    have htail := (mergeNots_sublist ts).tail.reverse.tail
    rw [List.tail_reverse, List.tail_reverse] at htail
    exact List.reverse_sublist.1 htail
  refine innerCuts_eq_of_length_le
    (hcut.map_mergeNots fun s hs => isNot_eq_false_of hsep (hseps s hs)) hseps ?_ ?_
    (hinner.filter separates).length_le
  · rw [List.head?_map]
    exact hpart hhead
  · rw [List.getLast?_map]
    exact hpart hlast

end Cuts

theorem partRow_mergeNots (part : List Token) : partRow (mergeNots part) = partRow part := by
  rw [partRow, partRow, cuts_mergeNots fun _ => isAnd_eq_false_of_isNot,
    nonEmpty_map_of_iff fun _ => mergeNots_eq_nil_iff, List.map_map]
  exact List.map_congr_left fun run _ => literalOf_mergeNots run

/-- A side has the same rows when its negation words are merged. -/
theorem sideRows_mergeNots (side : List Token) : sideRows (mergeNots side) = sideRows side := by
  rw [sideRows, sideRows, innerCuts_mergeNots fun _ => isOr_eq_false_of_isNot,
    nonEmpty_map_of_iff fun _ => mergeNots_eq_nil_iff, List.map_map]
  exact List.map_congr_left fun part _ => partRow_mergeNots part

/-! ### Sides -/

/-- The two halves of a list, merged one by one. -/
def mergeHalves (halves : List Token × List Token) : List Token × List Token :=
  (mergeNots halves.1, mergeNots halves.2)

/-- A token in front of a list that is split at a token which is no negation word: it stays or is left out
in front of the first half as in front of the list. -/
theorem map_mergeHalves_cons {t : Token} {ts : List Token}
    {split : Option (List Token × List Token)}
    (hsplit : ∀ halves ∈ split, ∃ s right, s.isNot = false ∧ ts = halves.1 ++ s :: right) :
    (mergeNots (t :: ts) = t :: mergeNots ts →
      (split.map fun halves => (t :: halves.1, halves.2)).map mergeHalves =
        (split.map mergeHalves).map fun halves => (t :: halves.1, halves.2)) ∧
    (mergeNots (t :: ts) = mergeNots ts →
      (split.map fun halves => (t :: halves.1, halves.2)).map mergeHalves =
        split.map mergeHalves) := by
  cases split with
  | none => exact ⟨fun _ => rfl, fun _ => rfl⟩
  | some halves =>
    obtain ⟨left, right⟩ := halves
    obtain ⟨s, rest, hs, rfl⟩ := hsplit _ rfl
    simp only [← List.cons_append, mergeNots_append_cons hs, List.append_cancel_right_eq]
    constructor
    · intro h
      simp [mergeHalves, h]
    · intro h
      simp [mergeHalves, h]

/-- Merging neither makes nor breaks a phrase without negation words. -/
theorem startsPhrase_mergeNots {phrase : List Text} (hphrase : ∀ w ∈ phrase, w ∉ notWords)
    (ts : List Token) : startsPhrase phrase (mergeNots ts) = startsPhrase phrase ts := by
  induction phrase generalizing ts with
  | nil => rw [startsPhrase, startsPhrase]
  | cons w phrase ih =>
    obtain ⟨hw, hphrase⟩ := List.forall_mem_cons.1 hphrase
    cases ts with
    | nil => rfl
    | cons t ts =>
      cases ht : t.isNot with
      | false => rw [mergeNots_cons ht, startsPhrase, startsPhrase, ih hphrase]
      | true =>
        obtain ⟨n, rest, hn, heq⟩ := exists_mergeNots_eq_cons ht ts
        rw [heq, startsPhrase, startsPhrase, isWord_eq_false_of_isNot hn hw,
          isWord_eq_false_of_isNot ht hw, Bool.false_and, Bool.false_and]

theorem notMem_notWords_of_mem_iffPhrase : ∀ w ∈ iffPhrase, w ∉ notWords := by
  decide

/-- What stands behind a phrase is merged apart. -/
theorem mergeNots_drop_of_startsPhrase {ts : List Token} (h : startsPhrase iffPhrase ts = true) :
    (mergeNots ts).drop iffPhrase.length = mergeNots (ts.drop iffPhrase.length) := by
  obtain ⟨phrase, rest, hphrase, rfl⟩ := startsPhrase_iff.1 h
  have hplain : ∀ t ∈ phrase, t.isNot = false := by
    intro t ht
    obtain ⟨w, hw, hword⟩ := exists_mem_of_forall₂ hphrase ht
    have hother := notMem_notWords_of_mem_iffPhrase w hw
    exact isNot_eq_false_of (fun _ h => isWord_eq_false_of_isNot h hother) hword
  rw [mergeNots_append hplain, hphrase.length_eq, List.drop_left, List.drop_left]

theorem splitIff?_mergeNots (ts : List Token) :
    splitIff? (mergeNots ts) = (splitIff? ts).map mergeHalves := by
  induction ts with
  | nil => rfl
  | cons t ts ih =>
    have hstarts := startsPhrase_mergeNots notMem_notWords_of_mem_iffPhrase (t :: ts)
    have hsplit : ∀ halves ∈ splitIff? ts, ∃ s right, s.isNot = false ∧
        ts = halves.1 ++ s :: right := by
      intro halves hhalves
      obtain ⟨phrase, hphrase, hts⟩ := (splitIff?_eq_some_iff.1 hhalves).1
      obtain ⟨s, rest, rfl, hs⟩ : ∃ s rest, phrase = s :: rest ∧ s.isWord "se".toList = true := by
        cases hphrase with
        | cons hs hrest => exact ⟨_, _, rfl, hs⟩
      have hother : "se".toList ∉ notWords := by decide
      exact ⟨s, rest ++ halves.2, isNot_eq_false_of (fun _ h => isWord_eq_false_of_isNot h hother) hs, hts⟩
    obtain ⟨hstay, hdrop⟩ := map_mergeHalves_cons (t := t) hsplit
    rcases mergeNots_cons_cases t ts with hcons | ⟨hnot, -, hcons⟩
    · rw [hcons] at hstarts ⊢
      rw [splitIff?, splitIff?, hstarts]
      split
      · next hphrase =>
        have hbehind := mergeNots_drop_of_startsPhrase hphrase
        rw [hcons] at hbehind
        rw [hbehind]
        rfl
      · rw [ih, hstay hcons]
    · have hphrase : startsPhrase iffPhrase (t :: ts) = false := by
        rw [iffPhrase, startsPhrase, isWord_eq_false_of_isNot hnot (by decide), Bool.false_and]
      rw [hcons, ih, splitIff?, hphrase, ← hdrop hcons]
      rfl

theorem splitThen?_halves (ts : List Token) :
    ∀ halves ∈ splitThen? ts, ∃ s right, s.isNot = false ∧ ts = halves.1 ++ s :: right := by
  intro halves hhalves
  have hspec := splitThen?_spec ts
  rw [Option.mem_def.1 hhalves] at hspec
  obtain ⟨⟨s, hs, -, hts⟩, -⟩ := hspec
  exact ⟨s, halves.2, isNot_eq_false_of (fun _ => isThen_eq_false_of_isNot) hs, hts⟩

theorem splitThen?_mergeNots (ts : List Token) :
    splitThen? (mergeNots ts) = (splitThen? ts).map mergeHalves := by
  induction ts with
  | nil => rfl
  | cons t ts ih =>
    obtain ⟨hstay, hdrop⟩ := map_mergeHalves_cons (t := t) (splitThen?_halves ts)
    rcases mergeNots_cons_cases t ts with hcons | ⟨hnot, -, hcons⟩
    · rw [hcons]
      by_cases hne : ts = []
      · rw [hne]
        rfl
      cases ht : t.isThen with
      | true =>
        rw [splitThen?_cons_of_isThen ht hne,
          splitThen?_cons_of_isThen ht (mt mergeNots_eq_nil_iff.1 hne)]
        rfl
      | false => rw [splitThen?_cons ht, splitThen?_cons ht, ih, hstay hcons]
    · rw [hcons, ih, splitThen?_cons (isThen_eq_false_of_isNot hnot), hdrop hcons]

theorem splitCondition?_mergeNots (ts : List Token) :
    splitCondition? (mergeNots ts) = (splitCondition? ts).map mergeHalves := by
  cases ts with
  | nil => rfl
  | cons t ts =>
    obtain ⟨hstay, hdrop⟩ := map_mergeHalves_cons (t := t) (splitThen?_halves ts)
    rcases mergeNots_cons_cases t ts with hcons | ⟨-, ⟨u, us, hu, rfl⟩, hcons⟩
    · rw [hcons, splitCondition?_cons, splitCondition?_cons, splitThen?_mergeNots, hstay hcons]
    · -- the token that is left in front is no *então* either
      obtain ⟨n, rest, hn, hrest⟩ := exists_mergeNots_eq_cons hu us
      have hfront : splitCondition? (n :: rest) = splitThen? (n :: rest) := by
        rw [splitCondition?_cons, splitThen?_cons (isThen_eq_false_of_isNot hn)]
      rw [splitCondition?_cons, hdrop hcons, hcons, hrest, hfront, ← hrest, splitThen?_mergeNots]

theorem splitImplication?_mergeNots (ts : List Token) :
    splitImplication? (mergeNots ts) = (splitImplication? ts).map mergeHalves := by
  induction ts with
  | nil => rfl
  | cons t ts ih =>
    rcases mergeNots_cons_cases t ts with hcons | ⟨hnot, -, hcons⟩
    · rw [hcons, splitImplication?, splitImplication?, splitCondition?_mergeNots, ih]
      split
      · cases splitCondition? ts <;> rfl
      · rfl
    · rw [hcons, ih, splitImplication?, isWord_eq_false_of_isNot hnot (by decide)]
      rfl

/-- Tokens are split into the same sides when their negation words are merged. -/
theorem sidesOf?_mergeNots (ts : List Token) :
    sidesOf? (mergeNots ts) = (sidesOf? ts).map (Frame.map mergeNots) := by
  have hif : (mergeNots ts).any (Token.isWord ifWord) = ts.any (Token.isWord ifWord) :=
    any_mergeNots (fun _ h => isWord_eq_false_of_isNot h (by decide)) ts
  have hthen : (mergeNots ts).any Token.isThen = ts.any Token.isThen :=
    any_mergeNots (fun _ h => isThen_eq_false_of_isNot h) ts
  rw [sidesOf?, sidesOf?, splitIff?_mergeNots, splitImplication?_mergeNots, hif, hthen]
  cases splitIff? ts with
  | some halves => rfl
  | none =>
    simp only [Option.map_none]
    split
    · rw [Option.map_map, Option.map_map]
      rfl
    · rfl

/-! ### Sentences -/

/-- Merged negation words do not matter for what becomes of a sentence. -/
theorem outcomeOf_mergeNots (ts : List Token) : outcomeOf (mergeNots ts) = outcomeOf ts := by
  refine outcomeOf_congr mergeNots_eq_nil_iff ?_
  rw [rowsOf?, rowsOf?, sidesOf?_mergeNots, Option.map_map]
  congr 1
  funext sides
  rw [Function.comp_apply, Frame.map_map]
  exact Frame.map_congr fun side _ => sideRows_mergeNots side

/-- A negation word in front of another one is left out, wherever the two stand. -/
theorem mergeNots_append_isNot {n n' : Token} (hn : n.isNot = true) (hn' : n'.isNot = true)
    (us ws : List Token) : mergeNots (us ++ n :: n' :: ws) = mergeNots (us ++ n' :: ws) := by
  induction us with
  | nil => simp [mergeNots, hn, hn']
  | cons t us ih =>
    cases us with
    | nil => simp [mergeNots, hn, hn']
    | cons u us =>
      simp only [List.cons_append] at ih ⊢
      rw [mergeNots, mergeNots, ih]

/-! ### Texts -/

/-- The place at distance `d` behind a place, for places behind `stop`. -/
def placeBehind (stop d n : Nat) : Nat :=
  if n ≤ stop then n else n + d

/-- Tokens with a gap in front of them have the same outcome when the gap is wider. -/
theorem outcomeOf_append_map_shift {us ws : List Token} {stop : Nat}
    (hus : ∀ t ∈ us, t.stop ≤ stop) (hws : ∀ t ∈ ws, stop < t.start) (d : Nat) :
    outcomeOf (us ++ ws.map (Token.shift d)) = outcomeOf (us ++ ws) := by
  have hall : us ++ ws.map (Token.shift d) = (us ++ ws).map (Token.move (placeBehind stop d)) := by
    have hstay : ∀ t ∈ us, t.move (placeBehind stop d) = t := fun t ht => by
      have hle : t.start ≤ stop := (Nat.le_add_right _ _).trans (hus t ht)
      rw [Token.move, placeBehind, if_pos hle]
    have hmoved : ∀ t ∈ ws, t.shift d = t.move (placeBehind stop d) := fun t ht => by
      rw [Token.shift, Token.move, placeBehind, if_neg (Nat.not_le.2 (hws t ht))]
    rw [List.map_append, List.map_congr_left hmoved, List.map_congr_left hstay, List.map_id']
  -- no token reaches over the gap
  have hgap : ∀ t ∈ us ++ ws, t.stop ≤ stop ∨ stop < t.start := fun t ht =>
    (List.mem_append.1 ht).imp (hus t) (hws t)
  have hgaps : KeepsGaps (placeBehind stop d) (us ++ ws) := by
    refine List.pairwise_of_forall_mem_list fun t ht u hu => ?_
    have htgap := hgap t ht
    have hugap := hgap u hu
    simp only [Token.move, Token.stop, placeBehind] at htgap hugap ⊢
    split <;> split <;> omega
  rw [hall, outcomeOf_map_move hgaps]

/-- The tokens of a text that starts with the negation word. -/
theorem tokenize_negationWord_append (s : Text) :
    tokenize (negationWord ++ ' ' :: s) =
      ⟨.word, negationWord, 0⟩ :: (tokenize s).map (Token.shift 5) := by
  have hword : tokenize negationWord = [⟨.word, negationWord, 0⟩] := by decide +kernel
  rw [tokenize_append_space, hword]
  rfl

/-- The negation word in front of a text that starts with a negation word does not matter. -/
theorem outcomeOf_negationWord_append {s : Text} {n : Token} {ts : List Token}
    (hs : tokenize s = n :: ts) (hn : n.isNot = true) (u : Text) :
    outcomeOf (tokenize (u ++ ' ' :: (negationWord ++ ' ' :: s))) =
      outcomeOf (tokenize (u ++ ' ' :: s)) := by
  have hstop : ∀ t ∈ tokenize u, t.stop ≤ u.byteLength := by
    intro t ht
    obtain ⟨before, after, hu, hlength⟩ := ((tokensOf_tokenize u).isBoundary t ht).2
    rw [hu, byteLength_append, ← hlength]
    exact Nat.le_add_right ..
  have hbehind : ∀ t ∈ (tokenize s).map (Token.shift (u.byteLength + 1)),
      u.byteLength < t.start := by
    intro t ht
    obtain ⟨t, -, rfl⟩ := List.mem_map.1 ht
    exact Nat.lt_of_lt_of_le (Nat.lt_succ_self _) (Nat.le_add_left _ t.start)
  have hshift : ((tokenize s).map (Token.shift 5)).map (Token.shift (u.byteLength + 1)) =
      ((tokenize s).map (Token.shift (u.byteLength + 1))).map (Token.shift 5) := by
    rw [List.map_map, List.map_map]
    refine List.map_congr_left fun t _ => ?_
    simp only [Function.comp_apply, Token.shift, Nat.add_right_comm]
  have hfirst : (Token.shift (u.byteLength + 1) ⟨.word, negationWord, 0⟩).isNot = true :=
    isNot_negationWord _
  have hsecond : ((n.shift (u.byteLength + 1)).shift 5).isNot = true := hn
  have hmerge := mergeNots_append_isNot hfirst hsecond (tokenize u)
    ((ts.map (Token.shift (u.byteLength + 1))).map (Token.shift 5))
  rw [tokenize_append_space, tokenize_append_space u s, ← outcomeOf_append_map_shift hstop hbehind 5,
    tokenize_negationWord_append, List.map_cons, hshift, hs, List.map_cons, List.map_cons,
    ← outcomeOf_mergeNots, hmerge, outcomeOf_mergeNots]

/-- Negation words neither cancel nor count twice.  With one negation word or with two of them in its place, a
sentence is formalized to the same formula with the same legend, or fails with the same error up to the text
quoted. -/
theorem mapError_formalize_not_not (u v : Text) :
    (formalize (u ++ " não não ".toList ++ v)).mapError SentenceError.unquoted =
      (formalize (u ++ " não ".toList ++ v)).mapError SentenceError.unquoted := by
  have hone : u ++ " não ".toList ++ v = u ++ ' ' :: (negationWord ++ ' ' :: v) := by
    rw [List.append_assoc]
    rfl
  have htwo : u ++ " não não ".toList ++ v =
      u ++ ' ' :: (negationWord ++ ' ' :: (negationWord ++ ' ' :: v)) := by
    rw [List.append_assoc]
    rfl
  rw [mapError_formalize_eq_outcomeOf, mapError_formalize_eq_outcomeOf, htwo, hone,
    outcomeOf_negationWord_append (tokenize_negationWord_append v) (isNot_negationWord 0)]

end Sentential
