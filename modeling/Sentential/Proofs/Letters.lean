import Mathlib.Algebra.GroupWithZero.Nat
import Mathlib.Tactic.Common
import Sentential.Legend
import Sentential.Proofs.Outline

/-!
# Counting a letter

Clauses with the same key need not have the same tokens: where a letter becomes two in lower case, one
word can have the key of two.  But they have the same number of *u* in lower case (`Text.uCount`).
This number is the sum of those of the tokens (`uCount_joinTokens`).  An *ou* counts for one, and what
is dropped from a run to get its clause counts for nothing (`uCount_clause_literalOf`).  So the number
tells how many *ou* a clause has lost.
-/

namespace Sentential

open Text

/-- How many *u* a text has in lower case. -/
def Text.uCount (t : Text) : Nat :=
  (lower t).count 'u'

/-- How many *u* tokens have in lower case. -/
def tokensUCount (ts : List Token) : Nat :=
  (ts.map fun t => t.text.uCount).sum

/-! ### Texts -/

/-- The letter is counted character by character. -/
theorem Text.uCount_eq (t : Text) : t.uCount = (t.flatMap lowerChar).count 'u' := by
  have hafter (before : Text) :
      (lowerAfter before t).count 'u' = (t.flatMap lowerChar).count 'u' := by
    have hsigma : (lowerChar 'Σ').count 'u' = 0 := by decide
    induction t generalizing before with
    | nil => rfl
    | cons c rest ih =>
      rw [lowerAfter, List.flatMap_cons, List.count_append, List.count_append, ih]
      congr 1
      by_cases hc : c = 'Σ'
      · rw [if_pos hc, hc, hsigma]
        split <;> decide
      · rw [if_neg hc]
  exact hafter []

@[simp] theorem Text.uCount_nil : Text.uCount [] = 0 := rfl

theorem Text.uCount_append (s t : Text) : Text.uCount (s ++ t) = Text.uCount s + Text.uCount t := by
  rw [uCount_eq, uCount_eq, uCount_eq, List.flatMap_append, List.count_append]

/-- The key of a clause tells its number. -/
theorem count_clauseKey {c : Text} (hc : c.trim = c) : (clauseKey c).count 'u' = c.uCount := by
  rw [clauseKey, hc, uCount]

/-! ### Tokens -/

@[simp] theorem tokensUCount_nil : tokensUCount [] = 0 := rfl

@[simp] theorem tokensUCount_cons (t : Token) (ts : List Token) :
    tokensUCount (t :: ts) = t.text.uCount + tokensUCount ts := by
  simp [tokensUCount]

@[simp] theorem tokensUCount_append (ts us : List Token) :
    tokensUCount (ts ++ us) = tokensUCount ts + tokensUCount us := by
  simp [tokensUCount]

@[simp] theorem tokensUCount_map_bare (ts : List Token) :
    tokensUCount (ts.map Token.bare) = tokensUCount ts := by
  rw [tokensUCount, List.map_map]
  rfl

/-- Tokens with nothing to be counted can be dropped. -/
theorem tokensUCount_filter {p : Token → Bool} {ts : List Token}
    (h : ∀ t ∈ ts, p t = false → t.text.uCount = 0) :
    tokensUCount (ts.filter p) = tokensUCount ts := by
  induction ts with
  | nil => rfl
  | cons t ts ih =>
    obtain ⟨ht, hts⟩ := List.forall_mem_cons.1 h
    rw [tokensUCount_cons, ← ih hts]
    cases hp : p t with
    | true => rw [List.filter_cons_of_pos hp, tokensUCount_cons]
    | false => rw [List.filter_cons_of_neg (by simp [hp]), ht hp, Nat.zero_add]

theorem tokensUCount_dropWhile {p : Token → Bool} {ts : List Token}
    (h : ∀ t ∈ ts, p t = true → t.text.uCount = 0) :
    tokensUCount (ts.dropWhile p) = tokensUCount ts := by
  induction ts with
  | nil => rfl
  | cons t ts ih =>
    obtain ⟨ht, hts⟩ := List.forall_mem_cons.1 h
    cases hp : p t with
    | true => rw [List.dropWhile_cons_of_pos hp, ih hts, tokensUCount_cons, ht hp, Nat.zero_add]
    | false => rw [List.dropWhile_cons_of_neg (by simp [hp])]

theorem tokensUCount_reverse (ts : List Token) : tokensUCount ts.reverse = tokensUCount ts := by
  rw [tokensUCount, List.map_reverse, List.sum_reverse, tokensUCount]

/-- The tokens of a list are those of its parts that are not empty, and the separators. -/
theorem Interleaved.tokensUCount_eq {parts : List (List Token)} {seps ts : List Token}
    (h : Interleaved parts seps ts) :
    tokensUCount ts = ((nonEmpty parts).map tokensUCount).sum + tokensUCount seps := by
  have hcons (part : List Token) (parts : List (List Token)) :
      ((nonEmpty (part :: parts)).map tokensUCount).sum =
        tokensUCount part + ((nonEmpty parts).map tokensUCount).sum := by
    cases part <;> simp [nonEmpty]
  induction h with
  | single part =>
    rw [hcons]
    simp [nonEmpty]
  | cons part s h ih =>
    rw [hcons, tokensUCount_append, tokensUCount_cons, tokensUCount_cons, ih]
    omega

theorem uCount_joinTokensFrom (stop : Nat) (ts : List Token) :
    (joinTokensFrom stop ts).uCount = tokensUCount ts := by
  have hspace : Text.uCount [' '] = 0 := by decide
  induction ts generalizing stop with
  | nil => rfl
  | cons t ts ih =>
    rw [joinTokensFrom, uCount_append, uCount_append, ih, tokensUCount_cons]
    split
    · rw [hspace, Nat.zero_add]
    · rw [uCount_nil, Nat.zero_add]

/-- The gaps of a text have nothing to be counted. -/
theorem uCount_joinTokens (ts : List Token) : (joinTokens ts).uCount = tokensUCount ts := by
  cases ts with
  | nil => rfl
  | cons t ts => rw [joinTokens, uCount_append, uCount_joinTokensFrom, tokensUCount_cons]

/-- An *ou* has one. -/
theorem uCount_of_isOr {t : Token} (h : t.isOr = true) : t.text.uCount = 1 := by
  obtain ⟨-, htext⟩ : t.kind = .word ∧ t.text.lower = orWord := of_decide_eq_true h
  rw [uCount, htext]
  decide

/-- A negation word has none. -/
theorem uCount_of_isNot {t : Token} (h : t.isNot = true) : t.text.uCount = 0 := by
  obtain ⟨-, hmem⟩ : t.kind = .word ∧ t.text.lower ∈ notWords := of_decide_eq_true h
  have hnone : ∀ w ∈ notWords, w.count 'u' = 0 := by decide
  exact hnone _ hmem

theorem uCount_of_isClausePunctuation {t : Token} (h : t.isClausePunctuation = true) :
    t.text.uCount = 0 := by
  obtain ⟨-, hmem⟩ : (t.kind = .comma ∨ t.kind = .punctuation) ∧
      t.text ∈ [['.'], [','], ['!'], ['?']] := of_decide_eq_true h
  have hnone : ∀ w ∈ ([['.'], [','], ['!'], ['?']] : List Text), w.uCount = 0 := by decide
  exact hnone _ hmem

/-- Where cutting at *ou* leaves one run, the rest has been lost. -/
theorem tokensUCount_eq_of_cuts {separates : Token → Bool} {ts run : List Token}
    (hor : ∀ t ∈ ts, separates t = true → t.isOr = true)
    (hcuts : nonEmpty (cuts separates ts) = [run]) :
    tokensUCount ts = tokensUCount run + (ts.filter separates).length := by
  have hseps : tokensUCount (ts.filter separates) = (ts.filter separates).length := by
    have hone : ∀ n ∈ (ts.filter separates).map (fun t => t.text.uCount), n = 1 := by
      rw [List.forall_mem_map]
      intro t ht
      obtain ⟨hmem, hsep⟩ := List.mem_filter.1 ht
      exact uCount_of_isOr (hor t hmem hsep)
    rw [tokensUCount, List.eq_replicate_of_mem hone, List.sum_replicate_nat, List.length_map,
      Nat.mul_one]
  have hall := (interleaved_cuts separates ts).tokensUCount_eq
  rw [hcuts, hseps] at hall
  simpa using hall

/-! ### Clauses -/

/-- What is dropped from a run to get its clause has nothing to be counted, where only the negation
sign is taken for one. -/
theorem uCount_clause_literalOf {run : List Token}
    (hsign : ∀ t ∈ run, t.kind = .negation → t.text = ['¬']) :
    (literalOf run).clause.uCount = tokensUCount run := by
  have hnone : Text.uCount ['¬'] = 0 := by decide
  have hstrip : tokensUCount (stripPunctuation run) = tokensUCount run := by
    have hfront : tokensUCount (run.dropWhile Token.isClausePunctuation) = tokensUCount run :=
      tokensUCount_dropWhile fun t _ ht => uCount_of_isClausePunctuation ht
    rw [stripPunctuation, tokensUCount_reverse,
      tokensUCount_dropWhile fun t _ ht => uCount_of_isClausePunctuation ht, tokensUCount_reverse,
      hfront]
  have hnot (ts : List Token) : tokensUCount (ts.filter fun t => !t.isNot) = tokensUCount ts :=
    tokensUCount_filter fun t _ ht => uCount_of_isNot (by simpa using ht)
  rw [clause_literalOf, uCount_joinTokens, clauseTokens, hnot, ← hstrip]
  have hcore : ∀ t ∈ stripPunctuation run, t ∈ run := by
    intro t ht
    rw [stripPunctuation_eq_dropEnds] at ht
    obtain ⟨before, after, hrun, -⟩ := exists_append_dropEnds Token.isClausePunctuation run
    rw [hrun]
    exact List.mem_append_right before (List.mem_append_left after ht)
  match hstripped : stripPunctuation run with
  | [] => rfl
  | [t] => rfl
  | t :: u :: rest =>
    by_cases hopens : opensNegated (t :: u :: rest) = true
    · have hzero : t.text.uCount = 0 := by
        obtain hkind | ht : t.kind = .negation ∨ t.isNot = true := by
          simpa [opensNegated] using hopens
        · rw [hsign t (hcore t (by rw [hstripped]; exact List.mem_cons_self ..)) hkind, hnone]
        · exact uCount_of_isNot ht
      rw [if_pos hopens, tokensUCount_cons, hzero, Nat.zero_add]
      rfl
    · rw [if_neg hopens]

end Sentential
