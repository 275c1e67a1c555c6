import Mathlib.Data.List.Basic
import Mathlib.Tactic.Common
import Sentential.Proofs.Respelling

/-!
# Marks at the end of a sentence

A mark that is put at the end of a sentence becomes part of its last side, of the last part of that side
and of the last run of that part, where it is stripped.  Nothing moves as long as the last token of the
sentence separates nothing: an *ou* at the end would become an inner one, and behind a comma, an *e* or
a *mas* the mark would be a run of its own.

So one mark leaves the rows of a sentence as they are (`outcomeOf_append_mark`), and any number of
marks does (`formalize_append_marks`).
-/

namespace Sentential

/-! ### Tokens of marks -/

section Mark

variable {m : Token} (hm : m.isEndMark = true)

include hm

theorem Token.isClausePunctuation_of_isEndMark : m.isClausePunctuation = true := by
  obtain ⟨hkind, htext⟩ : m.kind = .punctuation ∧ m.text ∈ [['.'], ['!'], ['?']] := of_decide_eq_true hm
  simp only [List.mem_cons, List.not_mem_nil, or_false] at htext
  rcases htext with htext | htext | htext <;> simp [isClausePunctuation, hkind, htext]

theorem Token.kind_of_isEndMark : m.kind = .punctuation :=
  (of_decide_eq_true hm : m.kind = .punctuation ∧ m.text ∈ [['.'], ['!'], ['?']]).1

/-- A mark is no word. -/
theorem Token.isWord_of_isEndMark (w : Text) : m.isWord w = false := by
  simp [isWord, kind_of_isEndMark hm]

theorem Token.isThen_of_isEndMark : m.isThen = false := by
  simp [isThen, isAnyWord, kind_of_isEndMark hm]

/-- A mark separates nothing. -/
theorem Token.isAnd_isOr_of_isEndMark : m.isAnd = false ∧ m.isOr = false := by
  simp [isAnd, isOr, isAnyWord, isWord, kind_of_isEndMark hm]

end Mark

/-- The characters that may stand at the end of a sentence become marks. -/
theorem isEndMark_of_mem_tokensFrom {p : Text} (hp : ∀ c ∈ p, c = '.' ∨ c = '!' ∨ c = '?')
    (start : Nat) : ∀ t ∈ tokensFrom start [] p, t.isEndMark = true := by
  induction p generalizing start with
  | nil => simp [tokensFrom_nil]
  | cons c p ih =>
    obtain ⟨hc, hp⟩ := List.forall_mem_cons.1 hp
    have hplain : isAlphanumeric c = false ∧ isSpace c = false := by
      rcases hc with rfl | rfl | rfl <;> decide +kernel
    rw [tokensFrom_single start hplain.1 hplain.2, List.forall_mem_cons]
    refine ⟨?_, ih hp _⟩
    rcases hc with rfl | rfl | rfl <;> rfl

theorem endsWords_of_marks {p : Text} (hp : ∀ c ∈ p, c = '.' ∨ c = '!' ∨ c = '?') : EndsWords p := by
  intro c hc
  rcases hp c (List.mem_of_mem_head? hc) with rfl | rfl | rfl <;> decide +kernel

/-! ### Rows -/

section Rows

variable {m : Token} (hm : m.isEndMark = true)

include hm

theorem stripPunctuation_append_mark (run : List Token) :
    stripPunctuation (run ++ [m]) = stripPunctuation run := by
  have hpunct := Token.isClausePunctuation_of_isEndMark hm
  unfold stripPunctuation
  rw [List.dropWhile_append]
  split
  · next hnil =>
    rw [List.isEmpty_iff.1 hnil]
    simp [hpunct]
  · simp [hpunct]

/-- A mark at the end of a run is stripped. -/
theorem literalOf_append_mark (run : List Token) : literalOf (run ++ [m]) = literalOf run := by
  rw [literalOf, literalOf, stripPunctuation_append_mark hm]

/-- A mark behind a token that separates no literals belongs to the last run. -/
theorem partRow_append_mark {z : Token} (hz : z.isAnd = false) (part : List Token) :
    partRow (part ++ [z] ++ [m]) = partRow (part ++ [z]) := by
  rw [partRow, partRow, cuts_append_singleton (Token.isAnd_isOr_of_isEndMark hm).1,
    cuts_append_singleton hz]
  exact map_nonEmpty_appendLast (fun run => literalOf_append_mark hm (run ++ [z])) _

/-- A mark behind a token that separates nothing belongs to the last part. -/
theorem sideRows_append_mark {z : Token} (hand : z.isAnd = false) (hor : z.isOr = false)
    (side : List Token) : sideRows (side ++ [z] ++ [m]) = sideRows (side ++ [z]) := by
  obtain ⟨parts, hshort, hlong⟩ := exists_innerCuts_append hor side m
  rw [sideRows, sideRows, hlong, hshort]
  exact map_nonEmpty_appendLast (partRow_append_mark hm hand) _

end Rows

/-! ### Sides -/

namespace Frame

variable {α : Type}

/-- The last side. -/
def last : Frame α → α
  | single a => a
  | imp _ b => b
  | iff _ b => b

/-- Replaces the last side. -/
def mapLast (φ : α → α) : Frame α → Frame α
  | single a => single (φ a)
  | imp a b => imp a (φ b)
  | iff a b => iff a (φ b)

theorem last_mem_members (frame : Frame α) : frame.last ∈ frame.members := by
  cases frame <;> simp [last, members]

/-- Replacing the last side goes unnoticed by what agrees on it. -/
theorem map_mapLast {β : Type} {φ : α → α} {ψ : α → β} {frame : Frame α}
    (h : ψ (φ frame.last) = ψ frame.last) : (frame.mapLast φ).map ψ = frame.map ψ := by
  cases frame with
  | single a => exact congrArg single h
  | imp a b => exact congrArg (imp (ψ a)) h
  | iff a b => exact congrArg (iff (ψ a)) h

end Frame

/-- The last side is the end of the sentence. -/
theorem SplitsInto.last_isSuffix {ts : List Token} {sides : Frame (List Token)}
    (h : SplitsInto ts sides) : sides.last <:+ ts := by
  cases h with
  | iff hsplit =>
    obtain ⟨phrase, -, rfl⟩ := hsplit.1
    exact (List.suffix_append _ _).trans (List.suffix_append _ _)
  | @imp condition conclusion _ _ hsplit =>
    obtain ⟨before, ⟨opener, closer, -, -, -, -, rfl⟩, -⟩ := hsplit
    exact ⟨before ++ opener :: (condition ++ [closer]), by simp [Frame.last]⟩
  | single => exact List.suffix_rfl

section Conditions

variable {m : Token} {ts : List Token}

/-- The conditions that are complete without a further token at the end are those whose *então* has another
token behind it. -/
theorem completesAt_append_singleton {i j : Nat} :
    CompletesAt ts i j ↔ CompletesAt (ts ++ [m]) i j ∧ j + 1 < ts.length := by
  have hat (k : Nat) (hk : k < ts.length) : (ts ++ [m])[k]? = ts[k]? :=
    List.getElem?_append_left hk
  constructor
  · rintro ⟨hopens, hcloses, hcondition, hconclusion⟩
    refine ⟨⟨?_, ?_, hcondition, ?_⟩, hconclusion⟩
    · rwa [hat i (by omega)]
    · rwa [hat j (by omega)]
    · rw [List.length_append]
      omega
  · rintro ⟨⟨hopens, hcloses, hcondition, -⟩, hconclusion⟩
    rw [hat i (by omega)] at hopens
    rw [hat j (by omega)] at hcloses
    exact ⟨hopens, hcloses, hcondition, hconclusion⟩

/-- With a further token at the end, an *então* before it may close a condition too, but never the first
one. -/
theorem SplitsAt.append_singleton {i j : Nat} (h : SplitsAt ts i j) : SplitsAt (ts ++ [m]) i j := by
  obtain ⟨hcomplete, hfirst⟩ := h
  refine ⟨(completesAt_append_singleton.1 hcomplete).1, fun i' j' h' => ?_⟩
  by_cases hj : j' + 1 < ts.length
  · exact hfirst i' j' (completesAt_append_singleton.2 ⟨h', hj⟩)
  · have hlt := hcomplete.conclusion
    have hdist := hcomplete.condition
    by_contra hbefore
    -- then the *se* at `i'` stands before `i`, and is closed by the *então* at `j` as well
    have hcloser : CompletesAt (ts ++ [m]) i' j :=
      ⟨h'.opens, (completesAt_append_singleton.1 hcomplete).1.closes, by omega, by
        rw [List.length_append]
        omega⟩
    have := hfirst i' j (completesAt_append_singleton.2 ⟨hcloser, hlt⟩)
    omega

/-- A further token at the end goes to the conclusion. -/
theorem SplitsAtFirstCondition.append_singleton {condition conclusion : List Token}
    (h : SplitsAtFirstCondition ts condition conclusion) :
    SplitsAtFirstCondition (ts ++ [m]) condition (conclusion ++ [m]) := by
  obtain ⟨i, j, hsplit, rfl, rfl⟩ := splitsAtFirstCondition_iff.1 h
  have hlt := hsplit.1.conclusion
  have hdist := hsplit.1.condition
  refine splitsAtFirstCondition_iff.2 ⟨i, j, hsplit.append_singleton, ?_, ?_⟩
  · rw [List.drop_append_of_le_length (by omega), List.take_append_of_le_length]
    rw [List.length_drop]
    omega
  · rw [List.drop_append_of_le_length (by omega)]

end Conditions

section Sides

variable {m : Token} (hm : m.isEndMark = true) {ts : List Token}

include hm

/-- A mark at the end of a biconditional goes to its right side. -/
theorem splitsAtPhrase_append_mark {left right : List Token} :
    SplitsAtPhrase (ts ++ [m]) left right ↔
      ∃ right', right = right' ++ [m] ∧ SplitsAtPhrase ts left right' := by
  constructor
  · rintro ⟨phrase, hphrase, hts⟩
    obtain rfl | ⟨right', y, rfl⟩ := List.eq_nil_or_concat right
    · -- the mark would be the last word of the phrase
      have hlast : ∃ front t, phrase = front ++ [t] ∧ t.isWord "se".toList = true := by
        rcases hphrase with _ | ⟨-, _ | ⟨-, _ | ⟨-, _ | ⟨hlast, ⟨⟩⟩⟩⟩⟩
        exact ⟨[_, _, _], _, rfl, hlast⟩
      obtain ⟨front, t, rfl, ht⟩ := hlast
      have hend : ts ++ [m] = (left ++ front) ++ [t] := by simpa using hts
      obtain rfl : m = t := List.singleton_inj.1 (List.append_inj' hend rfl).2
      rw [Token.isWord_of_isEndMark hm] at ht
      cases ht
    · have hend : ts ++ [m] = (left ++ (phrase ++ right')) ++ [y] := by simpa using hts
      obtain ⟨rfl, hmy⟩ := List.append_inj' hend rfl
      obtain rfl : m = y := List.singleton_inj.1 hmy
      exact ⟨right', List.concat_eq_append, phrase, hphrase, rfl⟩
  · rintro ⟨right', rfl, phrase, hphrase, rfl⟩
    exact ⟨phrase, hphrase, by simp⟩

theorem SplitsAtFirstPhrase.append_mark {left right : List Token}
    (h : SplitsAtFirstPhrase ts left right) :
    SplitsAtFirstPhrase (ts ++ [m]) left (right ++ [m]) := by
  refine ⟨(splitsAtPhrase_append_mark hm).2 ⟨right, rfl, h.1⟩, fun left' right' h' => ?_⟩
  obtain ⟨right'', -, h''⟩ := (splitsAtPhrase_append_mark hm).1 h'
  exact h.2 left' right'' h''

/-- A mark at the end of a sentence goes to its last side. -/
theorem SplitsInto.append_mark {sides : Frame (List Token)} (h : SplitsInto ts sides) :
    SplitsInto (ts ++ [m]) (sides.mapLast (· ++ [m])) := by
  have hphrase (hnone : ∀ left right, ¬ SplitsAtPhrase ts left right) :
      ∀ left right, ¬ SplitsAtPhrase (ts ++ [m]) left right := fun left right hsplit => by
    obtain ⟨right', -, hsplit'⟩ := (splitsAtPhrase_append_mark hm).1 hsplit
    exact hnone left right' hsplit'
  have hwords : HasConditionalWords (ts ++ [m]) ↔ HasConditionalWords ts := by
    simp [HasConditionalWords, or_and_right, exists_or, Token.isWord_of_isEndMark hm,
      Token.isThen_of_isEndMark hm]
  cases h with
  | iff hsplit => exact .iff (hsplit.append_mark hm)
  | imp hnone hall hsplit => exact .imp (hphrase hnone) (hwords.2 hall) hsplit.append_singleton
  | single hnone hnot => exact .single (hphrase hnone) fun hall => hnot (hwords.1 hall)

end Sides

/-! ### Sentences -/

/-- The last token separates neither literals nor rows. -/
def EndsInClause (ts : List Token) : Prop :=
  ∀ t ∈ ts.getLast?, t.isAnd = false ∧ t.isOr = false

/-- A mark at the end of a sentence that can be read, and whose last token separates nothing, leaves the
rows of the sentence as they are. -/
theorem outcomeOf_append_mark {m : Token} (hm : m.isEndMark = true) {ts : List Token}
    {r : Formalization} (h : outcomeOf ts = .ok r) (hend : EndsInClause ts) :
    outcomeOf (ts ++ [m]) = .ok r := by
  obtain ⟨sides, hsides, hread, -⟩ := outcomeOf_eq_ok_iff.1 h
  have hsplit := sidesOf?_eq_some_iff.1 hsides
  obtain ⟨front, hfront⟩ := hsplit.last_isSuffix
  obtain hnil | ⟨side, z, hside⟩ := List.eq_nil_or_concat sides.last
  · -- the last side could not be read
    exact absurd (by rw [hnil]; rfl) (hread _ sides.last_mem_members).1
  rw [List.concat_eq_append] at hside
  obtain ⟨hand, hor⟩ : z.isAnd = false ∧ z.isOr = false := by
    refine hend z ?_
    rw [← hfront, hside, ← List.append_assoc, List.getLast?_concat]
    rfl
  have hrows : sideRows (sides.last ++ [m]) = sideRows sides.last := by
    rw [hside]
    exact sideRows_append_mark hm hand hor side
  have hne : ts ≠ [] := by
    rintro rfl
    exact not_readable_of_nil hsides hread
  rw [← h]
  refine outcomeOf_congr (by simp [hne]) ?_
  rw [rowsOf?, rowsOf?, hsides, sidesOf?_eq_some_iff.2 (hsplit.append_mark hm)]
  exact congrArg some (Frame.map_mapLast hrows)

/-- Any number of marks leaves the rows as they are. -/
theorem outcomeOf_append_marks {marks : List Token} (hmarks : ∀ m ∈ marks, m.isEndMark = true)
    {ts : List Token} {r : Formalization} (h : outcomeOf ts = .ok r) (hend : EndsInClause ts) :
    outcomeOf (ts ++ marks) = .ok r := by
  induction marks generalizing ts with
  | nil => rwa [List.append_nil]
  | cons m marks ih =>
    obtain ⟨hm, hmarks⟩ := List.forall_mem_cons.1 hmarks
    have hend' : EndsInClause (ts ++ [m]) := by
      rw [EndsInClause, List.getLast?_concat]
      rintro t ⟨⟩
      exact Token.isAnd_isOr_of_isEndMark hm
    rw [← List.singleton_append, ← List.append_assoc]
    exact ih hmarks (outcomeOf_append_mark hm h hend) hend'

/-- Marks at the end of a sentence do not matter, unless the last token of the sentence is a comma or one
of the words *e*, *mas* and *ou*: it is formalized to the same formula with the same legend. -/
theorem formalize_append_marks {s p : Text} {r : Formalization} (h : formalize s = .ok r)
    (hend : ∀ t ∈ (tokenize s).getLast?, t.isAnd = false ∧ t.isOr = false)
    (hp : ∀ c ∈ p, c = '.' ∨ c = '!' ∨ c = '?') : formalize (s ++ p) = .ok r := by
  rw [formalize_eq_ok_iff_outcomeOf] at h ⊢
  rw [tokenize, tokensFrom_append 0 s (endsWords_of_marks hp)]
  exact outcomeOf_append_marks (isEndMark_of_mem_tokensFrom hp _) h hend

/-- The last *então* could be closed by the marks, and is left in the conclusion. -/
theorem exists_formalize_append_marks :
    ∃ r, formalize "Se chove, então não neva então".toList = .ok r ∧
      r.formula.display = "P → ¬Q".toList ∧
      formalize ("Se chove, então não neva então".toList ++ "?!.".toList) = .ok r := by
  have hok : (formalize "Se chove, então não neva então".toList).map (·.formula.display) =
      .ok "P → ¬Q".toList := by
    decide +kernel
  cases hr : formalize "Se chove, então não neva então".toList with
  | error e =>
    rw [hr] at hok
    cases hok
  | ok r =>
    rw [hr] at hok
    refine ⟨r, rfl, Except.ok.inj hok, ?_⟩
    exact formalize_append_marks hr (by decide +kernel) (by simp)

/-- Behind a separator a mark is a run of its own, or cuts the sentence at an *ou* that was part of a
clause. -/
example : (formalize "chove e".toList).isOk = true ∧ (formalize "chove ou".toList).isOk = true ∧
    formalize "chove e.".toList = .error (.emptyClause ".".toList) ∧
    formalize "chove ou.".toList = .error (.emptyClause ".".toList) := by
  decide +kernel

end Sentential
