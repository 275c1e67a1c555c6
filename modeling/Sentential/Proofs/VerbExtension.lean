import Mathlib.Data.List.Infix
import Mathlib.Data.List.InsertIdx
import Mathlib.Tactic.Common
import Sentential.Proofs.Reading
import Sentential.Proofs.Words
import Sentential.Verb

/-!
# Further endings and forms of verbs

A lexicon that is extended accepts the words that it accepted before, and those that are marked by one of
the new entries (`IsMarkedBy`, `isVerb_extend_iff`).  Of a word only its core counts, in lower case: what
is left when the characters at its ends that are neither letters nor digits are taken away (`IsCoreOf`).
Entries are compared without the white space around them and in lower case, and blank ones count for
nothing, as each word ends with the empty text.

Since a word that is a verb stays one, the negation word of a clause can only move to the front
(`negationIndex_le`).
-/

namespace Sentential

/-! ### Lower case, and texts in texts -/

theorem lowerChar_ne_nil (c : Char) : lowerChar c ≠ [] := by
  unfold lowerChar
  split_ifs <;> exact List.cons_ne_nil _ _

namespace Text

/-- Only the empty text is empty in lower case. -/
theorem lower_eq_nil_iff {t : Text} : t.lower = [] ↔ t = [] := by
  cases t with
  | nil => exact ⟨fun _ => rfl, fun _ => rfl⟩
  | cons c t =>
    rw [lower, lowerAfter]
    refine iff_of_false (List.append_ne_nil_of_left_ne_nil ?_ _) (List.cons_ne_nil c t)
    split_ifs
    · exact List.cons_ne_nil _ _
    · exact List.cons_ne_nil _ _
    · exact lowerChar_ne_nil c

theorem hasInfix_iff {needle t : Text} : hasInfix needle t = true ↔ needle <:+: t := by
  induction t with
  | nil => rw [hasInfix, List.isEmpty_iff, List.infix_nil]
  | cons c t ih =>
    rw [hasInfix, Bool.or_eq_true, List.isPrefixOf_iff_prefix, ih, List.infix_cons_iff]

end Text

/-! ### The core of a word -/

/-- The text `core` is what is left of a word when the characters at its ends that are neither letters nor
digits are taken away. -/
structure IsCoreOf (word core : Text) : Prop where
  /-- Only characters are taken away that are neither letters nor digits, in front and behind. -/
  split : ∃ before after, word = before ++ (core ++ after) ∧
    (∀ c ∈ before, isAlphanumeric c = false) ∧ ∀ c ∈ after, isAlphanumeric c = false
  /-- What is left begins with a letter or a digit. -/
  head : ∀ c, core.head? = some c → isAlphanumeric c = true
  /-- What is left ends with a letter or a digit. -/
  last : ∀ c, core.getLast? = some c → isAlphanumeric c = true

theorem isCoreOf_iff {word core : Text} :
    IsCoreOf word core ↔ dropEnds (fun c => !isAlphanumeric c) word = core := by
  rw [dropEnds_eq_iff]
  simp only [Bool.not_eq_true', EndsWithout, Bool.not_eq_false', Option.mem_def]
  constructor
  · rintro ⟨hsplit, hhead, hlast⟩
    exact ⟨hsplit, hhead, hlast⟩
  · rintro ⟨hsplit, hhead, hlast⟩
    exact ⟨hsplit, hhead, hlast⟩

/-- A word has one core. -/
theorem existsUnique_isCoreOf (word : Text) : ∃! core, IsCoreOf word core :=
  ⟨_, isCoreOf_iff.2 rfl, fun _ h => (isCoreOf_iff.1 h).symm⟩

/-! ### What is accepted -/

namespace VerbLexicon

/-- A word is compared by its core in lower case. -/
theorem comparedForm_of_isCoreOf {word core : Text} (h : IsCoreOf word core) :
    comparedForm word = core.lower :=
  congrArg Text.lower (isCoreOf_iff.1 h)

/-- A word ends with one of the endings, or one of the forms stands in it, where blank entries do not
count and the others are compared without the white space around them and in lower case. -/
def IsMarkedBy (suffixes forms : List Text) (w : Text) : Prop :=
  (∃ s ∈ suffixes, s.isBlank = false ∧ s.trim.lower <:+ w) ∨
    ∃ f ∈ forms, f.isBlank = false ∧ f.trim.lower <:+: w

/-- The usable entries are those that are not blank. -/
theorem usable_eq (entries : List Text) :
    usable entries = (entries.filter fun t => !t.isBlank).map fun t => t.trim.lower := by
  have hempty (t : Text) : (!t.trim.lower.isEmpty) = !t.isBlank := by
    rw [← isEmpty_trim, Bool.not_inj_iff, Bool.eq_iff_iff, List.isEmpty_iff, List.isEmpty_iff,
      Text.lower_eq_nil_iff]
  rw [usable, List.filter_map]
  simp only [Function.comp_def, hempty]

theorem mem_usable_iff {entries : List Text} {w : Text} :
    w ∈ usable entries ↔ ∃ t ∈ entries, t.isBlank = false ∧ t.trim.lower = w := by
  simp [usable_eq, and_assoc]

theorem usable_append (entries entries' : List Text) :
    usable (entries ++ entries') = usable entries ++ usable entries' := by
  rw [usable_eq, usable_eq, usable_eq, List.filter_append, List.map_append]

/-- Blank entries count for nothing. -/
theorem usable_filter (entries : List Text) :
    usable (entries.filter fun t => !t.isBlank) = usable entries := by
  rw [usable_eq, usable_eq, List.filter_filter]
  simp only [Bool.and_self]

/-- A word is a verb if something of it is left to compare, and an ending or a form matches. -/
theorem isVerb_iff {l : VerbLexicon} {word : Text} :
    l.isVerb word = true ↔ comparedForm word ≠ [] ∧
      ((∃ s ∈ l.suffixes, s <:+ comparedForm word) ∨ ∃ f ∈ l.forms, f <:+: comparedForm word) := by
  simp [isVerb, List.any_eq_true, List.isSuffixOf_iff_suffix, Text.hasInfix_iff]

/-- Extending a lexicon adds the words whose core the new entries mark, and no others. -/
theorem isVerb_extend_iff {l : VerbLexicon} {suffixes forms : List Text} {word core : Text}
    (hcore : IsCoreOf word core) :
    (l.extend suffixes forms).isVerb word = true ↔ core.lower ≠ [] ∧
      (l.isVerb word = true ∨ IsMarkedBy suffixes forms core.lower) := by
  have hadded {entries added : List Text} {p : Text → Prop} :
      (∃ w ∈ entries ++ usable added, p w) ↔
        (∃ w ∈ entries, p w) ∨ ∃ t ∈ added, t.isBlank = false ∧ p t.trim.lower := by
    simp only [List.mem_append, mem_usable_iff, or_and_right, exists_or]
    refine or_congr_right ⟨?_, ?_⟩
    · rintro ⟨_, ⟨t, ht, hblank, rfl⟩, hp⟩
      exact ⟨t, ht, hblank, hp⟩
    · rintro ⟨t, ht, hblank, hp⟩
      exact ⟨_, ⟨t, ht, hblank, rfl⟩, hp⟩
  rw [isVerb_iff, isVerb_iff, comparedForm_of_isCoreOf hcore, extend, hadded, hadded, IsMarkedBy,
    or_or_or_comm]
  exact and_congr_right fun hne => by rw [and_iff_right hne]

/-- The order of new entries does not matter, nor does how often one is given. -/
theorem isVerb_extend_congr {l : VerbLexicon} {suffixes suffixes' forms forms' : List Text}
    (hsuffixes : ∀ s, s ∈ suffixes' ↔ s ∈ suffixes) (hforms : ∀ f, f ∈ forms' ↔ f ∈ forms) :
    (l.extend suffixes' forms').isVerb = (l.extend suffixes forms).isVerb := by
  funext word
  obtain ⟨core, hcore, -⟩ := existsUnique_isCoreOf word
  rw [Bool.eq_iff_iff, isVerb_extend_iff hcore, isVerb_extend_iff hcore]
  simp only [IsMarkedBy, hsuffixes, hforms]

theorem extend_filter (l : VerbLexicon) (suffixes forms : List Text) :
    l.extend (suffixes.filter fun s => !s.isBlank) (forms.filter fun f => !f.isBlank) =
      l.extend suffixes forms := by
  rw [extend, extend, usable_filter, usable_filter]

/-- A lexicon that is extended twice is extended by all of the entries. -/
theorem extend_extend (l : VerbLexicon) (suffixes forms suffixes' forms' : List Text) :
    (l.extend suffixes forms).extend suffixes' forms' =
      l.extend (suffixes ++ suffixes') (forms ++ forms') := by
  simp only [extend, usable_append, List.append_assoc]

/-- A word that is a verb is one in an extended lexicon. -/
theorem isVerb_extend (l : VerbLexicon) (suffixes forms : List Text) {word : Text}
    (h : l.isVerb word = true) : (l.extend suffixes forms).isVerb word = true := by
  obtain ⟨core, hcore, -⟩ := existsUnique_isCoreOf word
  have hne : core.lower ≠ [] := by
    rw [← comparedForm_of_isCoreOf hcore]
    exact (isVerb_iff.1 h).1
  exact (isVerb_extend_iff hcore).2 ⟨hne, .inl h⟩

end VerbLexicon

/-! ### Where a clause is negated -/

/-- The place among the words of a clause at which the negation word is put in: that of the first verb, or
the end. -/
def negationIndex (isVerb : VerbDetector) (clause : Text) : Nat :=
  clause.words.findIdx isVerb

/-- A text holds the words of a clause with single spaces between them, and the negation word at the place
`i` among them. -/
structure IsNegatedAt (clause negated : Text) (i : Nat) : Prop where
  /-- The place is one before a word, or the end. -/
  le_length : i ≤ clause.words.length
  /-- The words stand on one line. -/
  eq_unwords : negated = Text.unwords (clause.words.insertIdx i negationWord)
  /-- The negation word stands at the place. -/
  getElem?_words : negated.words[i]? = some negationWord
  /-- The other words are those of the clause, in order. -/
  eraseIdx_words : negated.words.eraseIdx i = clause.words

theorem isNegatedAt_negateClause (isVerb : VerbDetector) (clause : Text) :
    IsNegatedAt clause (negateClause isVerb clause) (negationIndex isVerb clause) := by
  have hlength : negationIndex isVerb clause ≤ clause.words.length := List.findIdx_le_length
  have hwords : (negateClause isVerb clause).words =
      clause.words.insertIdx (negationIndex isVerb clause) negationWord := by
    rw [negateClause, Text.words_unwords (Formula.isWords_negateWords isVerb (Text.isWords_words _)),
      negateWords_eq_insertIdx, negationIndex]
  exact
    { le_length := hlength
      eq_unwords := by rw [negateClause, negateWords_eq_insertIdx, negationIndex]
      getElem?_words := by rw [hwords, List.getElem?_insertIdx_self, if_pos hlength]
      eraseIdx_words := by rw [hwords, List.eraseIdx_insertIdx_self] }

/-- What counts more words as verbs negates no clause farther behind. -/
theorem negationIndex_le {isVerb isVerb' : VerbDetector}
    (h : ∀ w, isVerb w = true → isVerb' w = true) (clause : Text) :
    negationIndex isVerb' clause ≤ negationIndex isVerb clause :=
  List.findIdx_le_findIdx fun w _ => h w

/-- The extension of a lexicon is exact and monotone.  Each word has one core, and where this is not empty
the extension accepts the word if the lexicon does, or if one of the new entries marks the core in lower
case.  Blank entries leave the lexicon as it is, the order of the entries and repetitions of them do not
matter, and extending twice is extending by all of the entries.  No clause is negated farther behind than
before, and its words stay as they are. -/
theorem VerbLexicon.isVerb_extend_and_negationIndex_le (l : VerbLexicon)
    (suffixes forms : List Text) :
    (∀ word, (∃! core, IsCoreOf word core) ∧ ∀ core, IsCoreOf word core →
      ((l.extend suffixes forms).isVerb word = true ↔ core.lower ≠ [] ∧
        (l.isVerb word = true ∨ IsMarkedBy suffixes forms core.lower))) ∧
    l.extend (suffixes.filter fun s => !s.isBlank) (forms.filter fun f => !f.isBlank) =
      l.extend suffixes forms ∧
    (∀ suffixes' forms', (∀ s, s ∈ suffixes' ↔ s ∈ suffixes) → (∀ f, f ∈ forms' ↔ f ∈ forms) →
      (l.extend suffixes' forms').isVerb = (l.extend suffixes forms).isVerb) ∧
    (∀ suffixes' forms', (l.extend suffixes forms).extend suffixes' forms' =
      l.extend (suffixes ++ suffixes') (forms ++ forms')) ∧
    ∀ clause,
      let before := negationIndex l.isVerb clause
      let after := negationIndex (l.extend suffixes forms).isVerb clause
      IsNegatedAt clause (negateClause l.isVerb clause) before ∧
        IsNegatedAt clause (negateClause (l.extend suffixes forms).isVerb clause) after ∧
        after ≤ before :=
  ⟨fun word => ⟨existsUnique_isCoreOf word, fun _ hcore => isVerb_extend_iff hcore⟩,
    l.extend_filter suffixes forms,
    fun _ _ hsuffixes hforms => isVerb_extend_congr hsuffixes hforms, l.extend_extend suffixes forms,
    fun clause => ⟨isNegatedAt_negateClause _ clause, isNegatedAt_negateClause _ clause,
      negationIndex_le (fun _ => l.isVerb_extend suffixes forms) clause⟩⟩

/-- An ending in capitals, with a blank one beside it, marks a word in capitals between quotation marks, and
brings the negation word in front of it, whether it is given once or twice. -/
theorem VerbLexicon.isNegatedAt_extend_standard :
    let word := "«DORME!»".toList
    let clause := "João  «DORME!»".toList
    let extended := standard.extend [" \t".toList, "ME ".toList] []
    IsCoreOf word "DORME".toList ∧ standard.isVerb word = false ∧ extended.isVerb word = true ∧
      (standard.extend ["ME ".toList, " \t".toList, "ME ".toList] []).isVerb = extended.isVerb ∧
      IsNegatedAt clause "João «DORME!» não".toList 2 ∧
      IsNegatedAt clause "João não «DORME!»".toList 1 := by
  intro word clause extended
  obtain ⟨hverb, -, horder, -, hnegated⟩ :=
    standard.isVerb_extend_and_negationIndex_le [" \t".toList, "ME ".toList] []
  obtain ⟨hbefore, hafter, -⟩ := hnegated clause
  have hcore : IsCoreOf word "DORME".toList := isCoreOf_iff.2 (by decide +kernel)
  have hmarked : IsMarkedBy [" \t".toList, "ME ".toList] [] (Text.lower "DORME".toList) :=
    .inl ⟨"ME ".toList, by decide +kernel⟩
  refine ⟨hcore, by decide +kernel, ((hverb word).2 _ hcore).2 ⟨by decide +kernel, .inr hmarked⟩,
    horder _ _ (fun s => ?_) (fun _ => Iff.rfl), ?_, ?_⟩
  · simp only [List.mem_cons, List.not_mem_nil, or_false]
    tauto
  · have htext : negateClause standard.isVerb clause = "João «DORME!» não".toList := by
      decide +kernel
    have hplace : negationIndex standard.isVerb clause = 2 := by decide +kernel
    rwa [htext, hplace] at hbefore
  · have htext : negateClause extended.isVerb clause = "João não «DORME!»".toList := by
      decide +kernel
    have hplace : negationIndex extended.isVerb clause = 1 := by decide +kernel
    rwa [htext, hplace] at hafter

end Sentential
