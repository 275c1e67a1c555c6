import Mathlib.Data.List.Nodup
import Mathlib.Tactic.Common
import Sentential.Proofs.Consistency
import Sentential.Proofs.Spoken

/-!
# Flat formulas can be read back

A flat formula whose variables stand for clean clauses can be rendered, and its sentence is formalized
to the same formula and the same clauses again, whatever counts as a verb (`formalize_words_of_isClean`).
A clause is clean if its tokens are no words or signs of connectives, and no punctuation stands at its
ends (`IsClean`).

Parentheses are lost in the sentence, but the grouping of a flat formula is that of the tiers.  The
negation word can turn up at any place of a clause, and goes away from there.
-/

namespace Sentential

open Text

/-! ### Clean clauses -/

/-- The words that are read as connectives, or as parts of their phrases. -/
def connectiveWords : List Text :=
  ["se".toList, "e".toList, "mas".toList, "ou".toList, "então".toList, "entao".toList,
    "não".toList, "nao".toList]

/-- The punctuation at the end of a sentence. -/
def sentencePunctuation : List Text :=
  [['.'], ['!'], ['?']]

/-- A clause that holds nothing that could be read as a connective. -/
structure IsClean (c : Text) : Prop where
  /-- It is not empty. -/
  ne_nil : c ≠ []
  /-- Its white space is in order. -/
  joined : joinTokens (tokenize c) = c
  /-- It has neither a comma nor a negation sign. -/
  kinds : ∀ t ∈ tokenize c, t.kind ≠ .comma ∧ t.kind ≠ .negation
  /-- It has no word of a connective. -/
  words : ∀ t ∈ tokenize c, t.kind = .word → t.text.lower ∉ connectiveWords
  /-- It does not start with punctuation. -/
  first : ∀ t ∈ (tokenize c).head?, t.text ∉ sentencePunctuation
  /-- It does not end in punctuation. -/
  last : ∀ t ∈ (tokenize c).getLast?, t.text ∉ sentencePunctuation

theorem isClean_iff {c : Text} : IsClean c ↔ c ≠ [] ∧ joinTokens (tokenize c) = c ∧
    (∀ t ∈ tokenize c, t.kind ≠ .comma ∧ t.kind ≠ .negation) ∧
    (∀ t ∈ tokenize c, t.kind = .word → t.text.lower ∉ connectiveWords) ∧
    (∀ t ∈ (tokenize c).head?, t.text ∉ sentencePunctuation) ∧
    ∀ t ∈ (tokenize c).getLast?, t.text ∉ sentencePunctuation :=
  ⟨fun ⟨h₁, h₂, h₃, h₄, h₅, h₆⟩ => ⟨h₁, h₂, h₃, h₄, h₅, h₆⟩,
    fun ⟨h₁, h₂, h₃, h₄, h₅, h₆⟩ => ⟨h₁, h₂, h₃, h₄, h₅, h₆⟩⟩

instance (c : Text) : Decidable (IsClean c) :=
  decidable_of_iff _ isClean_iff.symm

/-- A token that is read as no connective, in a clause or elsewhere. -/
structure Token.IsClean (t : Token) : Prop where
  /-- It is no word before which a condition or behind which a conclusion stands. -/
  notConditional : t.isWord ifWord = false ∧ t.isThen = false
  /-- It does not separate clauses. -/
  notSeparator : t.isAnd = false ∧ t.isOr = false
  /-- It does not negate. -/
  notNegation : t.isNot = false ∧ t.kind ≠ .negation
  /-- It is no comma. -/
  notComma : t.kind ≠ .comma

namespace IsClean

variable {c : Text}

theorem isClean_of_mem (hc : IsClean c) {t : Token} (ht : t ∈ tokenize c) : t.IsClean := by
  obtain ⟨hcomma, hnegation⟩ := hc.kinds t ht
  have hwords := hc.words t ht
  have hany {keywords : List Text} (hsub : ∀ w ∈ keywords, w ∈ connectiveWords) :
      t.isAnyWord keywords = false := by
    by_contra h
    obtain ⟨hkind, hmem⟩ : t.kind = .word ∧ t.text.lower ∈ keywords := by
      simpa [Token.isAnyWord] using h
    exact hwords hkind (hsub _ hmem)
  have hone {w : Text} (hw : w ∈ connectiveWords) : t.isWord w = false := by
    by_contra h
    obtain ⟨hkind, rfl⟩ : t.kind = .word ∧ t.text.lower = w := by simpa [Token.isWord] using h
    exact hwords hkind hw
  refine ⟨⟨hone (by decide), hany (by decide)⟩, ⟨?_, hone (by decide)⟩,
    ⟨hany (by decide), hnegation⟩, hcomma⟩
  simp [Token.isAnd, hcomma, hany (by decide : ∀ w ∈ andWords, w ∈ connectiveWords)]

/-- No punctuation stands at the ends of a clean clause. -/
theorem endsWithout (hc : IsClean c) : EndsWithout Token.isClausePunctuation (tokenize c) := by
  have hclean {t : Token} (ht : t ∈ tokenize c) (hends : t.text ∉ sentencePunctuation) :
      t.isClausePunctuation = false := by
    by_contra h
    have hpunct : t.isClausePunctuation = true := by simpa using h
    obtain ⟨-, hmem⟩ : (t.kind = .comma ∨ t.kind = .punctuation) ∧
        t.text ∈ [['.'], [','], ['!'], ['?']] := of_decide_eq_true hpunct
    -- what is written as a comma is one, and a clean clause has none
    have hcomma : t.text ≠ [','] := fun htext => by
      obtain ⟨rest, hlex⟩ := exists_lexeme_of_mem_tokenize ht
      rw [htext] at hlex
      exact (hc.kinds t ht).1 hlex.kind_eq_comma
    simp only [sentencePunctuation, List.mem_cons, List.not_mem_nil, or_false] at hmem hends
    tauto
  exact ⟨fun t ht => hclean (List.mem_of_mem_head? ht) (hc.first t ht),
    fun t ht => hclean (List.mem_of_mem_getLast? ht) (hc.last t ht)⟩

/-- A clean clause is its words on one line. -/
theorem unwords_words (hc : IsClean c) : unwords (Text.words c) = c := by
  have hvisible : ∀ t ∈ tokenize c, t.IsVisible := fun _ ht => isVisible_of_mem_tokenize ht
  have hjoin := unwords_words_joinTokens hvisible
  rwa [hc.joined] at hjoin

theorem words_ne_nil (hc : IsClean c) : Text.words c ≠ [] := by
  intro h
  have hwords := hc.unwords_words
  rw [h, unwords_nil] at hwords
  exact hc.ne_nil hwords.symm

theorem trim_eq (hc : IsClean c) : c.trim = c := by
  rw [← hc.unwords_words, trim_unwords (isWords_words c)]

theorem tokenize_eq (hc : IsClean c) : lineTokens 0 (Text.words c) = tokenize c := by
  rw [lineTokens, hc.unwords_words, tokenize]

end IsClean

/-! ### Literals over clean clauses -/

/-- Negating a clause puts the negation word somewhere between its words. -/
theorem exists_negateWords_eq (isVerb : VerbDetector) (ws : List Text) :
    ∃ vs us, ws = vs ++ us ∧ negateWords isVerb ws = vs ++ negationWord :: us := by
  induction ws with
  | nil => exact ⟨[], [], rfl, rfl⟩
  | cons w ws ih =>
    rw [negateWords]
    split
    · exact ⟨[], w :: ws, rfl, rfl⟩
    · obtain ⟨vs, us, hws, hneg⟩ := ih
      exact ⟨w :: vs, us, by rw [hws, List.cons_append], by rw [hneg, List.cons_append]⟩

theorem isWord_negationWord : IsWord negationWord :=
  ⟨'n', ['ã', 'o'], rfl, by decide +kernel, by decide +kernel, by decide +kernel, trivial⟩

/-- The negation word as a token. -/
theorem isNot_negationWord (start : Nat) : Token.isNot ⟨.word, negationWord, start⟩ = true :=
  (by decide : decide (TokenKind.word = .word ∧ Text.lower negationWord ∈ notWords) = true)

theorem isAnd_negationWord (start : Nat) : Token.isAnd ⟨.word, negationWord, start⟩ = false :=
  (by decide : (decide (TokenKind.word = .comma) ||
    decide (TokenKind.word = .word ∧ Text.lower negationWord ∈ andWords)) = false)

theorem bareTokens_negationWord_cons (ws : List Text) :
    bareTokens (negationWord :: ws) = ⟨.word, negationWord, 0⟩ :: bareTokens ws := by
  have hword := map_bare_lineTokens 0 [negationWord]
  rw [lineTokens_singleton 0 isWord_negationWord] at hword
  rw [← List.singleton_append, bareTokens_append, ← hword]
  rfl

/-- Text from tokens that have no negation word. -/
theorem filter_isNot_eq_self {ts : List Token} (h : ∀ t ∈ ts, t.isNot = false) :
    ts.filter (fun t => !t.isNot) = ts :=
  List.filter_eq_self.2 fun t ht => by simp [h t ht]

namespace IsClean

variable {c : Text}

theorem isClean_of_mem_bareTokens (hc : IsClean c) :
    ∀ t ∈ bareTokens (Text.words c), t.IsClean := by
  have hbare (t : Token) : t.bare.IsClean ↔ t.IsClean :=
    ⟨fun ⟨h₁, h₂, h₃, h₄⟩ => ⟨h₁, h₂, h₃, h₄⟩, fun ⟨h₁, h₂, h₃, h₄⟩ => ⟨h₁, h₂, h₃, h₄⟩⟩
  refine (forall_mem_lineTokens hbare 0).1 ?_
  rw [hc.tokenize_eq]
  exact fun t ht => hc.isClean_of_mem ht

/-- A clean clause is read as it is. -/
theorem literalAt_words (hc : IsClean c) : literalAt (Text.words c) = ⟨false, c⟩ := by
  have hnot : ∀ t ∈ tokenize c, t.isNot = false := fun t ht => (hc.isClean_of_mem ht).notNegation.1
  rw [literalAt, hc.tokenize_eq, literalOf_eq hc.endsWithout fun t ht =>
    (hc.isClean_of_mem (List.mem_of_mem_head? ht)).notNegation.2, filter_isNot_eq_self hnot,
    hc.joined, List.any_eq_false.2 fun t ht => by simp [hnot t ht]]

theorem endsWithout_bareTokens (hc : IsClean c) :
    EndsWithout Token.isClausePunctuation (bareTokens (Text.words c)) := by
  rw [← map_bare_lineTokens 0, endsWithout_map, hc.tokenize_eq]
  exact hc.endsWithout

/-- A clean clause that is negated is read as the clause without the negation word. -/
theorem literalAt_negateWords (hc : IsClean c) (isVerb : VerbDetector) :
    literalAt (negateWords isVerb (Text.words c)) = ⟨true, c⟩ := by
  obtain ⟨vs, us, hws, hneg⟩ := exists_negateWords_eq isVerb (Text.words c)
  obtain ⟨n, m, hlt, htokens⟩ := exists_lineTokens_middle 0 vs isWord_negationWord us
  have hclean := hc.isClean_of_mem_bareTokens
  have hends := hc.endsWithout_bareTokens
  rw [hws, bareTokens_append] at hclean hends
  obtain ⟨hvs, hus⟩ := List.forall_mem_append.1 hclean
  have hbare : bareTokens (vs ++ negationWord :: us) =
      bareTokens vs ++ ⟨.word, negationWord, 0⟩ :: bareTokens us := by
    rw [bareTokens_append, bareTokens_negationWord_cons]
  have hends' : EndsWithout Token.isClausePunctuation
      (lineTokens 0 (vs ++ negationWord :: us)) := by
    have h := hends.insert (x := ⟨.word, negationWord, 0⟩) rfl
    rwa [← hbare, ← map_bare_lineTokens 0, endsWithout_map] at h
  have hkinds : ∀ t ∈ lineTokens 0 (vs ++ negationWord :: us), t.kind ≠ .negation := by
    refine (forall_mem_lineTokens (fun _ => Iff.rfl) 0).2 ?_
    rw [hbare, List.forall_mem_append, List.forall_mem_cons]
    exact ⟨fun t ht => (hvs t ht).notNegation.2, by decide, fun t ht => (hus t ht).notNegation.2⟩
  have hnot (k : Nat) {ws : List Text} (h : ∀ t ∈ bareTokens ws, t.IsClean) :
      (lineTokens k ws).filter (fun t => !t.isNot) = lineTokens k ws :=
    filter_isNot_eq_self ((forall_mem_lineTokens (fun _ => Iff.rfl) k).2 fun t ht =>
      (h t ht).notNegation.1)
  have hsplit : IsWords vs ∧ IsWords us := List.forall_mem_append.1 (hws ▸ isWords_words c)
  rw [hneg, literalAt, literalOf_eq hends' fun t ht => hkinds t (List.mem_of_mem_head? ht), htokens]
  rw [List.filter_append, List.filter_cons_of_neg (by simp [isNot_negationWord]), hnot 0 hvs,
    hnot m hus, joinTokens_lineTokens_append hsplit.1 hsplit.2 hlt, ← hws, hc.unwords_words]
  simp [isNot_negationWord]

/-- The words of a literal over a clean clause are read as the literal. -/
theorem literalAt_literalWords {isVerb : VerbDetector} {clause : Variable → Text}
    {l : Bool × Variable} (hc : IsClean (clause l.2)) :
    literalAt (literalWords isVerb clause l) = ⟨l.1, clause l.2⟩ := by
  obtain ⟨negated, v⟩ := l
  cases negated with
  | false => exact hc.literalAt_words
  | true => exact hc.literalAt_negateWords isVerb

end IsClean

/-! ### Sentences with clean clauses -/

/-- What holds of the tokens of a clause, and of the negation word, holds of those of a literal. -/
theorem forall_mem_bareTokens_literalWords {isVerb : VerbDetector} {clause : Variable → Text}
    {l : Bool × Variable} {p : Token → Prop} (hnot : p ⟨.word, negationWord, 0⟩)
    (hclause : ∀ t ∈ bareTokens (Text.words (clause l.2)), p t) :
    ∀ t ∈ bareTokens (literalWords isVerb clause l), p t := by
  obtain ⟨negated, v⟩ := l
  cases negated with
  | false => exact hclause
  | true =>
    obtain ⟨vs, us, hws, hneg⟩ := exists_negateWords_eq isVerb (Text.words (clause v))
    rw [hws, bareTokens_append, List.forall_mem_append] at hclause
    rw [literalWords, if_pos rfl, hneg, bareTokens_append, bareTokens_negationWord_cons]
    exact List.forall_mem_append.2 ⟨hclause.1, List.forall_mem_cons.2 ⟨hnot, hclause.2⟩⟩

/-- The words of a literal can stand in a row, if the clause can. -/
theorem fitsRow_literalWords {isVerb : VerbDetector} {clause : Variable → Text} {l : Bool × Variable}
    (hclause : FitsRow (Text.words (clause l.2))) : FitsRow (literalWords isVerb clause l) := by
  obtain ⟨hwords, hne, hand⟩ := hclause
  have hand' : ∀ t ∈ bareTokens (literalWords isVerb clause l), t.isAnd = false :=
    forall_mem_bareTokens_literalWords (isAnd_negationWord 0) hand
  obtain ⟨negated, v⟩ := l
  cases negated with
  | false => exact ⟨hwords, hne, hand'⟩
  | true => exact ⟨Formula.isWords_negateWords isVerb hwords, ne_nil_negateWords isVerb _, hand'⟩

/-- The tokens of a literal over a clean clause are no words of conditionals, biconditionals and
disjunctions. -/
theorem IsClean.isQuiet_literalWords {isVerb : VerbDetector} {clause : Variable → Text}
    {l : Bool × Variable} (hc : IsClean (clause l.2)) :
    ∀ t ∈ bareTokens (literalWords isVerb clause l), t.IsQuiet := by
  have hnot : Token.IsQuiet ⟨.word, negationWord, 0⟩ :=
    ⟨(by decide : decide (TokenKind.word = .word ∧ Text.lower negationWord = ifWord) = false),
      (by decide : decide (TokenKind.word = .word ∧ Text.lower negationWord ∈ thenWords) = false),
      (by decide : decide (TokenKind.word = .word ∧ Text.lower negationWord = orWord) = false)⟩
  refine forall_mem_bareTokens_literalWords hnot fun t ht => ?_
  have hclean := hc.isClean_of_mem_bareTokens t ht
  exact ⟨hclean.notConditional.1, hclean.notConditional.2, hclean.notSeparator.2⟩

theorem IsClean.fitsRow {c : Text} (hc : IsClean c) : FitsRow (Text.words c) :=
  ⟨isWords_words c, hc.words_ne_nil, fun t ht => (hc.isClean_of_mem_bareTokens t ht).notSeparator.1⟩

/-- The atoms of a flat formula are those of its literals. -/
theorem atoms_frame (frame : Frame (List (List (Bool × Variable)))) :
    (frame.map Formula.ofRows).formula.atoms = frame.literals.map Prod.snd := by
  simp [Frame.literals, List.flatMap_map, List.map_flatMap]

/-- A frame of literals whose words can stand in a row fits its sides. -/
theorem fitsSide_mapLiterals {frame : Frame (List (List (Bool × Variable)))}
    (hframe : ∀ rows ∈ frame.members, rows ≠ [] ∧ ∀ row ∈ rows, row ≠ [])
    {wordsOf : Bool × Variable → List Text} (hfits : ∀ l ∈ frame.literals, FitsRow (wordsOf l)) :
    ∀ rows ∈ (frame.mapLiterals wordsOf).members, FitsSide rows := by
  rw [Frame.mapLiterals, Frame.members_map, List.forall_mem_map]
  intro rows hrows
  obtain ⟨hne, hrow⟩ := hframe rows hrows
  rw [FitsSide, List.forall_mem_map]
  refine ⟨by simpa using hne, fun row hmem => ⟨by simpa using hrow row hmem, ?_⟩⟩
  rw [List.forall_mem_map]
  exact fun l hl => hfits l (Frame.mem_literals.2 ⟨rows, hrows, row, hmem, hl⟩)

/-- The sentence of a flat formula over clean clauses is formalized to this formula and to these
clauses. -/
theorem formalize_words_of_isClean {frame : Frame (List (List (Bool × Variable)))}
    (hframe : ∀ rows ∈ frame.members, rows ≠ [] ∧ ∀ row ∈ rows, row ≠ []) {n : Nat}
    (hvars : Variable.distinct (frame.literals.map Prod.snd) = firstVariables n)
    {clause : Variable → Text} (hclean : ∀ l ∈ frame.literals, IsClean (clause l.2))
    (hdiff : ∀ l ∈ frame.literals, ∀ l' ∈ frame.literals,
      Text.lower (clause l.2) = Text.lower (clause l'.2) → l.2 = l'.2) (isVerb : VerbDetector) :
    formalize (unwords (frame.mapLiterals (literalWords isVerb clause)).words) =
      .ok ⟨(frame.map Formula.ofRows).formula,
        ⟨List.zipWith Legend.Entry.mk (firstVariables n) ((firstVariables n).map clause)⟩⟩ := by
  have hliteral : ∀ l ∈ frame.literals, literalAt (literalWords isVerb clause l) = ⟨l.1, clause l.2⟩ :=
    fun l hl => (hclean l hl).literalAt_literalWords
  have hfits : ∀ rows ∈ (frame.mapLiterals (literalWords isVerb clause)).members, FitsSide rows :=
    fitsSide_mapLiterals hframe fun l hl => fitsRow_literalWords (hclean l hl).fitsRow
  have hkeeps : (frame.mapLiterals (literalWords isVerb clause)).KeepsConnectives := by
    refine Frame.keepsConnectives_of_isQuiet hfits ?_
    rw [Frame.literals_mapLiterals, List.forall_mem_map]
    exact fun l hl => (hclean l hl).isQuiet_literalWords
  have hkeys : ∀ l ∈ frame.literals, ∀ l' ∈ frame.literals,
      clauseKey (literalAt (literalWords isVerb clause l)).clause =
        clauseKey (literalAt (literalWords isVerb clause l')).clause ↔ l.2 = l'.2 := by
    intro l hl l' hl'
    rw [hliteral l hl, hliteral l' hl', clauseKey, clauseKey, (hclean l hl).trim_eq,
      (hclean l' hl').trim_eq]
    exact ⟨hdiff l hl l' hl', fun h => by rw [h]⟩
  have hread : ∀ l ∈ frame.literals, (literalAt (literalWords isVerb clause l)).negated = l.1 ∧
      (literalAt (literalWords isVerb clause l)).clause ≠ [] := by
    intro l hl
    rw [hliteral l hl]
    exact ⟨rfl, (hclean l hl).ne_nil⟩
  rw [formalize_words hkeeps hfits hread hkeys hvars]
  -- the clauses of the legend are those of the variables, in the order of the variables
  have hfirsts : (firstsBy Prod.snd frame.literals).map Prod.snd = firstVariables n := by
    rw [← hvars, distinct_eq_firstsBy, firstsBy_map, Function.id_comp]
  have hclauses : (firstsBy Prod.snd frame.literals).map
      (fun l => (literalAt (literalWords isVerb clause l)).clause) = (firstVariables n).map clause := by
    rw [← hfirsts, List.map_map]
    exact List.map_congr_left fun l hl => by rw [hliteral l (mem_of_mem_firstsBy hl)]; rfl
  have htrim : ∀ c ∈ (firstVariables n).map clause, c.trim = c := by
    rw [← hfirsts, List.map_map, List.forall_mem_map]
    exact fun l hl => (hclean l (mem_of_mem_firstsBy hl)).trim_eq
  have hlen : (firstVariables n).length = n := by simp [firstVariables]
  rw [hclauses, entriesFrom_eq_zipWith htrim, List.length_map, hlen]

/-- A table that gives variables their clauses gives the clauses in the order of the variables. -/
theorem map_find?_eq {vars : List Variable} {clauses : List Text} (hlen : vars.length = clauses.length)
    {find? : Variable → Option Text}
    (htable : ∀ e ∈ List.zipWith Legend.Entry.mk vars clauses, find? e.var = some e.clause)
    (htrim : ∀ c ∈ clauses, c.trim = c) :
    (vars.map fun v => ((find? v).getD []).trim) = clauses := by
  refine List.ext_getElem (by simpa using hlen) fun i hi hi' => ?_
  have hvar : i < vars.length := hlen ▸ hi'
  have hmem : Legend.Entry.mk vars[i] clauses[i] ∈ List.zipWith Legend.Entry.mk vars clauses := by
    refine List.mem_iff_getElem.2 ⟨i, by simpa [hlen] using hi', ?_⟩
    rw [List.getElem_zipWith]
  have hfind : find? vars[i] = some clauses[i] := htable _ hmem
  rw [List.getElem_map, hfind, Option.getD_some, htrim _ (List.getElem_mem hi')]

/-- A flat formula whose variables are the first ones can be rendered with clean clauses that differ,
whatever counts as a verb, and its sentence is formalized to the same formula and the same clauses. -/
theorem formalize_render_of_isFlat {f : Formula Variable} (hf : f.IsFlat) {n : Nat}
    (hvars : Variable.distinct f.atoms = (Allocator.take {} n).1) {clauses : List Text}
    (hlen : clauses.length = n) (hclean : ∀ c ∈ clauses, IsClean c)
    (hdiff : clauses.Pairwise fun c d => Text.lower c ≠ Text.lower d)
    {find? : Variable → Option Text}
    (htable : ∀ e ∈ List.zipWith Legend.Entry.mk (Allocator.take {} n).1 clauses,
      find? e.var = some e.clause) (isVerb : VerbDetector) :
    ∃ rendering, render isVerb f.display (.ofTable find?) () = (.ok rendering, ()) ∧
      formalize rendering.sentence =
        .ok ⟨f, ⟨List.zipWith Legend.Entry.mk (Allocator.take {} n).1 clauses⟩⟩ := by
  rw [take_fresh] at hvars htable ⊢
  obtain ⟨frame, hframe, rfl⟩ := Formula.isFlat_iff.1 hf
  have hlength : (firstVariables n).length = clauses.length := by simp [firstVariables, hlen]
  let clause : Variable → Text := fun v => ((find? v).getD []).trim
  -- the clauses are those of the first variables, in order
  have hmap : (firstVariables n).map clause = clauses :=
    map_find?_eq hlength htable fun c hc => (hclean c hc).trim_eq
  have hmem : ∀ v ∈ (frame.map Formula.ofRows).formula.atoms, v ∈ firstVariables n := by
    intro v hv
    rwa [← hvars, mem_distinct_iff]
  have hatoms : ∀ v ∈ (frame.map Formula.ofRows).formula.atoms, IsClean (clause v) := fun v hv =>
    hclean _ (hmap ▸ List.mem_map_of_mem (hmem v hv))
  have hinj : ∀ v ∈ firstVariables n, ∀ w ∈ firstVariables n,
      Text.lower (clause v) = Text.lower (clause w) → v = w := by
    have hnodup : ((firstVariables n).map fun v => Text.lower (clause v)).Nodup := by
      have hkeys : ((firstVariables n).map clause).map Text.lower = clauses.map Text.lower := by
        rw [hmap]
      rw [List.map_map] at hkeys
      exact hkeys ▸ List.pairwise_map.2 hdiff
    exact fun v hv w hw h => List.inj_on_of_nodup_map hnodup hv hw h
  have hfind : ∀ v ∈ (frame.map Formula.ofRows).formula.atoms,
      ((find? v).getD []).trim = clause v ∧ clause v ≠ [] := fun v hv =>
    ⟨rfl, (hatoms v hv).ne_nil⟩
  have hrender := @render_display isVerb find? clause _ hf.isNormal hfind
  rw [spoken_reading] at hrender
  refine ⟨_, hrender, ?_⟩
  have hliterals : ∀ l ∈ frame.literals, l.2 ∈ (frame.map Formula.ofRows).formula.atoms := by
    rw [atoms_frame]
    exact fun l hl => List.mem_map_of_mem hl
  rw [atoms_frame] at hvars
  rw [formalize_words_of_isClean hframe hvars (fun l hl => hatoms _ (hliterals l hl))
    (fun l hl l' hl' => hinj _ (hmem _ (hliterals l hl)) _ (hmem _ (hliterals l' hl'))), hmap]

/-- A conditional with a disjunction in its condition, in which one variable repeats. -/
theorem exists_formalize_render_conditional :
    ∃ rendering, render VerbLexicon.standard.isVerb
        (Formula.imp (.disj [.conj [.atom (Variable.nth 0), .neg (.atom (Variable.nth 1))],
          .neg (.atom (Variable.nth 0))]) (.atom (Variable.nth 2))).display
        (.ofTable (Legend.get? ⟨[⟨Variable.nth 0, "o guarda-chuva fica em casa".toList⟩,
          ⟨Variable.nth 1, "chove".toList⟩, ⟨Variable.nth 2, "João sorri".toList⟩]⟩)) () =
        (.ok rendering, ()) ∧
      formalize rendering.sentence = .ok
        ⟨.imp (.disj [.conj [.atom (Variable.nth 0), .neg (.atom (Variable.nth 1))],
          .neg (.atom (Variable.nth 0))]) (.atom (Variable.nth 2)),
        ⟨[⟨Variable.nth 0, "o guarda-chuva fica em casa".toList⟩,
          ⟨Variable.nth 1, "chove".toList⟩, ⟨Variable.nth 2, "João sorri".toList⟩]⟩⟩ := by
  have hliteral (b : Bool) (v : Variable) : (Formula.literal b v).IsLiteral :=
    Formula.isLiteral_literal b v
  refine @formalize_render_of_isFlat _ (.imp (.disj (by simp) ?_) (.unit (.literal (.atom _)))) 3
    (by decide) ["o guarda-chuva fica em casa".toList, "chove".toList, "João sorri".toList] rfl
    (by decide +kernel) (by decide +kernel) _ (by decide +kernel) VerbLexicon.standard.isVerb
  simp only [List.forall_mem_cons, List.not_mem_nil, false_imp_iff, implies_true, and_true]
  exact ⟨.conj (by simp) (by simpa using ⟨hliteral false _, hliteral true _⟩),
    .literal (hliteral true _)⟩

end Sentential
