import Mathlib.Data.List.Forall2
import Mathlib.Tactic.Common
import Sentential.Proofs.Formalize
import Sentential.Proofs.Lines
import Sentential.Proofs.Reading

/-!
# Spoken sentences

The sentence for a flat formula consists of the words of its literals, with the words of connectives
between them (`Frame.words`, `spoken_reading`).  Its tokens are those of its sides, with the tokens of
the connective between them.

When the sentence is read again, the words of the literals can get in the way: where they make up
words of connectives themselves, the sentence is cut at the wrong place.  If they do not
(`Frame.KeepsConnectives`), it is cut into the sides, rows and literals with which it was written
(`Frame.KeepsConnectives.exists_sides`).
-/

namespace Sentential

open Text

/-! ### The words of a flat formula -/

/-- The words of a literal, given the clauses of the variables. -/
def literalWords (isVerb : VerbDetector) (clause : Variable → Text) (l : Bool × Variable) :
    List Text :=
  if l.1 then negateWords isVerb (Text.words (clause l.2)) else Text.words (clause l.2)

namespace Frame

variable {α β : Type}

/-- Replaces each literal. -/
def mapLiterals (φ : α → β) (frame : Frame (List (List α))) : Frame (List (List β)) :=
  frame.map fun rows => rows.map fun row => row.map φ

/-- The literals, from left to right. -/
def literals (frame : Frame (List (List α))) : List α :=
  frame.members.flatMap List.flatten

theorem literals_mapLiterals (φ : α → β) (frame : Frame (List (List α))) :
    (frame.mapLiterals φ).literals = frame.literals.map φ := by
  simp [literals, mapLiterals, List.flatMap_map, List.map_flatMap, List.map_flatten]

theorem mem_literals {frame : Frame (List (List α))} {a : α} :
    a ∈ frame.literals ↔ ∃ rows ∈ frame.members, ∃ row ∈ rows, a ∈ row := by
  simp [literals]

theorem mapLiterals_mapLiterals {γ : Type} (φ : α → β) (ψ : β → γ) (frame : Frame (List (List α))) :
    (frame.mapLiterals φ).mapLiterals ψ = frame.mapLiterals (ψ ∘ φ) := by
  simp [mapLiterals, Function.comp_def]

/-- Replacing the literals changes nothing exactly if each is replaced by itself. -/
theorem mapLiterals_eq_self_iff {φ : α → α} {frame : Frame (List (List α))} :
    frame.mapLiterals φ = frame ↔ ∀ a ∈ frame.literals, φ a = a := by
  constructor
  · intro h
    have hliterals : frame.literals.map φ = frame.literals.map id := by
      rw [← literals_mapLiterals, h, List.map_id]
    exact List.map_inj_left.1 hliterals
  · intro h
    have hid : frame.map id = frame := by cases frame <;> rfl
    conv_rhs => rw [← hid]
    refine map_congr fun rows hrows => ?_
    conv_rhs => rw [id, ← List.map_id rows]
    refine List.map_congr_left fun row hrow => ?_
    conv_rhs => rw [id, ← List.map_id row]
    exact List.map_congr_left fun a ha => h a (mem_literals.2 ⟨rows, hrows, row, hrow, ha⟩)

/-- The words of a sentence, given those of its literals. -/
def words : Frame (List (List (List Text))) → List Text
  | single rows => sideWords rows
  | imp rows rows' =>
    "Se".toList :: withComma (sideWords rows) ++ Connective.implication.word :: sideWords rows'
  | iff rows rows' => sideWords rows ++ (iffPhrase ++ sideWords rows')

end Frame

section Reading

variable (isVerb : VerbDetector) (clause : Variable → Text)

theorem ne_nil_negateWords (ws : List Text) : negateWords isVerb ws ≠ [] := by
  cases ws with
  | nil => exact List.cons_ne_nil _ _
  | cons w ws =>
    unfold negateWords
    split <;> exact List.cons_ne_nil _ _

theorem plainWords_map_some (ws : List Text) : plainWords (ws.map some) = ws := by
  simp [plainWords, Function.comp_def]

theorem map_intercalate {α β : Type} (φ : α → β) (sep : List α) (parts : List (List α)) :
    (List.intercalate sep parts).map φ =
      List.intercalate (sep.map φ) (parts.map fun part => part.map φ) :=
  apply_intercalate (fun _ _ => List.map_append) sep parts

theorem reading_conjunction (fs : List (Formula Variable)) :
    (Formula.conjunction fs).reading isVerb clause =
      List.intercalate (infixReading .conjunction)
        (fs.map fun f => f.reading isVerb clause) := by
  rcases fs with _ | ⟨f, _ | ⟨g, fs⟩⟩ <;>
    simp [Formula.conjunction, Formula.reading, Formula.readingAll_eq_map]

theorem reading_disjunction (fs : List (Formula Variable)) :
    (Formula.disjunction fs).reading isVerb clause =
      List.intercalate (infixReading .disjunction)
        (fs.map fun f => f.reading isVerb clause) := by
  rcases fs with _ | ⟨f, _ | ⟨g, fs⟩⟩ <;>
    simp [Formula.disjunction, Formula.reading, Formula.readingAll_eq_map]

/-- A literal is read as its words. -/
theorem reading_literal (l : Bool × Variable) :
    (Formula.literal l.1 l.2).reading isVerb clause =
      (literalWords isVerb clause l).map some := by
  obtain ⟨negated, v⟩ := l
  cases negated with
  | false => rfl
  | true => simp [Formula.literal, Formula.reading, literalWords, plainWords_map_some]

/-- A side is read as its words. -/
theorem reading_ofRows (rows : List (List (Bool × Variable))) :
    (Formula.ofRows rows).reading isVerb clause =
      (sideWords (rows.map fun row => row.map (literalWords isVerb clause))).map some := by
  have hand : infixReading .conjunction = ([['e']] : List Text).map some := by decide
  have hor : infixReading .disjunction = [orWord].map some := by decide
  have hrow (row : List (Bool × Variable)) : (Formula.ofRow row).reading isVerb clause =
      (rowWords (row.map (literalWords isVerb clause))).map some := by
    rw [Formula.ofRow, reading_conjunction, rowWords, map_intercalate, hand, List.map_map,
      List.map_map]
    congr 1
    exact List.map_congr_left fun l _ => reading_literal isVerb clause l
  rw [Formula.ofRows, reading_disjunction, sideWords, map_intercalate, hor]
  simp only [List.map_map]
  congr 1
  exact List.map_congr_left fun row _ => hrow row

/-- The sentence for a flat formula consists of the words of its literals and of its connectives. -/
theorem spoken_reading (frame : Frame (List (List (Bool × Variable)))) :
    spoken ((frame.map Formula.ofRows).formula.reading isVerb clause) =
      (frame.mapLiterals (literalWords isVerb clause)).words := by
  have hsome (ws : List Text) : ∀ item ∈ ws.map some, item.isSome = true := by simp
  cases frame with
  | single rows =>
    rw [Frame.map, Frame.formula, reading_ofRows, spoken_of_isSome (hsome _), plainWords_map_some]
    rfl
  | imp rows rows' =>
    rw [Frame.map, Frame.formula, Formula.reading, reading_ofRows, reading_ofRows, infixReading,
      List.append_assoc, List.singleton_append, spoken_append_none (hsome _), plainWords_map_some,
      plainWords_map_some]
    rfl
  | iff rows rows' =>
    have hphrase : infixReading .biconditional = iffPhrase.map some := by decide
    rw [Frame.map, Frame.formula, Formula.reading, reading_ofRows, reading_ofRows, hphrase,
      ← List.map_append, ← List.map_append, spoken_of_isSome (hsome _), plainWords_map_some,
      List.append_assoc]
    rfl

end Reading

/-! ### The tokens of a sentence -/

theorem withComma_ne_nil (ws : List Text) : withComma ws ≠ [] := by
  rcases ws with _ | ⟨w, _ | ⟨next, ws⟩⟩ <;> simp [withComma]

theorem unwords_withComma (ws : List Text) : unwords (withComma ws) = unwords ws ++ [','] := by
  induction ws with
  | nil => simp [withComma]
  | cons w ws ih =>
    by_cases hnil : ws = []
    · simp [hnil, withComma]
    · rw [withComma_cons w hnil, unwords_cons w (withComma_ne_nil ws), ih, unwords_cons w hnil,
        List.append_assoc, List.cons_append]

theorem isWords_withComma {ws : List Text} (h : IsWords ws) : IsWords (withComma ws) := by
  have hcomma : ∀ c ∈ [','], isSpace c = false := List.forall_mem_singleton.2 (by decide)
  induction ws with
  | nil => exact List.forall_mem_cons.2 ⟨⟨by simp, hcomma⟩, by simp⟩
  | cons w ws ih =>
    obtain ⟨⟨hne, hw⟩, hws⟩ := List.forall_mem_cons.1 h
    by_cases hnil : ws = []
    · rw [hnil, withComma]
      refine List.forall_mem_cons.2 ⟨⟨by simp, fun c hc => ?_⟩, by simp⟩
      exact (List.mem_append.1 hc).elim (hw c) (hcomma c)
    · rw [withComma_cons w hnil]
      exact List.forall_mem_cons.2 ⟨⟨hne, hw⟩, ih hws⟩

/-- A comma behind a line is a token of its own. -/
theorem lineTokens_withComma (start : Nat) (ws : List Text) :
    lineTokens start (withComma ws) =
      lineTokens start ws ++ [⟨.comma, [','], start + byteLength (unwords ws)⟩] := by
  have halnum : isAlphanumeric ',' = false := by decide +kernel
  have hspace : isSpace ',' = false := by decide
  have hends : EndsWords [','] := by
    rintro _ ⟨⟩
    exact ⟨halnum, by decide⟩
  rw [lineTokens, unwords_withComma, tokensFrom_append start _ hends,
    tokensFrom_single _ halnum hspace, tokensFrom_nil]
  rfl

theorem spellsOut_lineTokens_iffPhrase (start : Nat) :
    SpellsOut iffPhrase (lineTokens start iffPhrase) := by
  have hline : lineTokens 0 iffPhrase = [⟨.word, "se".toList, 0⟩, ⟨.word, "e".toList, 3⟩,
      ⟨.word, "somente".toList, 5⟩, ⟨.word, "se".toList, 13⟩] := by decide +kernel
  have hspells : SpellsOut iffPhrase (lineTokens 0 iffPhrase) := by
    rw [hline]
    exact .cons (by decide) (.cons (by decide) (.cons (by decide) (.cons (by decide) .nil)))
  rw [lineTokens_eq_map_shift, SpellsOut, List.forall₂_map_right_iff]
  exact hspells

/-- The tokens of a conditional: its *Se*, those of the condition and its comma, its *então*, and those
of the conclusion. -/
theorem exists_tokens_imp (rows : List (List (List Text))) {rows' : List (List (List Text))}
    (hrows' : FitsSide rows') :
    ∃ opener closer n m, opener.isWord ifWord = true ∧ closer.isThen = true ∧
      lineTokens 0 (Frame.imp rows rows').words =
        opener :: (lineTokens n (withComma (sideWords rows)) ++
          closer :: lineTokens m (sideWords rows')) := by
  have hse : IsWord "Se".toList := ⟨'S', ['e'], rfl, by decide +kernel, by decide +kernel, trivial⟩
  have hthen : IsWord Connective.implication.word :=
    ⟨'e', "ntão".toList, rfl, by decide +kernel, by decide +kernel, by decide +kernel,
      by decide +kernel, by decide +kernel, trivial⟩
  have hopen (start : Nat) : Token.isWord ifWord ⟨.word, "Se".toList, start⟩ = true :=
    (by decide : decide (TokenKind.word = .word ∧ Text.lower "Se".toList = ifWord) = true)
  have hclose (start : Nat) : Token.isThen ⟨.word, Connective.implication.word, start⟩ = true :=
    (by decide : decide (TokenKind.word = .word ∧
      Connective.implication.word.lower ∈ thenWords) = true)
  have hstart := lineTokens_append 0 (List.cons_ne_nil "Se".toList []) (withComma_ne_nil (sideWords rows))
  have hstop (start : Nat) :=
    lineTokens_append start (List.cons_ne_nil Connective.implication.word []) hrows'.ne_nil
  rw [lineTokens_singleton 0 hse, List.singleton_append] at hstart
  simp only [lineTokens_singleton _ hthen, List.singleton_append] at hstop
  have htokens := lineTokens_append 0 (List.cons_ne_nil "Se".toList (withComma (sideWords rows)))
    (List.cons_ne_nil Connective.implication.word (sideWords rows'))
  rw [hstart, hstop] at htokens
  exact ⟨_, _, _, _, hopen _, hclose _, htokens⟩

/-- The tokens of a biconditional: those of its sides, with those of its phrase between them. -/
theorem exists_tokens_iff {rows rows' : List (List (List Text))} (hrows : FitsSide rows)
    (hrows' : FitsSide rows') :
    ∃ phrase m, SpellsOut iffPhrase phrase ∧
      lineTokens 0 (Frame.iff rows rows').words =
        lineTokens 0 (sideWords rows) ++ (phrase ++ lineTokens m (sideWords rows')) := by
  have hphrase : iffPhrase ≠ [] := List.cons_ne_nil _ _
  have hnext := lineTokens_append (lineStop 0 (sideWords rows)) hphrase hrows'.ne_nil
  have htokens := lineTokens_append 0 hrows.ne_nil
    (List.append_ne_nil_of_left_ne_nil hphrase (sideWords rows'))
  rw [hnext] at htokens
  exact ⟨_, _, spellsOut_lineTokens_iffPhrase _, htokens⟩

/-! ### Where a sentence is cut -/

/-- The words of connectives stand in a sentence only where they were put: the phrase of a
biconditional, *se* and *então* only where there is one, and inner *ou* between the rows only.  An
*então* at the start of a condition does no harm. -/
inductive Frame.KeepsConnectives : Frame (List (List (List Text))) → Prop
  /-- A single side. -/
  | single {rows : List (List (List Text))}
    (hphrase : ∀ left right, ¬ SplitsAtPhrase (lineTokens 0 (sideWords rows)) left right)
    (hwords : ¬ HasConditionalWords (lineTokens 0 (sideWords rows)))
    (hor : innerOrs (lineTokens 0 (sideWords rows)) + 1 = rows.length) : KeepsConnectives (single rows)
  /-- A conditional. -/
  | imp {rows rows' : List (List (List Text))}
    (hphrase : ∀ left right, ¬ SplitsAtPhrase (lineTokens 0 (imp rows rows').words) left right)
    (hthen : ∀ t ∈ (lineTokens 0 (sideWords rows)).tail, t.isThen = false)
    (hor : innerOrs (lineTokens 0 (withComma (sideWords rows))) + 1 = rows.length)
    (hor' : innerOrs (lineTokens 0 (sideWords rows')) + 1 = rows'.length) :
    KeepsConnectives (imp rows rows')
  /-- A biconditional. -/
  | iff {rows rows' : List (List (List Text))}
    (hphrase : ∀ left right, SplitsAtPhrase (lineTokens 0 (iff rows rows').words) left right →
      (lineTokens 0 (sideWords rows)).length ≤ left.length)
    (hor : innerOrs (lineTokens 0 (sideWords rows)) + 1 = rows.length)
    (hor' : innerOrs (lineTokens 0 (sideWords rows')) + 1 = rows'.length) :
    KeepsConnectives (iff rows rows')

theorem innerOrs_lineTokens (start : Nat) (ws : List Text) :
    innerOrs (lineTokens start ws) = innerOrs (lineTokens 0 ws) := by
  have hor : Token.isOr ∘ Token.shift start = Token.isOr := rfl
  rw [lineTokens_eq_map_shift, innerOrs, ← List.map_tail, ← List.map_dropLast, List.filter_map,
    hor, List.length_map, innerOrs]

theorem sideRows_lineTokens_sideWords (start : Nat) {rows : List (List (List Text))}
    (hrows : FitsSide rows) (hor : innerOrs (lineTokens 0 (sideWords rows)) + 1 = rows.length) :
    sideRows (lineTokens start (sideWords rows)) = rows.map fun row => row.map literalAt := by
  have hside := hrows.sideRows_lineTokens start (List.forall_mem_nil _)
    (by rw [List.append_nil, innerOrs_lineTokens]; exact hor.le)
  rwa [List.append_nil] at hside

theorem sideRows_lineTokens_withComma (start : Nat) {rows : List (List (List Text))}
    (hrows : FitsSide rows)
    (hor : innerOrs (lineTokens 0 (withComma (sideWords rows))) + 1 = rows.length) :
    sideRows (lineTokens start (withComma (sideWords rows))) =
      rows.map fun row => row.map literalAt := by
  rw [← innerOrs_lineTokens start] at hor
  rw [lineTokens_withComma start _] at hor ⊢
  exact hrows.sideRows_lineTokens start (List.forall_mem_cons.2 ⟨rfl, List.forall_mem_nil _⟩) hor.le

/-- The tokens of a condition hold no *então* behind the first token, if those without the comma do
not. -/
theorem isThen_eq_false_of_mem_tail {rows : List (List (List Text))} (hrows : FitsSide rows)
    (hthen : ∀ t ∈ (lineTokens 0 (sideWords rows)).tail, t.isThen = false) (start : Nat) :
    ∀ t ∈ (lineTokens start (withComma (sideWords rows))).tail, t.isThen = false := by
  have hne := hrows.lineTokens_ne_nil start
  rw [lineTokens_withComma start _, List.tail_append_of_ne_nil hne,
    lineTokens_eq_map_shift, ← List.map_tail]
  intro t ht
  obtain ht | ht := List.mem_append.1 ht
  · obtain ⟨u, hu, rfl⟩ := List.mem_map.1 ht
    exact hthen u hu
  · obtain rfl := List.mem_singleton.1 ht
    rfl

/-- A member that comes early enough stands in the first of two lists. -/
theorem exists_append_of_length_lt {α : Type} {xs ys left us : List α} {u : α}
    (h : xs ++ ys = left ++ u :: us) (hlt : left.length < xs.length) :
    ∃ rest, xs = left ++ u :: rest := by
  obtain ⟨zs, hzs, -⟩ | ⟨zs, hzs, hus⟩ := List.append_eq_append_iff.1 h
  · have := congrArg List.length hzs
    simp at this
    omega
  · cases zs with
    | nil => simp [hzs] at hlt
    | cons z zs =>
      obtain ⟨rfl, -⟩ := List.cons_eq_cons.1 hus
      exact ⟨zs, hzs⟩

/-- A member that does not stand in the second of two lists stands in the first one. -/
theorem exists_append_of_notMem {α : Type} {xs ys left us : List α} {u : α}
    (h : xs ++ ys = left ++ u :: us) (hu : u ∉ ys) : ∃ rest, xs = left ++ u :: rest := by
  refine exists_append_of_length_lt h (Nat.lt_of_not_le fun hle => hu ?_)
  have hget : (xs ++ ys)[left.length]? = some u := by simp [h]
  rw [List.getElem?_append_right hle] at hget
  exact List.mem_of_getElem? hget

theorem isWord_ifWord_of_isThen {t : Token} (h : t.isThen = true) : t.isWord ifWord = false := by
  obtain ⟨-, hmem⟩ : t.kind = .word ∧ t.text.lower ∈ thenWords := of_decide_eq_true h
  have hne : ∀ w ∈ thenWords, w ≠ ifWord := by decide
  simp [Token.isWord, hne _ hmem]

/-- The condition that is read in front of the first *então* is the one that was written there, if it
holds no *então* behind its first token. -/
theorem splitsAtFirstCondition_of_tokens {ts condition conclusion : List Token} {opener closer : Token}
    (hts : ts = opener :: (condition ++ closer :: conclusion))
    (hopener : opener.isWord ifWord = true) (hcloser : closer.isThen = true)
    (hcondition : condition ≠ []) (hconclusion : conclusion ≠ [])
    (hthen : ∀ t ∈ condition.tail, t.isThen = false) :
    SplitsAtFirstCondition ts condition conclusion := by
  refine ⟨[], ⟨opener, closer, hopener, hcloser, hcondition, hconclusion, hts⟩, ?_⟩
  rintro before condition' conclusion' ⟨opener', closer', -, hcloser', hne, -, hsplit⟩
  cases before with
  | cons t before => exact .inl (Nat.zero_lt_succ _)
  | nil =>
    refine .inr ⟨rfl, ?_⟩
    by_contra hshort
    -- a shorter condition ends in front of an *então* within the condition as it was written
    rw [hts, List.nil_append, List.cons_eq_cons] at hsplit
    obtain ⟨rest, hrest⟩ := exists_append_of_length_lt hsplit.2 (Nat.lt_of_not_le hshort)
    rw [hrest, List.tail_append_of_ne_nil hne] at hthen
    rw [hthen closer' (by simp)] at hcloser'
    exact Bool.false_ne_true hcloser'

/-- The sides of a frame of tokens are those with which its sentence was written. -/
theorem Frame.KeepsConnectives.exists_sides {frame : Frame (List (List (List Text)))}
    (h : frame.KeepsConnectives) (hfits : ∀ rows ∈ frame.members, FitsSide rows) :
    ∃ sides, sidesOf? (lineTokens 0 frame.words) = some sides ∧
      sides.map sideRows = frame.mapLiterals literalAt := by
  cases h with
  | @single rows hphrase hwords hor =>
    have hrows : FitsSide rows := hfits rows (by simp [members])
    refine ⟨.single (lineTokens 0 (sideWords rows)),
      sidesOf?_eq_some_iff.2 (.single hphrase hwords), ?_⟩
    rw [map, sideRows_lineTokens_sideWords 0 hrows hor]
    rfl
  | @imp rows rows' hphrase hthen hor hor' =>
    have hrows : FitsSide rows := hfits rows (by simp [members])
    have hrows' : FitsSide rows' := hfits rows' (by simp [members])
    obtain ⟨opener, closer, n, m, hopener, hcloser, htokens⟩ := exists_tokens_imp rows hrows'
    have hwords : HasConditionalWords (lineTokens 0 (Frame.imp rows rows').words) := by
      rw [htokens]
      exact ⟨⟨opener, List.mem_cons_self .., hopener⟩, closer, by simp, hcloser⟩
    have hsplit := splitsAtFirstCondition_of_tokens htokens hopener hcloser
      (Sentential.lineTokens_ne_nil n (isWords_withComma hrows.isWords) (withComma_ne_nil _))
      (hrows'.lineTokens_ne_nil m) (isThen_eq_false_of_mem_tail hrows hthen n)
    refine ⟨.imp (lineTokens n (withComma (sideWords rows))) (lineTokens m (sideWords rows')),
      sidesOf?_eq_some_iff.2 (.imp hphrase hwords hsplit), ?_⟩
    rw [map, sideRows_lineTokens_withComma n hrows hor, sideRows_lineTokens_sideWords m hrows' hor']
    rfl
  | @iff rows rows' hphrase hor hor' =>
    have hrows : FitsSide rows := hfits rows (by simp [members])
    have hrows' : FitsSide rows' := hfits rows' (by simp [members])
    obtain ⟨phrase, m, hspells, htokens⟩ := exists_tokens_iff hrows hrows'
    refine ⟨.iff (lineTokens 0 (sideWords rows)) (lineTokens m (sideWords rows')),
      sidesOf?_eq_some_iff.2 (.iff ⟨⟨phrase, hspells, htokens⟩, hphrase⟩), ?_⟩
    rw [map, sideRows_lineTokens_sideWords 0 hrows hor,
      sideRows_lineTokens_sideWords m hrows' hor']
    rfl

/-! ### Reading a sentence again -/

theorem Frame.isWords_words {frame : Frame (List (List (List Text)))}
    (hfits : ∀ rows ∈ frame.members, FitsSide rows) : IsWords frame.words := by
  cases frame with
  | single rows => exact (hfits rows (by simp [members])).isWords
  | imp rows rows' =>
    have hstart : IsWords ("Se".toList :: withComma (sideWords rows)) :=
      List.forall_mem_cons.2 ⟨isUnbroken_iff.1 (by decide),
        isWords_withComma (hfits rows (by simp [members])).isWords⟩
    have hstop : IsWords (Connective.implication.word :: sideWords rows') :=
      List.forall_mem_cons.2 ⟨isUnbroken_iff.1 (by decide), (hfits rows' (by simp [members])).isWords⟩
    exact fun w hw => (List.mem_append.1 hw).elim (hstart w) (hstop w)
  | iff rows rows' =>
    have hphrase : IsWords iffPhrase := by
      have hall : ∀ w ∈ iffPhrase, isUnbroken w = true := by decide
      exact fun w hw => isUnbroken_iff.1 (hall w hw)
    intro w hw
    obtain hw | hw := List.mem_append.1 hw
    · exact (hfits rows (by simp [members])).isWords w hw
    · exact (List.mem_append.1 hw).elim (hphrase w)
        ((hfits rows' (by simp [members])).isWords w)

section SideRows

variable {α : Type} {sides : Frame (List Token)} {frame : Frame (List (List α))} {read : α → Literal}
  (h : sides.map sideRows = frame.mapLiterals read)

include h

/-- The clauses of sides whose rows are known are those of their literals. -/
theorem clausesIn_of_sideRows : clausesIn sides = frame.literals.map fun l => (read l).clause := by
  have hliterals : clausesIn sides = (sides.map sideRows).literals.map Literal.clause := by
    rw [clausesIn, Frame.literals, Frame.members_map, List.flatMap_map, List.map_flatMap]
  rw [hliterals, h, Frame.literals_mapLiterals, List.map_map]
  rfl

/-- The rows of sides whose rows are known, with variables in place of clauses. -/
theorem namedFrame_of_sideRows :
    namedFrame sides =
      frame.mapLiterals fun l => ((read l).negated, naming (clausesIn sides) (read l).clause) := by
  have hnamed : namedFrame sides = (sides.map sideRows).mapLiterals fun l =>
      (l.negated, naming (clausesIn sides) l.clause) := by
    rw [namedFrame, Frame.mapLiterals, Frame.map_map]
    rfl
  rw [hnamed, h, Frame.mapLiterals_mapLiterals]
  rfl

/-- Sides whose rows are known can be read, if there are rows and literals, and the literals have
clauses. -/
theorem readableRows_of_sideRows
    (hrows : ∀ rows ∈ frame.members, rows ≠ [] ∧ ∀ row ∈ rows, row ≠ [])
    (hclauses : ∀ l ∈ frame.literals, (read l).clause ≠ []) :
    ∀ side ∈ sides.members, ReadableRows (sideRows side) := by
  intro side hside
  have hmem : sideRows side ∈ (sides.map sideRows).members := by
    rw [Frame.members_map]
    exact List.mem_map_of_mem hside
  rw [h, Frame.mapLiterals, Frame.members_map] at hmem
  obtain ⟨rows, hmem, hread⟩ := List.mem_map.1 hmem
  obtain ⟨hne, hrow⟩ := hrows rows hmem
  rw [← hread, ReadableRows, List.forall_mem_map]
  refine ⟨by simpa using hne, fun row hmem' => ⟨by simpa using hrow row hmem', ?_⟩⟩
  rw [List.forall_mem_map]
  exact fun l hl => hclauses l (Frame.mem_literals.2 ⟨rows, hmem, row, hmem', hl⟩)

end SideRows

/-- A sentence that is cut where it was written is formalized to the formula with which it was
written, if its literals are read with their signs, and their clauses repeat as the variables do. -/
theorem formalize_words {frame : Frame (List (List (Bool × Variable)))}
    {wordsOf : Bool × Variable → List Text}
    (hkeeps : (frame.mapLiterals wordsOf).KeepsConnectives)
    (hfits : ∀ rows ∈ (frame.mapLiterals wordsOf).members, FitsSide rows)
    (hread : ∀ l ∈ frame.literals,
      (literalAt (wordsOf l)).negated = l.1 ∧ (literalAt (wordsOf l)).clause ≠ [])
    (hkeys : ∀ l ∈ frame.literals, ∀ l' ∈ frame.literals,
      clauseKey (literalAt (wordsOf l)).clause = clauseKey (literalAt (wordsOf l')).clause ↔
        l.2 = l'.2)
    {n : Nat} (hvars : Variable.distinct (frame.literals.map Prod.snd) = firstVariables n) :
    formalize (unwords (frame.mapLiterals wordsOf).words) =
      .ok ⟨(frame.map Formula.ofRows).formula, ⟨entriesFrom 0
        ((firstsBy Prod.snd frame.literals).map fun l => (literalAt (wordsOf l)).clause)⟩⟩ := by
  obtain ⟨sides, hsides, hrows⟩ := hkeeps.exists_sides hfits
  rw [Frame.mapLiterals_mapLiterals] at hrows
  have hclauses : clausesIn sides = frame.literals.map fun l => (literalAt (wordsOf l)).clause :=
    clausesIn_of_sideRows hrows
  obtain ⟨hnaming, hfirsts⟩ := naming_map_eq hkeys hvars
  have hnamed : namedFrame sides = frame := by
    rw [namedFrame_of_sideRows hrows, hclauses]
    exact Frame.mapLiterals_eq_self_iff.2 fun l hl => Prod.ext (hread l hl).1 (hnaming l hl)
  rw [formalize_eq_ok_iff, trim_unwords (Frame.isWords_words hfits)]
  refine ⟨sides, hsides, readableRows_of_sideRows hrows (fun rows hmem => ?_)
    fun l hl => (hread l hl).2, ?_⟩
  · have hfit := hfits (rows.map fun row => row.map wordsOf)
      (by rw [Frame.mapLiterals, Frame.members_map]; exact List.mem_map_of_mem hmem)
    refine ⟨by simpa using hfit.1, fun row hrow => ?_⟩
    simpa using (hfit.2 _ (List.mem_map_of_mem hrow)).1
  · have hformula := formula_formalizationOf sides
    rw [hnamed] at hformula
    rw [← hformula, ← hfirsts, ← hclauses]
    rfl

/-! ### Literals that do not get in the way -/

/-- The phrase of a biconditional starts with a *se*, and has another one further on. -/
theorem SplitsAtPhrase.exists_isWord {ts left right : List Token} (h : SplitsAtPhrase ts left right) :
    (∃ u us, ts = left ++ u :: us ∧ u.isWord ifWord = true) ∧
      ∃ u ∈ ts.tail, u.isWord ifWord = true := by
  obtain ⟨phrase, hspells, rfl⟩ := h
  obtain ⟨a, b, c, d, rfl, ha, hd⟩ : ∃ a b c d, phrase = [a, b, c, d] ∧
      a.isWord ifWord = true ∧ d.isWord ifWord = true := by
    rcases hspells with _ | ⟨ha, _ | ⟨-, _ | ⟨-, _ | ⟨hd, _ | _⟩⟩⟩⟩
    exact ⟨_, _, _, _, rfl, ha, hd⟩
  refine ⟨⟨a, _, rfl, ha⟩, d, ?_, hd⟩
  cases left <;> simp

/-- Whether a token is no word of a conditional, a biconditional or a disjunction. -/
def Token.IsQuiet (t : Token) : Prop :=
  t.isWord ifWord = false ∧ t.isThen = false ∧ t.isOr = false

theorem SplitsAtPhrase.false_of_forall {ts left right : List Token} (h : SplitsAtPhrase ts left right)
    (hword : ∀ t ∈ ts.tail, t.isWord ifWord = false) : False := by
  obtain ⟨-, u, hu, hif⟩ := h.exists_isWord
  rw [hword u hu] at hif
  exact Bool.false_ne_true hif

section Quiet

variable {rows : List (List (List Text))}
  (hquiet : ∀ row ∈ rows, ∀ ws ∈ row, ∀ t ∈ bareTokens ws, t.IsQuiet)

include hquiet

/-- A side of quiet literals holds neither *se* nor *então*. -/
theorem forall_mem_lineTokens_of_isQuiet (start : Nat) :
    ∀ t ∈ lineTokens start (sideWords rows), t.isWord ifWord = false ∧ t.isThen = false := by
  have hand : ∀ t ∈ bareTokens [['e']], t.isWord ifWord = false ∧ t.isThen = false := by
    decide +kernel
  have hor : ∀ t ∈ bareTokens [orWord], t.isWord ifWord = false ∧ t.isThen = false := by
    decide +kernel
  refine (forall_mem_lineTokens (fun _ => Iff.rfl) start).2 ?_
  exact forall_mem_bareTokens_sideWords hand hor fun row hrow ws hws t ht =>
    (hquiet row hrow ws hws t ht).imp_right And.left

variable (hrows : FitsSide rows)

include hrows

/-- A side of quiet literals is cut at the *ou* between its rows only. -/
theorem innerOrs_of_isQuiet : innerOrs (lineTokens 0 (sideWords rows)) + 1 = rows.length := by
  have h := hrows.innerOrs_eq 0 (List.forall_mem_nil _) fun row hrow ws hws t ht =>
    (hquiet row hrow ws hws t ht).2.2
  rwa [List.append_nil] at h

theorem innerOrs_withComma_of_isQuiet :
    innerOrs (lineTokens 0 (withComma (sideWords rows))) + 1 = rows.length := by
  rw [lineTokens_withComma 0 _]
  exact hrows.innerOrs_eq 0 (List.forall_mem_singleton.2 rfl) fun row hrow ws hws t ht =>
    (hquiet row hrow ws hws t ht).2.2

theorem Frame.keepsConnectives_single_of_isQuiet : (single rows).KeepsConnectives := by
  have hline := forall_mem_lineTokens_of_isQuiet hquiet 0
  refine .single (fun left right h => ?_) ?_ (innerOrs_of_isQuiet hquiet hrows)
  · exact h.false_of_forall fun t ht => (hline t (List.mem_of_mem_tail ht)).1
  · rintro ⟨⟨u, hu, hword⟩, -⟩
    rw [(hline u hu).1] at hword
    exact Bool.false_ne_true hword

variable {rows' : List (List (List Text))}
  (hquiet' : ∀ row ∈ rows', ∀ ws ∈ row, ∀ t ∈ bareTokens ws, t.IsQuiet) (hrows' : FitsSide rows')

include hquiet' hrows'

theorem Frame.keepsConnectives_imp_of_isQuiet : (imp rows rows').KeepsConnectives := by
  obtain ⟨opener, closer, n, m, -, hcloser, htokens⟩ := exists_tokens_imp rows hrows'
  -- the only *se* is the one that opens the conditional
  have hword : ∀ t ∈ (lineTokens 0 (imp rows rows').words).tail, t.isWord ifWord = false := by
    rw [htokens, List.tail_cons, lineTokens_withComma n _, List.append_assoc]
    refine List.forall_mem_append.2 ⟨fun t ht => ?_, ?_⟩
    · exact (forall_mem_lineTokens_of_isQuiet hquiet n t ht).1
    · refine List.forall_mem_cons.2 ⟨rfl, List.forall_mem_cons.2
        ⟨isWord_ifWord_of_isThen hcloser, fun t ht => ?_⟩⟩
      exact (forall_mem_lineTokens_of_isQuiet hquiet' m t ht).1
  exact .imp (fun left right h => h.false_of_forall hword)
    (fun t ht => (forall_mem_lineTokens_of_isQuiet hquiet 0 t (List.mem_of_mem_tail ht)).2)
    (innerOrs_withComma_of_isQuiet hquiet hrows) (innerOrs_of_isQuiet hquiet' hrows')

theorem Frame.keepsConnectives_iff_of_isQuiet : (Frame.iff rows rows').KeepsConnectives := by
  obtain ⟨phrase, m, -, htokens⟩ := exists_tokens_iff hrows hrows'
  refine .iff (fun left right h => ?_) (innerOrs_of_isQuiet hquiet hrows)
    (innerOrs_of_isQuiet hquiet' hrows')
  obtain ⟨⟨u, us, hts, hword⟩, -⟩ := h.exists_isWord
  by_contra hshort
  -- the phrase would start within the first side
  obtain ⟨rest, hrest⟩ : ∃ rest, lineTokens 0 (sideWords rows) = left ++ u :: rest :=
    exists_append_of_length_lt (htokens.symm.trans hts) (Nat.lt_of_not_le hshort)
  rw [(forall_mem_lineTokens_of_isQuiet hquiet 0 u (by simp [hrest])).1] at hword
  exact Bool.false_ne_true hword

end Quiet

/-- Literals without words of conditionals, biconditionals and disjunctions do not get in the way. -/
theorem Frame.keepsConnectives_of_isQuiet {frame : Frame (List (List (List Text)))}
    (hfits : ∀ rows ∈ frame.members, FitsSide rows)
    (hquiet : ∀ ws ∈ frame.literals, ∀ t ∈ bareTokens ws, t.IsQuiet) : frame.KeepsConnectives := by
  have hside : ∀ rows ∈ frame.members, ∀ row ∈ rows, ∀ ws ∈ row, ∀ t ∈ bareTokens ws, t.IsQuiet :=
    fun rows hmem row hrow ws hws => hquiet ws (mem_literals.2 ⟨rows, hmem, row, hrow, hws⟩)
  cases frame with
  | single rows =>
    have hmem : rows ∈ (single rows).members := List.mem_singleton_self rows
    exact keepsConnectives_single_of_isQuiet (hside rows hmem) (hfits rows hmem)
  | imp rows rows' =>
    have hmem : rows ∈ (imp rows rows').members := List.mem_cons_self ..
    have hmem' : rows' ∈ (imp rows rows').members :=
      List.mem_cons_of_mem rows (List.mem_singleton_self rows')
    exact keepsConnectives_imp_of_isQuiet (hside rows hmem) (hfits rows hmem) (hside rows' hmem')
      (hfits rows' hmem')
  | iff rows rows' =>
    have hmem : rows ∈ (iff rows rows').members := List.mem_cons_self ..
    have hmem' : rows' ∈ (iff rows rows').members :=
      List.mem_cons_of_mem rows (List.mem_singleton_self rows')
    exact keepsConnectives_iff_of_isQuiet (hside rows hmem) (hfits rows hmem) (hside rows' hmem')
      (hfits rows' hmem')

end Sentential
