import Mathlib.Data.List.Chain
import Mathlib.Data.List.InsertIdx
import Mathlib.Data.List.TakeWhile
import Mathlib.Tactic.Common
import Sentential.Proofs.Display
import Sentential.Proofs.Naming
import Sentential.Proofs.Words
import Sentential.Rendering

/-!
# The words of a rendered formula

A formula can be read out word by word, straight from its tree: its clauses in order, with the words
of the connectives between them and the negation word inside negated clauses (`Formula.reading`).  The
place of an implication is kept open, since the first of them changes the sentence as a whole; `spoken`
makes the sentence from a reading.

Rendering arrives at the same words by way of the displayed formula, whose symbols are replaced one by
one and whose white space is put in order at the end (`renderWith_display`).  For this the negations of
a formula have to stand directly before atoms, and no group may be empty (`Formula.IsNormal`).
-/

namespace Sentential

/-! ### Readings -/

namespace Formula

variable {α : Type}

/-- Negations stand before atoms only, and no group is empty. -/
inductive IsNormal : Formula α → Prop
  /-- An atom. -/
  | atom (a : α) : IsNormal (.atom a)
  /-- The negation of an atom. -/
  | neg (a : α) : IsNormal (.neg (.atom a))
  /-- A conjunction of one or more operands. -/
  | conj {fs : List (Formula α)} (hne : fs ≠ []) (hfs : ∀ f ∈ fs, IsNormal f) : IsNormal (.conj fs)
  /-- A disjunction of one or more operands. -/
  | disj {fs : List (Formula α)} (hne : fs ≠ []) (hfs : ∀ f ∈ fs, IsNormal f) : IsNormal (.disj fs)
  /-- An implication. -/
  | imp {f g : Formula α} (hf : IsNormal f) (hg : IsNormal g) : IsNormal (.imp f g)
  /-- A biconditional. -/
  | iff {f g : Formula α} (hf : IsNormal f) (hg : IsNormal g) : IsNormal (.iff f g)

/-- A normal formula has an atom. -/
theorem IsNormal.atoms_ne_nil {f : Formula α} (hf : f.IsNormal) : f.atoms ≠ [] := by
  induction hf with
  | atom a | neg a => exact List.cons_ne_nil a []
  | @conj fs hne hfs ih | @disj fs hne hfs ih =>
    obtain ⟨f, fs, rfl⟩ := List.exists_cons_of_ne_nil hne
    simp [ih f (List.mem_cons_self ..)]
  | imp _ _ ihf _ | iff _ _ ihf _ => simp [atoms, ihf]

theorem IsNormal.isSolid {f : Formula α} (hf : f.IsNormal) : f.IsSolid := by
  induction hf with
  | atom a => exact .atom a
  | neg a => exact .neg (.atom a)
  | conj hne _ ih => exact .conj hne ih
  | disj hne _ ih => exact .disj hne ih
  | imp _ _ ihf ihg => exact .imp ihf ihg
  | iff _ _ ihf ihg => exact .iff ihf ihg

/-- Flat formulas are normal. -/
theorem IsFlat.isNormal {f : Formula α} (hf : f.IsFlat) : f.IsNormal := by
  have hliteral {f : Formula α} (hf : f.IsLiteral) : f.IsNormal := by
    cases hf with
    | atom a => exact .atom a
    | neg a => exact .neg a
  have hunit {f : Formula α} (hf : f.IsUnit) : f.IsNormal := by
    cases hf with
    | literal hf => exact hliteral hf
    | conj hlen hfs =>
      exact .conj (List.ne_nil_of_length_pos (by omega)) fun f hf => hliteral (hfs f hf)
  have hside {f : Formula α} (hf : f.IsSide) : f.IsNormal := by
    cases hf with
    | unit hf => exact hunit hf
    | disj hlen hfs =>
      exact .disj (List.ne_nil_of_length_pos (by omega)) fun f hf => hunit (hfs f hf)
  cases hf with
  | side hf => exact hside hf
  | imp hf hg => exact .imp (hside hf) (hside hg)
  | iff hf hg => exact .iff (hside hf) (hside hg)

end Formula

/-- The words of a reading, where every open place is filled with the word for an implication. -/
def plainWords (items : List (Option Text)) : List Text :=
  items.map fun item => item.getD Connective.implication.word

/-- Puts a comma behind the last word. -/
def withComma : List Text → List Text
  | [] => [[',']]
  | [w] => [w ++ [',']]
  | w :: next :: ws => w :: withComma (next :: ws)

/-- The sentence of a reading.  The first open place makes a conditional of it. -/
def spoken (items : List (Option Text)) : List Text :=
  match items.dropWhile Option.isSome with
  | [] => plainWords items
  | _ :: conclusion =>
    "Se".toList :: withComma (plainWords (items.takeWhile Option.isSome)) ++
      Connective.implication.word :: plainWords conclusion

/-- How a connective between two operands is read. -/
def infixReading : Connective → List (Option Text)
  | .implication => [none]
  | c => (Text.words c.word).map some

section Reading

variable (isVerb : VerbDetector) (clause : Variable → Text)

namespace Formula

mutual

/-- The reading of a formula whose variables stand for clauses. -/
def reading : Formula Variable → List (Option Text)
  | atom v => (Text.words (clause v)).map some
  | neg f => (negateWords isVerb (plainWords (reading f))).map some
  | conj fs => List.intercalate (infixReading .conjunction) (readingAll fs)
  | disj fs => List.intercalate (infixReading .disjunction) (readingAll fs)
  | imp f g => reading f ++ infixReading .implication ++ reading g
  | iff f g => reading f ++ infixReading .biconditional ++ reading g

/-- The reading of each operand of a group. -/
def readingAll : List (Formula Variable) → List (List (Option Text))
  | [] => []
  | f :: fs => reading f :: readingAll fs

end

theorem readingAll_eq_map (fs : List (Formula Variable)) :
    readingAll isVerb clause fs = fs.map (reading isVerb clause) := by
  induction fs with
  | nil => rfl
  | cons f fs ih => simp [readingAll, ih]

end Formula

/-! ### Pieces -/

/-- The piece of a connective between two operands. -/
def connectivePiece : Connective → Piece
  | .implication => .implication
  | c => .plain (' ' :: c.word ++ [' '])

/-- The pieces of a connective between two operands, with the spaces around it. -/
def infixPieces (c : Connective) : List Piece :=
  [.plain [' '], connectivePiece c, .plain [' ']]

namespace Formula

mutual

/-- The pieces of a displayed formula without its parentheses. -/
def pieces : Formula Variable → List Piece
  | atom v => [.plain (clause v)]
  | neg f => [.plain (negateClause isVerb (piecesText (pieces f)))]
  | conj fs => List.intercalate (infixPieces .conjunction) (piecesAll fs)
  | disj fs => List.intercalate (infixPieces .disjunction) (piecesAll fs)
  | imp f g => pieces f ++ infixPieces .implication ++ pieces g
  | iff f g => pieces f ++ infixPieces .biconditional ++ pieces g

/-- The pieces of each operand of a group. -/
def piecesAll : List (Formula Variable) → List (List Piece)
  | [] => []
  | f :: fs => pieces f :: piecesAll fs

end

theorem piecesAll_eq_map (fs : List (Formula Variable)) :
    piecesAll isVerb clause fs = fs.map (pieces isVerb clause) := by
  induction fs with
  | nil => rfl
  | cons f fs ih => simp [piecesAll, ih]

end Formula

end Reading

/-- Leaves parentheses out. -/
def bare (ss : List Symbol) : List Symbol :=
  ss.filter fun s => !s.isParenthesis

@[simp] theorem bare_append (ss ts : List Symbol) : bare (ss ++ ts) = bare ss ++ bare ts := by
  simp [bare]

@[simp] theorem bare_infixSymbols (c : Connective) :
    bare (Formula.infixSymbols c) = Formula.infixSymbols c := rfl

theorem bare_intercalate (sep : List Symbol) (parts : List (List Symbol)) :
    bare (List.intercalate sep parts) = List.intercalate (bare sep) (parts.map bare) :=
  apply_intercalate bare_append sep parts

/-- A group without its parentheses. -/
theorem bare_groupSymbols (c : Connective) (parts : List (List Symbol)) :
    bare (Formula.groupSymbols c parts) =
      List.intercalate (Formula.infixSymbols c) (parts.map bare) := by
  have hopening (ss : List Symbol) : bare (.opening :: ss) = bare ss := rfl
  have hclosing : bare [.closing] = [] := rfl
  rw [Formula.groupSymbols]
  split
  · rw [List.cons_append, hopening, bare_append, hclosing, List.append_nil, bare_intercalate,
      bare_infixSymbols]
  · rw [bare_intercalate, bare_infixSymbols]

section Pieces

variable {isVerb : VerbDetector} {meanings : List Legend.Entry} {clause : Variable → Text}

/-- The symbols `ss` are replaced by the pieces `ps`, whatever follows. -/
def ReplacedBy (isVerb : VerbDetector) (meanings : List Legend.Entry) (ss : List Symbol)
    (ps : List Piece) : Prop :=
  ∀ rest, piecesOf isVerb meanings (ss ++ rest) = (piecesOf isVerb meanings rest).map (ps ++ ·)

theorem replacedBy_infixSymbols (c : Connective) (hc : c ≠ .negation) :
    ReplacedBy isVerb meanings (Formula.infixSymbols c) (infixPieces c) := by
  intro rest
  cases c with
  | negation => exact absurd rfl hc
  | conjunction | disjunction | implication | biconditional =>
    simp only [Formula.infixSymbols, List.cons_append, List.nil_append, piecesOf]
    cases piecesOf isVerb meanings rest <;> rfl

theorem ReplacedBy.append {ss ts : List Symbol} {ps qs : List Piece}
    (hs : ReplacedBy isVerb meanings ss ps) (ht : ReplacedBy isVerb meanings ts qs) :
    ReplacedBy isVerb meanings (ss ++ ts) (ps ++ qs) := by
  intro rest
  rw [List.append_assoc, hs, ht]
  cases piecesOf isVerb meanings rest with
  | error e => rfl
  | ok rs => simp [Except.map]

theorem replacedBy_intercalate {c : Connective} (hc : c ≠ .negation)
    {fs : List (Formula Variable)} {symbols : Formula Variable → List Symbol}
    {pieces : Formula Variable → List Piece}
    (hfs : ∀ f ∈ fs, ReplacedBy isVerb meanings (symbols f) (pieces f)) :
    ReplacedBy isVerb meanings (List.intercalate (Formula.infixSymbols c) (fs.map symbols))
      (List.intercalate (infixPieces c) (fs.map pieces)) := by
  induction fs with
  | nil =>
    intro rest
    cases hrest : piecesOf isVerb meanings rest <;> simp [hrest, Except.map]
  | cons f fs ih =>
    obtain ⟨hf, hfs⟩ := List.forall_mem_cons.1 hfs
    cases fs with
    | nil => simpa using hf
    | cons g fs =>
      simp only [List.map_cons, List.intercalate_cons_cons]
      exact (hf.append (replacedBy_infixSymbols c hc)).append (ih hfs)

/-- The symbols of a formula are replaced by its pieces, if each of its variables has a clause. -/
theorem replacedBy_symbols {f : Formula Variable} (hf : f.IsNormal)
    (hclause : ∀ v ∈ f.atoms, meaningIn meanings v = .ok (clause v)) :
    ReplacedBy isVerb meanings (bare f.symbols) (f.pieces isVerb clause) := by
  induction hf with
  | atom v =>
    intro rest
    have hv := hclause v (by simp [Formula.atoms])
    change piecesOf isVerb meanings (.var v :: rest) = _
    rw [piecesOf, hv]
    cases piecesOf isVerb meanings rest <;> rfl
  | neg v =>
    intro rest
    have hv := hclause v (by simp [Formula.atoms])
    change piecesOf isVerb meanings (.connective .negation :: .var v :: rest) = _
    rw [piecesOf, hv]
    cases piecesOf isVerb meanings rest with
    | error e => rfl
    | ok ps => simp [bind, Except.bind, pure, Except.pure, Except.map, Formula.pieces, piecesText,
        Piece.text]
  | @conj fs _ _ ih | @disj fs _ _ ih =>
    simp only [Formula.atoms_conj, Formula.atoms_disj, List.mem_flatMap] at hclause
    simp only [Formula.symbols, Formula.pieces, bare_groupSymbols, Formula.symbolsAll_eq_map,
      Formula.piecesAll_eq_map, List.map_map]
    exact replacedBy_intercalate (by decide) fun f hf =>
      ih f hf fun v hv => hclause v ⟨f, hf, hv⟩
  | imp _ _ ihf ihg | iff _ _ ihf ihg =>
    simp only [Formula.symbols, Formula.pieces, bare_append, bare_infixSymbols]
    exact ((ihf fun v hv => hclause v (List.mem_append_left _ hv)).append
      (replacedBy_infixSymbols _ (by decide))).append
        (ihg fun v hv => hclause v (List.mem_append_right _ hv))

end Pieces

/-! ### The words of pieces -/

/-- White space keeps the words of neighbouring pieces apart. -/
def Apart (p q : Piece) : Prop :=
  (∃ c ∈ p.text.getLast?, isSpace c = true) ∨ ∃ c ∈ q.text.head?, isSpace c = true

/-- What a piece adds to a reading. -/
def Piece.items : Piece → List (Option Text)
  | plain t => (Text.words t).map some
  | implication => [none]

theorem plainWords_items (p : Piece) : plainWords p.items = Text.words p.text := by
  cases p with
  | plain t => simp [Piece.items, Piece.text, plainWords, Function.comp_def]
  | implication => decide

theorem plainWords_append (is js : List (Option Text)) :
    plainWords (is ++ js) = plainWords is ++ plainWords js :=
  List.map_append

/-- The words of pieces that are kept apart are those of the pieces one after the other. -/
theorem words_piecesText {ps : List Piece} (hps : ps.IsChain Apart) :
    Text.words (piecesText ps) = plainWords (ps.flatMap Piece.items) := by
  induction ps with
  | nil => rfl
  | cons p ps ih =>
    have hcons : piecesText (p :: ps) = p.text ++ piecesText ps := by simp [piecesText]
    rw [hcons, List.flatMap_cons, plainWords_append, plainWords_items, ← ih hps.tail]
    cases ps with
    | nil => simp [piecesText]
    | cons q ps =>
      refine Text.words_append ((hps.rel_head? rfl).imp_right ?_)
      rintro ⟨c, hc, hspace⟩
      refine ⟨c, ?_, hspace⟩
      rw [Option.mem_def] at hc ⊢
      simp [piecesText, hc]

theorem apart_space_left {p : Piece} : Apart p (.plain [' ']) :=
  .inr ⟨' ', rfl, by decide⟩

theorem apart_space_right {p : Piece} : Apart (.plain [' ']) p :=
  .inl ⟨' ', rfl, by decide⟩

/-- A connective with its spaces keeps its operands apart. -/
theorem isChain_infixPieces {ps qs : List Piece} (hps : ps.IsChain Apart) (hqs : qs.IsChain Apart)
    (c : Connective) : (ps ++ (infixPieces c ++ qs)).IsChain Apart := by
  refine hps.append ?_ ?_
  · exact (hqs.cons fun _ _ => apart_space_right).cons_cons apart_space_left |>.cons_cons
      apart_space_right
  · rintro p - q ⟨⟩
    exact apart_space_left

/-- The negation word is put in at the place of the first verb, or at the end. -/
theorem negateWords_eq_insertIdx (isVerb : VerbDetector) (ws : List Text) :
    negateWords isVerb ws = ws.insertIdx (ws.findIdx isVerb) negationWord := by
  induction ws with
  | nil => rfl
  | cons w ws ih =>
    rw [negateWords, List.findIdx_cons]
    cases isVerb w with
    | true => rfl
    | false => rw [if_neg Bool.false_ne_true, ih, cond_false, List.insertIdx_succ_cons]

namespace Formula

variable (isVerb : VerbDetector) (clause : Variable → Text)

/-- The pieces of a formula are kept apart. -/
theorem isChain_pieces (f : Formula Variable) : (f.pieces isVerb clause).IsChain Apart := by
  have hgroup (c : Connective) {fs : List (Formula Variable)}
      (ih : ∀ f ∈ fs, (f.pieces isVerb clause).IsChain Apart) :
      (List.intercalate (infixPieces c) (piecesAll isVerb clause fs)).IsChain Apart := by
    rw [piecesAll_eq_map]
    induction fs with
    | nil => exact .nil
    | cons f fs ihfs =>
      obtain ⟨hf, hfs⟩ := List.forall_mem_cons.1 ih
      cases fs with
      | nil => simpa using hf
      | cons g fs =>
        simp only [List.map_cons, List.intercalate_cons_cons, List.append_assoc]
        exact isChain_infixPieces hf (ihfs hfs) c
  induction f using Formula.induction with
  | atom v => exact .singleton _
  | neg f _ => exact .singleton _
  | conj fs ih | disj fs ih => exact hgroup _ ih
  | imp f g ihf ihg | iff f g ihf ihg =>
    rw [pieces, List.append_assoc]
    exact isChain_infixPieces ihf ihg _

theorem items_infixPieces (c : Connective) :
    (infixPieces c).flatMap Piece.items = infixReading c := by
  cases c <;> decide

/-- The words of a negated clause are those of the clause with the negation word among them. -/
theorem isWords_negateWords {ws : List Text} (hws : Text.IsWords ws) :
    Text.IsWords (negateWords isVerb ws) := by
  intro w hw
  rw [negateWords_eq_insertIdx] at hw
  rcases List.eq_or_mem_of_mem_insertIdx hw with rfl | hw
  · exact Text.isUnbroken_iff.1 (by decide)
  · exact hws w hw

/-- The pieces of a formula add up to its reading. -/
theorem items_pieces (f : Formula Variable) :
    (f.pieces isVerb clause).flatMap Piece.items = f.reading isVerb clause := by
  have hgroup (c : Connective) {fs : List (Formula Variable)}
      (ih : ∀ f ∈ fs, (f.pieces isVerb clause).flatMap Piece.items = f.reading isVerb clause) :
      (List.intercalate (infixPieces c) (piecesAll isVerb clause fs)).flatMap Piece.items =
        List.intercalate (infixReading c) (readingAll isVerb clause fs) := by
    rw [piecesAll_eq_map, readingAll_eq_map]
    induction fs with
    | nil => rfl
    | cons f fs ihfs =>
      obtain ⟨hf, hfs⟩ := List.forall_mem_cons.1 ih
      cases fs with
      | nil => simpa using hf
      | cons g fs =>
        have hrest := ihfs hfs
        simp only [List.map_cons] at hrest ⊢
        simp only [List.intercalate_cons_cons, List.flatMap_append, hf, hrest, items_infixPieces]
  induction f using Formula.induction with
  | atom v => simp [pieces, reading, Piece.items]
  | neg f ih =>
    have hwords := words_piecesText (isChain_pieces isVerb clause f)
    rw [ih] at hwords
    simp only [pieces, reading, List.flatMap_cons, List.flatMap_nil, List.append_nil, Piece.items,
      negateClause]
    rw [Text.words_unwords (isWords_negateWords isVerb (Text.isWords_words _)), hwords]
  | conj fs ih | disj fs ih => exact hgroup _ ih
  | imp f g ihf ihg | iff f g ihf ihg =>
    simp only [pieces, reading, List.flatMap_append, ihf, ihg, items_infixPieces]

end Formula

/-! ### The sentence -/

theorem withComma_cons (w : Text) {ws : List Text} (h : ws ≠ []) :
    withComma (w :: ws) = w :: withComma ws := by
  cases ws with
  | nil => exact absurd rfl h
  | cons next ws => rfl

/-- A comma behind a text that ends in a word stands behind its last word. -/
theorem words_append_comma {t : Text} (h : ∀ c ∈ t.getLast?, isSpace c = false) :
    Text.words (t ++ [',']) = withComma (Text.words t) := by
  have hcomma : isSpace ',' = false := by decide
  have hfrom (run : Text) :
      Text.wordsFrom run (t ++ [',']) = withComma (Text.wordsFrom run t) := by
    induction t generalizing run with
    | nil => cases run <;> simp [Text.wordsFrom, hcomma, withComma]
    | cons c t ih =>
      rw [List.cons_append, Text.wordsFrom, Text.wordsFrom]
      by_cases hnil : t = []
      · -- the last character belongs to the last word
        have hc : isSpace c = false := h c (by simp [hnil])
        simp [hnil, hc, Text.wordsFrom, hcomma, withComma]
      · have hlast : ∀ c ∈ t.getLast?, isSpace c = false := fun d hd =>
          h d (by rwa [List.getLast?_cons_of_ne_nil hnil])
        have hwords : Text.wordsFrom [] t ≠ [] := by
          intro hwords
          have hspace := hlast _ (List.getLast?_eq_some_getLast hnil)
          rw [Text.words_eq_nil_iff.1 hwords _ (List.getLast_mem hnil)] at hspace
          cases hspace
        split
        · split
          · exact ih hlast []
          · rw [ih hlast, withComma_cons _ hwords]
        · exact ih hlast (c :: run)
  exact hfrom []

/-- The pieces before and after the first implication. -/
theorem splitPieces?_spec (ps : List Piece) :
    match splitPieces? ps with
    | some (before, after) => ps = before ++ .implication :: after ∧ .implication ∉ before
    | none => .implication ∉ ps := by
  induction ps with
  | nil => simp [splitPieces?]
  | cons p ps ih =>
    cases p with
    | implication => simp [splitPieces?]
    | plain t =>
      have hstep : splitPieces? (.plain t :: ps) =
        (splitPieces? ps).map fun sides => (.plain t :: sides.1, sides.2) := rfl
      rw [hstep]
      cases hsplit : splitPieces? ps with
      | none =>
        rw [hsplit] at ih
        simpa using ih
      | some sides =>
        obtain ⟨before, after⟩ := sides
        rw [hsplit] at ih
        obtain ⟨rfl, hbefore⟩ := ih
        exact ⟨rfl, by simpa using hbefore⟩

theorem isSome_items {ps : List Piece} (h : .implication ∉ ps) :
    ∀ item ∈ ps.flatMap Piece.items, item.isSome = true := by
  intro item hitem
  obtain ⟨p, hp, hitem⟩ := List.mem_flatMap.1 hitem
  cases p with
  | plain t =>
    obtain ⟨w, -, rfl⟩ := List.mem_map.1 hitem
    rfl
  | implication => exact absurd hp h

theorem spoken_of_isSome {items : List (Option Text)} (h : ∀ item ∈ items, item.isSome = true) :
    spoken items = plainWords items := by
  rw [spoken, List.dropWhile_eq_nil_iff.2 h]

theorem spoken_append_none {items : List (Option Text)} (h : ∀ item ∈ items, item.isSome = true)
    (rest : List (Option Text)) :
    spoken (items ++ none :: rest) = "Se".toList :: withComma (plainWords items) ++
      Connective.implication.word :: plainWords rest := by
  have hdrop : (items ++ none :: rest).dropWhile Option.isSome = none :: rest :=
    dropWhile_append_of_head h (by simp)
  have htake : (items ++ none :: rest).takeWhile Option.isSome = items :=
    takeWhile_append_of_head h (by simp)
  rw [spoken, hdrop, htake]

/-- The words of the sentence that pieces make up. -/
theorem words_assemble {ps : List Piece} (hps : ps.IsChain Apart) :
    Text.words (assemble ps) = spoken (ps.flatMap Piece.items) := by
  have hspec := splitPieces?_spec ps
  unfold assemble
  cases hsplit : splitPieces? ps with
  | none =>
    rw [hsplit] at hspec
    rw [spoken_of_isSome (isSome_items hspec)]
    exact words_piecesText hps
  | some sides =>
    obtain ⟨before, after⟩ := sides
    rw [hsplit] at hspec
    obtain ⟨rfl, hbefore⟩ := hspec
    have hspace : isSpace ' ' = true := by decide
    have hse : Text.words "Se".toList = ["Se".toList] := by decide
    have hthen : Text.words Connective.implication.word = [Connective.implication.word] := by decide
    have hcomma := words_append_comma (endsWithout_dropEnds isSpace (piecesText before)).2
    rw [← Text.trim_eq_dropEnds, Text.words_trim, words_piecesText hps.left_of_append] at hcomma
    have hafter : Text.words (piecesText after) = plainWords (after.flatMap Piece.items) :=
      words_piecesText hps.right_of_append.tail
    rw [List.flatMap_append, List.flatMap_cons, Piece.items, List.singleton_append,
      spoken_append_none (isSome_items hbefore), ← hafter]
    calc Text.words ("Se ".toList ++ (piecesText before).trim ++ ", ".toList ++
          Connective.implication.word ++ " ".toList ++ piecesText after)
        = Text.words ("Se".toList ++ ' ' :: ((piecesText before).trim ++ [','] ++ ' ' ::
            (Connective.implication.word ++ ' ' :: piecesText after))) := by
          simp
      _ = _ := by
          rw [Text.words_append_cons _ hspace, Text.words_append_cons _ hspace,
            Text.words_append_cons _ hspace, hse, hthen, hcomma]
          simp

theorem isBlank_display {f : Formula Variable} (hf : f.IsSolid) :
    Text.isBlank f.display = false := by
  obtain ⟨c, hc, hspace, -⟩ := hf.head?_display
  obtain ⟨rest, hrest⟩ := List.head?_eq_some_iff.1 hc
  simp [Text.isBlank, hrest, hspace]

/-- A displayed formula is rendered as its reading, if each of its variables has a clause. -/
theorem renderWith_display {isVerb : VerbDetector} {meanings : List Legend.Entry}
    {clause : Variable → Text} {f : Formula Variable} (hf : f.IsNormal)
    (hclause : ∀ v ∈ f.atoms, meaningIn meanings v = .ok (clause v)) :
    renderWith isVerb f.display meanings =
      .ok (Text.unwords (spoken (f.reading isVerb clause))) := by
  have hpieces : piecesOf isVerb meanings (bare f.symbols ++ []) =
      (piecesOf isVerb meanings []).map (f.pieces isVerb clause ++ ·) :=
    replacedBy_symbols hf hclause []
  have hbare : piecesOf isVerb meanings ((symbolsOf f.display).filter fun s => !s.isParenthesis) =
      .ok (f.pieces isVerb clause) := by
    rw [Formula.symbolsOf_display hf.isSolid]
    simpa [bare, piecesOf, Except.map] using hpieces
  unfold renderWith
  rw [if_neg (by simp [isBlank_display hf.isSolid])]
  simp only [hbare, bind, Except.bind, pure, Except.pure]
  rw [words_assemble (Formula.isChain_pieces isVerb clause f), Formula.items_pieces]

/-! ### Asking for the clauses -/

/-- Each variable gets the clause that is answered for it, if none of these is blank. -/
theorem exists_gather_eq {σ : Type} {ask : MeaningSource σ} {clause : Variable → Text}
    {vs : List Variable}
    (hask : ∀ v ∈ vs, ∀ s, ((ask v s).1.getD []).trim = clause v ∧ clause v ≠ []) (s : σ) :
    ∃ s', gather ask vs s = (.ok (vs.map fun v => ⟨v, clause v⟩), s') := by
  induction vs generalizing s with
  | nil => exact ⟨s, rfl⟩
  | cons v vs ih =>
    obtain ⟨hv, hvs⟩ := List.forall_mem_cons.1 hask
    obtain ⟨hclause, hne⟩ := hv s
    obtain ⟨s', hrest⟩ := ih hvs (ask v s).2
    refine ⟨s', ?_⟩
    simp [gather, hclause, hne, hrest]

theorem meaningIn_map {clause : Variable → Text} {vs : List Variable} {v : Variable} (hv : v ∈ vs) :
    meaningIn (vs.map fun v => ⟨v, clause v⟩) v = .ok (clause v) := by
  induction vs with
  | nil => cases hv
  | cons w vs ih =>
    by_cases hw : w = v
    · simp [meaningIn, hw]
    · have hmem : v ∈ vs := (List.mem_cons.1 hv).resolve_left fun h => hw h.symm
      have hrest := ih hmem
      unfold meaningIn at hrest ⊢
      simpa [hw] using hrest

/-- Rendering a displayed formula gives its reading, and the clauses in the order in which their variables
first appear. -/
theorem exists_render_display {σ : Type} {isVerb : VerbDetector} {ask : MeaningSource σ}
    {clause : Variable → Text} {f : Formula Variable} (hf : f.IsNormal)
    (hask : ∀ v ∈ f.atoms, ∀ s, ((ask v s).1.getD []).trim = clause v ∧ clause v ≠ []) (s : σ) :
    ∃ s', render isVerb f.display ask s =
      (.ok ⟨Text.unwords (spoken (f.reading isVerb clause)),
        (Variable.distinct f.atoms).map fun v => ⟨v, clause v⟩⟩, s') := by
  obtain ⟨v, hv⟩ := List.exists_mem_of_ne_nil _ hf.atoms_ne_nil
  have hne : ¬ (Variable.distinct f.atoms).isEmpty = true := by
    simpa using List.ne_nil_of_mem (mem_distinct_iff.2 hv)
  obtain ⟨s', hgather⟩ : ∃ s', gather ask (Variable.distinct f.atoms) s =
      (.ok ((Variable.distinct f.atoms).map fun v => ⟨v, clause v⟩), s') :=
    exists_gather_eq (fun v hv => hask v (mem_distinct_iff.1 hv)) s
  have hwith : renderWith isVerb f.display
      ((Variable.distinct f.atoms).map fun v => ⟨v, clause v⟩) =
      .ok (Text.unwords (spoken (f.reading isVerb clause))) :=
    renderWith_display hf fun v hv => meaningIn_map (mem_distinct_iff.2 hv)
  refine ⟨s', ?_⟩
  unfold render
  rw [if_neg (by simp [isBlank_display hf.isSolid])]
  simp only [Formula.variablesIn_display hf.isSolid, hne, hgather, hwith]
  rfl

/-- A displayed formula can be rendered with a table of clauses. -/
theorem render_display {isVerb : VerbDetector} {find? : Variable → Option Text}
    {clause : Variable → Text} {f : Formula Variable} (hf : f.IsNormal)
    (hfind : ∀ v ∈ f.atoms, ((find? v).getD []).trim = clause v ∧ clause v ≠ []) :
    render isVerb f.display (.ofTable find?) () =
      (.ok ⟨Text.unwords (spoken (f.reading isVerb clause)),
        (Variable.distinct f.atoms).map fun v => ⟨v, clause v⟩⟩, ()) := by
  have hask : ∀ v ∈ f.atoms, ∀ s,
      ((MeaningSource.ofTable find? v s).1.getD []).trim = clause v ∧ clause v ≠ [] :=
    fun v hv _ => hfind v hv
  obtain ⟨s', hrender⟩ := exists_render_display hf hask ()
  exact hrender

end Sentential
