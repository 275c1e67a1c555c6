import Mathlib.Data.List.Forall2
import Mathlib.Tactic.Common
import Sentential.Proofs.Formalize

/-!
# The grammar of sentences

The tiers of a sentence are described by relations between tokens and formulas, one for each tier,
which say what is cut where and what becomes of the pieces: `SentenceTree`, `SideTree`, `PartTree` and
`RunTree`.  They are parametrised by the variables that clauses stand for.

Each relation holds of exactly one formula, the one that is found (`sentenceTree_iff`).
-/

namespace Sentential

/-! ### The tiers -/

/-- Whether the token is one of the marks that end a sentence. -/
def Token.isEndMark (t : Token) : Bool :=
  t.kind = .punctuation ∧ t.text ∈ [['.'], ['!'], ['?']]

/-- The tokens `core` are what is left of a run when end marks are removed at both ends. -/
def StripsTo (run core : List Token) : Prop :=
  (∃ before after, run = before ++ (core ++ after) ∧
    (∀ t ∈ before, t.isEndMark = true) ∧ ∀ t ∈ after, t.isEndMark = true) ∧
      EndsWithout Token.isEndMark core

/-- A negation sign opens the tokens and has something behind it. -/
def OpensWithSign (core : List Token) : Prop :=
  ∃ sign next rest, sign.kind = .negation ∧ core = sign :: next :: rest

/-- A clause is negated if it contains a negation word or if a negation sign opens it. -/
def IsNegated (core : List Token) : Prop :=
  (∃ t ∈ core, t.isNot = true) ∨ OpensWithSign core

/-- The tokens `body` are those of a clause without the sign and the words that negate it. -/
def LeavesBody (core body : List Token) : Prop :=
  (OpensWithSign core → body = core.tail.filter fun t => !t.isNot) ∧
    (¬ OpensWithSign core → body = core.filter fun t => !t.isNot)

section Trees

variable (names : Text → Option Variable)

/-- A run is the variable of its clause, or the negation of it. -/
inductive RunTree (run : List Token) : Formula Variable → Prop
  /-- A negated clause. -/
  | neg {core body : List Token} {v : Variable} (hcore : StripsTo run core)
    (hbody : LeavesBody core body) (hv : names (joinTokens body) = some v)
    (hneg : IsNegated core) : RunTree run (.neg (.atom v))
  /-- A clause that is not negated. -/
  | atom {core body : List Token} {v : Variable} (hcore : StripsTo run core)
    (hbody : LeavesBody core body) (hv : names (joinTokens body) = some v)
    (hneg : ¬ IsNegated core) : RunTree run (.atom v)

/-- One operand stands for itself, two or more form a group. -/
inductive Grouped (group : List (Formula Variable) → Formula Variable) :
    List (Formula Variable) → Formula Variable → Prop
  /-- A single operand. -/
  | single (f : Formula Variable) : Grouped group [f] f
  /-- A group. -/
  | group {fs : List (Formula Variable)} (hlen : 2 ≤ fs.length) : Grouped group fs (group fs)

/-- A part is cut at every comma and at every *e* and *mas*; what is left between them are its runs. -/
inductive PartTree (part : List Token) : Formula Variable → Prop
  /-- A literal or a conjunction. -/
  | mk {runs : List (List Token)} {fs : List (Formula Variable)} {f : Formula Variable}
    (hcut : Interleaved runs (part.filter Token.isAnd) part)
    (hruns : List.Forall₂ (RunTree names) (nonEmpty runs) fs) (hf : Grouped .conj fs f) :
    PartTree part f

/-- A side is cut at every *ou* that is neither its first nor its last token, so that the outer parts
are not empty. -/
inductive SideTree (side : List Token) : Formula Variable → Prop
  /-- A part or a disjunction. -/
  | mk {parts : List (List Token)} {fs : List (Formula Variable)} {f : Formula Variable}
    (hcut : Interleaved parts (side.tail.dropLast.filter Token.isOr) side)
    (hends : side ≠ [] → parts.head? ≠ some [] ∧ parts.getLast? ≠ some [])
    (hparts : List.Forall₂ (PartTree names) (nonEmpty parts) fs) (hf : Grouped .disj fs f) :
    SideTree side f

/-- A sentence is cut into one or two sides, and a connective joins two of them. -/
inductive SentenceTree (ts : List Token) : Formula Variable → Prop
  /-- A biconditional. -/
  | iff {left right : List Token} {f g : Formula Variable} (hsplit : SplitsInto ts (.iff left right))
    (hf : SideTree names left f) (hg : SideTree names right g) : SentenceTree ts (.iff f g)
  /-- A conditional. -/
  | imp {condition conclusion : List Token} {f g : Formula Variable}
    (hsplit : SplitsInto ts (.imp condition conclusion)) (hf : SideTree names condition f)
    (hg : SideTree names conclusion g) : SentenceTree ts (.imp f g)
  /-- A single side. -/
  | single {side : List Token} {f : Formula Variable} (hsplit : SplitsInto ts (.single side))
    (hf : SideTree names side f) : SentenceTree ts f

end Trees

/-! ### Runs -/

/-- Only a token for a comma has the text of a comma, as is the case for all tokens of a sentence. -/
def CommasAreSeparators (ts : List Token) : Prop :=
  ∀ t ∈ ts, t.text = [','] → t.kind = .comma

theorem commasAreSeparators_tokenize (sentence : Text) :
    CommasAreSeparators (tokenize sentence) := by
  intro t ht htext
  obtain ⟨rest, hlex⟩ := exists_lexeme_of_mem_tokenize ht
  rw [htext] at hlex
  exact hlex.kind_eq_comma

/-- In a run there is no comma, so that no other punctuation than end marks is removed. -/
theorem isClausePunctuation_eq {t : Token} (hcomma : t.text = [','] → t.kind = .comma)
    (hand : t.isAnd = false) : t.isClausePunctuation = t.isEndMark := by
  have hkind : t.kind ≠ .comma := by
    intro h
    simp [Token.isAnd, h] at hand
  have htext : t.text ≠ [','] := fun h => hkind (hcomma h)
  simp [Token.isClausePunctuation, Token.isEndMark, hkind, htext]

/-- There is one way to strip a run. -/
theorem stripsTo_iff {run core : List Token}
    (hrun : ∀ t ∈ run, t.isClausePunctuation = t.isEndMark) :
    StripsTo run core ↔ core = stripPunctuation run := by
  have hstrip : stripPunctuation run = dropEnds Token.isClausePunctuation run := rfl
  rw [hstrip, eq_comm, dropEnds_eq_iff, StripsTo]
  -- all tokens that are compared belong to the run, where both kinds of punctuation agree
  constructor
  · rintro ⟨⟨before, after, rfl, hbefore, hafter⟩, hhead, hlast⟩
    refine ⟨⟨before, after, rfl, fun t ht => ?_, fun t ht => ?_⟩, fun t ht => ?_, fun t ht => ?_⟩
    · rw [hrun t (by simp [ht]), hbefore t ht]
    · rw [hrun t (by simp [ht]), hafter t ht]
    · rw [hrun t (by simp [List.mem_of_mem_head? ht]), hhead t ht]
    · rw [hrun t (by simp [List.mem_of_mem_getLast? ht]), hlast t ht]
  · rintro ⟨⟨before, after, rfl, hbefore, hafter⟩, hhead, hlast⟩
    refine ⟨⟨before, after, rfl, fun t ht => ?_, fun t ht => ?_⟩, fun t ht => ?_, fun t ht => ?_⟩
    · rw [← hrun t (by simp [ht]), hbefore t ht]
    · rw [← hrun t (by simp [ht]), hafter t ht]
    · rw [← hrun t (by simp [List.mem_of_mem_head? ht]), hhead t ht]
    · rw [← hrun t (by simp [List.mem_of_mem_getLast? ht]), hlast t ht]

/-- A sign, or a negation word, that opens a clause is what `opensNegated` asks for. -/
theorem opensNegated_iff {core : List Token} :
    opensNegated core = true ↔ OpensWithSign core ∨
      ∃ word next rest, word.isNot = true ∧ core = word :: next :: rest := by
  unfold opensNegated
  split
  · next t u rest =>
    simp only [OpensWithSign, Bool.or_eq_true, decide_eq_true_eq]
    constructor
    · rintro (h | h)
      · exact .inl ⟨t, u, rest, h, rfl⟩
      · exact .inr ⟨t, u, rest, h, rfl⟩
    · rintro (⟨_, _, _, h, heq⟩ | ⟨_, _, _, h, heq⟩) <;> obtain ⟨rfl, -⟩ := List.cons_eq_cons.1 heq
      · exact .inl h
      · exact .inr h
  · next hshort =>
    constructor
    · nofun
    · rintro (⟨t, u, rest, -, rfl⟩ | ⟨t, u, rest, -, rfl⟩) <;> exact absurd rfl (hshort t u rest)

/-- What is left of a clause is what its negation leaves. -/
theorem leavesBody_iff {run body : List Token} :
    LeavesBody (stripPunctuation run) body ↔ body = clauseTokens run := by
  unfold LeavesBody clauseTokens
  by_cases hsign : OpensWithSign (stripPunctuation run)
  · simp [hsign, opensNegated_iff.2 (.inl hsign)]
  · cases hopens : opensNegated (stripPunctuation run) with
    | false => simp [hsign, hopens]
    | true =>
      -- the word that opens the clause is dropped like every negation word
      obtain h | ⟨word, next, rest, hword, hcore⟩ := opensNegated_iff.1 hopens
      · exact absurd h hsign
      · rw [hcore] at hsign hopens ⊢
        simp [hsign, hopens, hword]

/-- A clause is negated as its negation words and its sign tell. -/
theorem negated_literalOf_iff {run : List Token} :
    (literalOf run).negated = true ↔ IsNegated (stripPunctuation run) := by
  unfold literalOf IsNegated
  cases hopens : opensNegated (stripPunctuation run) with
  | true =>
    obtain h | ⟨word, next, rest, hword, hcore⟩ := opensNegated_iff.1 hopens
    · simp [hopens, h]
    · rw [hcore] at hopens
      simp [hcore, hopens, hword]
  | false =>
    have hsign : ¬ OpensWithSign (stripPunctuation run) := fun h => by
      rw [opensNegated_iff.2 (.inl h)] at hopens
      cases hopens
    simp [hopens, hsign]

/-! ### One formula for each tier -/

section Trees

variable {names : Text → Option Variable} {name : Text → Variable}

/-- A run has one tree, the literal that is read from it. -/
theorem runTree_iff {run : List Token} {f : Formula Variable}
    (hrun : ∀ t ∈ run, t.isClausePunctuation = t.isEndMark)
    (hnames : names (literalOf run).clause = some (name (literalOf run).clause)) :
    RunTree names run f ↔ f = Formula.literal (literalOf run).negated
      (name (literalOf run).clause) := by
  rw [clause_literalOf] at hnames ⊢
  -- what the negation leaves and the variable are determined, whatever the sign
  have hunique {core body : List Token} {v : Variable} (hcore : StripsTo run core)
      (hbody : LeavesBody core body) (hv : names (joinTokens body) = some v) :
      core = stripPunctuation run ∧ v = name (joinTokens (clauseTokens run)) := by
    obtain rfl := (stripsTo_iff hrun).1 hcore
    obtain rfl := leavesBody_iff.1 hbody
    exact ⟨rfl, Option.some.inj (hv.symm.trans hnames)⟩
  constructor
  · intro h
    cases h with
    | atom hcore hbody hv hneg =>
      obtain ⟨rfl, rfl⟩ := hunique hcore hbody hv
      rw [← negated_literalOf_iff] at hneg
      simp [Formula.literal, hneg]
    | neg hcore hbody hv hneg =>
      obtain ⟨rfl, rfl⟩ := hunique hcore hbody hv
      rw [← negated_literalOf_iff] at hneg
      simp [Formula.literal, hneg]
  · rintro rfl
    have hcore := (stripsTo_iff hrun).2 rfl
    have hbody : LeavesBody (stripPunctuation run) (clauseTokens run) := leavesBody_iff.2 rfl
    cases hneg : (literalOf run).negated with
    | true => exact .neg hcore hbody hnames (negated_literalOf_iff.1 hneg)
    | false =>
      refine .atom hcore hbody hnames fun h => ?_
      rw [negated_literalOf_iff.2 h] at hneg
      cases hneg

/-- Where each member is related to one value, a list is related to the list of these values. -/
theorem forall₂_iff_eq_map {α β : Type} {R : α → β → Prop} {value : α → β} {xs : List α}
    {ys : List β} (h : ∀ x ∈ xs, ∀ y, R x y ↔ y = value x) :
    List.Forall₂ R xs ys ↔ ys = xs.map value := by
  induction xs generalizing ys with
  | nil => exact List.forall₂_nil_left_iff
  | cons x xs ih =>
    obtain ⟨hx, hxs⟩ := List.forall_mem_cons.1 h
    rw [List.forall₂_cons_left_iff, List.map_cons]
    constructor
    · rintro ⟨y, ys', hy, hys, rfl⟩
      rw [(hx y).1 hy, (ih hxs).1 hys]
    · rintro rfl
      exact ⟨_, _, (hx _).2 rfl, (ih hxs).2 rfl, rfl⟩

/-- Operands that are there form one group, and a single one stands for itself. -/
theorem grouped_iff {group collect : List (Formula Variable) → Formula Variable}
    (hsingle : ∀ f, collect [f] = f) (hgroup : ∀ fs, 2 ≤ fs.length → collect fs = group fs)
    {fs : List (Formula Variable)} {f : Formula Variable} (hne : fs ≠ []) :
    Grouped group fs f ↔ f = collect fs := by
  constructor
  · rintro (_ | hlen)
    · exact (hsingle f).symm
    · exact (hgroup fs hlen).symm
  · rintro rfl
    match fs, hne with
    | [g], _ =>
      rw [hsingle]
      exact .single g
    | g :: g' :: fs, _ =>
      rw [hgroup _ (by simp)]
      exact .group (by simp)

theorem conjunction_eq_conj (fs : List (Formula Variable)) (hlen : 2 ≤ fs.length) :
    Formula.conjunction fs = .conj fs := by
  match fs, hlen with
  | _ :: _ :: _, _ => rfl

theorem disjunction_eq_disj (fs : List (Formula Variable)) (hlen : 2 ≤ fs.length) :
    Formula.disjunction fs = .disj fs := by
  match fs, hlen with
  | _ :: _ :: _, _ => rfl

/-- The formula of a row of literals whose clauses have got variables. -/
def namedRow (name : Text → Variable) (row : List Literal) : Formula Variable :=
  Formula.ofRow (row.map fun l => (l.negated, name l.clause))

/-- A part has one tree, that of its row. -/
theorem partTree_iff {part : List Token} {f : Formula Variable}
    (hcommas : CommasAreSeparators part) (hrow : partRow part ≠ [])
    (hnames : ∀ l ∈ partRow part, names l.clause = some (name l.clause)) :
    PartTree names part f ↔ f = namedRow name (partRow part) := by
  have hruns : ∀ run ∈ nonEmpty (cuts Token.isAnd part), ∀ g, RunTree names run g ↔
      g = Formula.literal (literalOf run).negated (name (literalOf run).clause) := by
    intro run hrun g
    refine runTree_iff (fun t ht => ?_) (hnames _ (List.mem_map_of_mem hrun))
    have hcut := (mem_nonEmpty.1 hrun).1
    exact isClausePunctuation_eq
      (hcommas t ((interleaved_cuts Token.isAnd part).mem_of_mem_part hcut ht))
      (separates_eq_false_of_mem_cuts hcut ht)
  have hmap : namedRow name (partRow part) = Formula.conjunction
      ((nonEmpty (cuts Token.isAnd part)).map fun run =>
        Formula.literal (literalOf run).negated (name (literalOf run).clause)) := by
    simp [namedRow, partRow, Formula.ofRow, Function.comp_def]
  have hne : nonEmpty (cuts Token.isAnd part) ≠ [] := by
    simpa [partRow] using hrow
  rw [hmap]
  constructor
  · rintro ⟨hcut, hfs, hf⟩
    obtain rfl := cuts_eq_iff.2 hcut
    obtain rfl := (forall₂_iff_eq_map hruns).1 hfs
    exact (grouped_iff (fun _ => rfl) conjunction_eq_conj (by simpa using hne)).1 hf
  · rintro rfl
    exact .mk (interleaved_cuts Token.isAnd part) ((forall₂_iff_eq_map hruns).2 rfl)
      ((grouped_iff (fun _ => rfl) conjunction_eq_conj (by simpa using hne)).2 rfl)

/-- A side has one tree, that of its rows. -/
theorem sideTree_iff {side : List Token} {f : Formula Variable}
    (hcommas : CommasAreSeparators side) (hrows : ReadableRows (sideRows side))
    (hnames : ∀ row ∈ sideRows side, ∀ l ∈ row, names l.clause = some (name l.clause)) :
    SideTree names side f ↔ f = namedRows name (sideRows side) := by
  have hparts : ∀ part ∈ nonEmpty (innerCuts Token.isOr side), ∀ g, PartTree names part g ↔
      g = namedRow name (partRow part) := by
    intro part hpart g
    have hrow : partRow part ∈ sideRows side := List.mem_map_of_mem hpart
    have hcut := (mem_nonEmpty.1 hpart).1
    exact partTree_iff (fun t ht => hcommas t
      ((interleaved_innerCuts Token.isOr side).1.mem_of_mem_part hcut ht))
      (hrows.2 _ hrow).1 (hnames _ hrow)
  have hmap : namedRows name (sideRows side) = Formula.disjunction
      ((nonEmpty (innerCuts Token.isOr side)).map fun part => namedRow name (partRow part)) := by
    simp [namedRows, sideRows, Formula.ofRows, Function.comp_def, namedRow]
  have hne : nonEmpty (innerCuts Token.isOr side) ≠ [] := by
    simpa [sideRows] using hrows.1
  rw [hmap]
  constructor
  · rintro ⟨hcut, hends, hfs, hf⟩
    obtain rfl := innerCuts_eq_iff.2 ⟨hcut, hends⟩
    obtain rfl := (forall₂_iff_eq_map hparts).1 hfs
    exact (grouped_iff (fun _ => rfl) disjunction_eq_disj (by simpa using hne)).1 hf
  · rintro rfl
    obtain ⟨hcut, hends⟩ := interleaved_innerCuts Token.isOr side
    exact .mk hcut hends ((forall₂_iff_eq_map hparts).2 rfl)
      ((grouped_iff (fun _ => rfl) disjunction_eq_disj (by simpa using hne)).2 rfl)

/-- A sentence has one tree, that of the rows of its sides. -/
theorem sentenceTree_iff {ts : List Token} {sides : Frame (List Token)} {f : Formula Variable}
    (hcommas : CommasAreSeparators ts) (hsides : sidesOf? ts = some sides)
    (hread : ∀ side ∈ sides.members, ReadableRows (sideRows side))
    (hnames : ∀ side ∈ sides.members, ∀ row ∈ sideRows side, ∀ l ∈ row,
      names l.clause = some (name l.clause)) :
    SentenceTree names ts f ↔
      f = (sides.map fun side => namedRows name (sideRows side)).formula := by
  have hside : ∀ side ∈ sides.members, ∀ g, SideTree names side g ↔
      g = namedRows name (sideRows side) := fun side hmem g =>
    sideTree_iff (fun t ht => hcommas t ((isInfix_of_mem_sides hsides hmem).mem ht))
      (hread side hmem) (hnames side hmem)
  have hsplit {sides' : Frame (List Token)} (h : SplitsInto ts sides') : sides' = sides := by
    rw [← sidesOf?_eq_some_iff, hsides] at h
    exact (Option.some.inj h).symm
  constructor
  · intro h
    cases h with
    | iff h hf hg | imp h hf hg =>
      obtain rfl := hsplit h
      rw [hside _ (by simp [Frame.members])] at hf hg
      rw [hf, hg]
      rfl
    | single h hf =>
      obtain rfl := hsplit h
      rw [hside _ (by simp [Frame.members])] at hf
      rw [hf]
      rfl
  · rintro rfl
    have hinto := sidesOf?_eq_some_iff.1 hsides
    cases sides with
    | iff left right =>
      exact .iff hinto ((hside left (by simp [Frame.members]) _).2 rfl)
        ((hside right (by simp [Frame.members]) _).2 rfl)
    | imp condition conclusion =>
      exact .imp hinto ((hside condition (by simp [Frame.members]) _).2 rfl)
        ((hside conclusion (by simp [Frame.members]) _).2 rfl)
    | single side => exact .single hinto ((hside side (by simp [Frame.members]) _).2 rfl)

end Trees

/-- A formalization is the one tree that the grammar gives to the tokens of the sentence, over the
variables of its legend; and this tree is flat. -/
theorem sentenceTree_formalize_iff {sentence : Text} {r : Formalization}
    (h : formalize sentence = .ok r) :
    (∀ f, SentenceTree r.legend.variableFor? (tokenize sentence.trim) f ↔ f = r.formula) ∧
      r.formula.IsFlat := by
  obtain ⟨sides, hsides, hread, rfl⟩ := formalize_eq_ok_iff.1 h
  refine ⟨fun f => ?_, isFlat_formula hread⟩
  refine sentenceTree_iff (commasAreSeparators_tokenize _) hsides hread ?_
  intro side hside row hrow l hl
  exact variableFor?_legend (mem_clauses hside hrow hl)

/-- A conditional whose condition is a conjunction of a negated clause and another one. -/
theorem exists_sentenceTree_conditional :
    ∃ r, formalize "se não chove, mas venta então fico".toList = .ok r ∧
      r.formula = .imp (.conj [.neg (.atom (Variable.nth 0)), .atom (Variable.nth 1)])
        (.atom (Variable.nth 2)) ∧
      (∀ f, SentenceTree r.legend.variableFor?
        (tokenize (Text.trim "se não chove, mas venta então fico".toList)) f ↔ f = r.formula) ∧
      r.formula.IsFlat := by
  have hread : formalize "se não chove, mas venta então fico".toList =
      .ok ⟨.imp (.conj [.neg (.atom (Variable.nth 0)), .atom (Variable.nth 1)])
        (.atom (Variable.nth 2)), ⟨[⟨Variable.nth 0, "chove".toList⟩,
          ⟨Variable.nth 1, "venta".toList⟩, ⟨Variable.nth 2, "fico".toList⟩]⟩⟩ := by
    decide +kernel
  exact ⟨_, hread, rfl, sentenceTree_formalize_iff hread⟩

end Sentential
