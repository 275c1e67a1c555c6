import Mathlib.Data.List.Forall2
import Mathlib.Tactic.Common
import Sentential.Proofs.Grammar
import Sentential.Proofs.Spoken

/-!
# What a formula is rendered as

The words of a formula are described by a relation on its tree: `WordList` says which words each
connective puts between those of its operands, and `Negates` where the negation word goes in a clause.
`SentenceOf` says how the words make a sentence, which is that of a conditional if there is an implication
among them.

Both relations determine what they relate (`wordList_iff`, `sentenceOf_iff`), and rendering a displayed
formula gives this sentence (`render_display_isSpokenAs`): whoever is asked for the clauses, whatever they
are made of, and whether or not white space is trimmed from them first.
-/

namespace Sentential

open Text

/-! ### Words and sentences -/

/-- The words `us` are those of a clause with the negation word among them. -/
inductive Negates (isVerb : VerbDetector) (ws : List Text) : List Text → Prop
  /-- It stands in front of the first verb. -/
  | before (front : List Text) {rest : List Text} {verb : Text} (hws : ws = front ++ verb :: rest)
    (hfront : ∀ w ∈ front, isVerb w = false) (hverb : isVerb verb = true) :
    Negates isVerb ws (front ++ "não".toList :: verb :: rest)
  /-- It stands at the end of a clause without verbs. -/
  | behind (hnone : ∀ w ∈ ws, isVerb w = false) : Negates isVerb ws (ws ++ ["não".toList])

/-- The words of a formula from left to right, where the places of implications are kept open. -/
inductive WordList (isVerb : VerbDetector) (meaning : Variable → Text) :
    Formula Variable → List (Option Text) → Prop
  /-- The words of a clause. -/
  | atom (v : Variable) : WordList isVerb meaning (.atom v) ((words (meaning v)).map some)
  /-- Those of a negated clause. -/
  | neg {v : Variable} {ws : List Text} (hws : Negates isVerb (words (meaning v)) ws) :
    WordList isVerb meaning (.neg (.atom v)) (ws.map some)
  /-- An *e* stands between neighbours. -/
  | conj {fs : List (Formula Variable)} {parts : List (List (Option Text))}
    (hparts : List.Forall₂ (WordList isVerb meaning) fs parts) :
    WordList isVerb meaning (.conj fs) (List.intercalate [some "e".toList] parts)
  /-- An *ou* stands between neighbours. -/
  | disj {fs : List (Formula Variable)} {parts : List (List (Option Text))}
    (hparts : List.Forall₂ (WordList isVerb meaning) fs parts) :
    WordList isVerb meaning (.disj fs) (List.intercalate [some "ou".toList] parts)
  /-- An open place stands between the two sides. -/
  | imp {f g : Formula Variable} {is js : List (Option Text)} (hf : WordList isVerb meaning f is)
    (hg : WordList isVerb meaning g js) : WordList isVerb meaning (.imp f g) (is ++ none :: js)
  /-- The phrase of a biconditional stands between the two sides. -/
  | iff {f g : Formula Variable} {is js : List (Option Text)} (hf : WordList isVerb meaning f is)
    (hg : WordList isVerb meaning g js) :
    WordList isVerb meaning (.iff f g) (is ++ (iffPhrase.map some ++ js))

/-- The sentence that words make. -/
inductive SentenceOf : List (Option Text) → Text → Prop
  /-- Words alone stand on one line. -/
  | plain (ws : List Text) : SentenceOf (ws.map some) (unwords ws)
  /-- The first open place makes a conditional of them, and any other one is an *então*. -/
  | conditional (ws : List Text) (items : List (Option Text)) :
    SentenceOf (ws.map some ++ none :: items) ("Se ".toList ++ unwords ws ++ ", então ".toList ++
      unwords (items.map fun item => item.getD "então".toList))

/-- The sentence is the one that the words of the formula make. -/
def IsSpokenAs (isVerb : VerbDetector) (meaning : Variable → Text) (f : Formula Variable)
    (sentence : Text) : Prop :=
  ∃ items, WordList isVerb meaning f items ∧ SentenceOf items sentence

/-! ### Words -/

section Words

variable {isVerb : VerbDetector} {meaning : Variable → Text} {f : Formula Variable}

theorem negateWords_append {front rest : List Text} {verb : Text}
    (hfront : ∀ w ∈ front, isVerb w = false) (hverb : isVerb verb = true) :
    negateWords isVerb (front ++ verb :: rest) = front ++ negationWord :: verb :: rest := by
  induction front with
  | nil => simp [negateWords, hverb]
  | cons w front ih =>
    obtain ⟨hw, hfront⟩ := List.forall_mem_cons.1 hfront
    simp [negateWords, hw, ih hfront]

theorem negateWords_of_forall {ws : List Text} (hnone : ∀ w ∈ ws, isVerb w = false) :
    negateWords isVerb ws = ws ++ [negationWord] := by
  induction ws with
  | nil => rfl
  | cons w ws ih =>
    obtain ⟨hw, hnone⟩ := List.forall_mem_cons.1 hnone
    simp [negateWords, hw, ih hnone]

theorem negates_negateWords (ws : List Text) : Negates isVerb ws (negateWords isVerb ws) := by
  induction ws with
  | nil => exact .behind (List.forall_mem_nil _)
  | cons w ws ih =>
    unfold negateWords
    cases hw : isVerb w with
    | true => exact .before [] rfl (List.forall_mem_nil _) hw
    | false =>
      generalize negateWords isVerb ws = us at ih
      rcases ih with ⟨front, rfl, hfront, hverb⟩ | hnone
      · exact .before (w :: front) rfl (List.forall_mem_cons.2 ⟨hw, hfront⟩) hverb
      · exact .behind (List.forall_mem_cons.2 ⟨hw, hnone⟩)

/-- There is one place for the negation word. -/
theorem negates_iff {ws us : List Text} : Negates isVerb ws us ↔ us = negateWords isVerb ws := by
  constructor
  · rintro (⟨front, rfl, hfront, hverb⟩ | hnone)
    · exact (negateWords_append hfront hverb).symm
    · exact (negateWords_of_forall hnone).symm
  · rintro rfl
    exact negates_negateWords ws

/-! What the words of a formula are, by its outermost connective. -/

theorem wordList_atom_iff {v : Variable} {items : List (Option Text)} :
    WordList isVerb meaning (.atom v) items ↔ items = (words (meaning v)).map some := by
  constructor
  · rintro ⟨⟩
    rfl
  · rintro rfl
    exact .atom v

theorem wordList_neg_iff {v : Variable} {items : List (Option Text)} :
    WordList isVerb meaning (.neg (.atom v)) items ↔
      items = (negateWords isVerb (words (meaning v))).map some := by
  constructor
  · rintro (_ | hws)
    rw [negates_iff.1 hws]
  · rintro rfl
    exact .neg (negates_iff.2 rfl)

theorem wordList_conj_iff {fs : List (Formula Variable)} {items : List (Option Text)} :
    WordList isVerb meaning (.conj fs) items ↔
      ∃ parts, List.Forall₂ (WordList isVerb meaning) fs parts ∧
        items = List.intercalate [some "e".toList] parts := by
  constructor
  · intro h
    cases h with
    | conj hparts => exact ⟨_, hparts, rfl⟩
  · rintro ⟨parts, hparts, rfl⟩
    exact .conj hparts

theorem wordList_disj_iff {fs : List (Formula Variable)} {items : List (Option Text)} :
    WordList isVerb meaning (.disj fs) items ↔
      ∃ parts, List.Forall₂ (WordList isVerb meaning) fs parts ∧
        items = List.intercalate [some "ou".toList] parts := by
  constructor
  · intro h
    cases h with
    | disj hparts => exact ⟨_, hparts, rfl⟩
  · rintro ⟨parts, hparts, rfl⟩
    exact .disj hparts

theorem wordList_imp_iff {f g : Formula Variable} {items : List (Option Text)} :
    WordList isVerb meaning (.imp f g) items ↔
      ∃ is, WordList isVerb meaning f is ∧ ∃ js, WordList isVerb meaning g js ∧
        items = is ++ none :: js := by
  constructor
  · intro h
    cases h with
    | imp hf hg => exact ⟨_, hf, _, hg, rfl⟩
  · rintro ⟨is, hf, js, hg, rfl⟩
    exact .imp hf hg

theorem wordList_iff_iff {f g : Formula Variable} {items : List (Option Text)} :
    WordList isVerb meaning (.iff f g) items ↔
      ∃ is, WordList isVerb meaning f is ∧ ∃ js, WordList isVerb meaning g js ∧
        items = is ++ (iffPhrase.map some ++ js) := by
  constructor
  · intro h
    cases h with
    | iff hf hg => exact ⟨_, hf, _, hg, rfl⟩
  · rintro ⟨is, hf, js, hg, rfl⟩
    exact .iff hf hg

/-- A normal formula has one list of words, which is its reading. -/
theorem wordList_iff (hf : f.IsNormal) {items : List (Option Text)} :
    WordList isVerb meaning f items ↔ items = f.reading isVerb meaning := by
  have hgroup {fs : List (Formula Variable)}
      (ih : ∀ f ∈ fs, ∀ {items}, WordList isVerb meaning f items ↔ items = f.reading isVerb meaning)
      (parts : List (List (Option Text))) : List.Forall₂ (WordList isVerb meaning) fs parts ↔
        parts = fs.map (Formula.reading isVerb meaning) :=
    forall₂_iff_eq_map fun f hf _ => ih f hf
  induction hf generalizing items with
  | atom v => exact wordList_atom_iff
  | neg v =>
    have hwords : plainWords ((Formula.atom v).reading isVerb meaning) = words (meaning v) :=
      plainWords_map_some _
    rw [wordList_neg_iff, Formula.reading, hwords]
  | conj _ _ ih =>
    rw [wordList_conj_iff, Formula.reading, Formula.readingAll_eq_map]
    simp only [hgroup ih, exists_eq_left]
    rfl
  | disj _ _ ih =>
    rw [wordList_disj_iff, Formula.reading, Formula.readingAll_eq_map]
    simp only [hgroup ih, exists_eq_left]
    rfl
  | imp _ _ ihf ihg =>
    rw [wordList_imp_iff, Formula.reading, List.append_assoc]
    simp only [ihf, ihg, exists_eq_left]
    rfl
  | iff _ _ ihf ihg =>
    rw [wordList_iff_iff, Formula.reading, List.append_assoc]
    simp only [ihf, ihg, exists_eq_left]
    rfl

/-- A reading depends on the words of the clauses only. -/
theorem reading_congr {clause clause' : Variable → Text}
    (h : ∀ v ∈ f.atoms, words (clause v) = words (clause' v)) :
    f.reading isVerb clause = f.reading isVerb clause' := by
  induction f using Formula.induction with
  | atom v => simp [Formula.reading, h v (List.mem_singleton_self v)]
  | neg f ih => rw [Formula.reading, ih h, Formula.reading]
  | conj fs ih | disj fs ih =>
    have hmem {f : Formula Variable} (hf : f ∈ fs) {v : Variable} (hv : v ∈ f.atoms) :
        v ∈ fs.flatMap Formula.atoms := List.mem_flatMap.2 ⟨f, hf, hv⟩
    simp only [Formula.atoms_conj, Formula.atoms_disj] at h
    unfold Formula.reading
    rw [Formula.readingAll_eq_map, Formula.readingAll_eq_map]
    congr 1
    exact List.map_congr_left fun f hf => ih f hf fun v hv => h v (hmem hf hv)
  | imp f g ihf ihg | iff f g ihf ihg =>
    unfold Formula.reading
    rw [ihf fun v hv => h v (List.mem_append_left _ hv),
      ihg fun v hv => h v (List.mem_append_right _ hv)]

/-- A word stands at the end. -/
def EndsInWord (items : List (Option Text)) : Prop :=
  ∃ before w, items = before ++ [some w]

theorem EndsInWord.append {items : List (Option Text)} (h : EndsInWord items)
    (before : List (Option Text)) : EndsInWord (before ++ items) := by
  obtain ⟨rest, w, rfl⟩ := h
  exact ⟨before ++ rest, w, (List.append_assoc ..).symm⟩

theorem endsInWord_map_some {ws : List Text} (hne : ws ≠ []) : EndsInWord (ws.map some) := by
  obtain ⟨before, w, rfl⟩ := List.eq_nil_or_concat ws |>.resolve_left hne
  exact ⟨before.map some, w, by simp⟩

/-- A normal formula without blank clauses ends in a word. -/
theorem endsInWord_reading (hf : f.IsNormal) (hmeaning : ∀ v ∈ f.atoms, words (meaning v) ≠ []) :
    EndsInWord (f.reading isVerb meaning) := by
  have hgroup (sep : List (Option Text)) {fs : List (Formula Variable)} (hne : fs ≠ [])
      (hfs : ∀ f ∈ fs, EndsInWord (f.reading isVerb meaning)) :
      EndsInWord (List.intercalate sep (fs.map (Formula.reading isVerb meaning))) := by
    induction fs with
    | nil => exact absurd rfl hne
    | cons f fs ih =>
      obtain ⟨hf, hfs⟩ := List.forall_mem_cons.1 hfs
      cases fs with
      | nil => simpa using hf
      | cons g fs =>
        rw [List.map_cons, List.map_cons, List.intercalate_cons_cons]
        exact (ih (List.cons_ne_nil g fs) hfs).append _
  induction hf with
  | atom v => exact endsInWord_map_some (hmeaning v (List.mem_singleton_self v))
  | neg v =>
    apply endsInWord_map_some
    apply ne_nil_negateWords
  | conj hne _ ih | disj hne _ ih =>
    simp only [Formula.atoms_conj, Formula.atoms_disj] at hmeaning
    unfold Formula.reading
    rw [Formula.readingAll_eq_map]
    apply hgroup _ hne
    intro f hf
    exact ih f hf fun v hv => hmeaning v (List.mem_flatMap.2 ⟨f, hf, hv⟩)
  | imp _ _ _ ihg | iff _ _ _ ihg =>
    unfold Formula.reading
    exact (ihg fun v hv => hmeaning v (List.mem_append_right _ hv)).append _

end Words

/-! ### Sentences -/

/-- Words are cut at the first open place, if there is one. -/
theorem exists_eq_map_some (items : List (Option Text)) :
    ∃ ws : List Text, items = ws.map some ∨ ∃ rest, items = ws.map some ++ none :: rest := by
  induction items with
  | nil => exact ⟨[], .inl rfl⟩
  | cons item items ih =>
    cases item with
    | none => exact ⟨[], .inr ⟨items, rfl⟩⟩
    | some w =>
      obtain ⟨ws, hws | ⟨rest, hrest⟩⟩ := ih
      · exact ⟨w :: ws, .inl (by rw [hws]; rfl)⟩
      · exact ⟨w :: ws, .inr ⟨rest, by rw [hrest]; rfl⟩⟩

theorem EndsInWord.ne_nil {items rest : List (Option Text)} (h : EndsInWord (items ++ none :: rest)) :
    rest ≠ [] := by
  rintro rfl
  obtain ⟨before, w, hitems⟩ := h
  cases (List.append_inj' hitems rfl).2

theorem spoken_map_some (ws : List Text) : spoken (ws.map some) = ws := by
  rw [spoken_of_isSome (by simp), plainWords_map_some]

/-- The sentence of a conditional, with its spaces written out. -/
theorem unwords_spoken_append_none (ws : List Text) {rest : List (Option Text)} (hrest : rest ≠ []) :
    unwords (spoken (ws.map some ++ none :: rest)) = "Se ".toList ++ unwords ws ++
      ", então ".toList ++ unwords (rest.map fun item => item.getD "então".toList) := by
  have hspoken : spoken (ws.map some ++ none :: rest) =
      ("Se".toList :: withComma ws) ++ ("então".toList :: plainWords rest) := by
    rw [spoken_append_none (by simp), plainWords_map_some]
    rfl
  have hne : plainWords rest ≠ [] := by simpa [plainWords] using hrest
  have hse : "Se ".toList = "Se".toList ++ [' '] := rfl
  have hthen : ", então ".toList = [','] ++ ([' '] ++ ("então".toList ++ [' '])) := rfl
  have hplain : (rest.map fun item => item.getD "então".toList) = plainWords rest := rfl
  rw [hspoken, hse, hthen, hplain, unwords_append (List.cons_ne_nil "Se".toList (withComma ws))
    (List.cons_ne_nil "então".toList (plainWords rest)), unwords_cons "Se".toList
    (withComma_ne_nil ws), unwords_withComma ws, unwords_cons "então".toList hne]
  simp only [List.append_assoc, List.cons_append, List.nil_append]

/-- Words that end in a word make one sentence. -/
theorem sentenceOf_iff {items : List (Option Text)} (hends : EndsInWord items) {sentence : Text} :
    SentenceOf items sentence ↔ sentence = unwords (spoken items) := by
  constructor
  · intro h
    rcases h with ws | ⟨ws, rest⟩
    · rw [spoken_map_some]
    · exact (unwords_spoken_append_none ws hends.ne_nil).symm
  · rintro rfl
    obtain ⟨ws, rfl | ⟨rest, rfl⟩⟩ := exists_eq_map_some items
    · rw [spoken_map_some]
      exact .plain ws
    · rw [unwords_spoken_append_none ws hends.ne_nil]
      exact .conditional ws rest

/-- A normal formula is spoken as one sentence, if no clause is blank. -/
theorem isSpokenAs_iff {isVerb : VerbDetector} {meaning : Variable → Text} {f : Formula Variable}
    (hf : f.IsNormal) (hmeaning : ∀ v ∈ f.atoms, words (meaning v) ≠ []) {sentence : Text} :
    IsSpokenAs isVerb meaning f sentence ↔
      sentence = unwords (spoken (f.reading isVerb meaning)) := by
  have hends : EndsInWord (f.reading isVerb meaning) := endsInWord_reading hf hmeaning
  constructor
  · rintro ⟨items, hitems, hsentence⟩
    obtain rfl := (wordList_iff hf).1 hitems
    exact (sentenceOf_iff hends).1 hsentence
  · intro hsentence
    exact ⟨_, (wordList_iff hf).2 rfl, (sentenceOf_iff hends).2 hsentence⟩

/-- A displayed formula is rendered as the sentence that its tree is spoken as, whoever is asked for the
clauses and whatever counts as a verb, and with clauses that are not trimmed as well. -/
theorem render_display_isSpokenAs (isVerb : VerbDetector) {f : Formula Variable} (hf : f.IsNormal)
    {meaning : Variable → Text} (hmeaning : ∀ v ∈ f.atoms, isBlank (meaning v) = false) :
    ∃ sentence, (∀ sentence', IsSpokenAs isVerb meaning f sentence' ↔ sentence' = sentence) ∧
      (∀ (σ : Type) (ask : MeaningSource σ) (s : σ),
        (∀ v ∈ f.atoms, ∀ s, (ask v s).1 = some (meaning v)) →
          ∃ s', render isVerb f.display ask s = (.ok ⟨sentence, (Variable.distinct f.atoms).map
            fun v => ⟨v, trim (meaning v)⟩⟩, s')) ∧
      ∀ entries : List Legend.Entry,
        (∀ v ∈ f.atoms, (entries.find? fun e => e.var = v) = some ⟨v, meaning v⟩) →
          renderWith isVerb f.display entries = .ok sentence := by
  have hwords : ∀ v ∈ f.atoms, words (meaning v) ≠ [] := by
    intro v hv hnil
    have hblank : isBlank (meaning v) = true := List.all_eq_true.2 (words_eq_nil_iff.1 hnil)
    rw [hmeaning v hv] at hblank
    cases hblank
  refine ⟨_, fun _ => isSpokenAs_iff hf hwords, ?_, ?_⟩
  · intro σ ask s hask
    have htrim : f.reading isVerb meaning = f.reading isVerb fun v => trim (meaning v) :=
      reading_congr fun v _ => (words_trim (meaning v)).symm
    rw [htrim]
    apply exists_render_display hf
    intro v hv s
    rw [hask v hv s]
    refine ⟨rfl, fun hnil => hwords v hv ?_⟩
    rw [← words_trim, hnil, words_nil]
  · intro entries hentries
    apply renderWith_display hf
    intro v hv
    unfold meaningIn
    rw [hentries v hv]

/-- An implication whose first one stands within a group, and whose clauses hold a variable, a glyph,
parentheses and white space of several kinds. -/
theorem render_display_nested :
    let f : Formula Variable := .imp
      (.conj [.neg (.atom (Variable.nth 0)), .imp (.atom (Variable.nth 1)) (.atom (Variable.nth 0))])
      (.disj [.atom (Variable.nth 1), .neg (.atom (Variable.nth 1))])
    let meaning : Variable → Text := fun v =>
      if v = Variable.nth 0 then "  hoje chove\t(P → Q) ".toList else "a rua  ¬ seca".toList
    let sentence : Text := ("Se hoje não chove (P → Q) e a rua ¬ seca, então hoje chove (P → Q) " ++
      "então a rua ¬ seca ou a rua ¬ seca não").toList
    f.IsNormal ∧ (∀ v ∈ f.atoms, isBlank (meaning v) = false) ∧
      IsSpokenAs VerbLexicon.standard.isVerb meaning f sentence ∧
      (render VerbLexicon.standard.isVerb f.display
        (.recording fun v => some (meaning v)) []).1 = .ok ⟨sentence,
          [⟨Variable.nth 0, "hoje chove\t(P → Q)".toList⟩,
            ⟨Variable.nth 1, "a rua  ¬ seca".toList⟩]⟩ ∧
      renderWith VerbLexicon.standard.isVerb f.display
        [⟨Variable.nth 0, meaning (Variable.nth 0)⟩, ⟨Variable.nth 1, meaning (Variable.nth 1)⟩] =
          .ok sentence := by
  intro f meaning sentence
  have hf : f.IsNormal := by
    refine .imp (.conj (List.cons_ne_nil _ _) ?_) (.disj (List.cons_ne_nil _ _) ?_)
    · exact List.forall_mem_cons.2 ⟨.neg _, List.forall_mem_singleton.2 (.imp (.atom _) (.atom _))⟩
    · exact List.forall_mem_cons.2 ⟨.atom _, List.forall_mem_singleton.2 (.neg _)⟩
  have hmeaning : ∀ v ∈ f.atoms, isBlank (meaning v) = false := by decide +kernel
  obtain ⟨sentence', hspoken, hrender, hwith⟩ :=
    render_display_isSpokenAs VerbLexicon.standard.isVerb hf hmeaning
  have hentries := hwith
    [⟨Variable.nth 0, meaning (Variable.nth 0)⟩, ⟨Variable.nth 1, meaning (Variable.nth 1)⟩]
    (by decide +kernel)
  have hcomputed : renderWith VerbLexicon.standard.isVerb f.display
      [⟨Variable.nth 0, meaning (Variable.nth 0)⟩, ⟨Variable.nth 1, meaning (Variable.nth 1)⟩] =
        .ok sentence := by
    decide +kernel
  obtain rfl : sentence = sentence' := Except.ok.inj (hcomputed.symm.trans hentries)
  obtain ⟨asked, hasked⟩ := hrender _ (.recording fun v => some (meaning v)) [] fun _ _ _ => rfl
  have hmeanings : ((Variable.distinct f.atoms).map fun v => Legend.Entry.mk v (trim (meaning v))) =
      [⟨Variable.nth 0, "hoje chove\t(P → Q)".toList⟩, ⟨Variable.nth 1, "a rua  ¬ seca".toList⟩] := by
    decide +kernel
  exact ⟨hf, hmeaning, (hspoken _).2 rfl, by rw [hasked, hmeanings], hcomputed⟩

end Sentential
