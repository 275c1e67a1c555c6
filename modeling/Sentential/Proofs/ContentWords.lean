import Mathlib.Data.List.Forall2
import Mathlib.Tactic.Common
import Sentential.Proofs.Conditions
import Sentential.Proofs.Origins

/-!
# The content of a sentence

The words that neither connect nor negate clauses are the content of a sentence.  Whatever is dropped on
the way from a sentence to its clauses is no such word: separators (`Interleaved.contentWords_eq`),
negation and end marks (`contentWords_clauseTokens`), and the words that split a sentence into sides
(`exists_readFrom`).  So the clauses of a formula carry the content of its sentence, each word once and in
order (`exists_carriesContent_of_formalize`).
-/

namespace Sentential

/-- The words that connect and negate clauses, in lower case. -/
def grammarWords : List Text :=
  ["se", "e", "somente", "ou", "mas", "então", "entao", "não", "nao"].map String.toList

/-- Whether the token is a word that neither connects nor negates clauses. -/
def Token.isContent (t : Token) : Bool :=
  t.kind = .word ∧ t.text.lower ∉ grammarWords

/-- The content words among some tokens, as they are spelled. -/
def contentWords (ts : List Token) : List Text :=
  (ts.filter Token.isContent).map Token.text

/-- The tokens from which the formula of a sentence was read: of a conditional, those behind the *se* at
which it was split, and all of them otherwise. -/
inductive ReadFrom (ts : List Token) : Formula Variable → List Token → Prop
  /-- What stands in front of a conditional is skipped. -/
  | behind {f g : Formula Variable} {i j : Nat} (hsplit : SplitsAt ts i j) :
    ReadFrom ts (.imp f g) (ts.drop (i + 1))
  /-- Nothing else is. -/
  | all {f : Formula Variable} (hf : ∀ g g', f ≠ .imp g g') : ReadFrom ts f ts

/-- The texts, one for each atom of the formula, are clauses of the legend up to upper and lower case, hold
no negation word, and carry the content of the sentence. -/
structure CarriesContent (sentence : Text) (r : Formalization) (texts : List Text) : Prop where
  /-- Each text is what the legend says of its atom, up to white space at its ends and case. -/
  clauses : List.Forall₂ (fun v text => ∃ clause, r.legend.get? v = some clause ∧
    text.trim.lower = clause.trim.lower) r.formula.atoms texts
  /-- The content words of the texts are those of the sentence, in order. -/
  content : ∃ part, ReadFrom (tokenize sentence) r.formula part ∧
    (texts.flatMap fun text => contentWords (tokenize text)) = contentWords part
  /-- No text holds a negation word. -/
  plain : ∀ text ∈ texts, ∀ t ∈ tokenize text, t.isNot = false

/-! ### What is no content -/

namespace Token

variable {t : Token}

theorem isContent_eq_false (h : t.kind = .word → t.text.lower ∈ grammarWords) :
    t.isContent = false :=
  decide_eq_false fun ⟨hkind, hnot⟩ => hnot (h hkind)

theorem isContent_of_isAnyWord {keywords : List Text} (hkeywords : ∀ w ∈ keywords, w ∈ grammarWords)
    (h : t.isAnyWord keywords = true) : t.isContent = false := by
  obtain ⟨-, hmem⟩ : t.kind = .word ∧ t.text.lower ∈ keywords := of_decide_eq_true h
  exact isContent_eq_false fun _ => hkeywords _ hmem

theorem isContent_of_isWord {keyword : Text} (hkeyword : keyword ∈ grammarWords)
    (h : t.isWord keyword = true) : t.isContent = false := by
  obtain ⟨-, htext⟩ : t.kind = .word ∧ t.text.lower = keyword := of_decide_eq_true h
  exact isContent_eq_false fun _ => by rwa [htext]

theorem isContent_of_isNot (h : t.isNot = true) : t.isContent = false :=
  isContent_of_isAnyWord (by decide) h

theorem isContent_of_isThen (h : t.isThen = true) : t.isContent = false :=
  isContent_of_isAnyWord (by decide) h

theorem isContent_of_isOr (h : t.isOr = true) : t.isContent = false :=
  isContent_of_isWord (by decide) h

theorem isContent_of_isAnd (h : t.isAnd = true) : t.isContent = false := by
  obtain hcomma | hword := Bool.or_eq_true_iff.1 h
  · have hkind : t.kind = .comma := of_decide_eq_true hcomma
    exact isContent_eq_false fun h => by simp [hkind] at h
  · exact isContent_of_isAnyWord (by decide) hword

theorem isContent_of_isClausePunctuation (h : t.isClausePunctuation = true) :
    t.isContent = false := by
  obtain ⟨hkind, -⟩ : (t.kind = .comma ∨ t.kind = .punctuation) ∧
      t.text ∈ [['.'], [','], ['!'], ['?']] := of_decide_eq_true h
  refine isContent_eq_false fun h => ?_
  rcases hkind with hkind | hkind <;> simp [hkind] at h

end Token

/-! ### Content words of some tokens -/

@[simp] theorem contentWords_append (ts us : List Token) :
    contentWords (ts ++ us) = contentWords ts ++ contentWords us := by
  simp [contentWords]

theorem contentWords_eq_nil {ts : List Token} (h : ∀ t ∈ ts, t.isContent = false) :
    contentWords ts = [] := by
  rw [contentWords, List.filter_eq_nil_iff.2 fun t ht => by simp [h t ht], List.map_nil]

/-- A token that is no content can be put in front. -/
theorem contentWords_cons {t : Token} (ht : t.isContent = false) (ts : List Token) :
    contentWords (t :: ts) = contentWords ts := by
  rw [contentWords, List.filter_cons_of_neg (by simp [ht]), contentWords]

/-- Content words do not depend on the places of the tokens. -/
theorem contentWords_map_of_eq (φ : Token → Token) (hkind : ∀ t, (φ t).kind = t.kind)
    (htext : ∀ t, (φ t).text = t.text) (ts : List Token) :
    contentWords (ts.map φ) = contentWords ts := by
  have hcontent : Token.isContent ∘ φ = Token.isContent := by
    funext t
    simp only [Function.comp_apply, Token.isContent, hkind, htext]
  have hcomp : Token.text ∘ φ = Token.text := funext htext
  rw [contentWords, List.filter_map, hcontent, List.map_map, hcomp, contentWords]

@[simp] theorem contentWords_map_bare (ts : List Token) :
    contentWords (ts.map Token.bare) = contentWords ts :=
  contentWords_map_of_eq Token.bare (fun _ => rfl) (fun _ => rfl) ts

@[simp] theorem contentWords_map_shift (d : Nat) (ts : List Token) :
    contentWords (ts.map (Token.shift d)) = contentWords ts :=
  contentWords_map_of_eq (Token.shift d) (fun _ => rfl) (fun _ => rfl) ts

/-- The words of a phrase are no content if all of them belong to the grammar. -/
theorem contentWords_of_spellsOut {phrase : List Text} {ts : List Token}
    (hphrase : ∀ w ∈ phrase, w ∈ grammarWords) (h : SpellsOut phrase ts) : contentWords ts = [] := by
  induction h with
  | nil => rfl
  | cons hword _ ih =>
    obtain ⟨hmem, hphrase⟩ := List.forall_mem_cons.1 hphrase
    rw [contentWords_cons (Token.isContent_of_isWord hmem hword), ih hphrase]

/-- Tokens that are no content can be dropped. -/
theorem contentWords_filter {p : Token → Bool} (h : ∀ t, p t = false → t.isContent = false)
    (ts : List Token) : contentWords (ts.filter p) = contentWords ts := by
  rw [contentWords, List.filter_filter, contentWords]
  congr 1
  refine List.filter_congr fun t _ => ?_
  cases hp : p t with
  | true => rw [Bool.and_true]
  | false => rw [h t hp, Bool.and_false]

/-- The content words of a list are those of its parts, if the separators are no content. -/
theorem Interleaved.contentWords_eq {parts : List (List Token)} {seps ts : List Token}
    (h : Interleaved parts seps ts) (hseps : ∀ s ∈ seps, s.isContent = false) :
    contentWords ts = (nonEmpty parts).flatMap contentWords := by
  have hcons (part : List Token) (parts : List (List Token)) :
      (nonEmpty (part :: parts)).flatMap contentWords =
        contentWords part ++ (nonEmpty parts).flatMap contentWords := by
    cases part with
    | nil => rfl
    | cons t part => rfl
  induction h with
  | single part =>
    rw [hcons]
    exact (List.append_nil _).symm
  | cons part s h ih =>
    obtain ⟨hs, hseps⟩ := List.forall_mem_cons.1 hseps
    rw [contentWords_append, contentWords_cons hs, ih hseps, hcons]

/-- What is dropped from a run to get its clause is no content. -/
theorem contentWords_clauseTokens (run : List Token) :
    contentWords (clauseTokens run) = contentWords run := by
  have hstrip : contentWords (stripPunctuation run) = contentWords run := by
    obtain ⟨before, after, hrun, hbefore, hafter⟩ :=
      exists_append_dropEnds Token.isClausePunctuation run
    rw [stripPunctuation_eq_dropEnds]
    conv_rhs => rw [hrun]
    rw [contentWords_append, contentWords_append,
      contentWords_eq_nil fun t ht => Token.isContent_of_isClausePunctuation (hbefore t ht),
      contentWords_eq_nil fun t ht => Token.isContent_of_isClausePunctuation (hafter t ht),
      List.nil_append, List.append_nil]
  have hnot : ∀ t : Token, (!t.isNot) = false → t.isContent = false := fun t ht =>
    Token.isContent_of_isNot (by simpa using ht)
  rw [clauseTokens, contentWords_filter hnot, ← hstrip]
  rcases stripPunctuation run with _ | ⟨t, _ | ⟨u, rest⟩⟩
  · rfl
  · rfl
  · by_cases hopens : opensNegated (t :: u :: rest) = true
    · have ht : t.isContent = false := by
        obtain hkind | ht : t.kind = .negation ∨ t.isNot = true := by
          simpa [opensNegated] using hopens
        · exact Token.isContent_eq_false fun h => by simp [hkind] at h
        · exact Token.isContent_of_isNot ht
      rw [if_pos hopens, contentWords_cons ht]
      rfl
    · rw [if_neg hopens]

/-- The content words of a side are those of its runs. -/
theorem contentWords_side (side : List Token) :
    contentWords side = (sideRuns side).flatMap contentWords := by
  have hpart (part : List Token) :
      contentWords part = (nonEmpty (cuts Token.isAnd part)).flatMap contentWords :=
    (interleaved_cuts Token.isAnd part).contentWords_eq fun _ hs =>
      Token.isContent_of_isAnd (List.mem_filter.1 hs).2
  rw [sideRuns, List.flatMap_assoc, ← funext hpart]
  exact (interleaved_innerCuts Token.isOr side).1.contentWords_eq fun _ hs =>
    Token.isContent_of_isOr (List.mem_filter.1 hs).2

/-! ### White space around a sentence -/

/-- White space around a text moves its tokens and does nothing else. -/
theorem tokenize_append_spaces {before after : Text} (hbefore : ∀ c ∈ before, isSpace c = true)
    (t : Text) (hafter : ∀ c ∈ after, isSpace c = true) :
    tokenize (before ++ (t ++ after)) = (tokenize t).map (Token.shift before.byteLength) := by
  have hspaces {spaces : Text} (h : ∀ c ∈ spaces, isSpace c = true) (start : Nat) (rest : Text) :
      tokensFrom start [] (spaces ++ rest) = tokensFrom (start + spaces.byteLength) [] rest := by
    induction spaces generalizing start with
    | nil => rfl
    | cons c spaces ih =>
      obtain ⟨hc, hspaces⟩ := List.forall_mem_cons.1 h
      rw [List.cons_append, tokensFrom_space start hc, ih hspaces, Text.byteLength, Nat.add_assoc]
  have hends : EndsWords after := fun c hc => by
    have hspace := hafter c (List.mem_of_mem_head? hc)
    exact ⟨isAlphanumeric_eq_false_of_isSpace hspace, isJoiner_eq_false_of_isSpace hspace⟩
  have hnone (start : Nat) : tokensFrom start [] after = [] := by
    rw [← List.append_nil after, hspaces hafter, tokensFrom_nil]
  rw [tokenize, hspaces hbefore, tokensFrom_append _ _ hends, hnone, List.append_nil,
    tokensFrom_add, tokenize]

/-- The tokens of a sentence are those that are left when it is trimmed, at other places. -/
theorem exists_tokenize_eq_map_shift (sentence : Text) :
    ∃ d, tokenize sentence = (tokenize sentence.trim).map (Token.shift d) := by
  obtain ⟨before, after, hsentence, hbefore, hafter⟩ := exists_append_dropEnds isSpace sentence
  rw [← Text.trim_eq_dropEnds] at hsentence
  refine ⟨Text.byteLength before, ?_⟩
  conv_lhs => rw [hsentence]
  exact tokenize_append_spaces hbefore _ hafter

section Shift

variable {ts part : List Token} {i j d : Nat}

theorem completesAt_map_shift :
    CompletesAt (ts.map (Token.shift d)) i j ↔ CompletesAt ts i j := by
  have hat (p : Token → Bool) (hp : ∀ t, p (t.shift d) = p t) (k : Nat) :
      (∃ t, (ts.map (Token.shift d))[k]? = some t ∧ p t = true) ↔
        ∃ t, ts[k]? = some t ∧ p t = true := by
    simp [hp]
  constructor
  · rintro ⟨hopens, hcloses, hcondition, hconclusion⟩
    exact ⟨(hat _ (fun _ => rfl) i).1 hopens, (hat _ (fun _ => rfl) j).1 hcloses, hcondition,
      by simpa using hconclusion⟩
  · rintro ⟨hopens, hcloses, hcondition, hconclusion⟩
    exact ⟨(hat _ (fun _ => rfl) i).2 hopens, (hat _ (fun _ => rfl) j).2 hcloses, hcondition,
      by simpa using hconclusion⟩

/-- Tokens that are moved are split at the same places. -/
theorem ReadFrom.map_shift {f : Formula Variable} (h : ReadFrom ts f part) (d : Nat) :
    ReadFrom (ts.map (Token.shift d)) f (part.map (Token.shift d)) := by
  cases h with
  | behind hsplit =>
    rw [List.map_drop]
    refine .behind ⟨completesAt_map_shift.2 hsplit.1, fun i' j' h' => ?_⟩
    exact hsplit.2 i' j' (completesAt_map_shift.1 h')
  | all hf => exact .all hf

end Shift

/-! ### Sentences -/

/-- What splits a sentence into its sides is no content. -/
theorem exists_readFrom {ts : List Token} {sides : Frame (List Token)} (h : SplitsInto ts sides)
    (hread : ∀ side ∈ sides.members, ReadableRows (sideRows side)) :
    ∃ part, ReadFrom ts (formalizationOf sides).formula part ∧
      contentWords part = sides.members.flatMap contentWords := by
  cases h with
  | @iff left right hsplit =>
    obtain ⟨phrase, hphrase, rfl⟩ := hsplit.1
    have hnone : contentWords phrase = [] := contentWords_of_spellsOut (by decide) hphrase
    refine ⟨_, .all fun g g' => nofun, ?_⟩
    simp [Frame.members, hnone]
  | @imp condition conclusion _ _ hsplit =>
    obtain ⟨i, j, hplaces, rfl, rfl⟩ := splitsAtFirstCondition_iff.1 hsplit
    obtain ⟨closer, hcloser, hdrop⟩ := hplaces.1.splitsAtCondition.exists_drop_eq
    have hlen : (ts.take i).length = i := by
      have := hplaces.1.condition
      have := hplaces.1.conclusion
      rw [List.length_take]
      omega
    rw [hlen] at hdrop
    refine ⟨_, .behind hplaces, ?_⟩
    have hcontent := congrArg contentWords hdrop
    rw [contentWords_append, contentWords_cons (Token.isContent_of_isThen hcloser)] at hcontent
    simpa [Frame.members] using hcontent
  | single _ _ =>
    refine ⟨ts, .all fun g g' heq => ?_, by simp [Frame.members]⟩
    -- a single side has a single group of rows
    have hframe := frame_formalizationOf hread
    rw [heq] at hframe
    cases hframe

/-- The legend knows the clause of each atom, up to upper and lower case. -/
theorem exists_get?_legend {sides : Frame (List Token)} {c : Text} (hc : c ∈ clausesIn sides) :
    ∃ clause, (formalizationOf sides).legend.get? (naming (clausesIn sides) c) = some clause ∧
      clauseKey c = clauseKey clause := by
  obtain ⟨d, hkey, hget⟩ := exists_get?_naming hc
  exact ⟨d.trim, hget, by rw [clauseKey_trim, hkey]⟩

/-- The clauses of a formula carry the content of its sentence: no content word is lost, none is doubled,
and they keep their order and their spelling. -/
theorem exists_carriesContent_of_formalize {sentence : Text} {r : Formalization}
    (h : formalize sentence = .ok r) : ∃ texts, CarriesContent sentence r texts := by
  obtain ⟨sides, hsides, hread, rfl⟩ := formalize_eq_ok_iff.1 h
  refine ⟨clausesIn sides, ?_, ?_, ?_⟩
  · rw [atoms_formalizationOf, List.forall₂_map_left_iff, List.forall₂_same]
    intro c hc
    exact exists_get?_legend hc
  · obtain ⟨part, hpart, hcontent⟩ := exists_readFrom (sidesOf?_eq_some_iff.1 hsides) hread
    obtain ⟨d, htokens⟩ := exists_tokenize_eq_map_shift sentence
    have hruns : sides.members.flatMap contentWords =
        (sides.members.flatMap sideRuns).flatMap contentWords := by
      rw [List.flatMap_assoc]
      exact List.flatMap_congr fun side _ => contentWords_side side
    refine ⟨part.map (Token.shift d), by rw [htokens]; exact hpart.map_shift d, ?_⟩
    rw [contentWords_map_shift, hcontent, hruns, clausesIn_eq, List.flatMap_map]
    apply List.flatMap_congr
    intro run hrun
    obtain ⟨side, hside, hrun⟩ := List.mem_flatMap.1 hrun
    rw [← contentWords_map_bare, map_bare_tokenize_clause hsides hside hrun, contentWords_map_bare,
      contentWords_clauseTokens]
  · rw [clausesIn_eq, List.forall_mem_map]
    intro run hrun t ht
    obtain ⟨side, hside, hrun⟩ := List.mem_flatMap.1 hrun
    exact isNot_eq_false_of_mem_tokenize_clause hsides hside hrun ht

/-- A conditional with something in front of it, and a clause that is spelled in two ways. -/
theorem exists_carriesContent_conditional :
    ∃ r, formalize " Ora, se a Rua não seca e chove, então Chove ou não neva! ".toList = .ok r ∧
      r.formula.atoms.length = 4 ∧ r.legend.size = 3 ∧
        ∃ texts, CarriesContent " Ora, se a Rua não seca e chove, então Chove ou não neva! ".toList
          r texts := by
  have hread : formalize " Ora, se a Rua não seca e chove, então Chove ou não neva! ".toList =
      .ok ⟨.imp (.conj [.neg (.atom (Variable.nth 0)), .atom (Variable.nth 1)])
        (.disj [.atom (Variable.nth 1), .neg (.atom (Variable.nth 2))]),
          ⟨[⟨Variable.nth 0, "a Rua seca".toList⟩, ⟨Variable.nth 1, "chove".toList⟩,
            ⟨Variable.nth 2, "neva".toList⟩]⟩⟩ := by
    decide +kernel
  exact ⟨_, hread, rfl, rfl, exists_carriesContent_of_formalize hread⟩

end Sentential
