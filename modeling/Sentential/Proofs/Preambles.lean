import Mathlib.Data.List.Basic
import Mathlib.Tactic.Common
import Sentential.Proofs.ContentWords
import Sentential.Proofs.Moved
import Sentential.Proofs.Spans

/-!
# Text in front of a conditional

The outline of a sentence, or the error with the text that it quotes, stays the same when the sentence
becomes part of a longer text and its tokens are moved along (`outline_map_move`,
`quoted_map_shift`).  So white space around a sentence changes nothing (`formalize_eq_map_outline`).

A conditional starts at its *se*.  Whatever stands before the first *se* is passed over, be it words
that cut other sentences (`outline_append`), and so a text without *se* can be put in front of a
conditional without any effect (`formalize_append_conditional`).
-/

namespace Sentential

/-! ### Outlines at other places -/

/-- Tokens that are moved into another sentence are quoted as before, whichever stretch of them. -/
def QuotesAlike (place : Nat → Nat) (source source' : Text) (ts : List Token) : Prop :=
  ∀ us, us <:+: ts → quoted source' (us.map (Token.move place)) = quoted source us

/-- Tokens that are moved into another sentence keep their gaps and are quoted as before. -/
structure Relocates (place : Nat → Nat) (source source' : Text) (ts : List Token) : Prop where
  /-- No gap opens or closes. -/
  keepsGaps : KeepsGaps place ts
  /-- Errors quote the same text. -/
  quotesAlike : QuotesAlike place source source' ts

section Relocated

variable {place : Nat → Nat} {source source' : Text} {ts us : List Token}

theorem Relocates.isInfix (h : Relocates place source source' ts) (hus : us <:+: ts) :
    Relocates place source source' us :=
  ⟨h.keepsGaps.sublist hus.sublist, fun _ hvs => h.quotesAlike _ (hvs.trans hus)⟩

theorem runOutline_map_move (h : Relocates place source source' ts) :
    runOutline source' (ts.map (Token.move place)) = runOutline source ts := by
  rw [runOutline, runOutline, literalOf_map_move h.keepsGaps, h.quotesAlike ts List.infix_rfl]

theorem dropEmpty_map_move (h : Relocates place source source' ts) (parts : List (List Token)) :
    dropEmpty source' (ts.map (Token.move place)) (parts.map (List.map (Token.move place))) =
      (dropEmpty source ts parts).map (List.map (List.map (Token.move place))) := by
  have hkept := nonEmpty_map (Token.move place) parts
  simp only [nonEmpty] at hkept
  rw [dropEmpty, dropEmpty, h.quotesAlike ts List.infix_rfl]
  simp only [hkept, List.isEmpty_map]
  split <;> rfl

/-- Readers that agree on the members of a list, errors included, agree on the list. -/
theorem mapM_congr {ε α β : Type} {read read' : α → Except ε β} {xs : List α}
    (h : ∀ x ∈ xs, read' x = read x) : xs.mapM read' = xs.mapM read := by
  induction xs with
  | nil => rfl
  | cons x xs ih =>
    obtain ⟨hx, hxs⟩ := List.forall_mem_cons.1 h
    rw [List.mapM_cons, List.mapM_cons, hx, ih hxs]

/-- A reader that reads the moved parts like the parts themselves, errors included, reads the groups of
them alike. -/
theorem group_map_move {parts : List (List Token)} {group : List (Formula Text) → Formula Text}
    {read read' : List Token → Except SentenceError (Formula Text)}
    (h : Relocates place source source' ts)
    (hread : ∀ part ∈ parts, read' (part.map (Token.move place)) = read part) :
    (do
      let kept ← dropEmpty source' (ts.map (Token.move place))
        (parts.map (List.map (Token.move place)))
      let fs ← kept.mapM read'
      return group fs) =
    (do
      let kept ← dropEmpty source ts parts
      let fs ← kept.mapM read
      return group fs) := by
  rw [dropEmpty_map_move h]
  cases hkept : dropEmpty source ts parts with
  | error e => rfl
  | ok kept =>
    obtain ⟨-, rfl⟩ := dropEmpty_eq_ok_iff.1 hkept
    have hmapM : ((nonEmpty parts).map (List.map (Token.move place))).mapM read' =
        (nonEmpty parts).mapM read := by
      rw [List.mapM_map]
      exact mapM_congr fun part hpart => hread part (mem_nonEmpty.1 hpart).1
    change (((nonEmpty parts).map (List.map (Token.move place))).mapM read' >>= _) = _
    rw [hmapM]
    rfl

theorem partOutline_map_move (h : Relocates place source source' ts) :
    partOutline source' (ts.map (Token.move place)) = partOutline source ts := by
  have hcuts : cuts Token.isAnd (ts.map (Token.move place)) =
      (cuts Token.isAnd ts).map (List.map (Token.move place)) := cuts_map Token.isAnd _ ts
  have hrun : ∀ run ∈ cuts Token.isAnd ts,
      runOutline source' (run.map (Token.move place)) = runOutline source run := fun run hrun =>
    runOutline_map_move (h.isInfix ((interleaved_cuts Token.isAnd ts).isInfix_of_mem hrun))
  unfold partOutline
  rw [hcuts]
  generalize cuts Token.isAnd ts = runs at hrun
  rcases runs with _ | ⟨run, _ | ⟨next, runs⟩⟩
  · exact group_map_move h hrun
  · exact runOutline_map_move h
  · exact group_map_move h hrun

theorem sideOutline_map_move (h : Relocates place source source' ts) :
    sideOutline source' (ts.map (Token.move place)) = sideOutline source ts := by
  have hcuts : innerCuts Token.isOr (ts.map (Token.move place)) =
      (innerCuts Token.isOr ts).map (List.map (Token.move place)) := innerCuts_map Token.isOr _ ts
  have hpart : ∀ part ∈ innerCuts Token.isOr ts,
      partOutline source' (part.map (Token.move place)) = partOutline source part :=
    fun part hpart => partOutline_map_move
      (h.isInfix ((interleaved_innerCuts Token.isOr ts).1.isInfix_of_mem hpart))
  unfold sideOutline
  rw [hcuts]
  generalize innerCuts Token.isOr ts = parts at hpart
  rcases parts with _ | ⟨part, _ | ⟨next, parts⟩⟩
  · exact group_map_move h hpart
  · exact partOutline_map_move h
  · exact group_map_move h hpart

/-- Tokens that are moved into another sentence have the same outline, or fail with the same error. -/
theorem outline_map_move (h : Relocates place source source' ts) :
    outline source' (ts.map (Token.move place)) = outline source ts := by
  have hif : Token.isWord ifWord ∘ Token.move place = Token.isWord ifWord := rfl
  have hthen : Token.isThen ∘ Token.move place = Token.isThen := rfl
  have hside {sides : Frame (List Token)} (hsides : sidesOf? ts = some sides) :
      ∀ side ∈ sides.members,
        sideOutline source' (side.map (Token.move place)) = sideOutline source side :=
    fun side hmem => sideOutline_map_move (h.isInfix (isInfix_of_mem_sides hsides hmem))
  rw [outline, outline, splitIff?_map_move, splitImplication?_map_move, List.any_map, List.any_map,
    hif, hthen]
  rw [sidesOf?] at hside
  cases hiff : splitIff? ts with
  | some halves =>
    rw [hiff] at hside
    have hmembers := hside rfl
    simp only [Frame.members, List.forall_mem_cons] at hmembers
    simp only [Option.map_some, moveHalves, hmembers]
  | none =>
    rw [hiff] at hside
    simp only [Option.map_none]
    split
    · next hwords =>
      rw [if_pos hwords] at hside
      cases himp : splitImplication? ts with
      | none => rfl
      | some halves =>
        rw [himp] at hside
        have hmembers := hside rfl
        simp only [Frame.members, List.forall_mem_cons] at hmembers
        simp only [Option.map_some, moveHalves, hmembers]
    · exact sideOutline_map_move h

end Relocated

/-! ### Sentences in longer texts -/

/-- A stretch of a sentence is quoted as before when the sentence becomes part of a longer text. -/
theorem quoted_map_shift (before sentence after : Text) {us : List Token}
    (hus : us <:+: tokenize sentence) :
    quoted (before ++ (sentence ++ after)) (us.map (Token.shift before.byteLength)) =
      quoted sentence us := by
  obtain ⟨front, inner, back, hsplit, hinner, hfirst, hlast⟩ :=
    (tiles_tokensFrom 0 sentence).exists_sourceText? hus
  rw [quoted, quoted, hinner]
  obtain rfl | hne := eq_or_ne us []
  · obtain rfl : [] = inner := Option.some.inj hinner
    rfl
  · have hhead := List.head?_eq_some_head hne
    have hend := List.getLast?_eq_some_getLast hne
    have hstart : (Token.shift before.byteLength (us.head hne)).start =
        Text.byteLength (before ++ front) := by
      rw [byteLength_append, hfirst _ hhead, Token.shift, Nat.add_comm]
    have hstop : (Token.shift before.byteLength (us.getLast hne)).stop =
        Text.byteLength (before ++ front) + inner.byteLength := by
      have hplace := hlast _ hend
      simp only [Token.stop, Token.shift, byteLength_append] at hplace ⊢
      omega
    have htext : before ++ (sentence ++ after) = (before ++ front) ++ (inner ++ (back ++ after)) := by
      rw [hsplit]
      simp only [List.append_assoc]
    have hsource : sourceText? (before ++ (sentence ++ after))
        (us.map (Token.shift before.byteLength)) = some inner := by
      simp only [sourceText?, List.head?_map, List.getLast?_map, hhead, hend, Option.map_some,
        hstart, hstop, htext, Text.slice?_append]
    rw [hsource]

/-- The tokens of a sentence have the same outline in a longer text. -/
theorem outline_map_shift (before sentence after : Text) :
    outline (before ++ (sentence ++ after))
        ((tokenize sentence).map (Token.shift before.byteLength)) =
      outline sentence (tokenize sentence) :=
  outline_map_move ⟨keepsGaps_add before.byteLength _, fun _ hus =>
    quoted_map_shift before sentence after hus⟩

/-- White space around a sentence changes nothing. -/
theorem formalize_eq_map_outline {sentence : Text} (hne : tokenize sentence ≠ []) :
    formalize sentence = (outline sentence (tokenize sentence)).map Formalization.ofOutline := by
  obtain ⟨before, after, hsentence, hbefore, hafter⟩ := exists_append_dropEnds isSpace sentence
  rw [← Text.trim_eq_dropEnds] at hsentence
  have htokens : tokenize sentence =
      (tokenize sentence.trim).map (Token.shift (Text.byteLength before)) := by
    conv_lhs => rw [hsentence]
    exact tokenize_append_spaces hbefore _ hafter
  have hsource := outline_map_shift before sentence.trim after
  rw [← htokens, ← hsentence] at hsource
  have htrim : sentence.trim ≠ [] := by
    intro hnil
    rw [htokens, hnil] at hne
    exact hne rfl
  simp [formalize, htrim, hsource]

/-- A space between two texts keeps their tokens apart. -/
theorem tokenize_append_space (u s : Text) :
    tokenize (u ++ ' ' :: s) =
      tokenize u ++ (tokenize s).map (Token.shift (u.byteLength + 1)) := by
  have hends : EndsWords (' ' :: s) := by
    rintro c ⟨⟩
    exact ⟨by decide +kernel, by decide⟩
  rw [tokenize, tokensFrom_append 0 u hends, tokensFrom_space _ (by decide), Nat.zero_add,
    ← Nat.zero_add (u.byteLength + _), tokensFrom_add]
  rfl

/-! ### What stands in front of a conditional -/

section Preamble

variable {us ts : List Token} (hus : ∀ t ∈ us, t.isWord ifWord = false)

include hus

/-- Tokens without *se* in front of others complete no phrase of a biconditional. -/
theorem splitIff?_append_eq_none (hts : splitIff? ts = none) : splitIff? (us ++ ts) = none := by
  induction us with
  | nil => exact hts
  | cons t us ih =>
    obtain ⟨ht, hus⟩ := List.forall_mem_cons.1 hus
    have hstarts : startsPhrase iffPhrase (t :: (us ++ ts)) = false := by
      rw [iffPhrase, startsPhrase, ← ifWord, ht, Bool.false_and]
    rw [List.cons_append, splitIff?, hstarts, ih hus]
    rfl

/-- A conditional is split at the first *se* that can be completed, so that tokens without *se* in front of
it are passed over. -/
theorem splitImplication?_append : splitImplication? (us ++ ts) = splitImplication? ts := by
  induction us with
  | nil => rfl
  | cons t us ih =>
    obtain ⟨ht, hus⟩ := List.forall_mem_cons.1 hus
    rw [List.cons_append, splitImplication?, ht, ih hus]
    rfl

/-- Tokens without *se* in front of a conditional are passed over, whatever else they are. -/
theorem outline_append {source : Text} (hwords : HasConditionalWords ts)
    (hphrase : ∀ left right, ¬ SplitsAtPhrase ts left right) :
    outline source (us ++ ts) = outline source ts := by
  have hnone := splitIff?_eq_none_iff.2 hphrase
  have hany := hasConditionalWords_iff.2 hwords
  have hall : HasConditionalWords (us ++ ts) :=
    ⟨hwords.1.imp fun _ h => ⟨List.mem_append_right us h.1, h.2⟩,
      hwords.2.imp fun _ h => ⟨List.mem_append_right us h.1, h.2⟩⟩
  rw [outline, outline, splitIff?_append_eq_none hus hnone, hnone]
  simp only [if_pos hany, if_pos (hasConditionalWords_iff.2 hall), splitImplication?_append hus]

end Preamble

/-- A text without *se* in front of a conditional has no effect.  It may hold commas, connectives and
negations: the two sentences are formalized to the same formula with the same legend, or fail with the
same error, which quotes the same text. -/
theorem formalize_append_conditional {u s : Text} (hu : ∀ t ∈ tokenize u, t.isWord ifWord = false)
    (hwords : HasConditionalWords (tokenize s))
    (hphrase : ∀ left right, ¬ SplitsAtPhrase (tokenize s) left right) :
    formalize (u ++ ' ' :: s) = formalize s := by
  have hne : tokenize s ≠ [] := by
    obtain ⟨⟨t, ht, -⟩, -⟩ := hwords
    exact List.ne_nil_of_mem ht
  have hall : tokenize (u ++ ' ' :: s) ≠ [] := by
    rw [tokenize_append_space]
    exact List.append_ne_nil_of_right_ne_nil _ (by simpa using hne)
  have hbefore : Text.byteLength (u ++ [' ']) = u.byteLength + 1 := by
    rw [byteLength_append]
    rfl
  have htext : u ++ ' ' :: s = (u ++ [' ']) ++ (s ++ []) := by simp
  -- in the longer text the sentence has the outline that it has on its own
  have halone : outline (u ++ ' ' :: s) ((tokenize s).map (Token.shift (u.byteLength + 1))) =
      outline s (tokenize s) := by
    rw [htext, ← hbefore]
    exact outline_map_shift (u ++ [' ']) s []
  have hwords' : HasConditionalWords ((tokenize s).map (Token.shift (u.byteLength + 1))) := by
    rw [← hasConditionalWords_iff, List.any_map, List.any_map]
    exact hasConditionalWords_iff.2 hwords
  have hphrase' : ∀ left right,
      ¬ SplitsAtPhrase ((tokenize s).map (Token.shift (u.byteLength + 1))) left right := by
    have hmoved := splitIff?_map_move (· + (u.byteLength + 1)) (tokenize s)
    rw [splitIff?_eq_none_iff.2 hphrase] at hmoved
    exact splitIff?_eq_none_iff.1 hmoved
  calc formalize (u ++ ' ' :: s)
      = (outline (u ++ ' ' :: s) (tokenize u ++
          (tokenize s).map (Token.shift (u.byteLength + 1)))).map Formalization.ofOutline := by
        rw [formalize_eq_map_outline hall, tokenize_append_space]
    _ = (outline (u ++ ' ' :: s)
          ((tokenize s).map (Token.shift (u.byteLength + 1)))).map Formalization.ofOutline := by
        rw [outline_append hu hwords' hphrase']
    _ = formalize s := by
        rw [halone, formalize_eq_map_outline hne]

/-- The connectives, the *então* and the negation in front of the *se* count for nothing, and the error
quotes the empty conclusion. -/
theorem formalize_append_empty_conclusion :
    (∀ t ∈ tokenize "Não, ou mas então".toList, t.isWord ifWord = false) ∧
      formalize "Não, ou mas então se neva, então  ¬ não !".toList =
        .error (.emptyClause "¬ não !".toList) := by
  have hu : ∀ t ∈ tokenize "Não, ou mas então".toList, t.isWord ifWord = false := by
    decide +kernel
  have hwords : HasConditionalWords (tokenize "se neva, então  ¬ não !".toList) :=
    hasConditionalWords_iff.1 (by decide +kernel)
  have hphrase : ∀ left right,
      ¬ SplitsAtPhrase (tokenize "se neva, então  ¬ não !".toList) left right :=
    splitIff?_eq_none_iff.1 (by decide +kernel)
  have htext : "Não, ou mas então se neva, então  ¬ não !".toList =
      "Não, ou mas então".toList ++ ' ' :: "se neva, então  ¬ não !".toList := by
    decide +kernel
  refine ⟨hu, ?_⟩
  rw [htext, formalize_append_conditional hu hwords hphrase]
  decide +kernel

end Sentential
