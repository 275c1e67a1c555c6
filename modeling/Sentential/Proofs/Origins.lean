import Mathlib.Tactic.Common
import Sentential.Proofs.Consistency
import Sentential.Proofs.Letters
import Sentential.Proofs.RoundTrip
import Sentential.Proofs.Runs

/-!
# Where the clauses of a legend come from

A sentence is rendered back with the clauses of its legend.  The clause of a variable is that of the
first run with this variable (`exists_clauseFor_eq`), and it has the tokens of this run, without its
negation words and the punctuation at its ends (`bareTokens_clause`).

So the words of connectives that are left in a clause stand where they stood in the run.  A run keeps
an *ou* only at an end of its side, and a run of a condition keeps an *então* only at the start of the
condition (`onlyAtEnds_isOr`, `onlyAtEnds_isThen`).
-/

namespace Sentential

open Text

/-! ### The ends of a side -/

/-- What does not separate literals, though it would further inside, stands at an end of its side, and
so at an end of its run. -/
theorem onlyAtEnds_of_sideRuns {side run : List Token} {before after : List (List Token)}
    (hnodup : side.Nodup) (hruns : sideRuns side = before ++ run :: after) {p : Token → Bool}
    (last : Prop) (hp : ∀ t ∈ side, p t = true → separatesIn side t = false →
      side.head? = some t ∨ side.getLast? = some t ∧ last) :
    OnlyAtEnds p (before = []) (after = [] ∧ last) run := by
  rintro us t vs rfl ht
  obtain ⟨parts₁, parts₂, hparts, rfl, rfl⟩ : ∃ parts₁ parts₂,
      cuts (separatesIn side) side = parts₁ ++ (us ++ t :: vs) :: parts₂ ∧
        nonEmpty parts₁ = before ∧ nonEmpty parts₂ = after := by
    rw [sideRuns_eq hnodup, nonEmpty] at hruns
    obtain ⟨parts₁, rest, hcuts, hbefore, hrest⟩ := List.filter_eq_append_iff.1 hruns
    obtain ⟨skipped, parts₂, rfl, hskipped, -, hafter⟩ := List.filter_eq_cons_iff.1 hrest
    refine ⟨parts₁ ++ skipped, parts₂, by rw [hcuts]; simp, ?_, hafter⟩
    rw [nonEmpty_append, nonEmpty, hbefore, nonEmpty, List.filter_eq_nil_iff.2 hskipped,
      List.append_nil]
  have hpart : us ++ t :: vs ∈ cuts (separatesIn side) side := by
    rw [hparts]
    simp
  have hsep : separatesIn side t = false := separates_eq_false_of_mem_cuts hpart (by simp)
  obtain ⟨front, back, hside, hfront, hback⟩ :=
    (hparts ▸ interleaved_cuts (separatesIn side) side).exists_around
  have hmem : t ∈ side := by
    rw [hside]
    simp
  rw [List.append_assoc, ← List.append_assoc front, List.cons_append] at hside
  obtain hhead | ⟨hlast, hallowed⟩ := hp t hmem ht hsep
  · rw [hside] at hnodup hhead
    obtain ⟨rfl, rfl⟩ := List.append_eq_nil_iff.1 (eq_nil_of_head? hnodup hhead)
    exact .inl ⟨by simp, by rw [hfront.1 rfl]; rfl⟩
  · rw [hside] at hnodup hlast
    obtain ⟨rfl, rfl⟩ := List.append_eq_nil_iff.1 (eq_nil_of_getLast? hnodup hlast)
    exact .inr ⟨by simp, by rw [hback.1 rfl]; rfl, hallowed⟩

/-- An *ou* that is left in a run stands at an end of the side. -/
theorem onlyAtEnds_isOr {side run : List Token} {before after : List (List Token)}
    (hnodup : side.Nodup) (hruns : sideRuns side = before ++ run :: after) :
    OnlyAtEnds Token.isOr (before = []) (after = []) run := by
  refine (onlyAtEnds_of_sideRuns hnodup hruns True fun t _ ht hsep => ?_).mono id And.left
  by_contra hinner
  simp only [and_true, not_or] at hinner
  rw [separatesIn, separatesRowsIn, ht, decide_eq_true hinner.1, decide_eq_true hinner.2] at hsep
  cases hsep

/-- An *então* that is left in a run of a condition stands at its start. -/
theorem onlyAtEnds_isThen {side run : List Token} {before after : List (List Token)}
    (hnodup : side.Nodup) (hruns : sideRuns side = before ++ run :: after)
    (hthen : ∀ t ∈ side.tail, t.isThen = false) :
    OnlyAtEnds Token.isThen (before = []) False run := by
  refine (onlyAtEnds_of_sideRuns hnodup hruns False fun t hmem ht _ => ?_).mono id And.right
  cases side with
  | nil => cases hmem
  | cons u side =>
    obtain rfl | hmem := List.mem_cons.1 hmem
    · exact .inl rfl
    · rw [hthen t hmem] at ht
      cases ht

/-- A condition is as short as it can be, so that an *então* stands nowhere but at its start. -/
theorem SplitsAtFirstCondition.isThen_eq_false {ts condition conclusion : List Token}
    (h : SplitsAtFirstCondition ts condition conclusion) :
    ∀ t ∈ condition.tail, t.isThen = false := by
  obtain ⟨before, ⟨opener, closer, hopener, hcloser, -, -, rfl⟩, hfirst⟩ := h
  intro t ht
  by_contra hthen
  cases condition with
  | nil => cases ht
  | cons u rest =>
    obtain ⟨us, vs, rfl⟩ := List.append_of_mem ht
    have hshorter := hfirst before (u :: us) (vs ++ closer :: conclusion)
      ⟨opener, t, hopener, by simpa using hthen, by simp, by simp, by simp⟩
    simp only [List.length_cons, List.length_append, Nat.lt_irrefl, false_or, true_and] at hshorter
    omega

/-! ### The clause of a variable -/

/-- The clauses of a sentence are those of its runs. -/
theorem clausesIn_eq (sides : Frame (List Token)) :
    clausesIn sides = (sides.members.flatMap sideRuns).map fun run => (literalOf run).clause := by
  rw [clausesIn, List.map_flatMap]
  refine List.flatMap_congr fun side _ => ?_
  rw [flatten_sideRows, List.map_map]
  rfl

/-- The literal of a run, with its variable in place of its clause. -/
def runLiteral (sides : Frame (List Token)) (run : List Token) : Bool × Variable :=
  ((literalOf run).negated, naming (clausesIn sides) (literalOf run).clause)

/-- The literals of a side are those of its runs. -/
theorem flatten_signedRows (sides : Frame (List Token)) (side : List Token) :
    (signedRows sides side).flatten = (sideRuns side).map (runLiteral sides) := by
  rw [signedRows, ← List.map_flatten, flatten_sideRows, List.map_map]
  rfl

section Clauses

variable {sentence : Text} {sides : Frame (List Token)}
  (hsides : sidesOf? (tokenize sentence) = some sides)

include hsides

theorem nodup_of_mem_sides {side : List Token} (hside : side ∈ sides.members) : side.Nodup :=
  (tiles_tokensFrom 0 sentence).nodup.sublist (isInfix_of_mem_sides hsides hside).sublist

theorem clauseTokens_sublist_tokenize {side run : List Token} (hside : side ∈ sides.members)
    (hrun : run ∈ sideRuns side) : (clauseTokens run).Sublist (tokenize sentence) :=
  (clauseTokens_sublist run).trans
    ((mem_sideRuns hrun).2.1.trans (isInfix_of_mem_sides hsides hside)).sublist

/-- The tokens of a clause are those that were kept of its run, at other places. -/
theorem map_bare_tokenize_clause {side run : List Token} (hside : side ∈ sides.members)
    (hrun : run ∈ sideRuns side) :
    (tokenize (literalOf run).clause).map Token.bare = (clauseTokens run).map Token.bare :=
  map_bare_tokenize_joinTokens (clauseTokens_sublist_tokenize hsides hside hrun)

/-- The clause of a run has the tokens that were kept of the run. -/
theorem bareTokens_clause {side run : List Token} (hside : side ∈ sides.members)
    (hrun : run ∈ sideRuns side) :
    bareTokens (Text.words (literalOf run).clause) = (clauseTokens run).map Token.bare := by
  have hvisible : ∀ t ∈ clauseTokens run, t.IsVisible := fun t ht =>
    isVisible_of_mem_tokenize ((clauseTokens_sublist_tokenize hsides hside hrun).mem ht)
  rw [← map_bare_tokenize_clause hsides hside hrun, clause_literalOf, ← map_bare_lineTokens 0,
    lineTokens, unwords_words_joinTokens hvisible, tokenize]

/-- No negation word is left in a clause. -/
theorem isNot_eq_false_of_mem_tokenize_clause {side run : List Token} (hside : side ∈ sides.members)
    (hrun : run ∈ sideRuns side) {t : Token} (ht : t ∈ tokenize (literalOf run).clause) :
    t.isNot = false := by
  have hmem : t.bare ∈ (clauseTokens run).map Token.bare := by
    rw [← map_bare_tokenize_clause hsides hside hrun]
    exact List.mem_map_of_mem ht
  obtain ⟨u, hu, hbare⟩ := List.mem_map.1 hmem
  have hnot : (!u.isNot) = true := (List.mem_filter.1 hu).2
  rw [← isNot_bare, ← hbare, isNot_bare]
  simpa using hnot

variable (hread : ∀ side ∈ sides.members, ReadableRows (sideRows side))

include hread

/-- The clause of a variable is that of the first run with this variable: it comes from this run, or
from one that stands before. -/
theorem exists_clauseFor_eq {xs ys : List (List Token)} {run : List Token}
    (hruns : sides.members.flatMap sideRuns = xs ++ run :: ys) :
    ∃ run' ∈ xs ++ [run], (runLiteral sides run').2 = (runLiteral sides run).2 ∧
      (formalizationOf sides).legend.clauseFor (runLiteral sides run).2 =
        (literalOf run').clause := by
  have hclauses : clausesIn sides = (xs ++ [run]).map (fun run => (literalOf run).clause) ++
      ys.map fun run => (literalOf run).clause := by
    rw [clausesIn_eq, hruns]
    simp
  obtain ⟨extra, hextra⟩ := firstsBy_append clauseKey
    ((xs ++ [run]).map fun run => (literalOf run).clause) (ys.map fun run => (literalOf run).clause)
  rw [← hclauses] at hextra
  -- the first clause with the key of `run` is one of those up to `run`
  obtain ⟨c, hc, hkey⟩ : ∃ c ∈ firstsBy clauseKey ((xs ++ [run]).map fun run =>
      (literalOf run).clause), clauseKey c = clauseKey (literalOf run).clause := by
    refine List.mem_map.1 (key_mem_firstsBy_iff.2 (List.mem_map_of_mem ?_))
    exact List.mem_map_of_mem (List.mem_append_right xs (List.mem_singleton_self run))
  obtain ⟨run', hrun', rfl⟩ := List.mem_map.1 (mem_of_mem_firstsBy hc)
  have hmem : (literalOf run').clause ∈ clausesOf (clausesIn sides) := by
    rw [clausesOf, hextra]
    exact List.mem_append_left extra hc
  have hvar : (runLiteral sides run').2 = (runLiteral sides run).2 :=
    (naming_eq_iff (mem_of_mem_firstsBy hmem)).2 hkey
  have hentry : Legend.Entry.mk (runLiteral sides run').2 (literalOf run').clause ∈
      (formalizationOf sides).legend.entries := by
    rw [formalizationOf, entriesFrom_clausesOf]
    refine List.mem_map.2 ⟨_, hmem, ?_⟩
    rw [(clause_ne_nil_and_trim hsides hread (mem_of_mem_firstsBy hmem)).2]
    rfl
  have hclause := clauseFor_legend hsides hread hentry
  rw [hvar] at hclause
  exact ⟨run', hrun', hvar, hclause⟩

/-- The clause of a variable has the tokens that were kept of a run with this variable. -/
theorem exists_bareTokens_eq {xs ys : List (List Token)} {run : List Token}
    (hruns : sides.members.flatMap sideRuns = xs ++ run :: ys) :
    ∃ run' ∈ xs ++ [run], (runLiteral sides run').2 = (runLiteral sides run).2 ∧
      bareTokens (Text.words ((formalizationOf sides).legend.clauseFor (runLiteral sides run).2)) =
        (clauseTokens run').map Token.bare := by
  obtain ⟨run', hrun', hvar, hclause⟩ := exists_clauseFor_eq hsides hread hruns
  have hmem : run' ∈ sides.members.flatMap sideRuns := by
    rw [hruns, List.append_cons]
    exact List.mem_append_left ys hrun'
  obtain ⟨side, hside, hrun⟩ := List.mem_flatMap.1 hmem
  exact ⟨run', hrun', hvar, by rw [hclause, bareTokens_clause hsides hside hrun]⟩

/-- The clause of a variable comes from a run of a side, and keeps an *ou* only if it is the first or
the last one of the side. -/
theorem exists_origin {side run : List Token} (hside : side ∈ sides.members)
    (hrun : run ∈ sideRuns side) :
    ∃ side' ∈ sides.members, ∃ before run' after, sideRuns side' = before ++ run' :: after ∧
      (runLiteral sides run').2 = (runLiteral sides run).2 ∧
        bareTokens (Text.words ((formalizationOf sides).legend.clauseFor (runLiteral sides run).2)) =
          (clauseTokens run').map Token.bare ∧
        OnlyAtEnds Token.isOr (before = []) (after = []) (clauseTokens run') := by
  have hmem : run ∈ sides.members.flatMap sideRuns := List.mem_flatMap.2 ⟨side, hside, hrun⟩
  obtain ⟨xs, ys, hruns⟩ := List.append_of_mem hmem
  obtain ⟨run', hrun', hvar, htokens⟩ := exists_bareTokens_eq hsides hread hruns
  have hmem' : run' ∈ sides.members.flatMap sideRuns := by
    rw [hruns, List.append_cons]
    exact List.mem_append_left ys hrun'
  obtain ⟨side', hside', hrun''⟩ := List.mem_flatMap.1 hmem'
  obtain ⟨before, after, hsplit⟩ := List.append_of_mem hrun''
  exact ⟨side', hside', before, run', after, hsplit, hvar, htokens,
    (onlyAtEnds_isOr (nodup_of_mem_sides hsides hside') hsplit).sublist (clauseTokens_sublist run')⟩

/-- The words of a clause can stand in a row. -/
theorem fitsRow_clauseFor {side run : List Token} (hside : side ∈ sides.members)
    (hrun : run ∈ sideRuns side) :
    FitsRow (Text.words ((formalizationOf sides).legend.clauseFor (runLiteral sides run).2)) := by
  obtain ⟨side', hside', before, run', after, hruns, -, htokens, -⟩ :=
    exists_origin hsides hread hside hrun
  have hrun' : run' ∈ sideRuns side' := by
    rw [hruns]
    simp
  refine ⟨isWords_words _, fun hnil => ?_, ?_⟩
  · rw [hnil, bareTokens_nil] at htokens
    have hclause := clause_ne_nil_of_mem_sideRuns (hread side' hside') hrun'
    rw [clause_literalOf, List.map_eq_nil_iff.1 htokens.symm] at hclause
    exact hclause rfl
  · rw [htokens, List.forall_mem_map]
    exact fun t ht => (mem_sideRuns hrun').2.2 t ((clauseTokens_sublist run').mem ht)

end Clauses

/-! ### The clauses of a condition -/

/-- In a clause, which has no negation words, what stands at the start only is the first token. -/
theorem head?_clauseTokens {p : Token → Bool} {first : Prop} {run : List Token} {t : Token}
    (h : OnlyAtEnds p first False (clauseTokens run)) (hmem : t ∈ clauseTokens run)
    (ht : p t = true) : (clauseTokens run).head? = some t ∧ first := by
  obtain ⟨us, vs, hsplit⟩ := List.append_of_mem hmem
  obtain ⟨hnot, hfirst⟩ | ⟨-, hfalse⟩ := h us t vs hsplit ht
  · cases us with
    | nil => exact ⟨by rw [hsplit]; rfl, hfirst⟩
    | cons u us =>
      have hu : u ∈ clauseTokens run := by
        rw [hsplit]
        exact List.mem_cons_self ..
      have hkept : u.isNot = false := by simpa using List.of_mem_filter hu
      rw [hnot u (List.mem_cons_self ..)] at hkept
      cases hkept
  · exact hfalse.elim

section Condition

variable {sentence : Text} {condition conclusion : List Token}
  (hsides : sidesOf? (tokenize sentence) = some (.imp condition conclusion))
  (hread : ∀ side ∈ (Frame.imp condition conclusion).members, ReadableRows (sideRows side))

include hsides hread

/-- The clause of a run of a condition comes from a run of the condition, which is no later. -/
theorem exists_origin_of_condition {before after : List (List Token)} {run : List Token}
    (hruns : sideRuns condition = before ++ run :: after) :
    ∃ before' run' after', sideRuns condition = before' ++ run' :: after' ∧
      (after ≠ [] → after' ≠ []) ∧
        bareTokens (Text.words ((formalizationOf (.imp condition conclusion)).legend.clauseFor
          (runLiteral (.imp condition conclusion) run).2)) = (clauseTokens run').map Token.bare := by
  have hall : (Frame.imp condition conclusion).members.flatMap sideRuns =
      before ++ run :: (after ++ sideRuns conclusion) := by
    simp [Frame.members, hruns]
  obtain ⟨run', hrun', -, htokens⟩ := exists_bareTokens_eq hsides hread hall
  obtain hrun' | hrun' := List.mem_append.1 hrun'
  · obtain ⟨before₁, before₂, rfl⟩ := List.append_of_mem hrun'
    exact ⟨before₁, run', before₂ ++ run :: after, by simp [hruns], by simp, htokens⟩
  · obtain rfl := List.mem_singleton.1 hrun'
    exact ⟨before, run', after, hruns, id, htokens⟩

/-- If an *então* stands in a clause of a condition, the clause of the first run opens with one. -/
theorem exists_head?_of_isThen (hthen : ∀ t ∈ condition.tail, t.isThen = false)
    {before after : List (List Token)} {run : List Token}
    (hruns : sideRuns condition = before ++ run :: after)
    (hmem : ∃ t ∈ bareTokens (Text.words ((formalizationOf (.imp condition conclusion)).legend.clauseFor
      (runLiteral (.imp condition conclusion) run).2)), t.isThen = true) :
    ∃ first rest u, sideRuns condition = first :: rest ∧ (clauseTokens first).head? = some u ∧
      u.isThen = true := by
  obtain ⟨before₁, run₁, after₁, hruns₁, -, htokens⟩ :=
    exists_origin_of_condition hsides hread hruns
  have hends : OnlyAtEnds Token.isThen (before₁ = []) False (clauseTokens run₁) :=
    (onlyAtEnds_isThen (nodup_of_mem_sides hsides (List.mem_cons_self ..)) hruns₁ hthen).sublist
      (clauseTokens_sublist run₁)
  rw [htokens] at hmem
  obtain ⟨_, ht, hthen'⟩ := hmem
  obtain ⟨u, hu, rfl⟩ := List.mem_map.1 ht
  obtain ⟨hhead, rfl⟩ := head?_clauseTokens hends hu hthen'
  exact ⟨run₁, after₁, u, hruns₁, hhead, hthen'⟩

/-- If an *ou* stands in a clause of a condition, and not in the last one, the clause of the first run
opens with one. -/
theorem exists_head?_of_isOr {before after : List (List Token)} {run : List Token}
    (hruns : sideRuns condition = before ++ run :: after) (hne : after ≠ [])
    (hmem : ∃ t ∈ bareTokens (Text.words ((formalizationOf (.imp condition conclusion)).legend.clauseFor
      (runLiteral (.imp condition conclusion) run).2)), t.isOr = true) :
    ∃ first rest u, sideRuns condition = first :: rest ∧ (clauseTokens first).head? = some u ∧
      u.isOr = true := by
  obtain ⟨before₁, run₁, after₁, hruns₁, hafter₁, htokens⟩ :=
    exists_origin_of_condition hsides hread hruns
  have hends : OnlyAtEnds Token.isOr (before₁ = []) False (clauseTokens run₁) :=
    ((onlyAtEnds_isOr (nodup_of_mem_sides hsides (List.mem_cons_self ..)) hruns₁).sublist
      (clauseTokens_sublist run₁)).mono id fun h => hafter₁ hne h
  rw [htokens] at hmem
  obtain ⟨_, ht, hor⟩ := hmem
  obtain ⟨u, hu, rfl⟩ := List.mem_map.1 ht
  obtain ⟨hhead, rfl⟩ := head?_clauseTokens hends hu hor
  exact ⟨run₁, after₁, u, hruns₁, hhead, hor⟩

/-- If an *então* stands in a clause of a condition, it stands at its start, and no *ou* stands in the
clauses before. -/
theorem onlyAtEnds_clause_of_isThen (hthen : ∀ t ∈ condition.tail, t.isThen = false)
    {before after : List (List Token)} {run : List Token}
    (hruns : sideRuns condition = before ++ run :: after)
    (hmem : ∃ t ∈ bareTokens (Text.words ((formalizationOf (.imp condition conclusion)).legend.clauseFor
      (runLiteral (.imp condition conclusion) run).2)), t.isThen = true) :
    OnlyAtEnds Token.isThen True False (bareTokens (Text.words
      ((formalizationOf (.imp condition conclusion)).legend.clauseFor
        (runLiteral (.imp condition conclusion) run).2))) ∧
      ∀ run' ∈ before, ∀ t ∈ bareTokens (Text.words
        ((formalizationOf (.imp condition conclusion)).legend.clauseFor
          (runLiteral (.imp condition conclusion) run').2)), t.isOr = false := by
  obtain ⟨first, rest, u, hfirst, hhead, hthen'⟩ :=
    exists_head?_of_isThen hsides hread hthen hruns hmem
  constructor
  · obtain ⟨before₁, run₁, after₁, hruns₁, -, htokens⟩ :=
      exists_origin_of_condition hsides hread hruns
    have hends : OnlyAtEnds Token.isThen (before₁ = []) False (clauseTokens run₁) :=
      (onlyAtEnds_isThen (nodup_of_mem_sides hsides (List.mem_cons_self ..)) hruns₁ hthen).sublist
        (clauseTokens_sublist run₁)
    rw [htokens, onlyAtEnds_map_bare fun _ => rfl]
    exact hends.mono (fun _ => trivial) id
  · intro run' hrun' t ht
    by_contra hnot
    -- the *ou* would stand at the start of the condition, where the *então* stands
    obtain ⟨front, back, rfl⟩ := List.append_of_mem hrun'
    obtain ⟨first', rest', u', hfirst', hhead', hor⟩ := exists_head?_of_isOr hsides hread
      (hruns.trans (by simp) : sideRuns condition = front ++ run' :: (back ++ run :: after)) (by simp)
      ⟨t, ht, by simpa using hnot⟩
    obtain ⟨rfl, -⟩ := List.cons_eq_cons.1 (hfirst.symm.trans hfirst')
    obtain rfl : u = u' := Option.some.inj (hhead.symm.trans hhead')
    rw [(isAnd_isOr_eq_false_of_isThen hthen').2] at hor
    exact Bool.false_ne_true hor

end Condition

/-! ### The words of a literal -/

/-- Negating a clause does not move its words from the ends of the literal, the negation word aside. -/
theorem onlyAtEnds_literalWords {p : Token → Bool} {first last : Prop} {isVerb : VerbDetector}
    {clause : Variable → Text} {l : Bool × Variable} (hp : p ⟨.word, negationWord, 0⟩ = false)
    (h : OnlyAtEnds p first last (bareTokens (Text.words (clause l.2)))) :
    OnlyAtEnds p first last (bareTokens (literalWords isVerb clause l)) := by
  obtain ⟨negated, v⟩ := l
  cases negated with
  | false => exact h
  | true =>
    obtain ⟨vs, us, hws, hneg⟩ := exists_negateWords_eq isVerb (Text.words (clause v))
    rw [hws, bareTokens_append] at h
    rw [literalWords, if_pos rfl, hneg, bareTokens_append, bareTokens_negationWord_cons]
    exact h.insert (isNot_negationWord 0) hp

/-- Negating a clause does not change how many *u* it has. -/
theorem tokensUCount_literalWords (isVerb : VerbDetector) (clause : Variable → Text)
    (l : Bool × Variable) :
    tokensUCount (bareTokens (literalWords isVerb clause l)) =
      tokensUCount (bareTokens (Text.words (clause l.2))) := by
  obtain ⟨negated, v⟩ := l
  cases negated with
  | false => rfl
  | true =>
    obtain ⟨vs, us, hws, hneg⟩ := exists_negateWords_eq isVerb (Text.words (clause v))
    have hnone : Text.uCount negationWord = 0 := by decide
    have hwords : literalWords isVerb clause (true, v) =
        negateWords isVerb (Text.words (clause v)) := rfl
    rw [hwords, hneg, hws, bareTokens_append, bareTokens_negationWord_cons, bareTokens_append,
      tokensUCount_append, tokensUCount_append, tokensUCount_cons, hnone, Nat.zero_add]

end Sentential
