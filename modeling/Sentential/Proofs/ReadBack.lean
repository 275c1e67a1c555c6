import Mathlib.Data.List.Forall2
import Mathlib.Tactic.Common
import Sentential.Proofs.Displaced
import Sentential.Proofs.Origins

/-!
# Sentences that are rendered back

A sentence is rendered back with the words of its literals (`backRows`).  If the new sentence is cut into
sides with the rows of the old one, it has been cut where it was written: its connectives are those that
were put there, and no other (`keepsConnectives_of_namedFrame_eq`).
-/

namespace Sentential

open Text

/-- The words with which a literal of a sentence is rendered. -/
def backWords (isVerb : VerbDetector) (sides : Frame (List Token)) : Bool × Variable → List Text :=
  literalWords isVerb (formalizationOf sides).legend.clauseFor

/-- The words of the literals of a side, row by row. -/
def backRows (isVerb : VerbDetector) (sides : Frame (List Token)) (side : List Token) :
    List (List (List Text)) :=
  (signedRows sides side).map fun row => row.map (backWords isVerb sides)

theorem mapLiterals_namedFrame (isVerb : VerbDetector) (sides : Frame (List Token)) :
    (namedFrame sides).mapLiterals (backWords isVerb sides) = sides.map (backRows isVerb sides) := by
  rw [namedFrame, Frame.mapLiterals, Frame.map_map]
  rfl

theorem flatten_backRows (isVerb : VerbDetector) (sides : Frame (List Token)) (side : List Token) :
    (backRows isVerb sides side).flatten =
      (sideRuns side).map fun run => backWords isVerb sides (runLiteral sides run) := by
  rw [backRows, ← List.map_flatten, flatten_signedRows, List.map_map]
  rfl

/-- The words of a side can be written. -/
theorem fitsSide_backRows {sentence : Text} {sides : Frame (List Token)}
    (hsides : sidesOf? (tokenize sentence) = some sides)
    (hread : ∀ side ∈ sides.members, ReadableRows (sideRows side)) (isVerb : VerbDetector)
    {side : List Token} (hside : side ∈ sides.members) : FitsSide (backRows isVerb sides side) := by
  obtain ⟨hne, hrows⟩ := hread side hside
  refine ⟨by simpa [backRows, signedRows] using hne, fun row hrow => ⟨?_, fun ws hws => ?_⟩⟩
  · obtain ⟨row', hrow', rfl⟩ := List.mem_map.1 hrow
    obtain ⟨row'', hrow'', rfl⟩ := List.mem_map.1 hrow'
    simpa using (hrows row'' hrow'').1
  · have hmem : ws ∈ (backRows isVerb sides side).flatten := List.mem_flatten.2 ⟨row, hrow, hws⟩
    rw [flatten_backRows] at hmem
    obtain ⟨run, hrun, rfl⟩ := List.mem_map.1 hmem
    exact fitsRow_literalWords (fitsRow_clauseFor hsides hread hside hrun)

/-! ### Inner *ou* -/

/-- The side `side'` was written with the words of `side`, and has the same rows. -/
def ReadsBack (isVerb : VerbDetector) (sides sides' : Frame (List Token)) (side side' : List Token) :
    Prop :=
  signedRows sides' side' = signedRows sides side ∧ WrittenAs (backRows isVerb sides side) side'

/-- Sides with the same rows have as many rows, literals and runs. -/
theorem length_of_signedRows_eq {sides sides' : Frame (List Token)} {side side' : List Token}
    (h : signedRows sides' side' = signedRows sides side) (isVerb : VerbDetector) :
    (sideRows side').length = (backRows isVerb sides side).length ∧
      (sideRows side').flatten.length = (backRows isVerb sides side).flatten.length ∧
        (sideRuns side').length = (backRows isVerb sides side).flatten.length := by
  have hrows := congrArg List.length h
  have hliterals := congrArg (fun rows => rows.flatten.length) h
  simp only [flatten_signedRows, List.length_map] at hliterals
  rw [signedRows, signedRows, List.length_map, List.length_map] at hrows
  refine ⟨?_, ?_, ?_⟩
  · rw [backRows, List.length_map, signedRows, List.length_map, hrows]
  · rw [flatten_sideRows, flatten_backRows, List.length_map, List.length_map, hliterals]
  · rw [flatten_backRows, List.length_map, hliterals]

theorem ReadsBack.map_runLiteral {isVerb : VerbDetector} {sides sides' : Frame (List Token)}
    {side side' : List Token} (h : ReadsBack isVerb sides sides' side side') :
    (sideRuns side').map (runLiteral sides') = (sideRuns side).map (runLiteral sides) := by
  rw [← flatten_signedRows, ← flatten_signedRows, h.1]

/-- A literal that is read back comes from one that was written. -/
theorem ReadsBack.exists_run {isVerb : VerbDetector} {sides sides' : Frame (List Token)}
    {side side' run : List Token} (h : ReadsBack isVerb sides sides' side side')
    (hrun : run ∈ sideRuns side') :
    ∃ run₀ ∈ sideRuns side, runLiteral sides run₀ = runLiteral sides' run := by
  have hmem : runLiteral sides' run ∈ (sideRuns side).map (runLiteral sides) := by
    rw [← h.map_runLiteral]
    exact List.mem_map_of_mem hrun
  exact List.mem_map.1 hmem

/-- The clauses of one variable have as many *u*, since they have the same key. -/
theorem uCount_clause_of_runLiteral_eq {sentence : Text} {sides : Frame (List Token)}
    (hsides : sidesOf? (tokenize sentence) = some sides)
    (hread : ∀ side ∈ sides.members, ReadableRows (sideRows side)) {side side' run run' : List Token}
    (hside : side ∈ sides.members) (hrun : run ∈ sideRuns side) (hside' : side' ∈ sides.members)
    (hrun' : run' ∈ sideRuns side') (hvar : (runLiteral sides run).2 = (runLiteral sides run').2) :
    (literalOf run).clause.uCount = (literalOf run').clause.uCount := by
  have hmem {side run : List Token} (hside : side ∈ sides.members) (hrun : run ∈ sideRuns side) :
      (literalOf run).clause ∈ clausesIn sides := by
    rw [clausesIn_eq]
    exact List.mem_map_of_mem (List.mem_flatMap.2 ⟨side, hside, hrun⟩)
  have htrim {c : Text} (hc : c ∈ clausesIn sides) : c.trim = c :=
    (clause_ne_nil_and_trim hsides hread hc).2
  have hkey : clauseKey (literalOf run).clause = clauseKey (literalOf run').clause :=
    (naming_eq_iff (hmem hside hrun)).1 hvar
  rw [← count_clauseKey (htrim (hmem hside hrun)), hkey, count_clauseKey (htrim (hmem hside' hrun'))]

section Sentences

variable {sentence sentence' : Text} {sides sides' : Frame (List Token)} {isVerb : VerbDetector}
  (hsides : sidesOf? (tokenize sentence) = some sides)
  (hread : ∀ side ∈ sides.members, ReadableRows (sideRows side))
  (hsides' : sidesOf? (tokenize sentence') = some sides')
  (hread' : ∀ side ∈ sides'.members, ReadableRows (sideRows side))

include hsides hread hsides' hread'

/-- A side that is read back is cut again within the tokens of its literals only. -/
theorem ReadsBack.exists_recut {side side' : List Token} (hside : side ∈ sides.members)
    (hside' : side' ∈ sides'.members) (h : ReadsBack isVerb sides sides' side side') :
    ∃ pieces seps tail, Recut (backRows isVerb sides side)
      (fun run => backWords isVerb sides (runLiteral sides' run)) side' pieces seps tail := by
  refine h.2.exists_recut (fitsSide_backRows hsides hread isVerb hside)
    (nodup_of_mem_sides hsides' hside')
    (fun run hrun => clause_ne_nil_of_mem_sideRuns (hread' side' hside') hrun) ?_ fun run hrun => ?_
  · have hwords := congrArg (List.map (backWords isVerb sides)) h.map_runLiteral
    rw [List.map_map, List.map_map] at hwords
    rw [flatten_backRows]
    exact hwords.symm
  · obtain ⟨run₀, hrun₀, heq⟩ := h.exists_run hrun
    obtain ⟨_, _, _, _, _, -, -, htokens, hends⟩ := exists_origin hsides hread hside hrun₀
    rw [← heq]
    refine onlyAtEnds_literalWords rfl ?_
    rw [htokens, onlyAtEnds_map_bare fun _ => rfl]
    exact hends.mono (fun _ => trivial) fun _ => trivial

/-- No literal that is read back has lost an *ou*: the literal that comes from the same run as its clause
has not, and both have the same key. -/
theorem uCount_eq_of_readsBack
    (hpairs : List.Forall₂ (ReadsBack isVerb sides sides') sides.members sides'.members)
    {side' run : List Token} (hside' : side' ∈ sides'.members) (hrun : run ∈ sideRuns side') :
    (literalOf run).clause.uCount =
      tokensUCount (bareTokens (backWords isVerb sides (runLiteral sides' run))) := by
  obtain ⟨side, hside, hback⟩ := exists_mem_of_forall₂ hpairs hside'
  obtain ⟨run₀, hrun₀, heq₀⟩ := hback.exists_run hrun
  -- the run from which the clause comes, and the literal that stands at its place
  obtain ⟨side₁, hside₁, before, run₁, after, hruns₁, hvar₁, htokens, hends⟩ :=
    exists_origin hsides hread hside hrun₀
  obtain ⟨side₂, hside₂, (hback₂ : ReadsBack isVerb sides sides' side₁ side₂)⟩ :=
    exists_mem_of_forall₂ hpairs.flip hside₁
  have hliterals := hback₂.map_runLiteral
  rw [hruns₁, List.map_append, List.map_cons] at hliterals
  obtain ⟨before₂, rest₂, hruns₂, hbefore, hrest⟩ := List.map_eq_append_iff.1 hliterals
  obtain ⟨run₂, after₂, rfl, hrun₂, hafter⟩ := List.map_eq_cons_iff.1 hrest
  have hvar : (runLiteral sides' run₂).2 = (runLiteral sides' run).2 := by
    rw [hrun₂, hvar₁, heq₀]
  obtain ⟨pieces, seps, tail, hrecut⟩ :=
    hback₂.exists_recut hsides hread hsides' hread' hside₁ hside₂
  have hkept : (literalOf run₂).clause.uCount =
      tokensUCount (bareTokens (backWords isVerb sides (runLiteral sides' run₂))) := by
    refine hrecut.uCount_eq (nodup_of_mem_sides hsides' hside₂) (hread' side₂ hside₂) hruns₂ ?_
    refine onlyAtEnds_literalWords rfl ?_
    rw [hvar, ← heq₀, htokens, onlyAtEnds_map_bare fun _ => rfl]
    refine hends.mono (fun hnil => ?_) fun hnil => ?_
    · rwa [hnil, List.map_nil, List.map_eq_nil_iff] at hbefore
    · rwa [hnil, List.map_nil, List.map_eq_nil_iff] at hafter
  have hmem₂ : run₂ ∈ sideRuns side₂ := hruns₂ ▸ by simp
  rw [uCount_clause_of_runLiteral_eq hsides' hread' hside' hrun hside₂ hmem₂ hvar.symm, hkept, backWords,
    tokensUCount_literalWords, tokensUCount_literalWords, hvar]

/-- A side that is read back is cut between its rows and nowhere else. -/
theorem forall₂_innerOrs
    (hpairs : List.Forall₂ (ReadsBack isVerb sides sides') sides.members sides'.members) :
    List.Forall₂ (fun side side' => innerOrs side' + 1 = (backRows isVerb sides side).length)
      sides.members sides'.members := by
  refine List.forall₂_iff_zip.2 ⟨hpairs.length_eq, fun {side side'} hzip => ?_⟩
  obtain ⟨hside, hside'⟩ := List.of_mem_zip hzip
  obtain ⟨pieces, seps, tail, hrecut⟩ := ReadsBack.exists_recut hsides hread hsides' hread' hside
    hside' ((List.forall₂_iff_zip.1 hpairs).2 hzip)
  exact hrecut.innerOrs_eq (nodup_of_mem_sides hsides' hside') fun run hrun =>
    uCount_eq_of_readsBack hsides hread hsides' hread' hpairs hside' hrun

end Sentences

/-! ### Displaced *então* -/

/-- Where an *então* stands in a literal of a condition, it stands at its start, and no *ou* stands in
the literals before. -/
theorem onlyAtEnds_literal_of_isThen {sentence : Text} {condition conclusion : List Token}
    (hsides : sidesOf? (tokenize sentence) = some (.imp condition conclusion))
    (hread : ∀ side ∈ (Frame.imp condition conclusion).members, ReadableRows (sideRows side))
    (isVerb : VerbDetector) (hthen : ∀ t ∈ condition.tail, t.isThen = false)
    {before after : List (List Text)} {ws : List Text}
    (hrows : (backRows isVerb (.imp condition conclusion) condition).flatten =
      before ++ ws :: after) (hmem : ∃ t ∈ bareTokens ws, t.isThen = true) :
    OnlyAtEnds Token.isThen True False (bareTokens ws) ∧
      ∀ ws' ∈ before, ∀ t ∈ bareTokens ws', t.isOr = false := by
  have hnot : Token.isThen ⟨.word, negationWord, 0⟩ = false :=
    (by decide : decide (TokenKind.word = .word ∧ Text.lower negationWord ∈ thenWords) = false)
  have hnot' : Token.isOr ⟨.word, negationWord, 0⟩ = false :=
    (by decide : decide (TokenKind.word = .word ∧ Text.lower negationWord = orWord) = false)
  rw [flatten_backRows] at hrows
  obtain ⟨runs, rest, hruns, rfl, hrest⟩ := List.map_eq_append_iff.1 hrows
  obtain ⟨run, runs', rfl, rfl, -⟩ := List.map_eq_cons_iff.1 hrest
  have hclause : ∃ t ∈ bareTokens (Text.words ((formalizationOf (.imp condition conclusion)).legend.clauseFor
      (runLiteral (.imp condition conclusion) run).2)), t.isThen = true := by
    by_contra hnone
    obtain ⟨t, ht, hthen'⟩ := hmem
    have hfalse : ∀ t ∈ bareTokens (backWords isVerb (.imp condition conclusion)
        (runLiteral (.imp condition conclusion) run)), t.isThen = false :=
      forall_mem_bareTokens_literalWords hnot fun t ht => by
        by_contra h
        exact hnone ⟨t, ht, by simpa using h⟩
    rw [hfalse t ht] at hthen'
    cases hthen'
  obtain ⟨hends, hor⟩ := onlyAtEnds_clause_of_isThen hsides hread hthen hruns hclause
  refine ⟨onlyAtEnds_literalWords hnot hends, ?_⟩
  rw [List.forall_mem_map]
  exact fun run' hrun' => forall_mem_bareTokens_literalWords hnot' (hor run' hrun')

/-! ### Connectives -/

theorem writtenAs_lineTokens (start : Nat) (rows : List (List (List Text))) :
    WrittenAs rows (lineTokens start (sideWords rows)) :=
  ⟨start, [], (List.append_nil _).symm, List.forall_mem_nil _⟩

theorem writtenAs_withComma (start : Nat) (rows : List (List (List Text))) :
    WrittenAs rows (lineTokens start (withComma (sideWords rows))) :=
  ⟨start, _, lineTokens_withComma start _, List.forall_mem_singleton.2 rfl⟩

/-- The condition that is read back is the one that was written. -/
theorem condition_eq_of_signedRows_eq {sentence : Text} {condition conclusion : List Token}
    (hsides : sidesOf? (tokenize sentence) = some (.imp condition conclusion))
    (hread : ∀ side ∈ (Frame.imp condition conclusion).members, ReadableRows (sideRows side))
    {isVerb : VerbDetector} {ts condition' conclusion' back : List Token} {opener closer : Token} {n : Nat}
    (hts : ts = opener :: (lineTokens n (withComma (sideWords
      (backRows isVerb (.imp condition conclusion) condition))) ++ closer :: back))
    (hopener : opener.isWord ifWord = true) (hcloser : closer.isThen = true) (hback : back ≠ [])
    (hsplit : SplitsAtFirstCondition ts condition' conclusion') (hnodup : condition'.Nodup)
    (hread' : ReadableRows (sideRows condition'))
    (hlen : (sideRuns condition').length =
      (backRows isVerb (.imp condition conclusion) condition).flatten.length) :
    condition' = lineTokens n (withComma (sideWords
      (backRows isVerb (.imp condition conclusion) condition))) ∧ conclusion' = back := by
  have hfits : FitsSide (backRows isVerb (.imp condition conclusion) condition) :=
    fitsSide_backRows hsides hread isVerb (List.mem_cons_self ..)
  have hcomma := lineTokens_withComma n
    (sideWords (backRows isVerb (.imp condition conclusion) condition))
  have hthen : ∀ t ∈ condition.tail, t.isThen = false := by
    cases sidesOf?_eq_some_iff.1 hsides with
    | imp _ _ hsplit => exact hsplit.isThen_eq_false
  obtain ⟨before, ⟨opener', closer', hopener', hcloser', hne, hne', hts'⟩, hfirst⟩ := hsplit
  have hwritten : SplitsAtCondition ts [] (lineTokens n (withComma (sideWords
      (backRows isVerb (.imp condition conclusion) condition)))) back :=
    ⟨opener, closer, hopener, hcloser, by rw [hcomma]; simp, hback, hts⟩
  obtain hlt | ⟨hzero, hle⟩ := hfirst _ _ _ hwritten
  · exact absurd hlt (Nat.not_lt_zero _)
  obtain rfl := List.eq_nil_of_length_eq_zero hzero
  obtain ⟨-, hrest⟩ := List.cons_eq_cons.1 (hts.symm.trans hts')
  obtain hlt | heq := Nat.lt_or_eq_of_le hle
  · -- a shorter condition would end in front of an *então* of a literal
    obtain ⟨rest, hshort⟩ := exists_append_of_length_lt hrest hlt
    rw [hcomma] at hshort
    exact (false_of_isThen hfits hshort (List.forall_mem_singleton.2 rfl) hcloser' hnodup hne hread'
      hlen fun _ _ _ hflat hmem =>
        onlyAtEnds_literal_of_isThen hsides hread isVerb hthen hflat hmem).elim
  · obtain ⟨hcondition, hconclusion⟩ := List.append_inj hrest heq.symm
    exact ⟨hcondition.symm, (List.cons_eq_cons.1 hconclusion).2.symm⟩

/-- A lone side that is read back with its rows keeps its connectives. -/
theorem keepsConnectives_single {sentence : Text} {side side' : List Token}
    (hsides : sidesOf? (tokenize sentence) = some (.single side))
    (hread : ∀ member ∈ (Frame.single side).members, ReadableRows (sideRows member))
    {isVerb : VerbDetector}
    (hsides' : sidesOf? (tokenize (unwords
      (Frame.single (backRows isVerb (.single side) side)).words)) = some (.single side'))
    (hread' : ∀ member ∈ (Frame.single side').members, ReadableRows (sideRows member))
    (hrows : signedRows (.single side') side' = signedRows (.single side) side) :
    (Frame.single (backRows isVerb (.single side) side)).KeepsConnectives := by
  cases sidesOf?_eq_some_iff.1 hsides' with
  | single hphrase hwords =>
    have hback : ReadsBack isVerb (.single side) (.single _) side _ :=
      ⟨hrows, writtenAs_lineTokens 0 _⟩
    cases forall₂_innerOrs hsides hread hsides' hread' (.cons hback .nil) with
    | cons hors _ => exact .single hphrase hwords hors

/-- An implication that is read back with its rows keeps its connectives. -/
theorem keepsConnectives_imp {sentence : Text} {condition conclusion condition' conclusion' : List Token}
    (hsides : sidesOf? (tokenize sentence) = some (.imp condition conclusion))
    (hread : ∀ side ∈ (Frame.imp condition conclusion).members, ReadableRows (sideRows side))
    {isVerb : VerbDetector}
    (hsides' : sidesOf? (tokenize (unwords (Frame.imp
      (backRows isVerb (.imp condition conclusion) condition)
      (backRows isVerb (.imp condition conclusion) conclusion)).words)) =
        some (.imp condition' conclusion'))
    (hread' : ∀ side ∈ (Frame.imp condition' conclusion').members, ReadableRows (sideRows side))
    (hrows : signedRows (.imp condition' conclusion') condition' =
      signedRows (.imp condition conclusion) condition)
    (hrows' : signedRows (.imp condition' conclusion') conclusion' =
      signedRows (.imp condition conclusion) conclusion) :
    (Frame.imp (backRows isVerb (.imp condition conclusion) condition)
      (backRows isVerb (.imp condition conclusion) conclusion)).KeepsConnectives := by
  have hfits : FitsSide (backRows isVerb (.imp condition conclusion) condition) :=
    fitsSide_backRows hsides hread isVerb (List.mem_cons_self ..)
  have hfits' : FitsSide (backRows isVerb (.imp condition conclusion) conclusion) :=
    fitsSide_backRows hsides hread isVerb (List.mem_cons_of_mem _ (List.mem_singleton_self _))
  obtain ⟨opener, closer, n, m, hopener, hcloser, htokens⟩ :=
    exists_tokens_imp (backRows isVerb (.imp condition conclusion) condition) hfits'
  cases sidesOf?_eq_some_iff.1 hsides' with
  | imp hphrase hwords hsplit =>
    obtain ⟨-, -, hlen⟩ := length_of_signedRows_eq hrows isVerb
    obtain ⟨rfl, rfl⟩ := condition_eq_of_signedRows_eq hsides hread htokens hopener hcloser
      (hfits'.lineTokens_ne_nil m) hsplit (nodup_of_mem_sides hsides' (List.mem_cons_self ..))
      (hread' _ (List.mem_cons_self ..)) hlen
    have hback : ReadsBack isVerb (.imp condition conclusion) (.imp _ _) condition _ :=
      ⟨hrows, writtenAs_withComma n _⟩
    have hback' : ReadsBack isVerb (.imp condition conclusion) (.imp _ _) conclusion _ :=
      ⟨hrows', writtenAs_lineTokens m _⟩
    have hthen : ∀ t ∈ (lineTokens 0 (sideWords
        (backRows isVerb (.imp condition conclusion) condition))).tail, t.isThen = false := by
      -- the *então* of the written condition are those of the condition that was read
      have htail := hsplit.isThen_eq_false
      rw [lineTokens_withComma n _, List.tail_append_of_ne_nil (hfits.lineTokens_ne_nil n),
        lineTokens_eq_map_shift, ← List.map_tail] at htail
      exact fun t ht => htail (t.shift n) (List.mem_append_left _ (List.mem_map_of_mem ht))
    cases forall₂_innerOrs hsides hread hsides' hread' (.cons hback (.cons hback' .nil)) with
    | cons hors hconclusion =>
      cases hconclusion with
      | cons hors' _ =>
        rw [innerOrs_lineTokens] at hors hors'
        exact .imp hphrase hthen hors hors'

/-- A biconditional that is read back with its rows keeps its connectives. -/
theorem keepsConnectives_iff {sentence : Text} {left right left' right' : List Token}
    (hsides : sidesOf? (tokenize sentence) = some (.iff left right))
    (hread : ∀ side ∈ (Frame.iff left right).members, ReadableRows (sideRows side))
    {isVerb : VerbDetector}
    (hsides' : sidesOf? (tokenize (unwords (Frame.iff (backRows isVerb (.iff left right) left)
      (backRows isVerb (.iff left right) right)).words)) = some (.iff left' right'))
    (hread' : ∀ side ∈ (Frame.iff left' right').members, ReadableRows (sideRows side))
    (hrows : signedRows (.iff left' right') left' = signedRows (.iff left right) left)
    (hrows' : signedRows (.iff left' right') right' = signedRows (.iff left right) right) :
    (Frame.iff (backRows isVerb (.iff left right) left)
      (backRows isVerb (.iff left right) right)).KeepsConnectives := by
  have hfits : FitsSide (backRows isVerb (.iff left right) left) :=
    fitsSide_backRows hsides hread isVerb (List.mem_cons_self ..)
  have hfits' : FitsSide (backRows isVerb (.iff left right) right) :=
    fitsSide_backRows hsides hread isVerb (List.mem_cons_of_mem _ (List.mem_singleton_self _))
  obtain ⟨phrase, m, hspells, htokens⟩ := exists_tokens_iff hfits hfits'
  cases sidesOf?_eq_some_iff.1 hsides' with
  | iff hsplit =>
    obtain ⟨hlen, hflat, -⟩ := length_of_signedRows_eq hrows isVerb
    have hphrase : ∀ left'' right'', SplitsAtPhrase (lineTokens 0 (Frame.iff
        (backRows isVerb (.iff left right) left) (backRows isVerb (.iff left right) right)).words)
        left'' right'' → (lineTokens 0 (sideWords (backRows isVerb (.iff left right) left))).length ≤
          left''.length := by
      -- the phrase that was read is the first, and does not stand before the one that was written
      have hfirst : SplitsAtPhrase (lineTokens 0 (Frame.iff (backRows isVerb (.iff left right) left)
          (backRows isVerb (.iff left right) right)).words) left' right' := hsplit.1
      rw [htokens] at hfirst
      exact fun left'' right'' h => (length_le_of_splitsAtPhrase hfits hspells hfirst hlen hflat).trans
        (hsplit.2 left'' right'' h)
    obtain ⟨rfl, rfl⟩ := SplitsAtFirstPhrase.unique ⟨⟨phrase, hspells, htokens⟩, hphrase⟩ hsplit
    have hback : ReadsBack isVerb (.iff left right) (.iff _ _) left _ :=
      ⟨hrows, writtenAs_lineTokens 0 _⟩
    have hback' : ReadsBack isVerb (.iff left right) (.iff _ _) right _ :=
      ⟨hrows', writtenAs_lineTokens m _⟩
    cases forall₂_innerOrs hsides hread hsides' hread' (.cons hback (.cons hback' .nil)) with
    | cons hors hright =>
      cases hright with
      | cons hors' _ =>
        rw [innerOrs_lineTokens] at hors'
        exact .iff hphrase hors hors'

/-- A sentence that is rendered back and cut into sides with the same rows keeps its connectives. -/
theorem keepsConnectives_of_namedFrame_eq {sentence : Text} {sides sides' : Frame (List Token)}
    (hsides : sidesOf? (tokenize sentence) = some sides)
    (hread : ∀ side ∈ sides.members, ReadableRows (sideRows side)) {isVerb : VerbDetector}
    (hsides' : sidesOf? (tokenize (unwords (sides.map (backRows isVerb sides)).words)) = some sides')
    (hread' : ∀ side ∈ sides'.members, ReadableRows (sideRows side))
    (hsame : namedFrame sides' = namedFrame sides) :
    (sides.map (backRows isVerb sides)).KeepsConnectives := by
  cases sides with
  | single side =>
    cases sides' with
    | single side' =>
      exact keepsConnectives_single hsides hread hsides' hread' (Frame.single.inj hsame)
    | imp => cases hsame
    | iff => cases hsame
  | imp condition conclusion =>
    cases sides' with
    | imp condition' conclusion' =>
      obtain ⟨hrows, hrows'⟩ := Frame.imp.inj hsame
      exact keepsConnectives_imp hsides hread hsides' hread' hrows hrows'
    | single => cases hsame
    | iff => cases hsame
  | iff left right =>
    cases sides' with
    | iff left' right' =>
      obtain ⟨hrows, hrows'⟩ := Frame.iff.inj hsame
      exact keepsConnectives_iff hsides hread hsides' hread' hrows hrows'
    | single => cases hsame
    | imp => cases hsame

end Sentential
