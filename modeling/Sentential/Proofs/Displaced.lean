import Mathlib.Data.List.Forall2
import Mathlib.Tactic.Common
import Sentential.Proofs.Recut
import Sentential.Proofs.Spoken

/-!
# Connectives at another place

The words of a connective can turn up in a sentence before the place at which they were put.  Then the
sentence is cut into sides there, and the first side is too short: it does not have as many literals as
were written (`length_le_of_splitsAtPhrase`, `false_of_isThen`).
-/

namespace Sentential

open Text

/-! ### Biconditionals -/

/-- The phrase has a separator of conjunctions behind its first word, which is none. -/
theorem exists_phrase_eq {phrase : List Token} (h : SpellsOut iffPhrase phrase) :
    ∃ a b rest, phrase = a :: b :: rest ∧ a.isAnd = false ∧ b.isAnd = true := by
  obtain ⟨a, b, rest, rfl, ha, hb⟩ : ∃ a b rest, phrase = a :: b :: rest ∧
      a.isWord ifWord = true ∧ b.isWord ['e'] = true := by
    rcases h with _ | ⟨ha, _ | ⟨hb, -⟩⟩
    exact ⟨_, _, _, rfl, ha, hb⟩
  obtain ⟨hkind, htext⟩ : a.kind = .word ∧ a.text.lower = ifWord := of_decide_eq_true ha
  obtain ⟨hkind', htext'⟩ : b.kind = .word ∧ b.text.lower = ['e'] := of_decide_eq_true hb
  have hif : ifWord ∉ andWords := by decide
  have hand : ['e'] ∈ andWords := by decide
  refine ⟨a, b, rest, rfl, ?_, ?_⟩
  · simp [Token.isAnd, Token.isAnyWord, hkind, htext, hif]
  · simp [Token.isAnd, Token.isAnyWord, hkind', htext', hand]

/-- A phrase does not start within the first side, if what stands before it has as many rows and
literals as the side. -/
theorem length_le_of_splitsAtPhrase {rows : List (List (List Text))} (hrows : FitsSide rows)
    {phrase back left right : List Token} (hphrase : SpellsOut iffPhrase phrase)
    (h : SplitsAtPhrase (lineTokens 0 (sideWords rows) ++ (phrase ++ back)) left right)
    (hlen : (sideRows left).length = rows.length)
    (hflat : (sideRows left).flatten.length = rows.flatten.length) :
    (lineTokens 0 (sideWords rows)).length ≤ left.length := by
  by_contra hshort
  obtain ⟨phrase', hphrase', hts⟩ := h
  obtain ⟨a, b, rest, rfl, -, hb⟩ := exists_phrase_eq hphrase'
  obtain ⟨a', b', rest', rfl, ha', -⟩ := exists_phrase_eq hphrase
  rw [List.cons_append, List.cons_append] at hts
  obtain ⟨mid, hmid⟩ := exists_append_of_length_lt hts (Nat.lt_of_not_le hshort)
  have hcount := hrows.length_filter_isAnd 0
  have hle := length_flatten_sideRows_le left
  rw [hmid] at hts hcount
  have htail : mid ++ a' :: (b' :: rest' ++ back) = b :: (rest ++ right) := by simpa using hts
  cases mid with
  | nil =>
    -- the second word of the phrase would be the first one of the other phrase
    obtain ⟨rfl, -⟩ := List.cons_eq_cons.1 htail
    rw [ha'] at hb
    cases hb
  | cons c mid =>
    obtain ⟨rfl, -⟩ := List.cons_eq_cons.1 htail
    rw [List.filter_append, List.length_append, List.filter_cons, List.filter_cons_of_pos hb] at hcount
    split at hcount <;> simp only [List.length_cons] at hcount <;> omega

/-! ### Conditionals -/

/-- Where a list ends in a separator that counts, or that stands at its end, the parts before are all
that is left. -/
theorem length_sideRuns_le {parts : List (List Token)} {seps side : List Token} {s : Token}
    (h : Interleaved parts seps side) (hnodup : (side ++ [s]).Nodup)
    (hparts : ∀ part ∈ parts, ∀ t ∈ part, separatesIn (side ++ [s]) t = false) :
    (sideRuns (side ++ [s])).length ≤ parts.length := by
  have hcuts : (cuts (separatesIn (side ++ [s])) side).length ≤ parts.length := by
    rw [length_cuts, h.filter_eq_filter hparts, h.length_eq]
    exact Nat.succ_le_succ (List.length_filter_le _ _)
  rw [sideRuns_eq hnodup]
  cases hs : separatesIn (side ++ [s]) s with
  | true =>
    rw [nonEmpty_cuts_append (List.forall_mem_singleton.2 hs)]
    exact (List.length_filter_le _ _).trans hcuts
  | false =>
    have hlen : (cuts (separatesIn (side ++ [s])) (side ++ [s])).length =
        (cuts (separatesIn (side ++ [s])) side).length := by
      rw [length_cuts, length_cuts, List.filter_append, List.filter_cons_of_neg (by simp [hs]),
        List.filter_nil, List.append_nil]
    exact (List.length_filter_le _ _).trans (hlen.le.trans hcuts)

/-- An *então* in the tokens of a side stands in those of a literal.  Before it stand the tokens of the
literals before, and the first ones of its own. -/
theorem exists_literal_of_isThen {rows : List (List (List Text))} (hrows : FitsSide rows) {start : Nat}
    {condition rest : List Token} {closer : Token}
    (hsplit : lineTokens start (sideWords rows) = condition ++ closer :: rest)
    (hcloser : closer.isThen = true) :
    ∃ before ws after front us vs n seps, rows.flatten = before ++ ws :: after ∧
      List.Forall₂ (fun ws ts => ∃ n, ts = lineTokens n ws) before front ∧
        lineTokens n ws = us ++ closer :: vs ∧ Interleaved (front ++ [us]) seps condition ∧
          ∀ t ∈ seps, t.isAnd = true ∨ t.isOr = true := by
  obtain ⟨pieces, seps, hline, hpieces, hseps, -⟩ := hrows.exists_interleaved_literals start
  have hnotSep : closer ∉ seps := by
    intro hmem
    obtain ⟨hand, hor⟩ := isAnd_isOr_eq_false_of_isThen hcloser
    simpa [hand, hor] using hseps closer hmem
  obtain ⟨front, us, vs, back, seps', rfl, hfront, hsub⟩ := hline.exists_split hsplit hnotSep
  obtain ⟨before, ws, after, hflat, hbefore, ⟨n, hws⟩, -⟩ := exists_append_of_forall₂ hpieces.flip
  exact ⟨before, ws, after, front, us, vs, n, seps', hflat, hbefore.flip, hws.symm, hfront,
    fun t ht => hseps t (hsub ht)⟩

/-- Tokens of literals without *ou*, and negation words behind them, are cut nowhere. -/
theorem separatesIn_eq_false_of_forall₂ {before : List (List Text)} {front : List (List Token)}
    {us : List Token} (hfits : ∀ ws ∈ before, FitsRow ws)
    (hquiet : ∀ ws ∈ before, ∀ t ∈ bareTokens ws, t.isOr = false)
    (hfront : List.Forall₂ (fun ws ts => ∃ n, ts = lineTokens n ws) before front)
    (hnot : ∀ t ∈ us, t.isNot = true) (side : List Token) :
    ∀ part ∈ front ++ [us], ∀ t ∈ part, separatesIn side t = false := by
  rw [List.forall_mem_append, List.forall_mem_singleton]
  refine ⟨fun piece hpiece t ht => ?_, fun t ht => separatesIn_eq_false_of_isNot (hnot t ht) side⟩
  obtain ⟨ws, hws, n, rfl⟩ := exists_mem_of_forall₂ hfront hpiece
  exact separatesIn_eq_false ((hfits ws hws).isAnd_eq_false n t ht)
    ((forall_mem_lineTokens (fun _ => Iff.rfl) n).2 (hquiet ws hws) t ht) side

/-- Parts that are not empty, and that are cut nowhere but between them, are runs of their side. -/
theorem mem_sideRuns_of_interleaved {parts : List (List Token)} {seps side part : List Token}
    (h : Interleaved parts seps side) (hnodup : side.Nodup) (hne : ∀ part ∈ parts, part ≠ [])
    (hseps : ∀ t ∈ seps, t.isAnd = true ∨ t.isOr = true)
    (hplain : ∀ part ∈ parts, ∀ t ∈ part, separatesIn side t = false) (hpart : part ∈ parts) :
    part ∈ sideRuns side := by
  have hcuts := cuts_eq_of_interleaved h (fun t ht =>
    separatesIn_of_mem_seps h (List.append_nil side).symm hnodup hne ht (hseps t ht)) hplain
  rw [sideRuns_eq hnodup, hcuts]
  exact mem_nonEmpty.2 ⟨hpart, hne part hpart⟩

/-- A condition is not cut off at an *então* within the written side: what stands before it does not
have as many runs as the side has literals, or one of them cannot be read. -/
theorem false_of_isThen {rows : List (List (List Text))} (hrows : FitsSide rows) {start : Nat}
    {condition rest tail : List Token} {closer : Token}
    (hsplit : lineTokens start (sideWords rows) ++ tail = condition ++ closer :: rest)
    (htail : ∀ t ∈ tail, t.isThen = false) (hcloser : closer.isThen = true)
    (hnodup : condition.Nodup) (hne : condition ≠ [])
    (hread : ReadableRows (sideRows condition))
    (hlen : (sideRuns condition).length = rows.flatten.length)
    (hthen : ∀ before ws after, rows.flatten = before ++ ws :: after →
      (∃ t ∈ bareTokens ws, t.isThen = true) → OnlyAtEnds Token.isThen True False (bareTokens ws) ∧
        ∀ ws' ∈ before, ∀ t ∈ bareTokens ws', t.isOr = false) : False := by
  have hnotTail : closer ∉ tail := fun hmem => by
    rw [htail closer hmem] at hcloser
    cases hcloser
  obtain ⟨rest', hrest⟩ := exists_append_of_notMem hsplit hnotTail
  obtain ⟨before, ws, after, front, us, vs, n, seps, hflat, hfront, hws, hline, hseps⟩ :=
    exists_literal_of_isThen hrows hrest hcloser
  have hmem : closer.bare ∈ bareTokens ws := by
    rw [← map_bare_lineTokens n, hws]
    exact List.mem_map_of_mem (by simp)
  obtain ⟨hends, hquiet⟩ := hthen before ws after hflat ⟨closer.bare, hmem, hcloser⟩
  -- only negation words stand before the *então* in its literal
  have hnot : ∀ t ∈ us, t.isNot = true := by
    rw [← map_bare_lineTokens n, hws, onlyAtEnds_map_bare fun _ => rfl] at hends
    obtain ⟨hnot, -⟩ | ⟨-, hfalse⟩ := hends us closer vs rfl hcloser
    · exact hnot
    · exact hfalse.elim
  have hfits : ∀ ws ∈ before, FitsRow ws := fun ws hws =>
    hrows.fitsRow ws (hflat ▸ List.mem_append_left _ hws)
  have hplain := separatesIn_eq_false_of_forall₂ hfits hquiet hfront hnot condition
  by_cases hus : us = []
  · -- there are too few runs
    have hne' : front ≠ [] := by
      rintro rfl
      rw [hus, List.nil_append] at hline
      exact hne hline.eq_of_single.symm
    rw [hus] at hline
    obtain ⟨seps', s, side, -, rfl, hside⟩ := hline.exists_append_singleton hne'
    have hle := length_sideRuns_le hside hnodup fun part hpart =>
      hplain part (List.mem_append_left _ hpart)
    have hcount := hfront.length_eq
    rw [hlen, hflat, List.length_append, List.length_cons] at hle
    omega
  · -- the negation words before the *então* are a run
    have hne' : ∀ part ∈ front ++ [us], part ≠ [] := by
      rw [List.forall_mem_append, List.forall_mem_singleton]
      exact ⟨fun piece hpiece => (forall_mem_pieces hfits hfront piece hpiece).1, hus⟩
    have hrun : us ∈ sideRuns condition :=
      mem_sideRuns_of_interleaved hline hnodup hne' hseps hplain (by simp)
    exact clause_ne_nil_of_mem_sideRuns hread hrun (clause_eq_nil_of_isNot hnot)

end Sentential
