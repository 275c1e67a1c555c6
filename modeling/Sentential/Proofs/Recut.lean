import Mathlib.Data.List.Forall2
import Mathlib.Tactic.Common
import Sentential.Proofs.Letters
import Sentential.Proofs.Runs

/-!
# Cutting a written side again

A side that was written with rows of literals may be cut again into as many literals, though some of
them hold an *ou* at which it is cut.  Then the tokens of each literal have left one run, and the *ou*
are what they have lost (`Recut`).

A literal that holds *ou* at the ends of the side only has lost none (`Recut.uCount_eq`).  If no literal
has lost any, the side has been cut between its rows and nowhere else (`Recut.innerOrs_eq`).
-/

namespace Sentential

open Text

/-- Where each member gives at most one value, and there are as many values as members, each member
gives one. -/
theorem forall₂_flatMap_of_length_le {α β : Type} {g : α → List β} {as : List α}
    (hone : ∀ a ∈ as, (g a).length ≤ 1) (hlen : as.length ≤ (as.flatMap g).length) :
    List.Forall₂ (fun b a => g a = [b]) (as.flatMap g) as := by
  have hle (as : List α) (hone : ∀ a ∈ as, (g a).length ≤ 1) : (as.flatMap g).length ≤ as.length := by
    induction as with
    | nil => exact Nat.le_refl 0
    | cons a as ih =>
      obtain ⟨ha, has⟩ := List.forall_mem_cons.1 hone
      have hrest := ih has
      rw [List.flatMap_cons, List.length_append, List.length_cons]
      omega
  induction as with
  | nil => exact .nil
  | cons a as ih =>
    obtain ⟨ha, has⟩ := List.forall_mem_cons.1 hone
    have hrest := hle as has
    rw [List.flatMap_cons, List.length_append, List.length_cons] at hlen
    obtain ⟨b, hb⟩ := List.length_eq_one_iff.1 (show (g a).length = 1 by omega)
    rw [List.flatMap_cons, hb, List.singleton_append]
    exact .cons hb (ih has (by omega))

theorem forall₂_and {α β : Type} {related related' : α → β → Prop} {as : List α} {bs : List β}
    (h : List.Forall₂ related as bs) (h' : List.Forall₂ related' as bs) :
    List.Forall₂ (fun a b => related a b ∧ related' a b) as bs := by
  induction h with
  | nil => exact .nil
  | cons hab _ ih =>
    obtain ⟨hab', hrest⟩ := List.forall₂_cons.1 h'
    exact .cons ⟨hab, hab'⟩ (ih hrest)

/-- A member of the first list is related to the one that stands at its place. -/
theorem exists_append_of_forall₂ {α β : Type} {related : α → β → Prop} {as₁ as₂ : List α} {a : α}
    {bs : List β} (h : List.Forall₂ related (as₁ ++ a :: as₂) bs) :
    ∃ bs₁ b bs₂, bs = bs₁ ++ b :: bs₂ ∧ List.Forall₂ related as₁ bs₁ ∧ related a b ∧
      List.Forall₂ related as₂ bs₂ := by
  induction as₁ generalizing bs with
  | nil =>
    obtain ⟨b, bs₂, hab, hrest, rfl⟩ := List.forall₂_cons_left_iff.1 h
    exact ⟨[], b, bs₂, rfl, .nil, hab, hrest⟩
  | cons a' as₁ ih =>
    obtain ⟨b', bs, hab', hrest, rfl⟩ := List.forall₂_cons_left_iff.1 h
    obtain ⟨bs₁, b, bs₂, rfl, hfront, hab, hback⟩ := ih hrest
    exact ⟨b' :: bs₁, b, bs₂, rfl, .cons hab' hfront, hab, hback⟩

/-- No row of a side that can be read consists of separators of conjunctions. -/
theorem false_of_row_of_isAnd {side before tail : List Token} {t : Token}
    (h : ReadableRows (sideRows side)) (hnodup : side.Nodup) (hside : side = before ++ t :: tail)
    (ht : separatesRowsIn side t = true) (hne : tail ≠ []) (htail : ∀ u ∈ tail, u.isAnd = true) :
    False := by
  have hother : ∀ u ∈ tail, separatesRowsIn side u = false := by
    intro u hu
    by_contra hsep
    have hand := htail u hu
    rw [isAnd_eq_false_of_isOr (isOr_of_separatesRowsIn (by simpa using hsep))] at hand
    cases hand
  have hmem : tail ∈ nonEmpty (innerCuts Token.isOr side) := by
    have hcuts := cuts_append_cons ht before tail
    rw [← hside, cuts_eq_singleton hother] at hcuts
    rw [innerCuts_isOr_eq hnodup, hcuts]
    exact mem_nonEmpty.2 ⟨List.mem_append_right _ (List.mem_singleton_self tail), hne⟩
  have hrow : partRow tail = [] := partRow_append_separators htail []
  exact (h.2 _ (List.mem_map_of_mem hmem)).1 hrow

/-! ### Written sides -/

/-- What stands between parts that are not empty separates literals. -/
theorem separatesIn_of_mem_seps {parts : List (List Token)} {seps line tail side : List Token}
    (h : Interleaved parts seps line) (hside : side = line ++ tail) (hnodup : side.Nodup)
    (hne : ∀ part ∈ parts, part ≠ []) {t : Token} (ht : t ∈ seps)
    (hsep : t.isAnd = true ∨ t.isOr = true) : separatesIn side t = true := by
  obtain hand | hor := hsep
  · exact separatesIn_of_isAnd side hand
  · have hinner : t ∈ line.tail.dropLast :=
      (h.sublist_inner (fun hhead => hne [] (List.mem_of_mem_head? hhead) rfl)
        fun hlast => hne [] (List.mem_of_mem_getLast? hlast) rfl).mem ht
    have hinner' : t ∈ side.tail.dropLast := by
      rw [hside, List.tail_append_of_ne_nil (List.ne_nil_of_mem (h.sublist.mem ht))]
      by_cases hnil : tail = []
      · rwa [hnil, List.append_nil]
      · rw [List.dropLast_append_of_ne_nil hnil]
        exact List.mem_append_left _ ((List.dropLast_sublist _).mem hinner)
    obtain ⟨hhead, hlast⟩ := ne_ends_of_mem_inner hnodup hinner'
    rw [separatesIn, separatesRowsIn, hor, decide_eq_true hhead, decide_eq_true hlast]
    rfl

/-- The side consists of the tokens of rows on a line.  Separators of conjunctions may follow. -/
def WrittenAs (rows : List (List (List Text))) (side : List Token) : Prop :=
  ∃ start tail, side = lineTokens start (sideWords rows) ++ tail ∧ ∀ t ∈ tail, t.isAnd = true

/-- How a side that was written with rows is cut again: the tokens `pieces` of its literals, with the
separators `seps` between them and `tail` behind them, leave one run each. -/
structure Recut (rows : List (List (List Text))) (wordsFor : List Token → List Text)
    (side : List Token) (pieces : List (List Token)) (seps tail : List Token) : Prop where
  /-- The pieces and the separators make a line. -/
  interleaved : ∃ line, Interleaved pieces seps line ∧ side = line ++ tail
  /-- Behind the line stand separators of conjunctions only. -/
  isAnd_tail : ∀ t ∈ tail, t.isAnd = true
  /-- The side is cut between the pieces. -/
  separates : ∀ t ∈ seps, separatesIn side t = true
  /-- Between the rows stands an *ou*. -/
  ors : (seps.filter Token.isOr).length + 1 = rows.length
  /-- The pieces hold no separators of conjunctions. -/
  isAnd_pieces : ∀ piece ∈ pieces, ∀ t ∈ piece, t.isAnd = false
  /-- Each piece is the line of a literal, and leaves one run. -/
  runs : List.Forall₂ (fun run piece => (∃ n, piece = lineTokens n (wordsFor run)) ∧
    nonEmpty (cuts (separatesIn side) piece) = [run]) (sideRuns side) pieces

/-- The runs of a side that is cut between its parts are those of the parts. -/
theorem sideRuns_eq_flatMap {parts : List (List Token)} {seps line tail side : List Token}
    (h : Interleaved parts seps line) (hside : side = line ++ tail)
    (htail : ∀ t ∈ tail, t.isAnd = true) (hseps : ∀ t ∈ seps, separatesIn side t = true)
    (hnodup : side.Nodup) :
    sideRuns side = parts.flatMap fun part => nonEmpty (cuts (separatesIn side) part) := by
  have hcuts := nonEmpty_cuts_append (fun t ht => separatesIn_of_isAnd side (htail t ht)) line
  rw [← hside, h.cuts_eq hseps] at hcuts
  rw [sideRuns_eq hnodup, hcuts, nonEmpty, List.filter_flatMap]
  rfl

/-- A written side that is cut into as many literals, each of which can be read, is cut again within
the pieces only. -/
theorem WrittenAs.exists_recut {rows : List (List (List Text))} {wordsFor : List Token → List Text}
    {side : List Token} (h : WrittenAs rows side) (hrows : FitsSide rows) (hnodup : side.Nodup)
    (hread : ∀ run ∈ sideRuns side, (literalOf run).clause ≠ [])
    (hwords : rows.flatten = (sideRuns side).map wordsFor)
    (hends : ∀ run ∈ sideRuns side, OnlyAtEnds Token.isOr True True (bareTokens (wordsFor run))) :
    ∃ pieces seps tail, Recut rows wordsFor side pieces seps tail := by
  obtain ⟨start, tail, hside, htail⟩ := h
  obtain ⟨pieces, seps, hline, hpieces, hseps, hors⟩ := hrows.exists_interleaved_literals start
  have hpiece := forall_mem_pieces hrows.fitsRow hpieces
  have hand : ∀ piece ∈ pieces, ∀ t ∈ piece, t.isAnd = false := fun piece hp => (hpiece piece hp).2
  have hsep : ∀ t ∈ seps, separatesIn side t = true := fun t ht =>
    separatesIn_of_mem_seps hline hside hnodup (fun piece hp => (hpiece piece hp).1) ht (hseps t ht)
  have hruns := sideRuns_eq_flatMap hline hside htail hsep hnodup
  have hone : ∀ piece ∈ pieces, (nonEmpty (cuts (separatesIn side) piece)).length ≤ 1 := by
    intro piece hpiece
    obtain ⟨ws, hws, n, rfl⟩ := exists_mem_of_forall₂ hpieces hpiece
    rw [hwords] at hws
    obtain ⟨run, hrun, rfl⟩ := List.mem_map.1 hws
    have hends' : OnlyAtEnds Token.isOr True True (lineTokens n (wordsFor run)) := by
      have h := hends run hrun
      rwa [← map_bare_lineTokens n, onlyAtEnds_map_bare fun _ => rfl] at h
    refine length_nonEmpty_cuts_le_one hends' (fun t ht hst => ?_) fun run' hrun' => ?_
    · rw [separatesIn_eq (hand _ hpiece t ht)] at hst
      exact isOr_of_separatesRowsIn hst
    · refine hread run' ?_
      rw [hruns]
      exact List.mem_flatMap.2 ⟨_, hpiece, hrun'⟩
  have hlen : pieces.length = (sideRuns side).length := by
    rw [← hpieces.length_eq, hwords, List.length_map]
  have heach := forall₂_flatMap_of_length_le hone (by rw [hlen, ← hruns])
  rw [← hruns] at heach
  rw [hwords, List.forall₂_map_left_iff] at hpieces
  refine ⟨pieces, seps, tail, ⟨_, hline, hside⟩, htail, hsep, hors, hand, ?_⟩
  exact forall₂_and hpieces heach

namespace Recut

variable {rows : List (List (List Text))} {wordsFor : List Token → List Text} {side : List Token}
  {pieces : List (List Token)} {seps tail : List Token}

theorem isOr_of_mem (h : Recut rows wordsFor side pieces seps tail) {piece : List Token}
    (hpiece : piece ∈ pieces) {t : Token} (ht : t ∈ piece) (hsep : separatesIn side t = true) :
    t.isOr = true := by
  rw [separatesIn_eq (h.isAnd_pieces piece hpiece t ht)] at hsep
  exact isOr_of_separatesRowsIn hsep

/-- A run and the *ou* that were lost have as many *u* as the words of the literal. -/
theorem uCount_add (h : Recut rows wordsFor side pieces seps tail) {run piece : List Token}
    (hpiece : piece ∈ pieces) {n : Nat} (hline : piece = lineTokens n (wordsFor run))
    (hrun : nonEmpty (cuts (separatesIn side) piece) = [run]) :
    (literalOf run).clause.uCount + (piece.filter (separatesIn side)).length =
      tokensUCount (bareTokens (wordsFor run)) := by
  have hmem : run ∈ cuts (separatesIn side) piece := by
    have hmem : run ∈ nonEmpty (cuts (separatesIn side) piece) := by
      rw [hrun]
      exact List.mem_singleton_self run
    exact (mem_nonEmpty.1 hmem).1
  have hsign : ∀ t ∈ run, t.kind = .negation → t.text = ['¬'] := by
    intro t ht hkind
    have hin : t ∈ lineTokens n (wordsFor run) :=
      hline ▸ ((interleaved_cuts _ piece).isInfix_of_mem hmem).mem ht
    obtain ⟨rest, hlex⟩ := (tiles_tokensFrom n (unwords (wordsFor run))).exists_lexeme t hin
    exact (hkind ▸ hlex : Lexeme .negation t.text rest).text_eq_of_negation
  have hor : ∀ t ∈ piece, separatesIn side t = true → t.isOr = true := fun t =>
    h.isOr_of_mem hpiece
  rw [uCount_clause_literalOf hsign, ← tokensUCount_eq_of_cuts hor hrun, hline,
    ← tokensUCount_map_bare, map_bare_lineTokens]

/-- If no literal has lost an *ou*, the side has been cut between its rows and nowhere else. -/
theorem innerOrs_eq (h : Recut rows wordsFor side pieces seps tail) (hnodup : side.Nodup)
    (hkept : ∀ run ∈ sideRuns side,
      (literalOf run).clause.uCount = tokensUCount (bareTokens (wordsFor run))) :
    innerOrs side + 1 = rows.length := by
  obtain ⟨line, hline, hside⟩ := h.interleaved
  have hnone : ∀ piece ∈ pieces, ∀ t ∈ piece, separatesIn side t = false := by
    intro piece hpiece t ht
    obtain ⟨run, hrun, ⟨n, hpiece'⟩, hcuts⟩ := exists_mem_of_forall₂ h.runs hpiece
    have hsum := h.uCount_add hpiece hpiece' hcuts
    have hlost : (piece.filter (separatesIn side)).length = 0 := by
      have := hkept run hrun
      omega
    simpa using List.filter_eq_nil_iff.1 (List.eq_nil_of_length_eq_zero hlost) t ht
  have hpieces : ∀ piece ∈ pieces, ∀ t ∈ piece, separatesRowsIn side t = false := by
    intro piece hpiece t ht
    rw [← separatesIn_eq (h.isAnd_pieces piece hpiece t ht)]
    exact hnone piece hpiece t ht
  have htail : tail.filter (separatesRowsIn side) = [] := by
    refine List.filter_eq_nil_iff.2 fun t ht hsep => ?_
    have hor := isOr_of_separatesRowsIn hsep
    rw [isOr_eq_false_of_isAnd (h.isAnd_tail t ht)] at hor
    cases hor
  have hseps : seps.filter (separatesRowsIn side) = seps.filter Token.isOr := by
    refine List.filter_congr fun t ht => ?_
    have hsep := h.separates t ht
    cases hand : t.isAnd with
    | true => rw [separatesRowsIn, isOr_eq_false_of_isAnd hand, Bool.false_and]
    | false =>
      rw [separatesIn_eq hand] at hsep
      rw [hsep, isOr_of_separatesRowsIn hsep]
  have hfront := hline.filter_eq_filter hpieces
  have hfilter : side.filter (separatesRowsIn side) = seps.filter Token.isOr := by
    conv_lhs => rw [hside]
    rw [List.filter_append, ← hside, htail, List.append_nil, hfront, hseps]
  rw [innerOrs_eq_length_filter hnodup, hfilter, h.ors]

/-- Where a piece that leaves one run is cut at an *ou*, negation words aside at one of its ends, nothing
else stands at this end. -/
theorem eq_cons_or_eq_append (h : Recut rows wordsFor side pieces seps tail) {run piece : List Token}
    (hpiece : piece ∈ pieces) (hrun : nonEmpty (cuts (separatesIn side) piece) = [run])
    (hclause : (literalOf run).clause ≠ []) {front back : Prop}
    (hends : OnlyAtEnds Token.isOr front back piece) {t : Token} (ht : t ∈ piece)
    (hsep : separatesIn side t = true) :
    (front ∧ ∃ vs, piece = t :: vs) ∨ (back ∧ ∃ us, piece = us ++ [t]) := by
  obtain ⟨us, vs, hsplit⟩ := List.append_of_mem ht
  -- what stands before and behind the *ou* gives no run that cannot be read
  have hread : ∀ run' ∈ nonEmpty (cuts (separatesIn side) us) ++
      nonEmpty (cuts (separatesIn side) vs), (literalOf run').clause ≠ [] := by
    rw [← nonEmpty_append, ← cuts_append_cons hsep, ← hsplit, hrun, List.forall_mem_singleton]
    exact hclause
  obtain ⟨hus, hvs⟩ := List.forall_mem_append.1 hread
  have hother : ∀ u, u ∈ us ∨ u ∈ vs → separatesIn side u = true → u.isOr = true := fun u hu =>
    h.isOr_of_mem hpiece (by rw [hsplit]; simpa using hu.imp_right .inr)
  obtain ⟨hnot, hfront⟩ | ⟨hnot, hback⟩ := hends us t vs hsplit (h.isOr_of_mem hpiece ht hsep)
  · refine .inl ⟨hfront, vs, ?_⟩
    rw [hsplit, eq_nil_of_isNot hnot (fun u hu => hother u (.inl hu)) hus]
    rfl
  · refine .inr ⟨hback, us, ?_⟩
    rw [hsplit, eq_nil_of_isNot hnot (fun u hu => hother u (.inr hu)) hvs]

/-- A literal that holds *ou* at the ends of the side only, negation words aside, has lost none. -/
theorem uCount_eq (h : Recut rows wordsFor side pieces seps tail) (hnodup : side.Nodup)
    (hread : ReadableRows (sideRows side)) {before after : List (List Token)} {run : List Token}
    (hruns : sideRuns side = before ++ run :: after)
    (hends : OnlyAtEnds Token.isOr (before = []) (after = []) (bareTokens (wordsFor run))) :
    (literalOf run).clause.uCount = tokensUCount (bareTokens (wordsFor run)) := by
  obtain ⟨line, hline, hside⟩ := h.interleaved
  have hruns' := h.runs
  rw [hruns] at hruns'
  obtain ⟨front, piece, back, rfl, hfront, ⟨⟨n, hpiece⟩, hcuts⟩, hback⟩ :=
    exists_append_of_forall₂ hruns'
  have hmem : piece ∈ front ++ piece :: back := by simp
  rw [← h.uCount_add hmem hpiece hcuts]
  suffices hnone : piece.filter (separatesIn side) = [] by rw [hnone]; rfl
  refine List.filter_eq_nil_iff.2 fun t ht hsep => ?_
  have hrow : separatesRowsIn side t = true := by
    rwa [← separatesIn_eq (h.isAnd_pieces piece hmem t ht)]
  obtain ⟨hhead, hlast⟩ : side.head? ≠ some t ∧ side.getLast? ≠ some t := by
    simpa [separatesRowsIn, h.isOr_of_mem hmem ht hsep] using hrow
  obtain ⟨line₁, line₂, hparts, hline₁, hline₂⟩ := hline.exists_around
  have hends' : OnlyAtEnds Token.isOr (before = []) (after = []) piece := by
    rwa [← map_bare_lineTokens n, ← hpiece, onlyAtEnds_map_bare fun _ => rfl] at hends
  have hclause : (literalOf run).clause ≠ [] :=
    clause_ne_nil_of_mem_sideRuns hread (by rw [hruns]; simp)
  obtain ⟨hbefore, vs, rfl⟩ | ⟨hafter, us, rfl⟩ :=
    h.eq_cons_or_eq_append hmem hcuts hclause hends' ht hsep
  · -- the *ou* would be the first token of the side
    rw [hbefore, List.forall₂_nil_left_iff] at hfront
    rw [hparts, hline₁.2 hfront] at hside
    exact hhead (by rw [hside]; rfl)
  · rw [hafter, List.forall₂_nil_left_iff] at hback
    rw [hparts, hline₂.2 hback, List.append_nil, ← List.append_assoc] at hside
    by_cases htail : tail = []
    · -- the *ou* would be the last token of the side
      exact hlast (by rw [hside, htail, List.append_nil, List.getLast?_concat])
    · -- there would be a row without literals behind the *ou*
      rw [List.append_assoc, List.singleton_append] at hside
      exact false_of_row_of_isAnd hread hnodup hside hrow htail h.isAnd_tail

end Recut

end Sentential
