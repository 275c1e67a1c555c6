import Mathlib.Data.List.Forall2
import Mathlib.Tactic.Common
import Sentential.Proofs.Joining
import Sentential.Proofs.Moved

/-!
# The tokens of a line of words

Since the words of a line have spaces between them, the tokens of a line are those of its stretches,
one stretch after the other (`lineTokens_append`), and they give the line back (`joinTokens_lineTokens`).

What is read from the tokens of a line does not depend on the place of the line, so that each line of
words has its literal (`literalAt`).  A side that is written with *ou* between its rows, and with *e*
between the literals of a row, is cut where it was written, if there is no further *ou* to cut at
(`sideRows_lineTokens`).
-/

namespace Sentential

open Text

/-! ### Stretches of a line -/

/-- The tokens of a line of words that stands at the byte offset `start`. -/
def lineTokens (start : Nat) (ws : List Text) : List Token :=
  tokensFrom start [] (unwords ws)

/-- Where the words that follow on a line start. -/
def lineStop (start : Nat) (ws : List Text) : Nat :=
  start + byteLength (unwords ws) + 1

theorem lineTokens_append (start : Nat) {vs ws : List Text} (hvs : vs ≠ []) (hws : ws ≠ []) :
    lineTokens start (vs ++ ws) = lineTokens start vs ++ lineTokens (lineStop start vs) ws := by
  have hspace : isSpace ' ' = true := by decide
  have hends : EndsWords (' ' :: unwords ws) := by
    rintro _ ⟨⟩
    decide
  have hsize : (' ').utf8Size = 1 := by decide
  rw [lineTokens, unwords_append hvs hws, tokensFrom_append start _ hends,
    tokensFrom_space _ hspace, hsize]
  rfl

theorem lineTokens_eq_map_shift (start : Nat) (ws : List Text) :
    lineTokens start ws = (lineTokens 0 ws).map (Token.shift start) := by
  rw [lineTokens, lineTokens, ← tokensFrom_add, Nat.zero_add]

/-- A line that has a word has a token. -/
theorem lineTokens_ne_nil (start : Nat) {ws : List Text} (hws : IsWords ws) (hne : ws ≠ []) :
    lineTokens start ws ≠ [] := by
  intro hnil
  have htiles := tiles_tokensFrom start (unwords ws)
  rw [← lineTokens, hnil] at htiles
  have hwords := words_unwords hws
  rw [words_of_all_space htiles.isSpace_of_nil] at hwords
  exact hne hwords.symm

/-- A word of letters and digits is one token. -/
theorem lineTokens_singleton (start : Nat) {w : Text} (hw : IsWord w) :
    lineTokens start [w] = [⟨.word, w, start⟩] := by
  have hlex : Lexeme .word w [] := .word hw rfl
  rw [lineTokens, unwords_singleton, tokensFrom_eq_iff]
  simpa using Tiles.token hlex (.nil (start + w.byteLength))

/-! ### Text from the tokens of a line -/

/-- The tokens of a text free of white space have no gaps between them. -/
theorem Tiles.joinTokensFrom_append {start : Nat} {t : Text} {ts : List Token}
    (h : Tiles start t ts) (ht : ∀ c ∈ t, isSpace c = false) (us : List Token) :
    joinTokensFrom start (ts ++ us) = t ++ joinTokensFrom (start + t.byteLength) us := by
  induction h with
  | nil => rfl
  | space hc => exact absurd hc (by simp [ht _ (List.mem_cons_self ..)])
  | @token start k w rest ts hw _ ih =>
    have hrest := ih fun c hc => ht c (List.mem_append_right w hc)
    rw [List.cons_append, joinTokensFrom, if_neg (Nat.lt_irrefl start), Token.stop, hrest,
      byteLength_append, List.nil_append, Nat.add_assoc]
    simp only [List.append_assoc]

/-- The first token of a text free of white space stands at its start. -/
theorem Tiles.start_of_head {start : Nat} {t : Text} {ts : List Token} (h : Tiles start t ts)
    (ht : ∀ c ∈ t, isSpace c = false) : ∀ u ∈ ts.head?, u.start = start := by
  cases h with
  | nil => simp
  | space hc => exact absurd hc (by simp [ht _ (List.mem_cons_self ..)])
  | token => simp

theorem joinTokensFrom_of_lt {stop start : Nat} {ts : List Token} (hne : ts ≠ [])
    (hhead : ∀ u ∈ ts.head?, u.start = start) (hlt : stop < start) :
    joinTokensFrom stop ts = ' ' :: joinTokensFrom start ts := by
  obtain ⟨u, us, rfl⟩ := List.exists_cons_of_ne_nil hne
  have hu : u.start = start := hhead u rfl
  rw [joinTokensFrom, joinTokensFrom, hu, if_pos hlt, if_neg (Nat.lt_irrefl start)]
  rfl

/-- The first token of a line stands at its start. -/
theorem start_of_head_lineTokens (start : Nat) {ws : List Text} (hws : IsWords ws) :
    ∀ u ∈ (lineTokens start ws).head?, u.start = start := by
  cases ws with
  | nil => simp [lineTokens, tokensFrom_nil]
  | cons w ws =>
    obtain ⟨⟨hne, hspace⟩, hws'⟩ := List.forall_mem_cons.1 hws
    have hword : ∀ u ∈ (lineTokens start [w]).head?, u.start = start := by
      rw [lineTokens, unwords_singleton]
      exact (tiles_tokensFrom start w).start_of_head hspace
    by_cases hnil : ws = []
    · rwa [hnil]
    · have hfirst : lineTokens start [w] ≠ [] :=
        lineTokens_ne_nil start (List.forall_mem_cons.2 ⟨⟨hne, hspace⟩, by simp⟩) (by simp)
      rw [← List.singleton_append, lineTokens_append start (List.cons_ne_nil w []) hnil,
        List.head?_append_of_ne_nil _ hfirst]
      exact hword

/-- The tokens of a line give the line back, whatever follows. -/
theorem joinTokensFrom_lineTokens (start : Nat) {ws : List Text} (hws : IsWords ws)
    (us : List Token) :
    joinTokensFrom start (lineTokens start ws ++ us) =
      unwords ws ++ joinTokensFrom (start + byteLength (unwords ws)) us := by
  induction ws generalizing start with
  | nil => rfl
  | cons w ws ih =>
    obtain ⟨⟨hne, hspace⟩, hws'⟩ := List.forall_mem_cons.1 hws
    have hword (vs : List Token) : joinTokensFrom start (lineTokens start [w] ++ vs) =
        w ++ joinTokensFrom (start + byteLength w) vs := by
      rw [lineTokens, unwords_singleton]
      exact (tiles_tokensFrom start w).joinTokensFrom_append hspace vs
    by_cases hnil : ws = []
    · rw [hnil, unwords_singleton, hword]
    · have hrest := lineTokens_ne_nil (lineStop start [w]) hws' hnil
      have hhead : ∀ u ∈ (lineTokens (lineStop start [w]) ws ++ us).head?,
          u.start = lineStop start [w] := by
        rw [List.head?_append_of_ne_nil _ hrest]
        exact start_of_head_lineTokens _ hws'
      have hlt : start + byteLength w < lineStop start [w] := by
        rw [lineStop, unwords_singleton]
        omega
      have hsize : (' ').utf8Size = 1 := by decide
      rw [← List.singleton_append, lineTokens_append start (List.cons_ne_nil w []) hnil,
        List.append_assoc, hword, joinTokensFrom_of_lt (by simp [hrest]) hhead hlt, ih _ hws',
        List.singleton_append, unwords_cons w hnil, byteLength_append, byteLength, hsize, lineStop,
        unwords_singleton]
      simp only [List.append_assoc, List.cons_append]
      congr 4
      omega

/-- The tokens of a line give the line back. -/
theorem joinTokens_lineTokens (start : Nat) {ws : List Text} (hws : IsWords ws) :
    joinTokens (lineTokens start ws) = unwords ws := by
  have hjoin := joinTokensFrom_lineTokens start hws []
  rw [List.append_nil, joinTokensFrom, List.append_nil] at hjoin
  rw [joinTokens_eq_joinTokensFrom (start_of_head_lineTokens start hws), hjoin]

/-- The tokens of two lines with a gap between them give one line. -/
theorem joinTokens_lineTokens_append {start next : Nat} {vs ws : List Text} (hvs : IsWords vs)
    (hws : IsWords ws) (hlt : start + byteLength (unwords vs) < next) :
    joinTokens (lineTokens start vs ++ lineTokens next ws) = unwords (vs ++ ws) := by
  by_cases hvnil : vs = []
  · rw [hvnil]
    exact joinTokens_lineTokens next hws
  · by_cases hwnil : ws = []
    · rw [hwnil, List.append_nil]
      exact (congrArg joinTokens (List.append_nil _)).trans (joinTokens_lineTokens start hvs)
    · have hfirst := lineTokens_ne_nil start hvs hvnil
      have hhead : ∀ u ∈ (lineTokens start vs ++ lineTokens next ws).head?, u.start = start := by
        rw [List.head?_append_of_ne_nil _ hfirst]
        exact start_of_head_lineTokens start hvs
      have hjoin := joinTokensFrom_lineTokens next hws []
      rw [List.append_nil, joinTokensFrom, List.append_nil] at hjoin
      rw [joinTokens_eq_joinTokensFrom hhead, joinTokensFrom_lineTokens start hvs,
        joinTokensFrom_of_lt (lineTokens_ne_nil next hws hwnil)
          (start_of_head_lineTokens next hws) hlt, hjoin, unwords_append hvnil hwnil]

/-! ### Tokens without their places -/

/-- The tokens of words, without their places. -/
def bareTokens (ws : List Text) : List Token :=
  ws.flatMap fun w => (tokenize w).map Token.bare

@[simp] theorem bareTokens_nil : bareTokens [] = [] := rfl

@[simp] theorem bareTokens_append (vs ws : List Text) :
    bareTokens (vs ++ ws) = bareTokens vs ++ bareTokens ws :=
  List.flatMap_append

theorem bareTokens_cons (w : Text) (ws : List Text) :
    bareTokens (w :: ws) = (tokenize w).map Token.bare ++ bareTokens ws :=
  List.flatMap_cons

/-- The tokens of a line are those of its words, one word after the other. -/
theorem map_bare_lineTokens (start : Nat) (ws : List Text) :
    (lineTokens start ws).map Token.bare = bareTokens ws := by
  have hshift (d : Nat) : Token.bare ∘ Token.shift d = Token.bare := rfl
  induction ws generalizing start with
  | nil => rfl
  | cons w ws ih =>
    have hword : (lineTokens start [w]).map Token.bare = (tokenize w).map Token.bare := by
      rw [lineTokens_eq_map_shift, List.map_map, hshift, lineTokens, unwords_singleton, tokenize]
    rw [← List.singleton_append, bareTokens_append]
    by_cases hnil : ws = []
    · rw [hnil, List.append_nil, hword, bareTokens_cons, bareTokens_nil, List.append_nil,
        List.append_nil]
    · rw [lineTokens_append start (List.cons_ne_nil w []) hnil, List.map_append, hword, ih,
        bareTokens_cons, bareTokens_nil, List.append_nil]

/-- What holds of tokens without their places holds of the tokens of a line. -/
theorem forall_mem_lineTokens {p : Token → Prop} (hp : ∀ t, p t.bare ↔ p t) (start : Nat)
    {ws : List Text} : (∀ t ∈ lineTokens start ws, p t) ↔ ∀ t ∈ bareTokens ws, p t := by
  rw [← map_bare_lineTokens start, List.forall_mem_map]
  exact forall₂_congr fun t _ => (hp t).symm

/-! ### Literals wherever they stand -/

/-- A literal does not depend on the place at which it stands. -/
theorem literalOf_map_shift (d : Nat) (run : List Token) :
    literalOf (run.map (Token.shift d)) = literalOf run :=
  literalOf_map_move (keepsGaps_add d run)

/-- The literal that is read from a line of words. -/
def literalAt (ws : List Text) : Literal :=
  literalOf (lineTokens 0 ws)

theorem literalOf_lineTokens (start : Nat) (ws : List Text) :
    literalOf (lineTokens start ws) = literalAt ws := by
  rw [lineTokens_eq_map_shift, literalOf_map_shift, literalAt]

/-- The tokens of a line with a word in its middle. -/
theorem exists_lineTokens_middle (start : Nat) (vs : List Text) {w : Text} (hw : IsWord w)
    (ws : List Text) :
    ∃ n m, start + byteLength (unwords vs) < m ∧
      lineTokens start (vs ++ w :: ws) = lineTokens start vs ++ ⟨.word, w, n⟩ :: lineTokens m ws := by
  have hbehind (n : Nat) : ∃ m, n < m ∧ lineTokens n (w :: ws) = ⟨.word, w, n⟩ :: lineTokens m ws := by
    by_cases hnil : ws = []
    · exact ⟨n + 1, Nat.lt_succ_self n, by rw [hnil, lineTokens_singleton n hw]; rfl⟩
    · refine ⟨lineStop n [w], by rw [lineStop]; omega, ?_⟩
      rw [← List.singleton_append, lineTokens_append n (List.cons_ne_nil w []) hnil,
        lineTokens_singleton n hw]
      rfl
  by_cases hnil : vs = []
  · obtain ⟨m, hlt, htokens⟩ := hbehind start
    exact ⟨start, m, by rwa [hnil], by rw [hnil]; exact htokens⟩
  · obtain ⟨m, hlt, htokens⟩ := hbehind (lineStop start vs)
    refine ⟨lineStop start vs, m, ?_, ?_⟩
    · unfold lineStop at hlt
      omega
    · rw [lineTokens_append start hnil (List.cons_ne_nil w ws), htokens]

/-! ### Sides on a line -/

/-- The words of a row, given those of its literals. -/
def rowWords (row : List (List Text)) : List Text :=
  List.intercalate [['e']] row

/-- The words of a side, given those of the literals of its rows. -/
def sideWords (rows : List (List (List Text))) : List Text :=
  List.intercalate [orWord] (rows.map rowWords)

/-- A line with a word between its stretches has the tokens of the first stretch, that of the word, and
those of the line that follows. -/
theorem lineTokens_intercalate {sep : Text} (hsep : IsWord sep) (start : Nat) {part next : List Text}
    {parts : List (List Text)} (hpart : part ≠ []) (hrest : ∀ part ∈ next :: parts, part ≠ []) :
    lineTokens start (List.intercalate [sep] (part :: next :: parts)) =
      lineTokens start part ++ ⟨.word, sep, lineStop start part⟩ ::
        lineTokens (lineStop (lineStop start part) [sep]) (List.intercalate [sep] (next :: parts)) := by
  have hne : List.intercalate [sep] (next :: parts) ≠ [] :=
    intercalate_ne_nil (List.cons_ne_nil next parts) hrest
  rw [List.intercalate_cons_cons, List.append_assoc, lineTokens_append start hpart (by simp),
    lineTokens_append _ (List.cons_ne_nil sep []) hne, lineTokens_singleton _ hsep]
  rfl

/-- A line with a word between its stretches has the tokens of the stretches, with a token between
them.  The tokens `tail` that follow on the last stretch are left with it. -/
theorem exists_interleaved_lineTokens {sep : Text} (hsep : IsWord sep) (tail : List Token)
    {parts : List (List Text)} (hne : parts ≠ []) (hparts : ∀ part ∈ parts, part ≠ [])
    (start : Nat) :
    ∃ pieces seps, Interleaved pieces seps (lineTokens start (List.intercalate [sep] parts) ++ tail) ∧
      List.Forall₂ (fun part ts => ∃ n tail', ts = lineTokens n part ++ tail' ∧ tail' ⊆ tail)
        parts pieces ∧ ∀ t ∈ seps, t.kind = .word ∧ t.text = sep := by
  induction parts generalizing start with
  | nil => exact absurd rfl hne
  | cons part parts ih =>
    obtain ⟨hpart, hrest⟩ := List.forall_mem_cons.1 hparts
    cases parts with
    | nil =>
      refine ⟨_, _, .single _, .cons ⟨start, tail, ?_, List.Subset.refl tail⟩ .nil, by simp⟩
      rw [List.intercalate_singleton]
    | cons next parts =>
      obtain ⟨pieces, seps, h, hpieces, hseps⟩ := ih (List.cons_ne_nil next parts) hrest
        (lineStop (lineStop start part) [sep])
      refine ⟨lineTokens start part :: pieces, ⟨.word, sep, lineStop start part⟩ :: seps, ?_,
        .cons ⟨start, [], (List.append_nil _).symm, List.nil_subset tail⟩ hpieces,
        List.forall_mem_cons.2 ⟨⟨rfl, rfl⟩, hseps⟩⟩
      rw [lineTokens_intercalate hsep start hpart hrest, List.append_assoc, List.cons_append]
      exact .cons _ _ h

/-- Lists that are related member by member have the same images. -/
theorem map_eq_map_of_forall₂ {α β γ : Type} {related : α → β → Prop} {as : List α} {bs : List β}
    (h : List.Forall₂ related as bs) {f : α → γ} {g : β → γ}
    (hfg : ∀ a ∈ as, ∀ b, related a b → g b = f a) : bs.map g = as.map f := by
  induction h with
  | nil => rfl
  | cons hab _ ih =>
    obtain ⟨ha, has⟩ := List.forall_mem_cons.1 hfg
    rw [List.map_cons, List.map_cons, ha _ hab, ih has]

/-- A member of the second list is related to one of the first. -/
theorem exists_mem_of_forall₂ {α β : Type} {related : α → β → Prop} {as : List α} {bs : List β}
    (h : List.Forall₂ related as bs) {b : β} (hb : b ∈ bs) : ∃ a ∈ as, related a b := by
  induction h with
  | nil => cases hb
  | @cons a b' as bs hab _ ih =>
    obtain rfl | hb := List.mem_cons.1 hb
    · exact ⟨a, List.mem_cons_self .., hab⟩
    · obtain ⟨a', ha', hrel⟩ := ih hb
      exact ⟨a', List.mem_cons_of_mem a ha', hrel⟩

/-- The words of a literal can stand in a row: there are some, and none separates literals. -/
def FitsRow (ws : List Text) : Prop :=
  IsWords ws ∧ ws ≠ [] ∧ ∀ t ∈ bareTokens ws, t.isAnd = false

theorem FitsRow.lineTokens_ne_nil {ws : List Text} (h : FitsRow ws) (start : Nat) :
    lineTokens start ws ≠ [] :=
  Sentential.lineTokens_ne_nil start h.1 h.2.1

theorem FitsRow.isAnd_eq_false {ws : List Text} (h : FitsRow ws) (start : Nat) :
    ∀ t ∈ lineTokens start ws, t.isAnd = false :=
  (forall_mem_lineTokens (fun _ => Iff.rfl) start).2 h.2.2

/-- The words of rows are words. -/
theorem isWords_intercalate {sep : Text} (hsep : sep ≠ [] ∧ ∀ c ∈ sep, isSpace c = false)
    {parts : List (List Text)} (hparts : ∀ part ∈ parts, IsWords part) :
    IsWords (List.intercalate [sep] parts) := by
  refine forall_mem_intercalate (fun w hw => ?_) hparts
  rwa [List.mem_singleton.1 hw]

theorem isWords_rowWords {row : List (List Text)} (hrow : ∀ ws ∈ row, FitsRow ws) :
    IsWords (rowWords row) :=
  isWords_intercalate (isUnbroken_iff.1 (by decide)) fun ws hws => (hrow ws hws).1

theorem rowWords_ne_nil {row : List (List Text)} (hne : row ≠ []) (hrow : ∀ ws ∈ row, FitsRow ws) :
    rowWords row ≠ [] :=
  intercalate_ne_nil hne fun ws hws => (hrow ws hws).2.1

theorem isWord_and : IsWord ['e'] :=
  ⟨'e', [], rfl, by decide +kernel, trivial⟩

theorem isWord_or : IsWord orWord :=
  ⟨'o', ['u'], rfl, by decide +kernel, by decide +kernel, trivial⟩

theorem isOr_orToken (start : Nat) : Token.isOr ⟨.word, orWord, start⟩ = true :=
  (by decide : decide (TokenKind.word = .word ∧ Text.lower orWord = orWord) = true)

/-- The tokens of a row are those of its literals, with an *e* between neighbours. -/
theorem exists_interleaved_rowWords (start : Nat) {row : List (List Text)} (hne : row ≠ [])
    (hrow : ∀ ws ∈ row, FitsRow ws) :
    ∃ pieces seps, Interleaved pieces seps (lineTokens start (rowWords row)) ∧
      List.Forall₂ (fun ws ts => ∃ n, ts = lineTokens n ws) row pieces ∧
        ∀ t ∈ seps, t.isAnd = true := by
  obtain ⟨pieces, seps, h, hpieces, hseps⟩ :=
    exists_interleaved_lineTokens isWord_and [] hne (fun ws hws => (hrow ws hws).2.1) start
  rw [List.append_nil] at h
  refine ⟨pieces, seps, h, hpieces.imp fun ws ts hts => ?_, fun t ht => ?_⟩
  · obtain ⟨n, tail, rfl, htail⟩ := hts
    exact ⟨n, by rw [List.subset_nil.1 htail, List.append_nil]⟩
  · obtain ⟨hkind, htext⟩ := hseps t ht
    have hword : Text.lower ['e'] ∈ andWords := by decide
    simp [Token.isAnd, Token.isAnyWord, hkind, htext, hword]

/-- The tokens of literals are not empty, and hold no separators of conjunctions. -/
theorem forall_mem_pieces {wss : List (List Text)} (hfits : ∀ ws ∈ wss, FitsRow ws)
    {pieces : List (List Token)}
    (hpieces : List.Forall₂ (fun ws ts => ∃ n, ts = lineTokens n ws) wss pieces) :
    ∀ piece ∈ pieces, piece ≠ [] ∧ ∀ t ∈ piece, t.isAnd = false := by
  intro piece hpiece
  obtain ⟨ws, hws, n, rfl⟩ := exists_mem_of_forall₂ hpieces hpiece
  exact ⟨(hfits ws hws).lineTokens_ne_nil n, (hfits ws hws).isAnd_eq_false n⟩

/-- A row is cut into the literals with which it was written. -/
theorem partRow_lineTokens (start : Nat) {row : List (List Text)} (hne : row ≠ [])
    (hrow : ∀ ws ∈ row, FitsRow ws) :
    partRow (lineTokens start (rowWords row)) = row.map literalAt := by
  obtain ⟨pieces, seps, h, hpieces, hseps⟩ := exists_interleaved_rowWords start hne hrow
  have hpiece := forall_mem_pieces hrow hpieces
  have hcuts : cuts Token.isAnd (lineTokens start (rowWords row)) = pieces :=
    cuts_eq_of_interleaved h hseps fun piece hp => (hpiece piece hp).2
  rw [partRow, hcuts, nonEmpty_eq_self fun piece hp => (hpiece piece hp).1]
  refine map_eq_map_of_forall₂ hpieces fun ws _ ts hts => ?_
  obtain ⟨n, rfl⟩ := hts
  exact literalOf_lineTokens n ws

/-- Rows of literals can be written as a side: no row is missing or empty, and the words of each
literal fit. -/
def FitsSide (rows : List (List (List Text))) : Prop :=
  rows ≠ [] ∧ ∀ row ∈ rows, row ≠ [] ∧ ∀ ws ∈ row, FitsRow ws

theorem FitsSide.isWords {rows : List (List (List Text))} (h : FitsSide rows) :
    IsWords (sideWords rows) := by
  refine isWords_intercalate (isUnbroken_iff.1 (by decide)) ?_
  rw [List.forall_mem_map]
  exact fun row hrow => isWords_rowWords (h.2 row hrow).2

theorem FitsSide.forall_rowWords_ne_nil {rows : List (List (List Text))} (h : FitsSide rows) :
    ∀ part ∈ rows.map rowWords, part ≠ [] := by
  rw [List.forall_mem_map]
  exact fun row hrow => rowWords_ne_nil (h.2 row hrow).1 (h.2 row hrow).2

theorem FitsSide.ne_nil {rows : List (List (List Text))} (h : FitsSide rows) :
    sideWords rows ≠ [] :=
  intercalate_ne_nil (by simpa using h.1) h.forall_rowWords_ne_nil

/-- The words of each literal of a side fit. -/
theorem FitsSide.fitsRow {rows : List (List (List Text))} (h : FitsSide rows) :
    ∀ ws ∈ rows.flatten, FitsRow ws := by
  intro ws hws
  obtain ⟨row, hrow, hws⟩ := List.mem_flatten.1 hws
  exact (h.2 row hrow).2 ws hws

theorem FitsSide.lineTokens_ne_nil {rows : List (List (List Text))} (h : FitsSide rows)
    (start : Nat) : lineTokens start (sideWords rows) ≠ [] :=
  Sentential.lineTokens_ne_nil start h.isWords h.ne_nil

/-- The number of places at which tokens are cut into parts of a disjunction. -/
def innerOrs (ts : List Token) : Nat :=
  (ts.tail.dropLast.filter Token.isOr).length

/-- The tokens of a side are those of its rows, with an *ou* between neighbours. -/
theorem FitsSide.exists_interleaved {rows : List (List (List Text))} (hrows : FitsSide rows)
    (start : Nat) (tail : List Token) :
    ∃ pieces seps, Interleaved pieces seps (lineTokens start (sideWords rows) ++ tail) ∧
      List.Forall₂ (fun row ts => ∃ n tail', ts = lineTokens n (rowWords row) ++ tail' ∧ tail' ⊆ tail)
        rows pieces ∧ (∀ t ∈ seps, t.isOr = true) ∧ ∀ piece ∈ pieces, piece ≠ [] := by
  obtain ⟨pieces, seps, h, hpieces, hseps⟩ :=
    exists_interleaved_lineTokens isWord_or tail (by simpa using hrows.1) hrows.forall_rowWords_ne_nil
      start
  rw [List.forall₂_map_left_iff] at hpieces
  refine ⟨pieces, seps, h, hpieces, fun t ht => ?_, fun piece hpiece => ?_⟩
  · obtain ⟨hkind, htext⟩ := hseps t ht
    have hword : Text.lower orWord = orWord := by decide
    simp [Token.isOr, Token.isWord, hkind, htext, hword]
  · obtain ⟨row, hrow, n, tail', rfl, -⟩ := exists_mem_of_forall₂ hpieces hpiece
    have hline := Sentential.lineTokens_ne_nil n (isWords_rowWords (hrows.2 row hrow).2)
      (rowWords_ne_nil (hrows.2 row hrow).1 (hrows.2 row hrow).2)
    exact List.append_ne_nil_of_left_ne_nil hline tail'

theorem isAnd_eq_false_of_isOr {t : Token} (h : t.isOr = true) : t.isAnd = false := by
  obtain ⟨hkind, htext⟩ : t.kind = .word ∧ t.text.lower = orWord := of_decide_eq_true h
  have hne : orWord ∉ andWords := by decide
  simp [Token.isAnd, Token.isAnyWord, hkind, htext, hne]

theorem isOr_eq_false_of_isAnd {t : Token} (h : t.isAnd = true) : t.isOr = false := by
  cases hor : t.isOr with
  | false => rfl
  | true =>
    rw [isAnd_eq_false_of_isOr hor] at h
    cases h

theorem filter_isOr_eq_nil {ts : List Token} (h : ∀ t ∈ ts, t.isAnd = true) :
    ts.filter Token.isOr = [] :=
  List.filter_eq_nil_iff.2 fun t ht => by simp [isOr_eq_false_of_isAnd (h t ht)]

/-- The tokens of a side are those of its literals, with an *e* or an *ou* between neighbours. -/
theorem FitsSide.exists_interleaved_literals {rows : List (List (List Text))} (hrows : FitsSide rows)
    (start : Nat) :
    ∃ pieces seps, Interleaved pieces seps (lineTokens start (sideWords rows)) ∧
      List.Forall₂ (fun ws ts => ∃ n, ts = lineTokens n ws) rows.flatten pieces ∧
        (∀ t ∈ seps, t.isAnd = true ∨ t.isOr = true) ∧
          (seps.filter Token.isOr).length + 1 = rows.length := by
  induction rows generalizing start with
  | nil => exact absurd rfl hrows.1
  | cons row rows ih =>
    obtain ⟨⟨hne, hrow⟩, hrest⟩ := List.forall_mem_cons.1 hrows.2
    obtain ⟨pieces, seps, h, hpieces, hseps⟩ := exists_interleaved_rowWords start hne hrow
    cases rows with
    | nil =>
      refine ⟨pieces, seps, ?_, by simpa using hpieces, fun t ht => .inl (hseps t ht), ?_⟩
      · rwa [sideWords, List.map_singleton, List.intercalate_singleton]
      · rw [filter_isOr_eq_nil hseps]
        rfl
    | cons next rows =>
      have hside : FitsSide (next :: rows) := ⟨List.cons_ne_nil next rows, hrest⟩
      obtain ⟨pieces', seps', h', hpieces', hseps', hcount⟩ :=
        ih hside (lineStop (lineStop start (rowWords row)) [orWord])
      have htokens : lineTokens start (sideWords (row :: next :: rows)) =
          lineTokens start (rowWords row) ++ ⟨.word, orWord, lineStop start (rowWords row)⟩ ::
            lineTokens (lineStop (lineStop start (rowWords row)) [orWord])
              (sideWords (next :: rows)) :=
        lineTokens_intercalate isWord_or start (rowWords_ne_nil hne hrow)
          hside.forall_rowWords_ne_nil
      refine ⟨_, _, htokens ▸ h.append _ h', ?_, ?_, ?_⟩
      · rw [List.flatten_cons]
        exact List.rel_append hpieces hpieces'
      · refine List.forall_mem_append.2 ⟨fun t ht => .inl (hseps t ht), ?_⟩
        exact List.forall_mem_cons.2 ⟨.inr (isOr_orToken _), hseps'⟩
      · rw [List.filter_append, filter_isOr_eq_nil hseps, List.nil_append,
          List.filter_cons_of_pos (isOr_orToken _), List.length_cons, hcount]
        rfl

/-- A side has one *e* fewer than literals in each row, and no further separators of conjunctions. -/
theorem FitsSide.length_filter_isAnd {rows : List (List (List Text))} (hrows : FitsSide rows)
    (start : Nat) :
    ((lineTokens start (sideWords rows)).filter Token.isAnd).length + rows.length =
      rows.flatten.length := by
  obtain ⟨pieces, seps, h, hpieces, hseps, hcount⟩ := hrows.exists_interleaved_literals start
  have hother : seps.filter (fun t => !t.isAnd) = seps.filter Token.isOr := by
    refine List.filter_congr fun t ht => ?_
    obtain hand | hor := hseps t ht
    · rw [hand, isOr_eq_false_of_isAnd hand]
      rfl
    · rw [isAnd_eq_false_of_isOr hor, hor]
      rfl
  have hsum := List.length_eq_length_filter_add (l := seps) Token.isAnd
  have hlen := h.length_eq
  have hlen' := hpieces.length_eq
  rw [h.filter_eq_filter fun piece hpiece => (forall_mem_pieces hrows.fitsRow hpieces piece hpiece).2]
  rw [hother] at hsum
  omega

/-- A side is cut into the rows with which it was written, if it has no inner *ou* besides those
between the rows.  Separators of a conjunction may follow. -/
theorem FitsSide.sideRows_lineTokens {rows : List (List (List Text))} (hrows : FitsSide rows)
    (start : Nat) {tail : List Token} (htail : ∀ t ∈ tail, t.isAnd = true)
    (hcount : innerOrs (lineTokens start (sideWords rows) ++ tail) + 1 ≤ rows.length) :
    sideRows (lineTokens start (sideWords rows) ++ tail) =
      rows.map fun row => row.map literalAt := by
  obtain ⟨pieces, seps, h, hpieces, hseps, hne⟩ := hrows.exists_interleaved start tail
  have hcuts : innerCuts Token.isOr (lineTokens start (sideWords rows) ++ tail) = pieces := by
    have hlen : pieces.length = rows.length := hpieces.length_eq.symm
    have hlen' := h.length_eq
    unfold innerOrs at hcount
    refine innerCuts_eq_of_length_le h hseps ?_ ?_ (by omega)
    · exact fun hhead => hne [] (List.mem_of_mem_head? hhead) rfl
    · exact fun hlast => hne [] (List.mem_of_mem_getLast? hlast) rfl
  rw [sideRows, hcuts, nonEmpty_eq_self hne]
  refine map_eq_map_of_forall₂ hpieces fun row hrow ts hts => ?_
  obtain ⟨n, tail', rfl, hsub⟩ := hts
  rw [partRow_append_separators fun t ht => htail t (hsub ht),
    partRow_lineTokens n (hrows.2 row hrow).1 (hrows.2 row hrow).2]

/-- A side has an inner *ou* between any two rows. -/
theorem FitsSide.le_innerOrs {rows : List (List (List Text))} (hrows : FitsSide rows) (start : Nat)
    (tail : List Token) :
    rows.length ≤ innerOrs (lineTokens start (sideWords rows) ++ tail) + 1 := by
  obtain ⟨pieces, seps, h, hpieces, hseps, hne⟩ := hrows.exists_interleaved start tail
  have hsub := (h.sublist_inner (fun hhead => hne [] (List.mem_of_mem_head? hhead) rfl)
    (fun hlast => hne [] (List.mem_of_mem_getLast? hlast) rfl)).filter Token.isOr
  have hlen : pieces.length = rows.length := hpieces.length_eq.symm
  have hlen' := h.length_eq
  rw [List.filter_eq_self.2 hseps] at hsub
  have hle := hsub.length_le
  unfold innerOrs
  omega

theorem forall_mem_bareTokens_intercalate {p : Token → Prop} {sep : Text}
    (hsep : ∀ t ∈ bareTokens [sep], p t) {parts : List (List Text)}
    (hparts : ∀ part ∈ parts, ∀ t ∈ bareTokens part, p t) :
    ∀ t ∈ bareTokens (List.intercalate [sep] parts), p t := by
  rw [apply_intercalate bareTokens_append]
  exact forall_mem_intercalate hsep (List.forall_mem_map.2 hparts)

/-- What holds of the tokens of the literals, and of *e*, holds of those of a row. -/
theorem forall_mem_bareTokens_rowWords {p : Token → Prop} (hand : ∀ t ∈ bareTokens [['e']], p t)
    {row : List (List Text)} (hrow : ∀ ws ∈ row, ∀ t ∈ bareTokens ws, p t) :
    ∀ t ∈ bareTokens (rowWords row), p t :=
  forall_mem_bareTokens_intercalate hand hrow

/-- What holds of the tokens of the literals, of *e* and of *ou*, holds of those of a side. -/
theorem forall_mem_bareTokens_sideWords {p : Token → Prop} (hand : ∀ t ∈ bareTokens [['e']], p t)
    (hor : ∀ t ∈ bareTokens [orWord], p t) {rows : List (List (List Text))}
    (hrows : ∀ row ∈ rows, ∀ ws ∈ row, ∀ t ∈ bareTokens ws, p t) :
    ∀ t ∈ bareTokens (sideWords rows), p t := by
  refine forall_mem_bareTokens_intercalate hor ?_
  rw [List.forall_mem_map]
  exact fun row hrow => forall_mem_bareTokens_rowWords hand (hrows row hrow)

/-- A side has no inner *ou* besides those between the rows, if the literals have none. -/
theorem FitsSide.innerOrs_eq {rows : List (List (List Text))} (hrows : FitsSide rows) (start : Nat)
    {tail : List Token} (htail : ∀ t ∈ tail, t.isOr = false)
    (hor : ∀ row ∈ rows, ∀ ws ∈ row, ∀ t ∈ bareTokens ws, t.isOr = false) :
    innerOrs (lineTokens start (sideWords rows) ++ tail) + 1 = rows.length := by
  obtain ⟨pieces, seps, h, hpieces, hseps, -⟩ := hrows.exists_interleaved start tail
  have hand : ∀ t ∈ bareTokens [['e']], t.isOr = false := by decide +kernel
  have hfilter : (lineTokens start (sideWords rows) ++ tail).filter Token.isOr = seps := by
    refine h.filter_eq hseps fun piece hpiece => ?_
    obtain ⟨row, hrow, n, tail', rfl, hsub⟩ := exists_mem_of_forall₂ hpieces hpiece
    refine List.forall_mem_append.2 ⟨?_, fun t ht => htail t (hsub ht)⟩
    refine (forall_mem_lineTokens (fun _ => Iff.rfl) n).2 ?_
    exact forall_mem_bareTokens_rowWords hand (hor row hrow)
  have hle : innerOrs (lineTokens start (sideWords rows) ++ tail) ≤ seps.length := by
    rw [← hfilter]
    exact (((List.dropLast_sublist _).trans (List.tail_sublist _)).filter Token.isOr).length_le
  have hge := hrows.le_innerOrs start tail
  have hlen : pieces.length = rows.length := hpieces.length_eq.symm
  have hlen' := h.length_eq
  omega

end Sentential
