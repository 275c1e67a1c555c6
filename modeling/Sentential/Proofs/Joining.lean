import Mathlib.Data.List.Basic
import Mathlib.Logic.Function.Basic
import Mathlib.Tactic.Common
import Sentential.Proofs.Tokens
import Sentential.Proofs.Words

/-!
# Text from tokens

Tokens that are written one after the other make a line of words: the words are what stands between
two gaps (`exists_joinTokens_eq_unwords`).

Some of the tokens of a sentence, in order, are found again in their text (`map_bare_tokenize_joinTokens`).
Where a token is left out there is a gap, so that its neighbours do not run together.
-/

namespace Sentential

/-- The text of the token is not empty and holds no white space. -/
def Token.IsVisible (t : Token) : Prop :=
  t.text ≠ [] ∧ ∀ c ∈ t.text, isSpace c = false

theorem isVisible_of_mem_tokenize {sentence : Text} {t : Token} (h : t ∈ tokenize sentence) :
    t.IsVisible := by
  obtain ⟨rest, hlex⟩ := exists_lexeme_of_mem_tokenize h
  exact ⟨hlex.ne_nil, hlex.isSpace_eq_false⟩

theorem joinTokens_cons_cons (t u : Token) (ts : List Token) :
    joinTokens (t :: u :: ts) =
      t.text ++ ((if t.stop < u.start then [' '] else []) ++ joinTokens (u :: ts)) := by
  simp [joinTokens, joinTokensFrom]

/-- Only no tokens make an empty text. -/
theorem joinTokens_eq_nil_iff {ts : List Token} (hts : ∀ t ∈ ts, t.IsVisible) :
    joinTokens ts = [] ↔ ts = [] := by
  cases ts with
  | nil => exact ⟨fun _ => rfl, fun _ => rfl⟩
  | cons t ts =>
    have ht : t.text ≠ [] := (hts t (List.mem_cons_self ..)).1
    simp [joinTokens, ht]

/-- Tokens make a line of words. -/
theorem exists_joinTokens_eq_unwords {ts : List Token} (hts : ∀ t ∈ ts, t.IsVisible) :
    ∃ ws, Text.IsWords ws ∧ (ts ≠ [] → ws ≠ []) ∧ joinTokens ts = Text.unwords ws := by
  induction ts with
  | nil => exact ⟨[], by simp [Text.IsWords], by simp, rfl⟩
  | cons t ts ih =>
    obtain ⟨ht, hts⟩ := List.forall_mem_cons.1 hts
    obtain ⟨ws, hws, hne, hjoin⟩ := ih hts
    cases ts with
    | nil =>
      exact ⟨[t.text], List.forall_mem_cons.2 ⟨ht, by simp⟩, by simp,
        by simp [joinTokens, joinTokensFrom]⟩
    | cons u ts =>
      have hne : ws ≠ [] := hne (List.cons_ne_nil u ts)
      rw [joinTokens_cons_cons, hjoin]
      by_cases hgap : t.stop < u.start
      · refine ⟨t.text :: ws, List.forall_mem_cons.2 ⟨ht, hws⟩, by simp, ?_⟩
        rw [if_pos hgap, Text.unwords_cons _ hne]
        rfl
      · -- without a gap the token belongs to the first word of what follows
        obtain ⟨w, ws, rfl⟩ := List.exists_cons_of_ne_nil hne
        obtain ⟨hw, hws'⟩ := List.forall_mem_cons.1 hws
        refine ⟨(t.text ++ w) :: ws, List.forall_mem_cons.2 ⟨⟨by simp [ht.1], ?_⟩, hws'⟩, by simp, ?_⟩
        · exact fun c hc => (List.mem_append.1 hc).elim (ht.2 c) (hw.2 c)
        · rw [if_neg hgap, List.nil_append]
          by_cases hnil : ws = []
          · simp [hnil]
          · rw [Text.unwords_cons _ hnil, Text.unwords_cons _ hnil, List.append_assoc]

/-- Tokens make a text with its words on one line. -/
theorem unwords_words_joinTokens {ts : List Token} (hts : ∀ t ∈ ts, t.IsVisible) :
    Text.unwords (Text.words (joinTokens ts)) = joinTokens ts := by
  obtain ⟨ws, hws, -, hjoin⟩ := exists_joinTokens_eq_unwords hts
  rw [hjoin, Text.words_unwords hws]

/-- Tokens make a trimmed text. -/
theorem trim_joinTokens {ts : List Token} (hts : ∀ t ∈ ts, t.IsVisible) :
    (joinTokens ts).trim = joinTokens ts := by
  obtain ⟨ws, hws, -, hjoin⟩ := exists_joinTokens_eq_unwords hts
  rw [hjoin, Text.trim_unwords hws]

theorem forall_mem_joinTokensFrom {p : Char → Prop} (hspace : p ' ') {ts : List Token}
    (hts : ∀ t ∈ ts, ∀ c ∈ t.text, p c) (stop : Nat) : ∀ c ∈ joinTokensFrom stop ts, p c := by
  induction ts generalizing stop with
  | nil => exact List.forall_mem_nil _
  | cons t ts ih =>
    obtain ⟨ht, hts⟩ := List.forall_mem_cons.1 hts
    have hgap : ∀ c ∈ if stop < t.start then [' '] else [], p c := by
      split
      · exact List.forall_mem_singleton.2 hspace
      · exact List.forall_mem_nil _
    exact List.forall_mem_append.2 ⟨List.forall_mem_append.2 ⟨hgap, ht⟩, ih hts _⟩

/-- Besides the characters of its tokens, their text consists of spaces. -/
theorem forall_mem_joinTokens {p : Char → Prop} (hspace : p ' ') {ts : List Token}
    (hts : ∀ t ∈ ts, ∀ c ∈ t.text, p c) : ∀ c ∈ joinTokens ts, p c := by
  cases ts with
  | nil => exact List.forall_mem_nil _
  | cons t ts =>
    obtain ⟨ht, hts⟩ := List.forall_mem_cons.1 hts
    exact List.forall_mem_append.2 ⟨ht, forall_mem_joinTokensFrom hspace hts t.stop⟩

theorem joinTokens_eq_joinTokensFrom {start : Nat} {ts : List Token}
    (hhead : ∀ u ∈ ts.head?, u.start = start) : joinTokens ts = joinTokensFrom start ts := by
  cases ts with
  | nil => rfl
  | cons u us =>
    rw [joinTokens, joinTokensFrom, hhead u rfl, if_neg (Nat.lt_irrefl start), List.nil_append]

/-! ### Tokens at other places -/

/-- The token at another place, which depends on the place where it stands. -/
def Token.move (place : Nat → Nat) (t : Token) : Token :=
  { t with start := place t.start }

/-- Moving the tokens neither opens nor closes a gap between two of them. -/
def KeepsGaps (place : Nat → Nat) (ts : List Token) : Prop :=
  ts.Pairwise fun t u => (t.move place).stop < (u.move place).start ↔ t.stop < u.start

section Move

variable {place : Nat → Nat} {ts : List Token}

theorem KeepsGaps.sublist (h : KeepsGaps place ts) {us : List Token} (hus : us.Sublist ts) :
    KeepsGaps place us :=
  List.Pairwise.sublist hus h

/-- Tokens that are all moved by the same distance keep their gaps. -/
theorem keepsGaps_add (d : Nat) (ts : List Token) : KeepsGaps (· + d) ts := by
  refine List.pairwise_of_forall fun t u => ?_
  simp only [Token.move, Token.stop]
  omega

theorem joinTokensFrom_map_move {t : Token} (h : KeepsGaps place (t :: ts)) :
    joinTokensFrom (t.move place).stop (ts.map (Token.move place)) = joinTokensFrom t.stop ts := by
  induction ts generalizing t with
  | nil => rfl
  | cons u ts ih =>
    have hgap := List.rel_of_pairwise_cons h (List.mem_cons_self ..)
    rw [List.map_cons, joinTokensFrom, joinTokensFrom, ih (List.Pairwise.of_cons h)]
    simp only [hgap]
    rfl

/-- Tokens that keep their gaps give the same text. -/
theorem joinTokens_map_move (h : KeepsGaps place ts) :
    joinTokens (ts.map (Token.move place)) = joinTokens ts := by
  cases ts with
  | nil => rfl
  | cons t ts =>
    rw [List.map_cons, joinTokens, joinTokens, joinTokensFrom_map_move h]
    rfl

end Move

/-! ### Tokens of some of the tokens -/

/-- `Thinned t u`: a word that does not go on with `t` does not go on with `u` either, since `u` is
`t` up to a gap. -/
inductive Thinned : Text → Text → Prop
  /-- The end. -/
  | nil (t : Text) : Thinned t []
  /-- A gap. -/
  | gap (t u : Text) : Thinned t (' ' :: u)
  /-- The text of a token in front of both. -/
  | token {w t u : Text} (hw : w ≠ []) (h : Thinned t u) : Thinned (w ++ t) (w ++ u)

theorem Thinned.head?_any {t u : Text} (h : Thinned t u)
    (ht : t.head?.any isAlphanumeric = false) : u.head?.any isAlphanumeric = false := by
  cases h with
  | nil => rfl
  | gap => exact isAlphanumeric_eq_false_of_isSpace (by decide)
  | token hw =>
    obtain ⟨c, w, rfl⟩ := List.exists_cons_of_ne_nil hw
    exact ht

theorem Thinned.continuesWith {t u : Text} (h : Thinned t u) (ht : continuesWith t = false) :
    continuesWith u = false := by
  cases h with
  | nil => rfl
  | gap =>
    have hspace : isSpace ' ' = true := by decide
    simp [Sentential.continuesWith, isAlphanumeric_eq_false_of_isSpace hspace,
      isJoiner_eq_false_of_isSpace hspace]
  | @token w t u hw h =>
    obtain ⟨c, w, rfl⟩ := List.exists_cons_of_ne_nil hw
    cases w with
    | nil =>
      have hhead := h.head?_any
      simp only [Sentential.continuesWith, List.singleton_append, Bool.or_eq_false_iff,
        Bool.and_eq_false_iff] at ht ⊢
      exact ⟨ht.1, ht.2.imp_right hhead⟩
    | cons d w => simpa [Sentential.continuesWith] using ht

/-- A token stays a token when the text behind it is thinned. -/
theorem Lexeme.thinned {k : TokenKind} {w t u : Text} (hw : Lexeme k w t) (h : Thinned t u) :
    Lexeme k w u := by
  cases hw with
  | word hword ht => exact .word hword (h.continuesWith ht)
  | single _ halnum hspace => exact .single u halnum hspace

/-- Behind a token that is left out, or behind white space, there is a gap. -/
theorem thinned_of_lt {stop : Nat} {t : Text} {ts : List Token} (h : ∀ u ∈ ts, stop < u.start) :
    Thinned t (joinTokensFrom stop ts) := by
  cases ts with
  | nil => exact .nil t
  | cons u us =>
    rw [joinTokensFrom, if_pos (h u (List.mem_cons_self ..)), List.append_assoc]
    exact .gap t _

/-- The text of some of the tokens of a text is the text up to a gap. -/
theorem Tiles.thinned {start : Nat} {t : Text} {ts us : List Token} (h : Tiles start t ts)
    (hsub : us.Sublist ts) : Thinned t (joinTokensFrom start us) := by
  induction h generalizing us with
  | nil start =>
    rw [List.sublist_nil.1 hsub]
    exact .nil []
  | @space start c rest ts hc h ih =>
    refine thinned_of_lt fun u hu => ?_
    have hle := h.pairwise_start.1 u (hsub.mem hu)
    have hpos := c.utf8Size_pos
    omega
  | @token start k w rest ts hw h ih =>
    have hpos : 0 < w.byteLength := byteLength_pos hw.ne_nil
    cases hsub with
    | cons _ hsub =>
      refine thinned_of_lt fun u hu => ?_
      have hle := h.pairwise_start.1 u (hsub.mem hu)
      omega
    | cons_cons _ hsub =>
      rw [joinTokensFrom, if_neg (Nat.lt_irrefl start), List.nil_append]
      exact .token hw.ne_nil (ih hsub)

/-- Behind a gap, a text is tiled one place further. -/
theorem Tiles.behind_gap {gap : Prop} [Decidable gap] {p : Nat} {t : Text} {ts : List Token}
    (h : Tiles (if gap then p + 1 else p) t ts) : Tiles p ((if gap then [' '] else []) ++ t) ts := by
  have hsize : (' ').utf8Size = 1 := by decide
  by_cases hgap : gap
  · rw [if_pos hgap] at h ⊢
    exact .space (by decide) (by rwa [hsize])
  · rwa [if_neg hgap, List.nil_append] at *

/-- A token in front of tokens that are moved can be moved to any place that leaves room for it. -/
theorem exists_move_cons {place : Nat → Nat} {t : Token} {rest : Text} {us : List Token} {q : Nat}
    (hlex : Lexeme t.kind t.text rest) (hbehind : ∀ u ∈ us, t.start < u.start)
    (htiles : Tiles (q + t.text.byteLength) rest (us.map (Token.move place)))
    (hgaps : KeepsGaps place us)
    (hfirst : ∀ u ∈ us, q + t.text.byteLength < place u.start ↔ t.stop < u.start) :
    ∃ place', Tiles q (t.text ++ rest) ((t :: us).map (Token.move place')) ∧
      KeepsGaps place' (t :: us) ∧ place' t.start = q := by
  have hother : ∀ u ∈ us, Function.update place t.start q u.start = place u.start := fun u hu =>
    Function.update_of_ne (Nat.ne_of_gt (hbehind u hu)) q place
  have hmove : us.map (Token.move (Function.update place t.start q)) = us.map (Token.move place) :=
    List.map_congr_left fun u hu => by rw [Token.move, hother u hu, Token.move]
  refine ⟨Function.update place t.start q, ?_, List.pairwise_cons.2 ⟨fun u hu => ?_, ?_⟩,
    Function.update_self t.start q place⟩
  · rw [List.map_cons, hmove, Token.move, Function.update_self]
    exact .token hlex htiles
  · simp only [Token.move, Token.stop, Function.update_self, hother u hu]
    exact hfirst u hu
  · refine List.Pairwise.imp_of_mem (fun {u v} hu hv hrel => ?_) hgaps
    simpa only [Token.move, hother u hu, hother v hv] using hrel

/-- Some of the tokens of a text are found again in their text, at other places, with the same gaps
between them.  The text stands behind a token that ends at the offset `stop`, and starts at `p`. -/
theorem Tiles.exists_move {start : Nat} {t : Text} {ts us : List Token} (h : Tiles start t ts)
    (hsub : us.Sublist ts) {stop : Nat} (hstop : ∀ u ∈ us, stop ≤ u.start) (p : Nat) :
    ∃ place, Tiles p (joinTokensFrom stop us) (us.map (Token.move place)) ∧ KeepsGaps place us ∧
      ∀ u ∈ us, p < place u.start ↔ stop < u.start := by
  induction h generalizing us stop p with
  | nil start =>
    rw [List.sublist_nil.1 hsub]
    exact ⟨id, .nil p, .nil, by simp⟩
  | space _ _ ih => exact ih hsub hstop p
  | @token start k w rest ts hw h ih =>
    cases hsub with
    | cons _ hsub => exact ih hsub hstop p
    | @cons_cons us _ _ hsub =>
      have hpos : 0 < w.byteLength := byteLength_pos hw.ne_nil
      have hbehind : ∀ u ∈ us, start + w.byteLength ≤ u.start := fun u hu =>
        h.pairwise_start.1 u (hsub.mem hu)
      have hlater : ∀ u ∈ us, start < u.start := fun u hu => by
        have := hbehind u hu
        omega
      have hle : stop ≤ start := hstop _ (List.mem_cons_self ..)
      -- the token goes to the place `q`, and the others to where they are found behind it
      obtain ⟨q, hq⟩ : ∃ q, q = if stop < start then p + 1 else p := ⟨_, rfl⟩
      obtain ⟨place, htiles, hgaps, hfirst⟩ := ih hsub hbehind (q + w.byteLength)
      obtain ⟨place', htiles', hgaps', hself⟩ := exists_move_cons
        (t := ⟨k, w, start⟩) (hw.thinned (h.thinned hsub)) hlater htiles hgaps hfirst
      have hself : place' start = q := hself
      have hfar := List.pairwise_cons.1 htiles'.pairwise_start.2
      refine ⟨place', ?_, hgaps', List.forall_mem_cons.2 ⟨?_, fun u hu => ?_⟩⟩
      · rw [joinTokensFrom, List.append_assoc]
        exact .behind_gap (hq ▸ htiles')
      · change p < place' start ↔ stop < start
        split at hq <;> omega
      · have hsource := hlater u hu
        have himage : place' start < place' u.start := hfar.1 _ (List.mem_map_of_mem hu)
        split at hq <;> omega

/-- Some of the tokens of a sentence are found again in their text, with the same gaps between them. -/
theorem exists_tokenize_joinTokens {sentence : Text} {ts : List Token}
    (h : ts.Sublist (tokenize sentence)) :
    ∃ place, tokenize (joinTokens ts) = ts.map (Token.move place) ∧ KeepsGaps place ts := by
  have htiles := tiles_tokensFrom 0 sentence
  obtain ⟨stop, hhead, hstop⟩ :
      ∃ stop, (∀ u ∈ ts.head?, u.start = stop) ∧ ∀ u ∈ ts, stop ≤ u.start := by
    cases ts with
    | nil => exact ⟨0, by simp⟩
    | cons u us =>
      have hpairwise := htiles.pairwise_start.2.sublist h
      exact ⟨u.start, by simp, List.forall_mem_cons.2 ⟨Nat.le_refl _, fun v hv =>
        Nat.le_of_lt (List.rel_of_pairwise_cons hpairwise hv)⟩⟩
  obtain ⟨place, hmoved, hgaps, -⟩ := htiles.exists_move h hstop 0
  refine ⟨place, ?_, hgaps⟩
  rw [joinTokens_eq_joinTokensFrom hhead, tokenize, hmoved.eq_tokensFrom]

/-- Some of the tokens of a sentence are found again in their text. -/
theorem map_bare_tokenize_joinTokens {sentence : Text} {ts : List Token}
    (h : ts.Sublist (tokenize sentence)) :
    (tokenize (joinTokens ts)).map Token.bare = ts.map Token.bare := by
  obtain ⟨place, hmoved, -⟩ := exists_tokenize_joinTokens h
  rw [hmoved, List.map_map]
  rfl

end Sentential
