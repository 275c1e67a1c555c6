import Mathlib.Tactic.Common
import Sentential.Proofs.WrittenScalars
import Sentential.Yaml.Stream

/-!
# Reading the tokens of a block document

The tokens of a stream are read line by line.  Between two lines only the tokens so far and the columns of
the open blocks matter (`Progress.Blocks`), so that what the rest of a stream yields settles what the whole
stream yields: `LineYields` says so for what follows from the start of a line, `RestYields` for what follows
an indicator.  There is one lemma for each way to begin a line and to go on behind an indicator.
-/

namespace Sentential.Yaml

variable {c : Char} {t u : Text} {n indent : Nat}

/-! ### Beginnings -/

/-- A text begins like a token, if it is not empty. -/
def StartsToken (t : Text) : Prop :=
  ∀ c, t.head? = some c → isGap (some c) = false ∧ c ≠ '#' ∧ isByteOrderMark c = false

theorem StartsToken.startsSolid (h : StartsToken t) : StartsSolid t :=
  fun c hc => (h c hc).1

theorem startsToken_cons : StartsToken (c :: t) ↔
    isGap (some c) = false ∧ c ≠ '#' ∧ isByteOrderMark c = false := by
  simp [StartsToken]

/-- A text is a line whose indentation is at most `indent`, and which begins like a token. -/
def StartsLine (indent : Nat) (t : Text) : Prop :=
  ∃ n ≤ indent, ∃ u, t = spaces n ++ u ∧ StartsToken u

/-- The indentation of a line is determined. -/
theorem spaces_append_inj {m : Nat} {v : Text} (hu : StartsSolid u) (hv : StartsSolid v)
    (h : spaces n ++ u = spaces m ++ v) : n = m ∧ u = v := by
  induction n generalizing m with
  | zero =>
    cases m with
    | zero => exact ⟨rfl, h⟩
    | succ m =>
      obtain rfl : u = ' ' :: (spaces m ++ v) := h
      exact absurd (startsSolid_cons.1 hu) (by decide)
  | succ n ih =>
    cases m with
    | zero =>
      obtain rfl : ' ' :: (spaces n ++ u) = v := h
      exact absurd (startsSolid_cons.1 hv) (by decide)
    | succ m =>
      rw [spaces_succ, spaces_succ, List.cons_append, List.cons_append, List.cons.injEq] at h
      obtain ⟨rfl, rfl⟩ := ih h.2
      exact ⟨rfl, rfl⟩

/-- What is shown as it is is no byte order mark. -/
theorem isByteOrderMark_eq_false (h : isPrintable c = true) : isByteOrderMark c = false := by
  simp only [isPrintable, Bool.or_eq_true, Bool.and_eq_true, beq_iff_eq, decide_eq_true_eq,
    bne_iff_ne] at h
  rw [isByteOrderMark, beq_eq_false_iff_ne]
  omega

/-- A plain scalar begins like a token. -/
theorem startsToken_of_plainAllowed (h : plainAllowed t = true) (hne : t ≠ []) (u : Text) :
    StartsToken (t ++ u) := by
  have hplain := isPlain_of_plainAllowed h hne
  obtain ⟨c, rest, rfl⟩ := List.exists_cons_of_ne_nil hne
  obtain ⟨-, -, -, -, hescape⟩ := plainAllowed_iff.1 h
  exact startsToken_cons.2 ⟨startsSolid_cons.1 hplain.startsSolid, by simpa using hplain.noComment,
    isByteOrderMark_eq_false (isPrintable_of_needsEscape hescape c List.mem_cons_self)⟩

/-- A scalar begins like a token. -/
theorem startsToken_scalar (indent : Nat) (t u : Text) : StartsToken (scalar indent t ++ u) := by
  have hfits := fits_styleOf t
  unfold scalar
  cases hstyle : styleOf t with
  | plain =>
    rw [hstyle] at hfits
    exact startsToken_of_plainAllowed hfits.2.1 hfits.1.ne_nil u
  | singleQuoted => exact startsToken_cons.2 (by decide)
  | doubleQuoted => exact startsToken_cons.2 (by decide)
  | literal => exact startsToken_cons.2 (by decide)

/-- There is something to a scalar. -/
theorem scalar_ne_nil (indent : Nat) (t : Text) : scalar indent t ≠ [] := by
  have hfits := fits_styleOf t
  unfold scalar
  cases hstyle : styleOf t with
  | plain =>
    rw [hstyle] at hfits
    exact hfits.1.ne_nil
  | singleQuoted => exact List.cons_ne_nil _ _
  | doubleQuoted => exact List.cons_ne_nil _ _
  | literal => exact List.cons_ne_nil _ _

/-- The token of a scalar. -/
def scalarToken (t : Text) : Token :=
  .scalar (styleOf t = .plain) t

/-- Less is left behind a text. -/
theorem Cursor.length_rest_behind {place : Cursor} (h : place.rest = t ++ u) (hne : t ≠ []) :
    (place.behind t).rest.length < place.rest.length := by
  rw [Cursor.rest_behind h, h, List.length_append]
  exact Nat.lt_add_of_pos_left (List.length_pos_iff.2 hne)

namespace Progress

variable {s s' : Progress} {tokens : List Token}

/-! ### Rounds -/

/-- Behind spaces stands the next token. -/
theorem skipToToken_spaces (h : s.cursor.rest = spaces n ++ u) (hu : StartsToken u) (fuel : Nat) :
    skipToToken (fuel + 1) s = { s with cursor := s.cursor.behind (spaces n) } := by
  have hmark : (s.cursor.column == 0 && s.cursor.peek?.any isByteOrderMark) = false := by
    cases n with
    | zero =>
      rw [Cursor.peek?, h]
      cases u with
      | nil => simp [spaces]
      | cons c u => simp [spaces, (startsToken_cons.1 hu).2.2]
    | succ n =>
      rw [Cursor.peek?, h, spaces_succ, List.cons_append, List.head?_cons]
      simp [isByteOrderMark]
  have hskip (tabs : Bool) : s.cursor.skipWhile (fun c => c = ' ' || (tabs && c = '\t')) =
      s.cursor.behind (spaces n) := by
    refine Cursor.skipWhile_eq_behind h (isOneLine_spaces n) (fun c hc => ?_) fun c hc => ?_
    · simp [List.eq_of_mem_replicate hc]
    · obtain ⟨hspace, htab, -⟩ := isGap_eq_false_iff.1 (hu c hc).1
      simp [hspace, htab]
  have hpeek : (s.cursor.behind (spaces n)).peek? = u.head? := by
    rw [Cursor.peek?, Cursor.rest_behind h]
  rw [skipToToken, hmark]
  simp only [Bool.false_eq_true, if_false, hskip, hpeek]
  cases u with
  | nil => simp [hpeek]
  | cons c u =>
    obtain ⟨hsolid, hcomment, -⟩ := startsToken_cons.1 hu
    have hbreak := (isGap_eq_false_iff.1 hsolid).2.2
    simp [hpeek, hcomment, hbreak]

/-- Behind a line feed a key may begin, unless it stands inside a flow collection. -/
theorem skipToToken_line (h : s.cursor.rest = '\n' :: (spaces n ++ u)) (hu : StartsToken u) (fuel : Nat) :
    skipToToken (fuel + 2) s = { s with
      cursor := s.cursor.behind ('\n' :: spaces n), keyAllowed := s.keyAllowed || !s.inFlow } := by
  have hpeek : s.cursor.peek? = some '\n' := by rw [Cursor.peek?, h, List.head?_cons]
  have hmark : (s.cursor.column == 0 && s.cursor.peek?.any isByteOrderMark) = false := by
    rw [hpeek]
    simp [isByteOrderMark]
  have hskip (tabs : Bool) :
      s.cursor.skipWhile (fun c => c = ' ' || (tabs && c = '\t')) = s.cursor :=
    Cursor.skipWhile_eq_behind (t := []) h (by decide) (by simp) (by simp)
  have hbreak := Cursor.takeBreak_eq h (by decide) (by decide)
  have hline : isBreak '\n' = true := by decide
  have hnext : (s.cursor.behind ['\n']).rest = spaces n ++ u := Cursor.rest_behind (t := ['\n']) h
  have hbehind : s.cursor.behind ('\n' :: spaces n) = (s.cursor.behind ['\n']).behind (spaces n) := rfl
  rw [skipToToken, hmark, hbehind]
  have hcomment : ¬some '\n' = some '#' := by decide
  simp only [Bool.false_eq_true, if_false, hskip, hpeek, if_neg hcomment, Option.any_some, hline,
    if_true, hbreak]
  exact skipToToken_spaces (s := { s with
    cursor := s.cursor.behind ['\n'], keyAllowed := s.keyAllowed || !s.inFlow }) hnext hu fuel

/-- A token is where the reading stands. -/
theorem skipToToken_eq_self (h : StartsToken s.cursor.rest) (fuel : Nat) :
    skipToToken (fuel + 1) s = s :=
  skipToToken_spaces (n := 0) rfl h fuel

/-- No block is closed by what stands in the innermost one. -/
theorem closeBlocksWithin_eq_self {column : Int} (h : s.indent ≤ column) (depth : Nat) :
    closeBlocksWithin depth column s = s := by
  cases depth with
  | zero => rfl
  | succ depth => rw [closeBlocksWithin, if_neg (Int.not_lt.2 h)]

theorem closeBlocks_eq_self {column : Int} (h : s.indent ≤ column) : s.closeBlocks column = s := by
  rw [closeBlocks, closeBlocksWithin_eq_self h, ite_self]

/-- From here the reading yields tokens, if enough rounds are left. -/
def Yields (s : Progress) (tokens : List Token) : Prop :=
  ∀ fuel, s.cursor.rest.length + 2 ≤ fuel → run fuel s = some tokens

/-- To move to the next token changes nothing of what is yielded. -/
theorem Yields.of_skipToToken (h : Yields s' tokens) (hstart : StartsToken s'.cursor.rest)
    (hle : s'.cursor.rest.length ≤ s.cursor.rest.length)
    (hskip : ∀ fuel, s.cursor.rest.length ≤ fuel → skipToToken (fuel + 2) s = s') : Yields s tokens := by
  intro fuel hfuel
  obtain ⟨fuel, rfl⟩ : ∃ k, fuel = k + 2 := ⟨fuel - 2, by omega⟩
  have hrun := h (fuel + 2) (by omega)
  rw [run, skipToToken_eq_self hstart] at hrun
  rw [run, hskip fuel (by omega), hrun]

/-- To close the blocks that end before a token changes nothing of what is yielded. -/
theorem Yields.of_closeBlocks (h : Yields s' tokens) (hstart : StartsToken s.cursor.rest)
    (hcursor : s'.cursor = s.cursor) (hclose : s.closeBlocks s.cursor.column = s')
    (hindent : s'.indent ≤ s.cursor.column) : Yields s tokens := by
  intro fuel hfuel
  obtain ⟨fuel, rfl⟩ : ∃ k, fuel = k + 1 := ⟨fuel - 1, by omega⟩
  have hrun := h (fuel + 1) (by rw [hcursor]; exact hfuel)
  rw [run, skipToToken_eq_self (by rw [hcursor]; exact hstart), hcursor,
    closeBlocks_eq_self hindent, hcursor] at hrun
  rw [run, skipToToken_eq_self hstart, hclose, hcursor, hrun]

/-- One round reads a token. -/
theorem Yields.of_token (h : Yields s' tokens) (hstart : StartsToken s.cursor.rest)
    (hclose : s.indent ≤ s.cursor.column)
    (htoken : ∀ c, s.cursor.rest.head? = some c → s.token c = some s')
    (hlt : s'.cursor.rest.length < s.cursor.rest.length) : Yields s tokens := by
  intro fuel hfuel
  obtain ⟨fuel, rfl⟩ : ∃ k, fuel = k + 1 := ⟨fuel - 1, by omega⟩
  rw [run, skipToToken_eq_self hstart, closeBlocks_eq_self hclose]
  cases hrest : s.cursor.rest with
  | nil => simp [hrest] at hlt
  | cons c u =>
    have hpeek : s.cursor.peek? = some c := by rw [Cursor.peek?, hrest, List.head?_cons]
    rw [hpeek]
    simp only [htoken c (by rw [hrest, List.head?_cons]), Option.bind_some, h fuel (by omega)]

/-! ### Keys -/

/-- The places of possible keys are given up without error. -/
theorem dropKey_eq {k : Option KeyPlace} (hkeys : s.keys = [k])
    (hk : ∀ place ∈ k, place.required = false) : s.dropKey = some { s with keys := [none] } := by
  unfold dropKey
  cases k with
  | none =>
    rw [hkeys]
    exact congrArg some (by rw [← hkeys])
  | some place =>
    rw [hkeys]
    simp [hk place rfl]

/-- The place of a possible key is noted where a key may begin. -/
theorem noteKey_eq {k : Option KeyPlace} (hkeys : s.keys = [k])
    (hk : ∀ place ∈ k, place.required = false) (hallowed : s.keyAllowed = true) :
    s.noteKey = some { s with keys := [some ⟨s.indent == Int.ofNat s.cursor.column,
      s.tokens.length, s.cursor⟩] } := by
  have hflow : inFlow { s with keys := [none] } = false := rfl
  rw [noteKey, if_pos hallowed, dropKey_eq hkeys hk]
  simp [hflow]

/-! ### Scalars -/

/-- No document is marked by what begins otherwise. -/
theorem atMarker_eq_false_of_head {place : Cursor} (h : place.rest = c :: u) (hdash : c ≠ '-')
    (hdot : c ≠ '.') : place.atMarker = false := by
  rw [Cursor.atMarker, h]
  simp [hdash, hdot]

/-- The reader of a quoted scalar begins at its quote. -/
theorem token_quote (hmarker : s.cursor.atMarker = false) (hc : c = quote ∨ c = '"') :
    s.token c = s.quotedScalar := by
  rcases hc with rfl | rfl
  all_goals simp +decide [token, hmarker]

/-- A block scalar begins at its bar. -/
theorem token_bar (hmarker : s.cursor.atMarker = false) (hflow : s.inFlow = false) :
    s.token '|' = s.blockScalar := by
  simp +decide [token, hmarker, hflow]

/-- A plain scalar begins with any character that does not begin another token. -/
theorem token_plain (hmarker : s.cursor.atMarker = false) (hflow : s.inFlow = false)
    (hrest : s.cursor.rest = c :: t ++ u) (hopens : opensIndicator (c :: t) = false)
    (hsolid : isGap (some c) = false) : s.token c = s.plainScalar := by
  simp only [opensIndicator, Bool.or_eq_false_iff, decide_eq_false_iff_not, Bool.and_eq_false_iff] at hopens
  obtain ⟨⟨⟨⟨hother, hquote⟩, hfollows⟩, -⟩, -⟩ := hopens
  have hbrace : c.toNat ≠ 0x7B ∧ c.toNat ≠ 0x7D := by
    constructor
    all_goals
      intro h
      rw [Json.eq_ofNat_of_toNat_eq h] at hother
      exact hother (by decide)
  by_cases hindicator : c ∈ "?:-".toList
  · -- an indicator of blocks counts only before white space
    have hgap := hfollows.resolve_left (not_not_intro hindicator)
    have hnext : isGap (s.cursor.at? 1) = false := by
      cases t with
      | nil => cases hgap
      | cons d t => simpa [Cursor.at?, hrest] using hgap
    have hblank : (s.cursor.at? 1).any isBlank = false := by
      cases hat : s.cursor.at? 1 with
      | none => rfl
      | some d =>
        rw [hat, isGap, Bool.or_eq_false_iff] at hnext
        simpa using hnext.1
    rcases (by simpa using hindicator : c = '?' ∨ c = ':' ∨ c = '-') with rfl | rfl | rfl
    all_goals simp +decide [token, hmarker, hflow, hnext, hblank, opensPlain]
  · simp at hother hindicator
    simp [token, hmarker, hflow, hother, hindicator, hbrace, hquote, hsolid, opensPlain]

/-! ### Lines -/

/-- What the tokens of a block document depend on between two lines. -/
structure Blocks where
  /-- The tokens so far. -/
  tokens : List Token
  /-- The column of the innermost block. -/
  indent : Int
  /-- The columns of the blocks around it, the innermost first. -/
  outer : List Int

/-- The same blocks after further tokens. -/
def Blocks.add (b : Blocks) (ts : List Token) : Blocks :=
  { b with tokens := b.tokens ++ ts }

/-- The blocks after a mapping has been opened at a column, unless one is open there. -/
def Blocks.openMapping (b : Blocks) (n : Nat) : Blocks :=
  if b.indent < n then ⟨b.tokens ++ [.blockMappingStart], n, b.indent :: b.outer⟩ else b

theorem Blocks.indent_openMapping {b : Blocks} (h : b.indent ≤ n) : (b.openMapping n).indent = n := by
  unfold openMapping
  split
  · rfl
  · omega

/-- The tokens so far and the open blocks. -/
def blocks (s : Progress) : Blocks :=
  ⟨s.tokens.reverse, s.indent, s.outer⟩

/-- A token is added to the tokens so far, whatever becomes of the keys. -/
theorem blocks_accept {b : Blocks} (h : s.blocks = b) (t : Token) (p : Cursor) (keyAllowed : Bool)
    (keys : List (Option KeyPlace)) :
    Progress.blocks { s.accept t p keyAllowed with keys := keys } = b.add [t] := by
  rw [← h]
  simp [blocks, accept, Blocks.add]

/-- The reading stands behind the indentation of a line, where a key may begin. -/
structure AtLine (s : Progress) (b : Blocks) (line : Text) : Prop where
  /-- The tokens so far and the open blocks. -/
  blocks : s.blocks = b
  /-- No key is left open by an earlier line. -/
  keys : ∃ k, s.keys = [k] ∧
    ∀ place ∈ k, place.required = false ∧ place.cursor.line < s.cursor.line
  /-- A key may begin. -/
  keyAllowed : s.keyAllowed = true
  /-- The line begins like a token. -/
  startsToken : StartsToken s.cursor.rest
  /-- The indentation of the line is the column that has been reached. -/
  line : spaces s.cursor.column ++ s.cursor.rest = line

/-- The reading stands behind an indicator of a block. -/
structure InLine (s : Progress) (b : Blocks) (rest : Text) (keyAllowed : Bool) : Prop where
  /-- The tokens so far and the open blocks. -/
  blocks : s.blocks = b
  /-- No key is open. -/
  keys : s.keys = [none]
  /-- Whether a key may begin. -/
  keyAllowed : s.keyAllowed = keyAllowed
  /-- What is left. -/
  rest : s.cursor.rest = rest
  /-- The indicator stands in the innermost block. -/
  column : s.indent < s.cursor.column

/-- The tokens of a stream are settled when the reading has come to the start of a line. -/
def LineYields (b : Blocks) (line : Text) (tokens : List Token) : Prop :=
  ∀ s, AtLine s b line → Yields s tokens

/-- The tokens of a stream are settled when the reading has come behind an indicator. -/
def RestYields (b : Blocks) (rest : Text) (keyAllowed : Bool) (tokens : List Token) : Prop :=
  ∀ s, InLine s b rest keyAllowed → Yields s tokens

variable {b : Blocks} {line rest : Text} {keyAllowed : Bool} {k : Option KeyPlace}

theorem inFlow_eq_false (h : s.keys = [k]) : s.inFlow = false := by
  rw [inFlow, h]

theorem AtLine.indent_eq (h : AtLine s b line) : s.indent = b.indent :=
  congrArg Blocks.indent h.blocks

theorem InLine.indent_eq (h : InLine s b rest keyAllowed) : s.indent = b.indent :=
  congrArg Blocks.indent h.blocks

/-- A line is split at the column that has been reached. -/
theorem AtLine.column_eq (h : AtLine s b (spaces n ++ u)) (hu : StartsToken u) :
    s.cursor.column = n ∧ s.cursor.rest = u :=
  spaces_append_inj h.startsToken.startsSolid hu.startsSolid h.line

/-- Behind a line feed the next line is at hand. -/
theorem LineYields.of_feed {indent : Nat} (h : LineYields b line tokens) (hblocks : s.blocks = b)
    (hkeys : s.keys = [k])
    (hk : ∀ place ∈ k, place.required = false ∧ place.cursor.line ≤ s.cursor.line)
    (hrest : s.cursor.rest = '\n' :: line) (hline : StartsLine indent line) : Yields s tokens := by
  obtain ⟨n, -, u, rfl, hu⟩ := hline
  have hlater : s.cursor.line < (s.cursor.behind ('\n' :: spaces n)).line :=
    Cursor.line_lt_behind (c := '\n') (by decide) List.mem_cons_self _
  have hcolumn := Cursor.column_behind_feed n s.cursor
  have hnext : (s.cursor.behind ('\n' :: spaces n)).rest = u :=
    Cursor.rest_behind (by simpa using hrest)
  have hat : AtLine { s with
      cursor := s.cursor.behind ('\n' :: spaces n), keyAllowed := s.keyAllowed || !s.inFlow } b
      (spaces n ++ u) := by
    constructor
    case blocks => exact hblocks
    case keys => exact ⟨k, hkeys, fun place hplace =>
      ⟨(hk place hplace).1, Nat.lt_of_le_of_lt (hk place hplace).2 hlater⟩⟩
    case keyAllowed => simp [inFlow_eq_false hkeys]
    case startsToken => exact hnext ▸ hu
    case line => rw [hcolumn, hnext]
  refine (h _ hat).of_skipToToken (hnext ▸ hu) ?_ fun fuel _ => skipToToken_line hrest hu fuel
  rw [hnext, hrest]
  simp
  omega

/-- The next line is at hand after a line without a value. -/
theorem LineYields.feed {indent : Nat} (h : LineYields b line tokens) (hline : StartsLine indent line) :
    RestYields b ('\n' :: line) keyAllowed tokens :=
  fun _ hs => h.of_feed hs.blocks hs.keys nofun hs.rest hline

/-! ### Scalars behind an indicator -/

/-- White space behind an indicator is passed. -/
theorem RestYields.space (h : RestYields b u keyAllowed tokens) (hu : StartsToken u) :
    RestYields b (' ' :: u) keyAllowed tokens := by
  intro s hs
  have hrest : s.cursor.rest = spaces 1 ++ u := hs.rest
  have hnext : (s.cursor.behind (spaces 1)).rest = u := Cursor.rest_behind hrest
  have hcolumn := Cursor.column_behind (isOneLine_spaces 1) s.cursor
  have hin : InLine { s with cursor := s.cursor.behind (spaces 1) } b u keyAllowed :=
    ⟨hs.blocks, hs.keys, hs.keyAllowed, hnext, by
      have hbefore := hs.column
      simp only [hcolumn]
      omega⟩
  refine (h _ hin).of_skipToToken (hnext ▸ hu) ?_ fun fuel _ => skipToToken_spaces hrest hu _
  rw [hnext, hrest]
  simp

/-- No key is required behind an indicator. -/
theorem InLine.exists_noteKey (hs : InLine s b rest keyAllowed) :
    ∃ k, s.noteKey = some { s with keys := [k] } ∧
      ∀ place ∈ k, place.required = false ∧ place.cursor.line ≤ s.cursor.line := by
  have hsame : { s with keys := [none] } = s := by rw [← hs.keys]
  by_cases hallowed : s.keyAllowed = true
  · refine ⟨some ⟨s.indent == Int.ofNat s.cursor.column, s.tokens.length, s.cursor⟩,
      noteKey_eq hs.keys nofun hallowed, fun place hplace => ?_⟩
    obtain rfl := Option.some.inj hplace
    have hcolumn : s.indent ≠ Int.ofNat s.cursor.column := Int.ne_of_lt hs.column
    exact ⟨by simpa using hcolumn, Nat.le_refl _⟩
  · exact ⟨none, by rw [noteKey, if_neg hallowed, hsame], nofun⟩

/-- A plain scalar is one token. -/
theorem token_plainScalar (hallowed : plainAllowed t = true) (hne : t ≠ [])
    (hrest : s.cursor.rest = t ++ u) (hkeys : s.keys = [k]) (hmarker : s.cursor.atMarker = false)
    (hindent : s.indent ≤ s.cursor.column) {k' : Option KeyPlace}
    (hnote : s.noteKey = some { s with keys := [k'] }) {broken : Bool} {place : Cursor}
    (hend : PlainEnd (s.indent + 1) (s.cursor.behind t) broken place) :
    ∀ c, s.cursor.rest.head? = some c →
      s.token c = some (accept { s with keys := [k'] } (.scalar true t) place broken) := by
  intro c hc
  have hplain := isPlain_of_plainAllowed hallowed hne
  have hread := readPlain_eq hplain hrest hend hmarker (by simpa using hindent)
  obtain ⟨d, t, rfl⟩ := List.exists_cons_of_ne_nil hne
  obtain rfl : d = c := by simpa [hrest] using hc
  obtain ⟨hopens, -⟩ := plainAllowed_iff.1 hallowed
  have hflow : inFlow { s with keys := [k'] } = false := rfl
  rw [token_plain hmarker (inFlow_eq_false hkeys) hrest hopens
    (startsSolid_cons.1 hplain.startsSolid), plainScalar, hnote]
  simp [hread, hflow]

/-- A quoted scalar is one token. -/
theorem token_quotedScalar (hfits : Fits (styleOf t) t)
    (hstyle : styleOf t = .singleQuoted ∨ styleOf t = .doubleQuoted) (hindent : 0 < indent)
    (hrest : s.cursor.rest = scalar indent t ++ u) (hu : u.head? ≠ some quote)
    (hnote : s.noteKey = some { s with keys := [k] }) :
    ∀ c, s.cursor.rest.head? = some c →
      s.token c = some (accept { s with keys := [k] } (.scalar false t)
        (s.cursor.behind (scalar indent t)) false) := by
  intro c hc
  obtain ⟨hquote, hread⟩ : (c = quote ∨ c = '"') ∧
      readQuoted s.cursor = some (t, s.cursor.behind (scalar indent t)) := by
    rcases hstyle with hstyle | hstyle
    all_goals
      rw [hstyle] at hfits
      simp only [scalar, hstyle] at hrest ⊢
    · exact ⟨.inl (by simpa [hrest, singleQuoted_eq, eq_comm] using hc),
        readQuoted_singleQuoted hfits hrest hu hindent⟩
    · exact ⟨.inr (by simpa [hrest, doubleQuoted_eq, eq_comm] using hc), readQuoted_doubleQuoted hrest⟩
  obtain ⟨v, hcons⟩ : ∃ v, s.cursor.rest = c :: v := ⟨_, (List.cons_head?_tail hc).symm⟩
  have hmarker : s.cursor.atMarker = false := by
    rcases hquote with rfl | rfl
    all_goals exact atMarker_eq_false_of_head hcons (by decide) (by decide)
  rw [token_quote hmarker hquote, quotedScalar, hnote]
  simp [hread]

/-- A scalar whose reading ends at the token of the next line is followed by this line. -/
theorem LineYields.of_scalar {token : Token} {written : Text}
    (h : LineYields (b.add [token]) (spaces n ++ u) tokens) (hs : InLine s b rest keyAllowed)
    (hstart : StartsToken s.cursor.rest) (hrest : s.cursor.rest = written ++ u) (hne : written ≠ [])
    (hu : StartsToken u) (hcolumn : (s.cursor.behind written).column = n)
    (hk : ∀ place ∈ k, place.required = false ∧ place.cursor.line < (s.cursor.behind written).line)
    (htoken : ∀ c, s.cursor.rest.head? = some c →
      s.token c = some (accept { s with keys := [k] } token (s.cursor.behind written) true)) :
    Yields s tokens := by
  have hnext : (s.cursor.behind written).rest = u := Cursor.rest_behind hrest
  have hat : AtLine (accept { s with keys := [k] } token (s.cursor.behind written) true)
      (b.add [token]) (spaces n ++ u) := by
    constructor
    case blocks => exact blocks_accept hs.blocks _ _ _ _
    case keys => exact ⟨k, rfl, hk⟩
    case keyAllowed => rfl
    case startsToken => exact hnext ▸ hu
    case line => simp only [accept, hcolumn, hnext]
  exact (h _ hat).of_token hstart (Int.le_of_lt hs.column) htoken
    (Cursor.length_rest_behind hrest hne)

/-- A plain scalar goes up to the end of its line. -/
theorem LineYields.plain {indent : Nat} (h : LineYields (b.add [.scalar true t]) line tokens)
    (hindent : b.indent = indent) (hallowed : plainAllowed t = true) (hne : t ≠ [])
    (hline : StartsLine indent line) : RestYields b (t ++ '\n' :: line) keyAllowed tokens := by
  intro s hs
  obtain ⟨n, hn, u, rfl, hu⟩ := hline
  obtain ⟨k, hnote, hk⟩ := hs.exists_noteKey
  have hsindent : s.indent = indent := hs.indent_eq.trans hindent
  have hcolumn := hs.column
  have hrest : s.cursor.rest = t ++ ('\n' :: spaces n) ++ u := by simp [hs.rest]
  have hlater : s.cursor.line < (s.cursor.behind (t ++ '\n' :: spaces n)).line :=
    Cursor.line_lt_behind (c := '\n') (by decide) (by simp) _
  have hplace : (s.cursor.behind (t ++ '\n' :: spaces n)).column = n := by
    rw [Cursor.behind_append, Cursor.column_behind_feed]
  have hend : PlainEnd (s.indent + 1) (s.cursor.behind t) true
      (s.cursor.behind (t ++ '\n' :: spaces n)) := by
    rw [Cursor.behind_append]
    exact .line (Cursor.rest_behind hs.rest) hu.startsSolid (by rw [hsindent]; simp; omega)
  have htoken := token_plainScalar hallowed hne hs.rest hs.keys (atMarker_eq_false (by omega))
    (Int.le_of_lt hcolumn) hnote hend
  exact h.of_scalar hs (hs.rest ▸ startsToken_of_plainAllowed hallowed hne _) hrest (by simp [hne]) hu
    hplace (fun place hplace => ⟨(hk place hplace).1, Nat.lt_of_le_of_lt (hk place hplace).2 hlater⟩)
    htoken

/-- A quoted scalar is followed by the end of its line. -/
theorem LineYields.quoted {indent : Nat} (h : LineYields (b.add [.scalar false t]) line tokens)
    (hstyle : styleOf t = .singleQuoted ∨ styleOf t = .doubleQuoted) (hline : StartsLine indent line) :
    RestYields b (scalar (indent + 2) t ++ '\n' :: line) keyAllowed tokens := by
  intro s hs
  obtain ⟨k, hnote, hk⟩ := hs.exists_noteKey
  have hquote : ('\n' :: line).head? ≠ some quote := by
    rw [List.head?_cons]
    decide
  have htoken := token_quotedScalar (fits_styleOf t) hstyle (Nat.succ_pos _) hs.rest hquote hnote
  have hstart : StartsToken s.cursor.rest := hs.rest ▸ startsToken_scalar _ t _
  have hlater := Cursor.line_le_behind s.cursor (scalar (indent + 2) t)
  refine Yields.of_token ?_ hstart (Int.le_of_lt hs.column) htoken
    (Cursor.length_rest_behind hs.rest (scalar_ne_nil _ t))
  refine h.of_feed (k := k) ?_ rfl (fun place hplace => ?_) (Cursor.rest_behind hs.rest) hline
  · exact blocks_accept hs.blocks _ _ _ _
  · exact ⟨(hk place hplace).1, Nat.le_trans (hk place hplace).2 hlater⟩

/-- A literal scalar goes up to the line behind it. -/
theorem LineYields.literal {indent : Nat} (h : LineYields (b.add [.scalar false t]) line tokens)
    (hindent : b.indent = indent) (hstyle : styleOf t = .literal) (hline : StartsLine indent line) :
    RestYields b (scalar (indent + 2) t ++ (lineEnd t ++ line)) keyAllowed tokens := by
  intro s hs
  obtain ⟨n, hn, u, rfl, hu⟩ := hline
  have hfits := fits_styleOf t
  rw [hstyle] at hfits
  have hsindent : s.indent = indent := hs.indent_eq.trans hindent
  have hcolumn := hs.column
  have hscalar : Yaml.scalar (indent + 2) t = Yaml.literal (indent + 2) t := by
    rw [Yaml.scalar, hstyle]
  have hrest := hs.rest
  rw [hscalar] at hrest
  have hread := readBlock_literal hfits.1 hfits.2 hrest (by omega) hu.startsSolid
  rw [← hsindent] at hread
  have hwhole : s.cursor.rest = literal (indent + 2) t ++ (lineEnd t ++ spaces n) ++ u := by
    simp [hrest]
  obtain ⟨c, hlast, hbreak⟩ := exists_isBreak_getLast? hfits.1 (indent + 2)
  have hplace : (s.cursor.behind (literal (indent + 2) t ++ (lineEnd t ++ spaces n))).column = n := by
    rw [← List.append_assoc, Cursor.column_behind_append hlast hbreak (isOneLine_spaces n), length_spaces]
  have htoken : ∀ c, s.cursor.rest.head? = some c →
      s.token c = some (accept { s with keys := [none] } (.scalar false t)
        (s.cursor.behind (literal (indent + 2) t ++ (lineEnd t ++ spaces n))) true) := by
    intro c hc
    have hbar : s.cursor.rest.head? = some '|' := by
      rw [hrest]
      rfl
    obtain rfl := Option.some.inj (hbar.symm.trans hc)
    rw [token_bar (atMarker_eq_false (by omega)) (inFlow_eq_false hs.keys), blockScalar,
      dropKey_eq hs.keys nofun]
    simp [hread]
  exact h.of_scalar (k := none) hs (hs.rest ▸ startsToken_scalar _ t _) hwhole (by simp [Yaml.literal])
    hu hplace nofun htoken

/-- A scalar behind an indicator is read, with the end of its line. -/
theorem LineYields.scalar {indent : Nat} (h : LineYields (b.add [scalarToken t]) line tokens)
    (hindent : b.indent = indent) (hline : StartsLine indent line) :
    RestYields b (' ' :: (scalar (indent + 2) t ++ (endLine t ++ line))) keyAllowed tokens := by
  refine RestYields.space ?_ (startsToken_scalar _ t _)
  have hfits := fits_styleOf t
  rw [endLine_eq]
  cases hstyle : styleOf t with
  | plain =>
    rw [hstyle] at hfits
    rw [scalarToken, hstyle] at h
    simpa [Yaml.scalar, hstyle] using h.plain hindent hfits.2.1 hfits.1.ne_nil hline
  | singleQuoted =>
    rw [scalarToken, hstyle] at h
    simpa using h.quoted (.inl hstyle) hline
  | doubleQuoted =>
    rw [scalarToken, hstyle] at h
    simpa using h.quoted (.inr hstyle) hline
  | literal =>
    rw [scalarToken, hstyle] at h
    simpa using h.literal hindent hstyle hline

end Progress

end Sentential.Yaml
