import Mathlib.Tactic.Common
import Sentential.Proofs.Scanning

/-!
# Reading keys and indicators

What begins a line of a block document: a key in front of a colon, a dash, a question mark or a colon, or
what ends the innermost block.  Behind it stands a scalar, an empty flow collection, or nothing.
-/

namespace Sentential.Yaml

namespace Progress

variable {c : Char} {t u line : Text} {n indent : Nat} {s s' : Progress} {tokens : List Token} {b : Blocks}
  {k : Option KeyPlace}

theorem isBreak_eq_false_of_startsToken (h : StartsToken (c :: u)) : isBreak c = false :=
  (isGap_eq_false_iff.1 (startsToken_cons.1 h).1).2.2

/-- A token of one character is read, and then what stands behind it. -/
theorem Yields.of_character (h : Yields s' tokens) (hrest : s.cursor.rest = c :: u)
    (hstart : StartsToken (c :: u)) (hindent : s.indent ≤ s.cursor.column) (htoken : s.token c = some s')
    (hcursor : s'.cursor = s.cursor.skip 1) : Yields s tokens := by
  refine h.of_token (hrest ▸ hstart) hindent (fun d hd => ?_) ?_
  · obtain rfl : c = d := by simpa [hrest] using hd
    exact htoken
  · rw [hcursor, Cursor.skip_one hrest (isBreak_eq_false_of_startsToken hstart)]
    exact Cursor.length_rest_behind (t := [c]) hrest (List.cons_ne_nil _ _)

/-! ### Keys in front of a colon -/

/-- A scalar in front of a colon marks no document. -/
theorem atMarker_scalar {place : Cursor} (h : place.rest = scalar indent t ++ ':' :: u) :
    place.atMarker = false := by
  have hfits := fits_styleOf t
  cases hstyle : styleOf t with
  | plain =>
    rw [hstyle] at hfits
    obtain ⟨hopens, -⟩ := plainAllowed_iff.1 hfits.2.1
    rw [scalar, hstyle] at h
    rw [Cursor.atMarker, h]
    -- a shorter key is told from a marker by its colon
    rcases t with _ | ⟨a, _ | ⟨b, _ | ⟨c, t⟩⟩⟩
    · simp
    · simp
    · simp
    · simp only [opensIndicator, Bool.or_eq_false_iff, decide_eq_false_iff_not] at hopens
      have htake : (a :: b :: c :: t ++ ':' :: u).take 3 = (a :: b :: c :: t).take 3 := rfl
      simp only [htake, hopens.1.2, hopens.2, decide_false, Bool.or_self, Bool.and_false, Bool.false_and]
  | singleQuoted =>
    rw [scalar, hstyle] at h
    exact atMarker_eq_false_of_head h (by decide) (by decide)
  | doubleQuoted =>
    rw [scalar, hstyle] at h
    exact atMarker_eq_false_of_head h (by decide) (by decide)
  | literal =>
    rw [scalar, hstyle] at h
    exact atMarker_eq_false_of_head h (by decide) (by decide)

/-- A key in front of a colon is one token. -/
theorem token_scalar (hline : IsOneLine t) (hindent : 0 < indent)
    (hrest : s.cursor.rest = scalar indent t ++ ':' :: u) (hu : isGap u.head? = true)
    (hkeys : s.keys = [k]) (hcolumn : s.indent ≤ s.cursor.column) {k' : Option KeyPlace}
    (hnote : s.noteKey = some { s with keys := [k'] }) :
    ∀ c, s.cursor.rest.head? = some c →
      s.token c = some (accept { s with keys := [k'] } (scalarToken t)
        (s.cursor.behind (scalar indent t)) false) := by
  have hfits := fits_styleOf t
  have hmarker := atMarker_scalar hrest
  have hquote : (':' :: u).head? ≠ some quote := by
    rw [List.head?_cons]
    decide
  cases hstyle : styleOf t with
  | plain =>
    rw [hstyle] at hfits
    have hscalar : scalar indent t = t := by rw [scalar, hstyle]
    rw [hscalar] at hrest ⊢
    have hend : PlainEnd (s.indent + 1) (s.cursor.behind t) false (s.cursor.behind t) :=
      .colon (Cursor.rest_behind hrest) hu
    rw [scalarToken, hstyle]
    exact token_plainScalar hfits.2.1 hfits.1.ne_nil hrest hkeys hmarker hcolumn hnote hend
  | singleQuoted =>
    rw [scalarToken, hstyle]
    exact token_quotedScalar hfits (.inl hstyle) hindent hrest hquote hnote
  | doubleQuoted =>
    rw [scalarToken, hstyle]
    exact token_quotedScalar hfits (.inr hstyle) hindent hrest hquote hnote
  | literal => exact absurd hstyle (styleOf_ne_literal hline)

/-- A colon before white space begins a value. -/
theorem token_colon (hcolumn : 0 < s.cursor.column) (hnext : isGap (s.cursor.at? 1) = true) :
    s.token ':' = s.value := by
  simp +decide [token, atMarker_eq_false hcolumn, hnext]

/-- The colon behind a key opens a mapping, unless one is open at the column of the key. -/
theorem blocks_simpleValue {name : Token} {place : KeyPlace} (hblocks : s.blocks = b.add [name])
    (hnumber : place.number = b.tokens.length) (hkeys : s.keys = [k]) :
    (s.simpleValue place).blocks =
      (b.openMapping place.cursor.column).add [.key, name, .value] := by
  have hflow : s.inFlow = false := inFlow_eq_false hkeys
  obtain ⟨ts, indent, outer⟩ := b
  simp only [Progress.blocks, Blocks.add, Blocks.mk.injEq] at hblocks
  obtain ⟨htokens, hindent, houter⟩ := hblocks
  have htokens : s.tokens = name :: ts.reverse := by
    rw [← List.reverse_reverse s.tokens, htokens, List.reverse_append, List.reverse_singleton,
      List.singleton_append]
  by_cases hopens : indent < (place.cursor.column : Int)
  all_goals
    simp [simpleValue, hflow, hopens, hindent, houter, insertAt, hnumber, htokens, Progress.blocks,
      accept, Blocks.openMapping, Blocks.add]

/-- The colon behind a key is followed by its value. -/
theorem RestYields.keyColon {name : Token} {place : KeyPlace}
    (h : RestYields ((b.openMapping place.cursor.column).add [.key, name, .value]) u false tokens)
    (hblocks : s.blocks = b.add [name]) (hnumber : place.number = b.tokens.length)
    (hkeys : s.keys = [some place]) (hcurrent : s.isCurrent place = true)
    (hrest : s.cursor.rest = ':' :: u) (hu : isGap u.head? = true)
    (hindent : b.indent ≤ place.cursor.column) (hcolumn : place.cursor.column < s.cursor.column) :
    Yields s tokens := by
  have hsindent : s.indent = b.indent := congrArg Blocks.indent hblocks
  have htoken : s.token ':' = some (s.simpleValue place) := by
    have hnext : isGap (s.cursor.at? 1) = true := by
      rw [Cursor.at?, hrest, List.getElem?_cons_succ, ← List.head?_eq_getElem?]
      exact hu
    rw [token_colon (by omega) hnext, value, hkeys]
    simp only [hcurrent, if_true]
  have hcursor : (s.simpleValue place).cursor = s.cursor.skip 1 := by
    rw [simpleValue]
    simp only [accept, insertAt]
    split <;> rfl
  have hskip : s.cursor.skip 1 = s.cursor.behind [':'] := Cursor.skip_one hrest (by decide)
  have hplus : (s.cursor.behind [':']).column = s.cursor.column + 1 := Cursor.column_behind (by decide) _
  have hblocks' := blocks_simpleValue hblocks hnumber hkeys
  have hin : InLine (s.simpleValue place)
      ((b.openMapping place.cursor.column).add [.key, name, .value]) u false := by
    constructor
    case blocks => exact hblocks'
    case keys =>
      simp only [simpleValue, insertAt]
      split <;> simp [hkeys]
    case keyAllowed => rfl
    case rest => rw [hcursor, hskip, Cursor.rest_behind (t := [':']) hrest]
    case column =>
      have hcolumn' : (s.simpleValue place).indent = place.cursor.column :=
        (congrArg Blocks.indent hblocks').trans (Blocks.indent_openMapping hindent)
      rw [hcolumn', hcursor, hskip, hplus]
      omega
  exact (h _ hin).of_character hrest (startsToken_cons.2 (by decide)) (by omega) htoken hcursor

/-- A key without a question mark is read with its colon. -/
theorem RestYields.simpleKey
    (h : RestYields ((b.openMapping n).add [.key, scalarToken t, .value]) u false tokens)
    (hkey : isSimpleKey t = true) (hindent : 0 < indent) (hn : b.indent ≤ n)
    (hu : isGap u.head? = true) :
    LineYields b (spaces n ++ (scalar indent t ++ ':' :: u)) tokens := by
  intro s hs
  simp only [isSimpleKey, Bool.and_eq_true, Bool.not_eq_true', List.any_eq_false,
    decide_eq_true_eq, Bool.not_eq_true] at hkey
  obtain ⟨hline, hbytes⟩ : IsOneLine t ∧ t.byteLength ≤ 128 := hkey
  obtain ⟨hcolumn, hrest⟩ := hs.column_eq (startsToken_scalar indent t _)
  obtain ⟨k, hkeys, hk⟩ := hs.keys
  have hsindent : s.indent ≤ s.cursor.column := by
    rw [hs.indent_eq, hcolumn]
    exact hn
  have hnote := noteKey_eq hkeys (fun place hplace => (hk place hplace).1) hs.keyAllowed
  have htoken := token_scalar hline hindent hrest hu hkeys hsindent hnote
  refine Yields.of_token ?_ hs.startsToken hsindent htoken
    (Cursor.length_rest_behind hrest (scalar_ne_nil _ t))
  -- the key is short enough to be one when its colon is read
  have hwritten := isOneLine_scalar hline indent
  have hlength := List.length_pos_iff.2 (scalar_ne_nil indent t)
  refine RestYields.keyColon (by rw [hcolumn]; exact h) ?_ ?_ rfl ?_ (Cursor.rest_behind hrest) hu
    (by rw [hcolumn]; exact hn) ?_
  · exact blocks_accept hs.blocks _ _ _ _
  · simp [← hs.blocks, Progress.blocks]
  · have hle := byteLength_scalar_le hline indent
    simp only [isCurrent, accept, Cursor.line_behind hwritten, Cursor.offset_behind, beq_self_eq_true,
      Bool.true_and, decide_eq_true_eq]
    omega
  · simp only [accept, Cursor.column_behind hwritten]
    omega

/-! ### Indicators at the start of a line -/

/-- Before white space a character with a meaning of its own at the start of a line is an indicator. -/
theorem AtLine.isGap_at? (hs : AtLine s b (spaces n ++ c :: ' ' :: u)) (hc : c ∈ "?:-".toList) :
    s.cursor.column = n ∧ s.cursor.rest = c :: ' ' :: u ∧ isGap (s.cursor.at? 1) = true ∧
      StartsToken (c :: ' ' :: u) := by
  have hstart : StartsToken (c :: ' ' :: u) := by
    rcases (by simpa using hc : c = '?' ∨ c = ':' ∨ c = '-') with rfl | rfl | rfl
    all_goals exact startsToken_cons.2 (by decide)
  obtain ⟨hcolumn, hrest⟩ := hs.column_eq hstart
  refine ⟨hcolumn, hrest, ?_, hstart⟩
  rw [Cursor.at?, hrest]
  rfl

/-- Behind an indicator at the start of a line its value is read. -/
theorem RestYields.indicator {b' : Blocks} (h : RestYields b' (' ' :: u) true tokens)
    (hs : AtLine s b (spaces n ++ c :: ' ' :: u)) (hc : c ∈ "?:-".toList) (hn : b.indent ≤ n)
    (hn' : b'.indent ≤ n) (htoken : s.token c = some s') (hcursor : s'.cursor = s.cursor.skip 1)
    (hkeys : s'.keys = [none]) (hallowed : s'.keyAllowed = true) (hblocks : s'.blocks = b') :
    Yields s tokens := by
  obtain ⟨hcolumn, hrest, -, hstart⟩ := hs.isGap_at? hc
  have hbreak := isBreak_eq_false_of_startsToken hstart
  have hskip := Cursor.skip_one hrest hbreak
  have hplus : (s.cursor.behind [c]).column = s.cursor.column + 1 :=
    Cursor.column_behind (by simpa [IsOneLine] using hbreak) _
  have hin : InLine s' b' (' ' :: u) true := by
    constructor
    case blocks => exact hblocks
    case keys => exact hkeys
    case keyAllowed => exact hallowed
    case rest => rw [hcursor, hskip, Cursor.rest_behind (t := [c]) hrest]
    case column =>
      have hindent : s'.indent = b'.indent := congrArg Blocks.indent hblocks
      rw [hindent, hcursor, hskip, hplus]
      omega
  have hindent : s.indent ≤ s.cursor.column := by
    rw [hs.indent_eq, hcolumn]
    exact hn
  exact (h _ hin).of_character hrest hstart hindent htoken hcursor

/-- A dash begins a member of the sequence that belongs to the entry around it. -/
theorem RestYields.dash (h : RestYields (b.add [.blockEntry]) (' ' :: u) true tokens)
    (hn : b.indent = n) (hpos : 0 < n) : LineYields b (spaces n ++ '-' :: ' ' :: u) tokens := by
  intro s hs
  obtain ⟨hcolumn, hrest, hnext, -⟩ := hs.isGap_at? (by decide)
  obtain ⟨k, hkeys, hk⟩ := hs.keys
  have hmarker : s.cursor.atMarker = false := atMarker_eq_false (by omega)
  have hopen : s.openBlock s.cursor.column .blockSequenceStart = s := by
    simp [openBlock, hs.indent_eq, hn, hcolumn]
  have htoken : s.token '-' = some (accept { s with keys := [none] } .blockEntry (s.cursor.skip 1) true) := by
    have hentry : s.token '-' = s.blockEntry := by simp +decide [token, hmarker, hnext]
    rw [hentry, blockEntry, if_neg (by simp [hs.keyAllowed]), hopen,
      dropKey_eq hkeys fun place hplace => (hk place hplace).1]
    rfl
  exact h.indicator hs (by decide) (Int.le_of_eq hn) (Int.le_of_eq hn) htoken rfl rfl rfl
    (blocks_accept hs.blocks _ _ _ _)

/-- What a question mark or a colon does with the open blocks. -/
theorem blocks_openBlock (hkeys : s.keys = [k]) (n : Nat) :
    (s.openBlock n .blockMappingStart).blocks = s.blocks.openMapping n := by
  by_cases hopens : s.indent < (n : Int)
  all_goals simp [openBlock, inFlow_eq_false hkeys, hopens, Progress.blocks, Blocks.openMapping]

/-- A question mark begins an entry whose key stands on lines of its own. -/
theorem RestYields.questionMark (h : RestYields ((b.openMapping n).add [.key]) (' ' :: u) true tokens)
    (hn : b.indent ≤ n) (hpos : 0 < n) : LineYields b (spaces n ++ '?' :: ' ' :: u) tokens := by
  intro s hs
  obtain ⟨hcolumn, hrest, hnext, -⟩ := hs.isGap_at? (by decide)
  obtain ⟨k, hkeys, hk⟩ := hs.keys
  have hmarker : s.cursor.atMarker = false := atMarker_eq_false (by omega)
  have hkeys' : (s.openBlock n .blockMappingStart).keys = [k] := by
    unfold openBlock
    split <;> exact hkeys
  have hcursor : (s.openBlock n .blockMappingStart).cursor = s.cursor := by
    unfold openBlock
    split <;> rfl
  have htoken : s.token '?' = some (accept { s.openBlock n .blockMappingStart with keys := [none] } .key
      (s.cursor.skip 1) true) := by
    have hentry : s.token '?' = s.explicitKey := by simp +decide [token, hmarker, hnext]
    rw [hentry, explicitKey, if_neg (by simp [hs.keyAllowed]), hcolumn,
      dropKey_eq hkeys' fun place hplace => (hk place hplace).1]
    change some (accept { s.openBlock n .blockMappingStart with keys := [none] } .key
      ((s.openBlock n .blockMappingStart).cursor.skip 1) true) = _
    rw [hcursor]
  have hblocks : (s.openBlock n .blockMappingStart).blocks = b.openMapping n := by
    rw [blocks_openBlock hkeys, hs.blocks]
  exact h.indicator hs (by decide) hn (by simp [Blocks.add, Blocks.indent_openMapping hn])
    htoken rfl rfl rfl (blocks_accept hblocks _ _ _ _)

/-- A colon at the start of a line is followed by the value of a key with a question mark. -/
theorem RestYields.colon (h : RestYields (b.add [.value]) (' ' :: u) true tokens)
    (hn : b.indent = n) (hpos : 0 < n) : LineYields b (spaces n ++ ':' :: ' ' :: u) tokens := by
  intro s hs
  obtain ⟨hcolumn, hrest, hnext, -⟩ := hs.isGap_at? (by decide)
  obtain ⟨k, hkeys, hk⟩ := hs.keys
  have hbare (s₁ : Progress) (hkeys₁ : s₁.keys = [none]) (hallowed : s₁.keyAllowed = true)
      (hindent : s₁.indent = s₁.cursor.column) :
      s₁.bareValue = some (s₁.accept .value (s₁.cursor.skip 1) true) := by
    have hopen : s₁.openBlock s₁.cursor.column .blockMappingStart = s₁ := by
      simp [openBlock, hindent]
    rw [bareValue, if_neg (by simp [hallowed]), hopen]
    simp [inFlow_eq_false hkeys₁]
  have hindent : s.indent = s.cursor.column := by rw [hs.indent_eq, hn, hcolumn]
  have htoken : s.token ':' = some (accept { s with keys := [none] } .value (s.cursor.skip 1) true) := by
    rw [token_colon (by omega) hnext, value, hkeys]
    cases k with
    | none =>
      have hsame : { s with keys := [none] } = s := by rw [← hkeys]
      rw [hsame]
      exact hbare s hkeys hs.keyAllowed hindent
    | some place =>
      -- a place on an earlier line is given up
      obtain ⟨hrequired, hline⟩ := hk place rfl
      have hcurrent : s.isCurrent place = false := by
        simp [isCurrent, Nat.ne_of_lt hline]
      simp only [hcurrent, hrequired, Bool.false_eq_true, if_false]
      exact hbare { s with keys := [none] } rfl hs.keyAllowed hindent
  exact h.indicator hs (by decide) (Int.le_of_eq hn) (Int.le_of_eq hn) htoken rfl rfl rfl
    (blocks_accept hs.blocks _ _ _ _)

/-! ### Empty collections -/

theorem openFlow_eq (hs : InLine s b rest false) (t : Token) :
    s.openFlow t = some { s.accept t (s.cursor.skip 1) true with keys := [none, none] } := by
  rw [openFlow, noteKey, if_neg (by simp [hs.keyAllowed])]
  simp [hs.keys]

theorem closeFlow_eq (hkeys : s.keys = [none, none]) (t : Token) :
    s.closeFlow t = some { s.accept t (s.cursor.skip 1) false with keys := [none] } := by
  have hflow : s.inFlow = true := by rw [inFlow, hkeys]
  have hdrop : s.dropKey = some s := by rw [dropKey, hkeys]
  rw [closeFlow, hdrop]
  simp [hflow, hkeys]

/-- The second bracket of an empty flow collection ends its line. -/
theorem LineYields.closing {closing : Char} {last : Token} (h : LineYields (b.add [last]) line tokens)
    (hline : StartsLine n line) (hsolid : ∀ v, StartsToken (closing :: v))
    (hclosing : ∀ s : Progress, s.cursor.atMarker = false → s.token closing = s.closeFlow last)
    (hblocks : s.blocks = b) (hkeys : s.keys = [none, none])
    (hrest : s.cursor.rest = closing :: '\n' :: line) (hindent : s.indent ≤ s.cursor.column)
    (hcolumn : 0 < s.cursor.column) : Yields s tokens := by
  have hskip := Cursor.skip_one hrest (isBreak_eq_false_of_startsToken (hsolid []))
  have hnext : (s.cursor.skip 1).rest = '\n' :: line :=
    hskip ▸ Cursor.rest_behind (t := [closing]) hrest
  have hyields : Yields { s.accept last (s.cursor.skip 1) false with keys := [none] } tokens :=
    h.of_feed (blocks_accept hblocks _ _ _ _) rfl (by simp) hnext hline
  refine hyields.of_character hrest (hsolid _) hindent ?_ rfl
  rw [hclosing s (atMarker_eq_false hcolumn), closeFlow_eq hkeys]

/-- An empty flow collection is two tokens. -/
theorem LineYields.brackets {opening closing : Char} {first last : Token}
    (h : LineYields (b.add [first, last]) line tokens) (hline : StartsLine n line)
    (hsolid : ∀ v, StartsToken (opening :: v) ∧ StartsToken (closing :: v))
    (hopening : ∀ s : Progress, s.cursor.atMarker = false → s.token opening = s.openFlow first)
    (hclosing : ∀ s : Progress, s.cursor.atMarker = false → s.token closing = s.closeFlow last)
    (hindent : 0 ≤ b.indent) :
    RestYields b (' ' :: opening :: closing :: '\n' :: line) false tokens := by
  refine RestYields.space (fun s hs => ?_) (hsolid _).1
  have hcolumn := hs.column
  have hsindent := hs.indent_eq
  have hadd : b.add [first, last] = (b.add [first]).add [last] := by simp [Blocks.add]
  rw [hadd] at h
  have hskip := Cursor.skip_one hs.rest (isBreak_eq_false_of_startsToken (hsolid []).1)
  have hnext : (s.cursor.skip 1).rest = closing :: '\n' :: line :=
    hskip ▸ Cursor.rest_behind (t := [opening]) hs.rest
  have hreach : s.indent ≤ ((s.cursor.column + 1 : Nat) : Int) := by omega
  have hyields : Yields { s.accept first (s.cursor.skip 1) true with keys := [none, none] } tokens :=
    h.closing hline (fun v => (hsolid v).2) hclosing (blocks_accept hs.blocks _ _ _ _) rfl hnext hreach
      (Nat.succ_pos _)
  refine hyields.of_character hs.rest (hsolid _).1 (Int.le_of_lt hcolumn) ?_ rfl
  rw [hopening s (atMarker_eq_false (by omega)), openFlow_eq hs]

/-- The empty list is two brackets. -/
theorem LineYields.emptyList (h : LineYields (b.add [.flowSequenceStart, .flowSequenceEnd]) line tokens)
    (hline : StartsLine n line) (hindent : 0 ≤ b.indent) :
    RestYields b (' ' :: '[' :: ']' :: '\n' :: line) false tokens := by
  refine h.brackets hline (fun v => ?_) (fun s hs => ?_) (fun s hs => ?_) hindent
  · exact ⟨startsToken_cons.2 (by decide), startsToken_cons.2 (by decide)⟩
  all_goals simp +decide [token, hs]

/-- The empty table is two braces. -/
theorem LineYields.emptyTable (h : LineYields (b.add [.flowMappingStart, .flowMappingEnd]) line tokens)
    (hline : StartsLine n line) (hindent : 0 ≤ b.indent) :
    RestYields b (' ' :: Char.ofNat 0x7B :: Char.ofNat 0x7D :: '\n' :: line) false tokens := by
  refine h.brackets hline (fun v => ?_) (fun s hs => ?_) (fun s hs => ?_) hindent
  · exact ⟨startsToken_cons.2 (by decide), startsToken_cons.2 (by decide)⟩
  all_goals simp +decide [token, hs]

/-! ### The end of a block -/

/-- A block ends before a line that stands further left. -/
theorem LineYields.blockEnd {ts : List Token} {inner around : Int} {outer : List Int}
    (h : LineYields ⟨ts ++ [.blockEnd], around, outer⟩ (spaces n ++ u) tokens) (hu : StartsToken u)
    (hinner : n < inner) (haround : around ≤ n) :
    LineYields ⟨ts, inner, around :: outer⟩ (spaces n ++ u) tokens := by
  intro s hs
  obtain ⟨hcolumn, hrest⟩ := hs.column_eq hu
  obtain ⟨k, hkeys, hk⟩ := hs.keys
  have hblocks := hs.blocks
  simp only [Progress.blocks, Blocks.mk.injEq] at hblocks
  obtain ⟨htokens, hindent, houter⟩ := hblocks
  have hclose : s.closeBlocks s.cursor.column =
      { s with tokens := .blockEnd :: s.tokens, indent := around, outer := outer } := by
    rw [closeBlocks, if_neg (by simp [inFlow_eq_false hkeys]), houter, List.length_cons, closeBlocksWithin,
      if_pos (by rw [hindent, hcolumn]; exact hinner), houter]
    exact closeBlocksWithin_eq_self (by rw [hcolumn]; exact haround) _
  have hat : AtLine { s with tokens := .blockEnd :: s.tokens, indent := around, outer := outer }
      ⟨ts ++ [.blockEnd], around, outer⟩ (spaces n ++ u) := by
    constructor
    case blocks => simp [Progress.blocks, htokens]
    case keys => exact ⟨k, hkeys, hk⟩
    case keyAllowed => exact hs.keyAllowed
    case startsToken => exact hs.startsToken
    case line => exact hs.line
  exact (h _ hat).of_closeBlocks hs.startsToken rfl hclose (by rw [hcolumn]; exact haround)

/-- The stream ends with the outermost block. -/
theorem LineYields.nil (hindent : b.indent = 0) (houter : b.outer = [-1])
    (htokens : tokens = b.tokens ++ [.blockEnd]) : LineYields b [] tokens := by
  intro s hs fuel hfuel
  obtain ⟨ts, indent, outer⟩ := b
  subst hindent houter htokens
  obtain ⟨fuel, rfl⟩ : ∃ k, fuel = k + 1 := ⟨fuel - 1, by omega⟩
  obtain ⟨hcolumn, hrest⟩ := hs.column_eq (n := 0) (u := []) nofun
  obtain ⟨k, hkeys, hk⟩ := hs.keys
  have hblocks := hs.blocks
  simp only [Progress.blocks, Blocks.mk.injEq] at hblocks
  obtain ⟨htokens, hindent, houter⟩ := hblocks
  have hpeek : s.cursor.peek? = none := by rw [Cursor.peek?, hrest, List.head?_nil]
  have hclose : s.closeBlocks (-1) =
      { s with tokens := .blockEnd :: s.tokens, indent := -1, outer := [] } := by
    rw [closeBlocks, if_neg (by simp [inFlow_eq_false hkeys]), houter]
    change closeBlocksWithin (0 + 1) (-1) s = _
    rw [closeBlocksWithin, if_pos (by rw [hindent]; decide), houter]
    rfl
  have hdrop : dropKey { s with tokens := .blockEnd :: s.tokens, indent := -1, outer := [] } =
      some { s with tokens := .blockEnd :: s.tokens, indent := -1, outer := [], keys := [none] } :=
    dropKey_eq hkeys fun place hplace => (hk place hplace).1
  rw [run, skipToToken_eq_self hs.startsToken, closeBlocks_eq_self (by rw [hindent, hcolumn]; decide), hpeek]
  simp [finish, hclose, hdrop, htokens]

/-- The tokens of a stream are what its first line yields. -/
theorem LineYields.tokensOf_eq (h : LineYields ⟨[], -1, []⟩ t tokens) (hstart : StartsToken t)
    (hallowed : ∀ c ∈ t, isAllowed c = true) : tokensOf t = some tokens := by
  have hat : AtLine ⟨⟨t, 0, 0, 0⟩, [], -1, [], [none], true⟩ ⟨[], -1, []⟩ t :=
    ⟨rfl, ⟨none, rfl, nofun⟩, rfl, hstart, rfl⟩
  rw [tokensOf, if_pos (List.all_eq_true.2 hallowed)]
  exact h _ hat _ (Nat.le_refl _)

end Progress

end Sentential.Yaml
