import Mathlib.Data.List.Infix
import Mathlib.Data.List.Pairwise
import Mathlib.Tactic.Common
import Sentential.Proofs.Tokens

/-!
# Where the tokens of a sentence stand

Each token knows where it starts, and with its text it spans a stretch of bytes.  Here the spans are
tied to the sentence: they lie one behind the other on boundaries of characters, each is spelled by the
text of its token, and together they hold every character that is no white space (`TokensOf`).

Reading by offsets (`scan?`) keeps nothing but the offset at which it has got, and slices the sentence
for whatever it looks at.  No slice ever fails and each turn gets ahead, so that it finds the tokens of
the sentence in no more turns than there are characters, and one for the end (`scan?_eq_of_tiles`).
-/

namespace Sentential

/-! ### Slices -/

namespace Text

/-- A byte offset of a text that falls between two characters, or on an end of the text. -/
def IsBoundary (t : Text) (n : Nat) : Prop :=
  ∃ before after, t = before ++ after ∧ before.byteLength = n

theorem dropBytes?_append (before after : Text) :
    dropBytes? (before ++ after) before.byteLength = some after := by
  induction before with
  | nil => cases after <;> rfl
  | cons c before ih =>
    obtain ⟨n, hn⟩ : ∃ n, c.utf8Size = n + 1 := Nat.exists_eq_succ_of_ne_zero c.utf8Size_pos.ne'
    have hlength : byteLength (c :: before) = n + byteLength before + 1 := by
      simp [byteLength, hn]
      omega
    have hrest : n + byteLength before + 1 - (n + 1) = byteLength before := by omega
    rw [List.cons_append, hlength, dropBytes?, hn, if_pos (by omega), hrest, ih]

theorem takeBytes?_append (t after : Text) : takeBytes? (t ++ after) t.byteLength = some t := by
  induction t with
  | nil => cases after <;> rfl
  | cons c t ih =>
    obtain ⟨n, hn⟩ : ∃ n, c.utf8Size = n + 1 := Nat.exists_eq_succ_of_ne_zero c.utf8Size_pos.ne'
    have hlength : byteLength (c :: t) = n + byteLength t + 1 := by
      simp [byteLength, hn]
      omega
    have hrest : n + byteLength t + 1 - (n + 1) = byteLength t := by omega
    rw [List.cons_append, hlength, takeBytes?, hn, if_pos (by omega), hrest, ih]
    rfl

/-- A stretch of a text is sliced out between the offsets at which it starts and ends. -/
theorem slice?_append (before t after : Text) :
    slice? (before ++ (t ++ after)) before.byteLength (before.byteLength + t.byteLength) = some t := by
  rw [slice?, dropBytes?_append, Option.bind_some, Nat.add_sub_cancel_left, takeBytes?_append]

theorem byteLength_eq_zero_iff {t : Text} : t.byteLength = 0 ↔ t = [] := by
  constructor
  · intro h
    by_contra hne
    exact (byteLength_pos hne).ne' h
  · rintro rfl
    rfl

/-- Of two texts with which a text begins, the one with fewer bytes begins the other. -/
theorem isPrefix_of_byteLength_le {s t whole : Text} (hs : s <+: whole) (ht : t <+: whole)
    (hle : s.byteLength ≤ t.byteLength) : s <+: t := by
  rcases List.prefix_or_prefix_of_prefix hs ht with h | ⟨rest, rfl⟩
  · exact h
  · rw [byteLength_append] at hle
    have hrest : rest = [] := byteLength_eq_zero_iff.1 (by omega)
    rw [hrest, List.append_nil]

/-- Between two boundaries a text can be sliced. -/
theorem exists_slice?_of_isBoundary {t : Text} {start stop : Nat} (hstart : t.IsBoundary start)
    (hstop : t.IsBoundary stop) (hle : start ≤ stop) :
    ∃ before inner after, t = before ++ (inner ++ after) ∧ before.byteLength = start ∧
      before.byteLength + inner.byteLength = stop ∧ t.slice? start stop = some inner := by
  obtain ⟨before, rest, rfl, rfl⟩ := hstart
  obtain ⟨upTo, after, hsplit, rfl⟩ := hstop
  obtain ⟨inner, rfl⟩ : before <+: upTo :=
    isPrefix_of_byteLength_le (List.prefix_append _ _) ⟨after, hsplit.symm⟩ hle
  rw [List.append_assoc] at hsplit
  refine ⟨before, inner, after, hsplit, rfl, (byteLength_append before inner).symm, ?_⟩
  rw [hsplit, byteLength_append, slice?_append]

/-- A character stands in a stretch of a text if it starts between the ends of the stretch. -/
theorem mem_of_byteLength_lt {before inner after front back : Text} {c : Char}
    (hsplit : before ++ (inner ++ after) = front ++ c :: back)
    (hstart : before.byteLength ≤ front.byteLength)
    (hstop : front.byteLength < before.byteLength + inner.byteLength) : c ∈ inner := by
  obtain ⟨skipped, rfl⟩ : before <+: front :=
    isPrefix_of_byteLength_le ⟨_, hsplit⟩ (List.prefix_append _ _) hstart
  rw [List.append_assoc, List.append_right_inj] at hsplit
  rw [byteLength_append] at hstop
  obtain ⟨rest, rfl⟩ : skipped <+: inner :=
    isPrefix_of_byteLength_le ⟨_, hsplit.symm⟩ (List.prefix_append _ _) (by omega)
  rw [List.append_assoc, List.append_right_inj] at hsplit
  cases rest with
  | nil =>
    rw [List.append_nil] at hstop
    omega
  | cons d rest =>
    obtain ⟨rfl, -⟩ := List.cons_eq_cons.1 hsplit
    simp

end Text

/-! ### Words -/

/-- A word begins and ends with a letter or a digit, and has a letter or a digit on both sides of each hyphen
and each apostrophe in it. -/
structure IsWordText (w : Text) : Prop where
  /-- The first character is a letter or a digit. -/
  head : w.head?.any isAlphanumeric = true
  /-- The last character is a letter or a digit. -/
  last : w.getLast?.any isAlphanumeric = true
  /-- Every other character is a hyphen or an apostrophe, and joins two of them. -/
  joins : ∀ before c after, w = before ++ c :: after → isAlphanumeric c = false →
    (c = '-' ∨ c.toNat = 0x27 ∨ c = '’') ∧ before.getLast?.any isAlphanumeric = true ∧
      after.head?.any isAlphanumeric = true

theorem isJoiner_iff {c : Char} : isJoiner c = true ↔ c = '-' ∨ c.toNat = 0x27 ∨ c = '’' := by
  simp [isJoiner, or_assoc]

theorem IsWordTail.continuesWith_of_append {before after : Text} {c : Char}
    (h : IsWordTail (before ++ c :: after)) : continuesWith (c :: after) = true := by
  induction before with
  | nil => exact h.1
  | cons d before ih => exact ih h.2

/-- At each of its characters, a word goes on. -/
theorem IsWord.continuesWith_of_append {before after : Text} {c : Char}
    (h : IsWord (before ++ c :: after)) : continuesWith (c :: after) = true := by
  obtain ⟨d, tail, hsplit, hd, htail⟩ := h
  cases before with
  | nil =>
    obtain ⟨rfl, rfl⟩ := List.cons_eq_cons.1 hsplit
    simp [continuesWith, hd]
  | cons e before =>
    obtain ⟨-, rfl⟩ := List.cons_eq_cons.1 hsplit
    exact htail.continuesWith_of_append

theorem IsWord.isWordText {w : Text} (h : IsWord w) : IsWordText w where
  head := by
    obtain ⟨c, tail, rfl, hc, -⟩ := h
    exact hc
  last := by
    obtain rfl | ⟨before, c, rfl⟩ := List.eq_nil_or_concat' w
    · obtain ⟨c, tail, hnil, -⟩ := h
      cases hnil
    · have hc := h.continuesWith_of_append
      simpa [continuesWith] using hc
  joins before c after hw hc := by
    subst hw
    have hjoins := h.continuesWith_of_append
    simp only [continuesWith, hc, Bool.false_or, Bool.and_eq_true] at hjoins
    refine ⟨isJoiner_iff.1 hjoins.1, ?_, hjoins.2⟩
    obtain rfl | ⟨front, d, rfl⟩ := List.eq_nil_or_concat' before
    · obtain ⟨d, tail, hsplit, hd, -⟩ := h
      obtain ⟨rfl, -⟩ := List.cons_eq_cons.1 hsplit
      rw [hd] at hc
      cases hc
    · -- the character in front cannot be a joiner, since no letter or digit stands behind it
      rw [List.append_assoc, List.singleton_append] at h
      have hd := h.continuesWith_of_append
      simpa [continuesWith, hc] using hd

/-- A token of the kind of words is a word, which does not go on behind its end. -/
theorem Lexeme.isWord {w rest : Text} (h : Lexeme .word w rest) :
    IsWord w ∧ continuesWith rest = false := by
  generalize hkind : TokenKind.word = k at h
  cases h with
  | word hw hrest => exact ⟨hw, hrest⟩
  | single => exact absurd hkind (by unfold singleKind; split <;> [skip; split] <;> simp)

/-! ### Spans -/

/-- Whether the byte at an offset belongs to the token. -/
def Token.Covers (t : Token) (n : Nat) : Prop :=
  t.start ≤ n ∧ n < t.stop

section Tiles

variable {start : Nat} {t : Text} {ts : List Token}

/-- The text of a token stands at its place. -/
theorem Tiles.exists_append (h : Tiles start t ts) {u : Token} (hu : u ∈ ts) :
    ∃ before after, t = before ++ (u.text ++ after) ∧ start + before.byteLength = u.start ∧
      Lexeme u.kind u.text after := by
  induction h with
  | nil => cases hu
  | @space start c rest ts hc _ ih =>
    obtain ⟨before, after, rfl, hstart, hlex⟩ := ih hu
    exact ⟨c :: before, after, rfl, by rw [← hstart, Text.byteLength, Nat.add_assoc], hlex⟩
  | @token start k w rest ts hw _ ih =>
    rcases List.mem_cons.1 hu with rfl | hu
    · exact ⟨[], rest, rfl, rfl, hw⟩
    · obtain ⟨before, after, rfl, hstart, hlex⟩ := ih hu
      refine ⟨w ++ before, after, by rw [List.append_assoc], ?_, hlex⟩
      rw [← hstart, byteLength_append, Nat.add_assoc]

/-- Each token ends before the next ones start. -/
theorem Tiles.pairwise_stop (h : Tiles start t ts) : ts.Pairwise fun u v => u.stop ≤ v.start := by
  induction h with
  | nil => exact .nil
  | space _ _ ih => exact ih
  | token _ h ih => exact .cons h.pairwise_start.1 ih

/-- Where a word ends, no other word starts. -/
theorem Tiles.pairwise_words (h : Tiles start t ts) :
    ts.Pairwise fun u v => u.kind = .word → v.kind = .word → u.stop ≠ v.start := by
  induction h with
  | nil => exact .nil
  | space _ _ ih => exact ih
  | @token start k w rest ts hw h ih =>
    refine .cons (fun v hv hword hword' htouch => ?_) ih
    obtain ⟨before, after, rfl, hstart, hlex⟩ := h.exists_append hv
    have hbefore : before = [] :=
      Text.byteLength_eq_zero_iff.1 (by simp only [Token.stop] at htouch; omega)
    subst hbefore
    cases hword
    rw [hword'] at hlex
    -- the word would go on with the first character of the other one
    obtain ⟨c, tail, htext, hc, -⟩ := hlex.isWord.1
    have hrest := hw.isWord.2
    rw [htext, List.nil_append, List.cons_append] at hrest
    simp [continuesWith, hc] at hrest

/-- Every character that is no white space belongs to a token. -/
theorem Tiles.exists_covers (h : Tiles start t ts) {before after : Text} {c : Char}
    (ht : t = before ++ c :: after) (hc : isSpace c = false) :
    ∃ u ∈ ts, u.Covers (start + before.byteLength) := by
  induction h generalizing before with
  | nil => simp at ht
  | @space start d rest ts hd _ ih =>
    cases before with
    | nil =>
      obtain ⟨rfl, -⟩ := List.cons_eq_cons.1 ht
      rw [hd] at hc
      cases hc
    | cons e before =>
      obtain ⟨rfl, rfl⟩ := List.cons_eq_cons.1 ht
      obtain ⟨u, hu, hcovers⟩ := ih rfl
      exact ⟨u, hu, by rwa [Nat.add_assoc] at hcovers⟩
  | @token start k w rest ts hw _ ih =>
    by_cases hinside : before.byteLength < w.byteLength
    · exact ⟨⟨k, w, start⟩, List.mem_cons_self .., Nat.le_add_right .., by
        simp only [Token.stop]
        omega⟩
    · obtain ⟨before', rfl⟩ : w <+: before :=
        Text.isPrefix_of_byteLength_le ⟨_, ht⟩ (List.prefix_append _ _) (Nat.le_of_not_lt hinside)
      rw [List.append_assoc, List.append_right_inj] at ht
      obtain ⟨u, hu, hcovers⟩ := ih ht
      exact ⟨u, List.mem_cons_of_mem _ hu, by rwa [byteLength_append, ← Nat.add_assoc]⟩

end Tiles

/-! ### Reading by offsets -/

/-- The offset at which a word ends of which the characters up to the offset `stop` have been read. -/
def wordEnd (stop : Nat) : Text → Nat
  | [] => stop
  | c :: rest => if continuesWith (c :: rest) then wordEnd (stop + c.utf8Size) rest else stop

/-- The kind and the end of the token that starts at an offset with the character `c`. -/
def tokenEnd (pos : Nat) (c : Char) (rest : Text) : TokenKind × Nat :=
  if isAlphanumeric c then (.word, wordEnd pos (c :: rest)) else (singleKind c, pos + c.utf8Size)

/-- Reads the tokens of a sentence from a byte offset on, in at most so many turns.  There is no answer
where the turns do not suffice, and where an offset is used that is no boundary of the sentence. -/
def scan? (sentence : Text) : Nat → Nat → Option (List Token)
  | 0, _ => none
  | turns + 1, pos =>
    match sentence.dropBytes? pos with
    | none => none
    | some [] => some []
    | some (c :: rest) =>
      if isSpace c then scan? sentence turns (pos + c.utf8Size)
      else
        match sentence.slice? pos (tokenEnd pos c rest).2 with
        | none => none
        | some text =>
          (scan? sentence turns (tokenEnd pos c rest).2).map
            (⟨(tokenEnd pos c rest).1, text, pos⟩ :: ·)

section Scan

variable {sentence : Text} {pos turns : Nat} {c : Char} {rest : Text}

/-- At the end of the sentence there are no tokens. -/
theorem scan?_end (h : sentence.dropBytes? pos = some []) : scan? sentence (turns + 1) pos = some [] := by
  rw [scan?, h]

/-- White space is passed over. -/
theorem scan?_space (h : sentence.dropBytes? pos = some (c :: rest)) (hc : isSpace c = true) :
    scan? sentence (turns + 1) pos = scan? sentence turns (pos + c.utf8Size) := by
  rw [scan?, h]
  simp only [if_pos hc]

/-- Anything else starts a token. -/
theorem scan?_token (h : sentence.dropBytes? pos = some (c :: rest)) (hc : isSpace c = false)
    {k : TokenKind} {stop : Nat} (hend : tokenEnd pos c rest = (k, stop)) {text : Text}
    (htext : sentence.slice? pos stop = some text) :
    scan? sentence (turns + 1) pos = (scan? sentence turns stop).map (⟨k, text, pos⟩ :: ·) := by
  rw [scan?, h]
  simp [hc, hend, htext]

end Scan

theorem wordEnd_eq (stop : Nat) (t : Text) :
    wordEnd stop t = stop + Text.byteLength (splitWord t).1 := by
  induction t generalizing stop with
  | nil => rfl
  | cons c rest ih =>
    unfold wordEnd splitWord
    split
    · rw [ih, Text.byteLength, Nat.add_assoc]
    · rfl

/-- The end of a token is found from its first character on. -/
theorem Lexeme.tokenEnd_eq {k : TokenKind} {w rest : Text} (h : Lexeme k w rest) (pos : Nat) :
    ∃ c more, w ++ rest = c :: more ∧ isSpace c = false ∧
      tokenEnd pos c more = (k, pos + w.byteLength) := by
  have hspace := h.isSpace_eq_false
  cases h with
  | word hw hrest =>
    obtain ⟨c, tail, rfl, hc, htail⟩ := hw
    have hgoes : continuesWith (c :: (tail ++ rest)) = true := by simp [continuesWith, hc]
    refine ⟨c, tail ++ rest, rfl, hspace c (List.mem_cons_self ..), ?_⟩
    rw [tokenEnd, if_pos hc, wordEnd, if_pos hgoes, wordEnd_eq, splitWord_of_isWordTail htail hrest,
      Text.byteLength, Nat.add_assoc]
  | @single c _ hc _ =>
    refine ⟨c, rest, rfl, hspace c (List.mem_cons_self ..), ?_⟩
    simp [tokenEnd, hc, Text.byteLength]

/-- The tokens that tile the rest of a sentence are read from the offset at which it starts. -/
theorem scan?_eq_of_tiles {start : Nat} {t : Text} {ts : List Token} (h : Tiles start t ts)
    {before : Text} (hstart : before.byteLength = start) {turns : Nat} (hturns : t.length < turns) :
    scan? (before ++ t) turns start = some ts := by
  induction h generalizing before turns with
  | nil =>
    obtain ⟨turns, rfl⟩ : ∃ n, turns = n + 1 := Nat.exists_eq_succ_of_ne_zero (by omega)
    exact scan?_end (by rw [← hstart, Text.dropBytes?_append])
  | @space start c rest ts hc _ ih =>
    obtain ⟨turns, rfl⟩ : ∃ n, turns = n + 1 := Nat.exists_eq_succ_of_ne_zero (by omega)
    have hnext : Text.byteLength (before ++ [c]) = start + c.utf8Size := by
      rw [byteLength_append, hstart]
      rfl
    have hshort : rest.length < turns := by simpa using hturns
    have hrest := ih hnext hshort
    rw [List.append_assoc, List.singleton_append] at hrest
    rw [scan?_space (by rw [← hstart, Text.dropBytes?_append]) hc, hrest]
  | @token start k w rest ts hw _ ih =>
    obtain ⟨turns, rfl⟩ : ∃ n, turns = n + 1 := Nat.exists_eq_succ_of_ne_zero (by omega)
    have hlength : 0 < w.length := List.length_pos_of_ne_nil hw.ne_nil
    rw [List.length_append] at hturns
    have hnext : Text.byteLength (before ++ w) = start + w.byteLength := by
      rw [byteLength_append, hstart]
    have hshort : rest.length < turns := by omega
    have hrest := ih hnext hshort
    rw [List.append_assoc] at hrest
    obtain ⟨c, more, hmore, hspace, hend⟩ := hw.tokenEnd_eq start
    have hdrop : Text.dropBytes? (before ++ (w ++ rest)) start = some (c :: more) := by
      rw [← hstart, Text.dropBytes?_append, hmore]
    have hslice : Text.slice? (before ++ (w ++ rest)) start (start + w.byteLength) = some w := by
      rw [← hstart, Text.slice?_append]
    rw [scan?_token hdrop hspace hend hslice, hrest]
    rfl

/-! ### The tokens of a sentence -/

/-- What it is for tokens to be those of a sentence. -/
structure TokensOf (sentence : Text) (ts : List Token) : Prop where
  /-- Spans are not empty. -/
  start_lt_stop : ∀ t ∈ ts, t.start < t.stop
  /-- Spans lie one behind the other. -/
  stop_le_start : ts.Pairwise fun t u => t.stop ≤ u.start
  /-- Spans start and end on boundaries of characters. -/
  isBoundary : ∀ t ∈ ts, sentence.IsBoundary t.start ∧ sentence.IsBoundary t.stop
  /-- Spans are spelled by the texts of their tokens. -/
  slice?_eq : ∀ t ∈ ts, sentence.slice? t.start t.stop = some t.text
  /-- No token holds white space. -/
  isSpace_eq_false : ∀ t ∈ ts, ∀ c ∈ t.text, isSpace c = false
  /-- White space belongs to no token. -/
  not_covers : ∀ (before : Text) c after, sentence = before ++ c :: after → isSpace c = true →
    ∀ t ∈ ts, ¬ t.Covers before.byteLength
  /-- Any other character belongs to one token. -/
  covers : ∀ (before : Text) c after, sentence = before ++ c :: after → isSpace c = false →
    ∃! t, t ∈ ts ∧ t.Covers before.byteLength
  /-- Words have letters and digits at their ends and around their joiners. -/
  isWordText : ∀ t ∈ ts, t.kind = .word → IsWordText t.text
  /-- Every other token is a single character, which is neither a letter nor a digit. -/
  single : ∀ t ∈ ts, t.kind ≠ .word →
    ∃ c, t.text = [c] ∧ t.kind = singleKind c ∧ isAlphanumeric c = false
  /-- Words do not touch. -/
  apart : ts.Pairwise fun t u => t.kind = .word → u.kind = .word → t.stop ≠ u.start
  /-- The sentence can be quoted from any token to any later one. -/
  sourceText? : ∀ us, us <:+: ts → ∃ before inner after, sentence = before ++ (inner ++ after) ∧
    Sentential.sourceText? sentence us = some inner ∧
      (∀ first ∈ us.head?, before.byteLength = first.start) ∧
        ∀ last ∈ us.getLast?, before.byteLength + inner.byteLength = last.stop
  /-- Reading by offsets finds the tokens: it never slices off a boundary, and comes to an end. -/
  scan?_eq : ∀ more, scan? sentence (sentence.length + 1 + more) 0 = some ts

section Sentence

variable {sentence : Text} {ts : List Token}

theorem Tiles.isBoundary (h : Tiles 0 sentence ts) {t : Token} (ht : t ∈ ts) :
    sentence.IsBoundary t.start ∧ sentence.IsBoundary t.stop := by
  obtain ⟨before, after, hsplit, hstart, -⟩ := h.exists_append ht
  rw [Nat.zero_add] at hstart
  refine ⟨⟨before, _, hsplit, hstart⟩, before ++ t.text, after, ?_, ?_⟩
  · rw [hsplit, List.append_assoc]
  · rw [byteLength_append, hstart, Token.stop]

/-- A token is at most as far as a later one. -/
theorem Tiles.start_le_stop (h : Tiles 0 sentence ts) {us : List Token} (hus : us <:+: ts)
    {first last : Token} (hfirst : first ∈ us.head?) (hlast : last ∈ us.getLast?) :
    first.start ≤ last.stop := by
  obtain ⟨rest, rfl⟩ := List.head?_eq_some_iff.1 hfirst
  rcases List.mem_cons.1 (List.mem_of_getLast? hlast) with rfl | hmem
  · exact Nat.le_add_right ..
  · have hpair := h.pairwise_start.2.sublist hus.sublist
    have hlt := (List.pairwise_cons.1 hpair).1 last hmem
    exact Nat.le_trans (Nat.le_of_lt hlt) (Nat.le_add_right ..)

/-- Any stretch of tokens can be quoted. -/
theorem Tiles.exists_sourceText? (h : Tiles 0 sentence ts) {us : List Token} (hus : us <:+: ts) :
    ∃ before inner after, sentence = before ++ (inner ++ after) ∧
      sourceText? sentence us = some inner ∧
        (∀ first ∈ us.head?, before.byteLength = first.start) ∧
          ∀ last ∈ us.getLast?, before.byteLength + inner.byteLength = last.stop := by
  obtain rfl | hne := eq_or_ne us []
  · exact ⟨[], [], sentence, rfl, rfl, by simp, by simp⟩
  · have hhead := List.head?_eq_some_head hne
    have hlast := List.getLast?_eq_some_getLast hne
    have hstart := (h.isBoundary (hus.mem (List.head_mem hne))).1
    have hstop := (h.isBoundary (hus.mem (List.getLast_mem hne))).2
    obtain ⟨before, inner, after, hsplit, hbefore, hinner, hslice⟩ :=
      Text.exists_slice?_of_isBoundary hstart hstop (h.start_le_stop hus hhead hlast)
    refine ⟨before, inner, after, hsplit, ?_, ?_, ?_⟩
    · simp only [Sentential.sourceText?, hhead, hlast, hslice]
    · rw [hhead]
      rintro first ⟨⟩
      exact hbefore
    · rw [hlast]
      rintro last ⟨⟩
      exact hinner

/-- Two tokens do not cover one offset. -/
theorem Tiles.eq_of_covers (h : Tiles 0 sentence ts) {t u : Token} (ht : t ∈ ts) (hu : u ∈ ts)
    {n : Nat} (htn : t.Covers n) (hun : u.Covers n) : t = u := by
  have hpair : ts.Pairwise fun t u => t.Covers n → u.Covers n → t = u :=
    h.pairwise_stop.imp fun hle ht hu =>
      absurd (Nat.lt_of_lt_of_le ht.2 hle) (Nat.not_lt.2 hu.1)
  have hsymm : Std.Symm fun t u : Token => t.Covers n → u.Covers n → t = u :=
    ⟨fun t u heq hu ht => (heq ht hu).symm⟩
  exact hpair.forall_of_forall (fun _ _ _ _ => rfl) ht hu htn hun

end Sentence

/-- Tokenizing finds the tokens of a sentence. -/
theorem tokensOf_tokenize (sentence : Text) : TokensOf sentence (tokenize sentence) := by
  have htiles := tiles_tokensFrom 0 sentence
  have hlex : ∀ t ∈ tokenize sentence, ∃ rest, Lexeme t.kind t.text rest :=
    fun t ht => exists_lexeme_of_mem_tokenize ht
  refine
    { start_lt_stop := fun t ht => ?_
      stop_le_start := htiles.pairwise_stop
      isBoundary := fun t ht => htiles.isBoundary ht
      slice?_eq := fun t ht => ?_
      isSpace_eq_false := fun t ht => ?_
      not_covers := fun before c after hsplit hc t ht hcovers => ?_
      covers := fun before c after hsplit hc => ?_
      isWordText := fun t ht hword => ?_
      single := fun t ht hword => ?_
      apart := htiles.pairwise_words
      sourceText? := fun us hus => htiles.exists_sourceText? hus
      scan?_eq := fun more => ?_ }
  · obtain ⟨rest, h⟩ := hlex t ht
    exact Nat.lt_add_of_pos_right (byteLength_pos h.ne_nil)
  · obtain ⟨before, after, hsplit, hstart, -⟩ := htiles.exists_append ht
    rw [Nat.zero_add] at hstart
    rw [hsplit, Token.stop, ← hstart, Text.slice?_append]
  · obtain ⟨rest, h⟩ := hlex t ht
    exact h.isSpace_eq_false
  · obtain ⟨front, back, hsplit', hstart, h⟩ := htiles.exists_append ht
    have hmem : c ∈ t.text := by
      obtain ⟨hle, hlt⟩ := hcovers
      simp only [Token.stop] at hlt
      exact Text.mem_of_byteLength_lt (hsplit'.symm.trans hsplit) (by omega) (by omega)
    rw [h.isSpace_eq_false c hmem] at hc
    cases hc
  · obtain ⟨t, ht, hcovers⟩ := htiles.exists_covers hsplit hc
    rw [Nat.zero_add] at hcovers
    exact ⟨t, ⟨ht, hcovers⟩, fun u hu => htiles.eq_of_covers hu.1 ht hu.2 hcovers⟩
  · obtain ⟨rest, h⟩ := hlex t ht
    rw [hword] at h
    exact h.isWord.1.isWordText
  · obtain ⟨rest, h⟩ := hlex t ht
    generalize t.text = w at h
    generalize t.kind = k at h hword
    cases h with
    | word => exact absurd rfl hword
    | @single c _ hc _ => exact ⟨c, rfl, rfl, hc⟩
  · have hstart : Text.byteLength [] = 0 := rfl
    exact scan?_eq_of_tiles htiles hstart (by omega)

end Sentential
