import Mathlib.Data.List.Basic
import Mathlib.Tactic.Common
import Sentential.Proofs.Words
import Sentential.Sentence.Token

/-!
# The tokens of a text

A text is tiled by its tokens: between two of them there is nothing but white space, each token
starts where it stands in the text, and a word goes as far as it can (`Tiles`).  Tokenizing finds the
one tiling of a text (`tokensFrom_eq_iff`).

The tokens of a text stay the same when something follows that cannot belong to its last word
(`tokensFrom_append`), and they do not depend on the place at which the text stands
(`tokensFrom_add`).
-/

namespace Sentential

/-! ### White space, letters and digits -/

/-- The code points of white space. -/
def spaceCodePoints : List Nat :=
  [0x9, 0xA, 0xB, 0xC, 0xD, 0x20, 0x85, 0xA0, 0x1680, 0x2000, 0x2001, 0x2002, 0x2003, 0x2004,
    0x2005, 0x2006, 0x2007, 0x2008, 0x2009, 0x200A, 0x2028, 0x2029, 0x202F, 0x205F, 0x3000]

theorem toNat_mem_spaceCodePoints {c : Char} (h : isSpace c = true) :
    c.toNat ∈ spaceCodePoints := by
  simp only [isSpace, Bool.or_eq_true, Bool.and_eq_true, decide_eq_true_eq, beq_iff_eq] at h
  simp only [spaceCodePoints, List.mem_cons, List.not_mem_nil, or_false]
  omega

/-- White space is neither a letter nor a digit. -/
theorem isAlphanumeric_eq_false_of_isSpace {c : Char} (h : isSpace c = true) :
    isAlphanumeric c = false := by
  have hall : ∀ n ∈ spaceCodePoints, isAlphanumeric (Char.ofNat n) = false := by decide +kernel
  have hc := hall c.toNat (toNat_mem_spaceCodePoints h)
  rwa [Char.ofNat_toNat] at hc

/-- White space joins no words. -/
theorem isJoiner_eq_false_of_isSpace {c : Char} (h : isSpace c = true) : isJoiner c = false := by
  have hall : ∀ n ∈ spaceCodePoints, isJoiner (Char.ofNat n) = false := by decide
  have hc := hall c.toNat (toNat_mem_spaceCodePoints h)
  rwa [Char.ofNat_toNat] at hc

/-! ### Words -/

/-- Whether a text that stands behind a letter, a digit or a joiner goes on with the same word. -/
def continuesWith : Text → Bool
  | [] => false
  | c :: rest => isAlphanumeric c || (isJoiner c && rest.head?.any isAlphanumeric)

/-- The part of a text that belongs to the word in front of it, and the rest. -/
def splitWord : Text → Text × Text
  | [] => ([], [])
  | c :: rest =>
    if continuesWith (c :: rest) then (c :: (splitWord rest).1, (splitWord rest).2)
    else ([], c :: rest)

theorem continuesWord_eq {run : Text} (h : run ≠ []) (c : Char) (rest : Text) :
    continuesWord run c rest = continuesWith (c :: rest) := by
  simp [continuesWord, continuesWith, List.isEmpty_eq_false_iff.2 h]

theorem splitWord_append (t : Text) : (splitWord t).1 ++ (splitWord t).2 = t := by
  induction t with
  | nil => rfl
  | cons c rest ih =>
    unfold splitWord
    split
    · simp [ih]
    · rfl

theorem continuesWith_splitWord (t : Text) : continuesWith (splitWord t).2 = false := by
  induction t with
  | nil => rfl
  | cons c rest ih =>
    unfold splitWord
    split
    · exact ih
    · next h => simpa using h

/-- Where a joiner stands at the end, nothing goes on: each character of a word that is not its first
is a letter, a digit, or a joiner in front of one. -/
def IsWordTail : Text → Prop
  | [] => True
  | c :: rest => continuesWith (c :: rest) = true ∧ IsWordTail rest

/-- The characters of a word are no white space. -/
theorem IsWordTail.isSpace_eq_false {tail : Text} (h : IsWordTail tail) :
    ∀ c ∈ tail, isSpace c = false := by
  induction tail with
  | nil => simp
  | cons c tail ih =>
    obtain ⟨hc, htail⟩ := h
    refine List.forall_mem_cons.2 ⟨?_, ih htail⟩
    by_contra hspace
    have hspace : isSpace c = true := by simpa using hspace
    simp [continuesWith, isAlphanumeric_eq_false_of_isSpace hspace,
      isJoiner_eq_false_of_isSpace hspace] at hc

/-- A word starts with a letter or a digit. -/
def IsWord (w : Text) : Prop :=
  ∃ c tail, w = c :: tail ∧ isAlphanumeric c = true ∧ IsWordTail tail

theorem isWordTail_splitWord (t : Text) : IsWordTail (splitWord t).1 := by
  induction t with
  | nil => trivial
  | cons c rest ih =>
    unfold splitWord
    split
    · next h =>
      refine ⟨?_, ih⟩
      -- a joiner at this place has a letter or digit behind it, which belongs to the word as well
      cases rest with
      | nil => simpa [continuesWith, splitWord] using h
      | cons d rest =>
        cases hd : isAlphanumeric d with
        | true =>
          have hc : isAlphanumeric c = true ∨ isJoiner c = true := by
            simpa [continuesWith, hd] using h
          simpa [splitWord, continuesWith, hd] using hc
        | false =>
          have hc : isAlphanumeric c = true := by simpa [continuesWith, hd] using h
          simp [continuesWith, hc]
    · trivial

/-- What cannot go on with a word is all that is left behind its tail. -/
theorem splitWord_of_isWordTail {tail rest : Text} (htail : IsWordTail tail)
    (hrest : continuesWith rest = false) : splitWord (tail ++ rest) = (tail, rest) := by
  induction tail with
  | nil =>
    cases rest with
    | nil => rfl
    | cons c rest =>
      rw [List.nil_append, splitWord, if_neg (by simp [hrest])]
  | cons c tail ih =>
    obtain ⟨hc, htail⟩ := htail
    have hcontinues : continuesWith (c :: (tail ++ rest)) = true := by
      cases tail with
      | nil =>
        have hc : isAlphanumeric c = true := by simpa [continuesWith] using hc
        simp [continuesWith, hc]
      | cons d tail => simpa [continuesWith] using hc
    rw [List.cons_append, splitWord, if_pos hcontinues, ih htail]

/-! ### One token at a time -/

theorem tokensFrom_nil (start : Nat) : tokensFrom start [] [] = [] := rfl

/-- A word that is being read goes on as far as it can. -/
theorem tokensFrom_run (start : Nat) {run : Text} (hrun : run ≠ []) (t : Text) :
    tokensFrom start run t =
      ⟨.word, run.reverse ++ (splitWord t).1, start⟩ ::
        tokensFrom (start + run.byteLength + Text.byteLength (splitWord t).1) []
          (splitWord t).2 := by
  induction t generalizing run with
  | nil => simp [tokensFrom, splitWord, wordToken, hrun, tokensFrom_nil]
  | cons c rest ih =>
    rw [tokensFrom, continuesWord_eq hrun, splitWord]
    split
    · rw [ih (List.cons_ne_nil c run)]
      simp [Text.byteLength, Nat.add_assoc, Nat.add_left_comm]
    · next h =>
      have hc : continuesWord [] c rest = false := by
        simp [continuesWith] at h
        simp [continuesWord, h]
      simp [wordToken, hrun, tokensFrom, hc, Text.byteLength]

/-- A letter or a digit starts a word. -/
theorem tokensFrom_alphanumeric (start : Nat) {c : Char} (hc : isAlphanumeric c = true)
    (rest : Text) :
    tokensFrom start [] (c :: rest) =
      ⟨.word, c :: (splitWord rest).1, start⟩ ::
        tokensFrom (start + c.utf8Size + Text.byteLength (splitWord rest).1) []
          (splitWord rest).2 := by
  rw [tokensFrom, if_pos (by simp [continuesWord, hc]), tokensFrom_run start (List.cons_ne_nil c [])]
  simp [Text.byteLength]

/-- White space is passed over. -/
theorem tokensFrom_space (start : Nat) {c : Char} (hc : isSpace c = true) (rest : Text) :
    tokensFrom start [] (c :: rest) = tokensFrom (start + c.utf8Size) [] rest := by
  have halnum := isAlphanumeric_eq_false_of_isSpace hc
  simp [tokensFrom, continuesWord, halnum, wordToken, singleToken, hc, Text.byteLength]

/-- Any other character is a token of its own. -/
theorem tokensFrom_single (start : Nat) {c : Char} (halnum : isAlphanumeric c = false)
    (hspace : isSpace c = false) (rest : Text) :
    tokensFrom start [] (c :: rest) =
      ⟨singleKind c, [c], start⟩ :: tokensFrom (start + c.utf8Size) [] rest := by
  simp [tokensFrom, continuesWord, halnum, wordToken, singleToken, hspace, Text.byteLength]

/-! ### Tilings -/

/-- `Lexeme k w rest`: in front of `rest`, the text `w` is a token of kind `k`. -/
inductive Lexeme : TokenKind → Text → Text → Prop
  /-- A word, which does not go on behind its end. -/
  | word {w rest : Text} (hw : IsWord w) (hrest : continuesWith rest = false) : Lexeme .word w rest
  /-- A single character. -/
  | single {c : Char} (rest : Text) (halnum : isAlphanumeric c = false)
    (hspace : isSpace c = false) : Lexeme (singleKind c) [c] rest

namespace Lexeme

variable {k : TokenKind} {w rest : Text}

/-- A token is not empty. -/
theorem ne_nil (h : Lexeme k w rest) : w ≠ [] := by
  cases h with
  | word hw _ =>
    obtain ⟨c, tail, rfl, -⟩ := hw
    exact List.cons_ne_nil c tail
  | single => exact List.cons_ne_nil _ _

/-- A token holds no white space. -/
theorem isSpace_eq_false (h : Lexeme k w rest) : ∀ c ∈ w, isSpace c = false := by
  cases h with
  | word hw _ =>
    obtain ⟨c, tail, rfl, hc, htail⟩ := hw
    refine List.forall_mem_cons.2 ⟨?_, htail.isSpace_eq_false⟩
    by_contra hspace
    rw [isAlphanumeric_eq_false_of_isSpace (by simpa using hspace)] at hc
    exact Bool.false_ne_true hc
  | single _ _ hspace => simpa using hspace

/-- Only a comma is written as a comma. -/
theorem kind_eq_comma (h : Lexeme k [','] rest) : k = .comma := by
  generalize hw : [','] = w at h
  cases h with
  | word hword _ =>
    obtain ⟨c, tail, rfl, hc, -⟩ := hword
    obtain ⟨rfl, -⟩ := List.cons_eq_cons.1 hw
    exact absurd hc (by decide)
  | single =>
    obtain rfl := List.singleton_inj.1 hw
    rfl

/-- Only the negation sign is read as one. -/
theorem text_eq_of_negation (h : Lexeme .negation w rest) : w = ['¬'] := by
  generalize hk : TokenKind.negation = k at h
  cases h with
  | word => cases hk
  | @single c =>
    have hkind : singleKind c = .negation := hk.symm
    unfold singleKind at hkind
    split at hkind
    · cases hkind
    · split at hkind
      · next hc => rw [hc]
      · cases hkind

end Lexeme

/-- `Tiles start t ts`: the text `t`, which starts at the byte offset `start`, consists of the tokens
`ts` and white space. -/
inductive Tiles : Nat → Text → List Token → Prop
  /-- The empty text. -/
  | nil (start : Nat) : Tiles start [] []
  /-- White space. -/
  | space {start : Nat} {c : Char} {rest : Text} {ts : List Token} (hc : isSpace c = true)
    (h : Tiles (start + c.utf8Size) rest ts) : Tiles start (c :: rest) ts
  /-- A token. -/
  | token {start : Nat} {k : TokenKind} {w rest : Text} {ts : List Token} (hw : Lexeme k w rest)
    (h : Tiles (start + w.byteLength) rest ts) : Tiles start (w ++ rest) (⟨k, w, start⟩ :: ts)

/-- The tokens that are found tile the text. -/
theorem tiles_tokensFrom (start : Nat) (t : Text) : Tiles start t (tokensFrom start [] t) := by
  induction hlen : t.length using Nat.strongRecOn generalizing start t with
  | _ n ih =>
    cases t with
    | nil => exact .nil start
    | cons c rest =>
      cases halnum : isAlphanumeric c with
      | true =>
        have hsplit := splitWord_append rest
        have hshort : (splitWord rest).2.length < n := by
          have := congrArg List.length hsplit
          simp at this hlen
          omega
        have hword : Lexeme .word (c :: (splitWord rest).1) (splitWord rest).2 :=
          .word ⟨c, _, rfl, halnum, isWordTail_splitWord rest⟩ (continuesWith_splitWord rest)
        have htiles := Tiles.token hword (ih _ hshort
          (start + Text.byteLength (c :: (splitWord rest).1)) (splitWord rest).2 rfl)
        rw [List.cons_append, hsplit] at htiles
        rw [tokensFrom_alphanumeric start halnum]
        simpa [Text.byteLength, Nat.add_assoc] using htiles
      | false =>
        have hshort : rest.length < n := by
          simp at hlen
          omega
        have hrest := ih _ hshort (start + c.utf8Size) rest rfl
        cases hspace : isSpace c with
        | true =>
          rw [tokensFrom_space start hspace]
          exact .space hspace hrest
        | false =>
          rw [tokensFrom_single start halnum hspace]
          exact .token (.single rest halnum hspace) (by simpa [Text.byteLength] using hrest)

/-- A text without tokens is white space. -/
theorem Tiles.isSpace_of_nil {start : Nat} {t : Text} (h : Tiles start t []) :
    ∀ c ∈ t, isSpace c = true := by
  generalize hts : [] = ts at h
  induction h with
  | nil => simp
  | space hc _ ih => exact List.forall_mem_cons.2 ⟨hc, ih hts⟩
  | token => cases hts

/-- There is one way to tile a text. -/
theorem Tiles.eq_tokensFrom {start : Nat} {t : Text} {ts : List Token} (h : Tiles start t ts) :
    tokensFrom start [] t = ts := by
  induction h with
  | nil => rfl
  | space hc h ih => rw [tokensFrom_space _ hc, ih]
  | @token start k w rest ts hw h ih =>
    cases hw with
    | word hword hrest =>
      obtain ⟨c, tail, rfl, hc, htail⟩ := hword
      rw [List.cons_append, tokensFrom_alphanumeric start hc,
        splitWord_of_isWordTail htail hrest, ← ih]
      simp [Text.byteLength, Nat.add_assoc]
    | single _ halnum hspace =>
      rw [List.singleton_append, tokensFrom_single start halnum hspace, ← ih]
      simp [Text.byteLength]

/-- Tokenizing finds the one tiling of a text. -/
theorem tokensFrom_eq_iff {start : Nat} {t : Text} {ts : List Token} :
    tokensFrom start [] t = ts ↔ Tiles start t ts :=
  ⟨fun h => h ▸ tiles_tokensFrom start t, Tiles.eq_tokensFrom⟩

/-! ### Texts one after the other -/

/-- Whether a text may stand behind any other without becoming part of its last word. -/
def EndsWords (t : Text) : Prop :=
  ∀ c ∈ t.head?, isAlphanumeric c = false ∧ isJoiner c = false

/-- What ends words goes on with none. -/
theorem EndsWords.continuesWith_append {rest : Text} (hrest : EndsWords rest) {t : Text}
    (ht : continuesWith t = false) : continuesWith (t ++ rest) = false := by
  match t with
  | [] =>
    cases rest with
    | nil => rfl
    | cons c rest =>
      obtain ⟨halnum, hjoiner⟩ := hrest c rfl
      simp [continuesWith, halnum, hjoiner]
  | [c] =>
    have hhead : rest.head?.any isAlphanumeric = false := by
      cases rest with
      | nil => rfl
      | cons d rest => simpa using (hrest d rfl).1
    have hc : isAlphanumeric c = false := by simpa [continuesWith] using ht
    simp [continuesWith, hc, hhead]
  | c :: d :: t => simpa [continuesWith] using ht

/-- A token stays a token when something that ends words follows. -/
theorem Lexeme.append {k : TokenKind} {w t rest : Text} (h : Lexeme k w t) (hrest : EndsWords rest) :
    Lexeme k w (t ++ rest) := by
  cases h with
  | word hw ht => exact .word hw (hrest.continuesWith_append ht)
  | single _ halnum hspace => exact .single _ halnum hspace

/-- The tokens of a text stay the same when something that ends words follows. -/
theorem Tiles.append {start : Nat} {t rest : Text} {ts us : List Token} (ht : Tiles start t ts)
    (hrest : EndsWords rest) (hus : Tiles (start + t.byteLength) rest us) :
    Tiles start (t ++ rest) (ts ++ us) := by
  induction ht with
  | nil => exact hus
  | @space start c t ts hc _ ih =>
    exact .space hc (ih (by rwa [Nat.add_assoc]))
  | @token start k w t ts hw _ ih =>
    rw [List.append_assoc]
    exact .token (hw.append hrest) (ih (by rwa [byteLength_append, ← Nat.add_assoc] at hus))

/-- The tokens of two texts are found one after the other, where the second ends words. -/
theorem tokensFrom_append (start : Nat) (t : Text) {rest : Text} (hrest : EndsWords rest) :
    tokensFrom start [] (t ++ rest) =
      tokensFrom start [] t ++ tokensFrom (start + t.byteLength) [] rest :=
  tokensFrom_eq_iff.2 ((tiles_tokensFrom start t).append hrest (tiles_tokensFrom _ rest))

/-- The token at another place of a text. -/
def Token.shift (d : Nat) (t : Token) : Token :=
  { t with start := t.start + d }

/-- The token without its place in a text. -/
def Token.bare (t : Token) : Token :=
  { t with start := 0 }

/-- The tokens of a text do not depend on the place at which it stands. -/
theorem tokensFrom_add (start d : Nat) (t : Text) :
    tokensFrom (start + d) [] t = (tokensFrom start [] t).map (Token.shift d) := by
  have hshift {start : Nat} {t : Text} {ts : List Token} (h : Tiles start t ts) :
      Tiles (start + d) t (ts.map (Token.shift d)) := by
    induction h with
    | nil => exact .nil _
    | space hc _ ih => exact .space hc (by rwa [Nat.add_right_comm] at ih)
    | token hw _ ih => exact .token hw (by rwa [Nat.add_right_comm] at ih)
  exact tokensFrom_eq_iff.2 (hshift (tiles_tokensFrom start t))

/-! ### Tokens of a sentence -/

/-- The tokens of a text stand behind each other. -/
theorem Tiles.pairwise_start {start : Nat} {t : Text} {ts : List Token} (h : Tiles start t ts) :
    (∀ u ∈ ts, start ≤ u.start) ∧ ts.Pairwise fun u v => u.start < v.start := by
  induction h with
  | nil => simp
  | space _ _ ih => exact ⟨fun u hu => Nat.le_trans (Nat.le_add_right ..) (ih.1 u hu), ih.2⟩
  | @token start k w rest ts hw _ ih =>
    have hpos : 0 < w.byteLength := byteLength_pos hw.ne_nil
    refine ⟨List.forall_mem_cons.2 ⟨Nat.le_refl start, fun u hu => ?_⟩,
      List.pairwise_cons.2 ⟨fun u hu => ?_, ih.2⟩⟩
    · exact Nat.le_trans (Nat.le_add_right ..) (ih.1 u hu)
    · have := ih.1 u hu
      change start < u.start
      omega

/-- No token stands at two places. -/
theorem Tiles.nodup {start : Nat} {t : Text} {ts : List Token} (h : Tiles start t ts) : ts.Nodup :=
  h.pairwise_start.2.imp fun hlt heq => by
    rw [heq] at hlt
    exact Nat.lt_irrefl _ hlt

/-- Each token of a tiling is a lexeme in front of some text. -/
theorem Tiles.exists_lexeme {start : Nat} {t : Text} {ts : List Token} (h : Tiles start t ts) :
    ∀ u ∈ ts, ∃ rest, Lexeme u.kind u.text rest := by
  induction h with
  | nil => simp
  | space _ _ ih => exact ih
  | token hw _ ih => exact List.forall_mem_cons.2 ⟨⟨_, hw⟩, ih⟩

/-- Each token of a sentence is a lexeme in front of some text. -/
theorem exists_lexeme_of_mem_tokenize {sentence : Text} {t : Token} (h : t ∈ tokenize sentence) :
    ∃ rest, Lexeme t.kind t.text rest :=
  (tiles_tokensFrom 0 sentence).exists_lexeme t h

end Sentential
