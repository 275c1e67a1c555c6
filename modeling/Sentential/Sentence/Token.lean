import Sentential.Text.Alphanumeric
import Sentential.Text.Lowercase

/-!
# Tokens of a sentence

A sentence is cut into words, commas, negation signs and other punctuation.  White space separates
tokens and is dropped; it survives as the gaps between them, since each token knows where in the
sentence it starts, counted in bytes of UTF-8.

A word is a maximal run of letters and digits, in which a hyphen or an apostrophe may stand between
two letters or digits, as in *guarda-chuva*.
-/

namespace Sentential

/-- The kinds of tokens. -/
inductive TokenKind where
  /-- Letters and digits, with inner hyphens and apostrophes. -/
  | word
  /-- A comma. -/
  | comma
  /-- The negation sign. -/
  | negation
  /-- Any other character that is not white space. -/
  | punctuation
deriving DecidableEq, Inhabited

/-- A token of a sentence. -/
structure Token where
  /-- What kind of token it is. -/
  kind : TokenKind
  /-- The text of the token. -/
  text : Text
  /-- The byte offset at which it starts. -/
  start : Nat
deriving DecidableEq, Inhabited

namespace Token

/-- The byte offset at which a token ends. -/
def stop (t : Token) : Nat :=
  t.start + t.text.byteLength

/-- Whether the token is the word `keyword`, which is given in lower case. -/
def isWord (keyword : Text) (t : Token) : Bool :=
  t.kind = .word ∧ t.text.lower = keyword

/-- Whether the token is one of the words `keywords`, which are given in lower case. -/
def isAnyWord (keywords : List Text) (t : Token) : Bool :=
  t.kind = .word ∧ t.text.lower ∈ keywords

/-- Whether the token is punctuation that may stand at either end of a clause without belonging
to it. -/
def isClausePunctuation (t : Token) : Bool :=
  (t.kind = .comma ∨ t.kind = .punctuation) ∧ t.text ∈ [['.'], [','], ['!'], ['?']]

end Token

/-- The characters that may join two parts of a word. -/
def isJoiner (c : Char) : Bool :=
  c = '-' || c.toNat = 0x27 || c = '’'

/-- The kind of the token that consists of the single character `c`. -/
def singleKind (c : Char) : TokenKind :=
  if c = ',' then .comma else if c = '¬' then .negation else .punctuation

/-- The word that was collected, in reverse, from offset `start` on; nothing if it is empty. -/
def wordToken (start : Nat) (run : Text) : List Token :=
  if run.isEmpty then [] else [⟨.word, run.reverse, start⟩]

/-- The token for a character outside words; nothing for white space. -/
def singleToken (start : Nat) (c : Char) : List Token :=
  if isSpace c then [] else [⟨singleKind c, [c], start⟩]

/-- Whether `c`, with `rest` behind it, belongs to the word whose characters so far are `run`. -/
def continuesWord (run : Text) (c : Char) (rest : Text) : Bool :=
  isAlphanumeric c || (!run.isEmpty && isJoiner c && rest.head?.any isAlphanumeric)

/-- The tokens of a text that is read from the middle of a word: `run` holds, in reverse, the
characters of the word so far, and `start` is the offset at which it starts. -/
def tokensFrom (start : Nat) (run : Text) : Text → List Token
  | [] => wordToken start run
  | c :: rest =>
    if continuesWord run c rest then tokensFrom start (c :: run) rest
    else
      let here := start + run.byteLength
      wordToken start run ++ (singleToken here c ++ tokensFrom (here + c.utf8Size) [] rest)

/-- The tokens of a sentence, in order. -/
def tokenize (sentence : Text) : List Token :=
  tokensFrom 0 [] sentence

/-- Tokens written one after the other behind a token that ends at offset `stop`, with one space
for each gap. -/
def joinTokensFrom (stop : Nat) : List Token → Text
  | [] => []
  | t :: rest => (if stop < t.start then [' '] else []) ++ t.text ++ joinTokensFrom t.stop rest

/-- Tokens written one after the other, with one space wherever there was a gap between two. -/
def joinTokens : List Token → Text
  | [] => []
  | t :: rest => t.text ++ joinTokensFrom t.stop rest

/-- The part of a sentence from the first to the last of some of its tokens.  There is none when the
tokens do not belong to the sentence. -/
def sourceText? (sentence : Text) (ts : List Token) : Option Text :=
  match ts.head?, ts.getLast? with
  | some first, some last => sentence.slice? first.start last.stop
  | _, _ => some []

end Sentential
