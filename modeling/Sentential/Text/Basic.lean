/-!
# Texts

A text is a list of characters.  This module holds the operations that every reader and writer of
the library shares: white space, trimming, splitting into words, joining, lengths in bytes and
slices by byte offset.

White space is the Unicode property `White_Space`.  It leaves out the zero-width space, the byte
order mark and the separators `U+001C` to `U+001F`.
-/

namespace Sentential

/-- A text is the list of its characters. -/
abbrev Text := List Char

instance : LawfulBEq Text :=
  inferInstance

/-- The characters with the property `White_Space`. -/
def isSpace (c : Char) : Bool :=
  let n := c.toNat
  (0x9 ≤ n && n ≤ 0xD) || n == 0x20 || n == 0x85 || n == 0xA0 || n == 0x1680 ||
    (0x2000 ≤ n && n ≤ 0x200A) || n == 0x2028 || n == 0x2029 || n == 0x202F || n == 0x205F ||
    n == 0x3000

namespace Text

/-- The text without the characters that satisfy `p` at its start. -/
def trimStart (t : Text) (p : Char → Bool) : Text :=
  t.dropWhile p

/-- The text without the characters that satisfy `p` at its end. -/
def trimEnd (t : Text) (p : Char → Bool) : Text :=
  (t.reverse.dropWhile p).reverse

/-- The text without the characters that satisfy `p` at either end. -/
def trimBy (t : Text) (p : Char → Bool) : Text :=
  trimEnd (trimStart t p) p

/-- The text without white space at either end. -/
def trim (t : Text) : Text :=
  trimBy t isSpace

/-- Whether a text holds nothing but white space. -/
def isBlank (t : Text) : Bool :=
  t.all isSpace

/-- Splits a text into its maximal runs free of white space.  The first argument collects, in
reverse, the run that is being read. -/
def wordsFrom (run : Text) : Text → List Text
  | [] => if run.isEmpty then [] else [run.reverse]
  | c :: rest =>
    if isSpace c then
      if run.isEmpty then wordsFrom [] rest else run.reverse :: wordsFrom [] rest
    else wordsFrom (c :: run) rest

/-- The maximal runs of a text that are free of white space, in order. -/
def words (t : Text) : List Text :=
  wordsFrom [] t

/-- The parts of a text between the places of `separator`; there is at least one. -/
def cutAt (separator : Char) : Text → List Text
  | [] => [[]]
  | c :: rest =>
    if c = separator then [] :: cutAt separator rest
    else
      match cutAt separator rest with
      | [] => [[c]]
      | part :: parts => (c :: part) :: parts

/-- Texts one after the other, with `separator` between neighbours. -/
def join (separator : Text) (parts : List Text) : Text :=
  List.intercalate separator parts

/-- Words on one line, with one space between neighbours. -/
def unwords (parts : List Text) : Text :=
  join [' '] parts

/-- Number of bytes of a text in UTF-8. -/
def byteLength : Text → Nat
  | [] => 0
  | c :: rest => c.utf8Size + byteLength rest

/-- The text from byte offset `n` on.  There is none if the text ends before that offset, or if the
offset falls inside a character. -/
def dropBytes? : Text → Nat → Option Text
  | t, 0 => some t
  | [], _ + 1 => none
  | c :: rest, n + 1 => if c.utf8Size ≤ n + 1 then dropBytes? rest (n + 1 - c.utf8Size) else none

/-- The first `n` bytes of a text, under the same conditions as `dropBytes?`. -/
def takeBytes? : Text → Nat → Option Text
  | _, 0 => some []
  | [], _ + 1 => none
  | c :: rest, n + 1 =>
    if c.utf8Size ≤ n + 1 then (takeBytes? rest (n + 1 - c.utf8Size)).map (c :: ·) else none

/-- The text between the byte offsets `start` and `stop`. -/
def slice? (t : Text) (start stop : Nat) : Option Text :=
  (dropBytes? t start).bind fun rest => takeBytes? rest (stop - start)

/-- Whether one text stands in another at some place. -/
def hasInfix (needle : Text) : Text → Bool
  | [] => needle.isEmpty
  | c :: rest => needle.isPrefixOf (c :: rest) || hasInfix needle rest

end Text

end Sentential
