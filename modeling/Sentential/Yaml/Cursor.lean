import Sentential.Text.Basic

/-!
# Cursors

A cursor is a place in a YAML stream: the text that is still to be read, and the line, the column
and the byte offset of its first character.  The characters of a stream are restricted, and lines
end at any of the Unicode line breaks.
-/

namespace Sentential.Yaml

/-- Whether a character may stand in a stream. -/
def isAllowed (c : Char) : Bool :=
  let n := c.toNat
  n == 0x9 || n == 0xA || n == 0xD || (0x20 ≤ n && n ≤ 0x7E) || n == 0x85 ||
    (0xA0 ≤ n && n ≤ 0xD7FF) || (0xE000 ≤ n && n ≤ 0xFFFD) || 0x10000 ≤ n

/-- Whether a character ends a line. -/
def isBreak (c : Char) : Bool :=
  let n := c.toNat
  n == 0xA || n == 0xD || n == 0x85 || n == 0x2028 || n == 0x2029

/-- Whether a character is a space or a tabulator. -/
def isBlank (c : Char) : Bool :=
  c = ' ' || c = '\t'

/-- Whether a place is blank, at a line break, or at the end of the stream. -/
def isGap : Option Char → Bool
  | none => true
  | some c => isBlank c || isBreak c

/-- Whether a character is the byte order mark. -/
def isByteOrderMark (c : Char) : Bool :=
  c.toNat == 0xFEFF

/-- Whether a character may stand in the name of an anchor or a tag handle. -/
def isNameChar (c : Char) : Bool :=
  c.isAlphanum || c = '_' || c = '-'

/-- A place in a stream. -/
structure Cursor where
  /-- What is still to be read. -/
  rest : Text
  /-- The number of line breaks before the place. -/
  line : Nat := 0
  /-- The number of characters before the place on its line. -/
  column : Nat := 0
  /-- The number of bytes before the place, in UTF-8. -/
  offset : Nat := 0

namespace Cursor

/-- The character at the place. -/
def peek? (p : Cursor) : Option Char :=
  p.rest.head?

/-- The character that stands `n` places further on. -/
def at? (p : Cursor) (n : Nat) : Option Char :=
  p.rest[n]?

/-- Moves on by `n` characters of the same line. -/
def skip (p : Cursor) (n : Nat) : Cursor :=
  { p with
    rest := p.rest.drop n
    column := p.column + n
    offset := p.offset + Text.byteLength (p.rest.take n) }

/-- Moves on behind the characters that satisfy `q`, none of which is a line break. -/
def skipWhile (p : Cursor) (q : Char → Bool) : Cursor :=
  p.skip (p.rest.takeWhile q).length

/-- The text of the line break at the place, and the place behind it.  Carriage return and line feed
count as one break; all breaks read as a line feed, except the two Unicode separators. -/
def takeBreak (p : Cursor) : Text × Cursor :=
  match p.rest with
  | '\r' :: '\n' :: r => (['\n'], ⟨r, p.line + 1, 0, p.offset + 2⟩)
  | c :: r =>
    if isBreak c then
      let shown := if c.toNat = 0x2028 ∨ c.toNat = 0x2029 then c else '\n'
      ([shown], ⟨r, p.line + 1, 0, p.offset + c.utf8Size⟩)
    else ([], p)
  | [] => ([], p)

/-- Whether the place begins a line with the marker of a document, `---` or `...`. -/
def atMarker (p : Cursor) : Bool :=
  p.column == 0 &&
    (p.rest.take 3 = ['-', '-', '-'] || p.rest.take 3 = ['.', '.', '.']) && isGap (p.at? 3)

end Cursor

/-! ### White space inside scalars -/

/-- White space inside a scalar.  A gap within a line stands for itself.  In a gap with line breaks
the first break stands for a space, unless further ones follow, which stand for themselves. -/
structure Gap where
  /-- Whether there is a line break. -/
  broken : Bool := false
  /-- The blanks of a gap within a line. -/
  blanks : Text := []
  /-- The first line break. -/
  first : Text := []
  /-- The line breaks behind the first one. -/
  later : Text := []

namespace Gap

/-- What a gap adds to a scalar. -/
def text (g : Gap) : Text :=
  if g.broken then
    if g.first = ['\n'] then
      if g.later.isEmpty then [' '] else g.later
    else g.first ++ g.later
  else g.blanks

/-- Reads the blanks and line breaks at a place.  Behind a line break no tabulator may stand before
column `margin`. -/
def read : Nat → Int → Gap → Cursor → Option (Gap × Cursor)
  | 0, _, g, p => some (g, p)
  | fuel + 1, margin, g, p =>
    match p.peek? with
    | none => some (g, p)
    | some c =>
      if isBlank c then
        if g.broken then
          if c = '\t' ∧ Int.ofNat p.column < margin then none else read fuel margin g (p.skip 1)
        else read fuel margin { g with blanks := g.blanks ++ [c] } (p.skip 1)
      else if isBreak c then
        let (b, p') := p.takeBreak
        if g.broken then read fuel margin { g with later := g.later ++ b } p'
        else read fuel margin { g with broken := true, blanks := [], first := b } p'
      else some (g, p)

end Gap

end Sentential.Yaml
