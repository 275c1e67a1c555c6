import Sentential.Numeral
import Sentential.Text.Bytes
import Sentential.Yaml.Cursor

/-!
# Tokens

The tokens of a YAML stream, and how those with a text of their own are read: directives, anchors,
tags and the five styles of scalars.  Each reader starts at the first character of its token and
answers the place behind it; it fails where the stream is malformed.

Tags are read as bytes: behind percent signs they may hold any bytes that look like UTF-8 from
afar, whether or not they spell characters.
-/

namespace Sentential.Yaml

/-- A token of a YAML stream. -/
inductive Token where
  /-- A version directive. -/
  | version (major minor : Nat)
  /-- A tag directive: a handle and what it stands for. -/
  | tagDirective (handle : Text) (expansion : Bytes)
  /-- The marker `---`. -/
  | documentStart
  /-- The marker `...`. -/
  | documentEnd
  /-- A block sequence begins. -/
  | blockSequenceStart
  /-- A block mapping begins. -/
  | blockMappingStart
  /-- A block sequence or mapping ends. -/
  | blockEnd
  /-- The bracket `[`. -/
  | flowSequenceStart
  /-- The bracket `]`. -/
  | flowSequenceEnd
  /-- The brace that opens a flow mapping. -/
  | flowMappingStart
  /-- The brace that closes a flow mapping. -/
  | flowMappingEnd
  /-- The dash before a member of a block sequence. -/
  | blockEntry
  /-- The comma between the members of a flow collection. -/
  | flowEntry
  /-- A key follows. -/
  | key
  /-- A value follows. -/
  | value
  /-- A reference to an anchor. -/
  | alias (name : Text)
  /-- A name for the node that follows. -/
  | anchor (name : Text)
  /-- A tag for the node that follows, as a handle and a suffix. -/
  | tag (handle : Text) (suffix : Bytes)
  /-- A scalar, and whether it is plain. -/
  | scalar (plain : Bool) (text : Text)
deriving DecidableEq, Inhabited

/-! ### Directives, anchors and tags -/

/-- Reads a version number: one to nine digits. -/
def readVersionNumber (p : Cursor) : Option (Nat × Cursor) :=
  let digits := p.rest.takeWhile Char.isDigit
  if digits.length ≤ 9 then
    (Numeral.value? 10 digits).map fun n => (n, p.skip digits.length)
  else none

/-- Reads the handle of a tag.  In a directive a handle has to be closed by `!`, unless it is the
sign alone. -/
def readTagHandle (inDirective : Bool) (p : Cursor) : Option (Text × Cursor) :=
  match p.peek? with
  | some '!' =>
    let name := (p.rest.drop 1).takeWhile isNameChar
    let p' := p.skip (1 + name.length)
    if p'.peek? = some '!' then some ('!' :: name ++ ['!'], p'.skip 1)
    else if inDirective && !name.isEmpty then none
    else some ('!' :: name, p')
  | _ => none

/-- Whether a character may stand in a tag; some may do so only between angle brackets or in a
directive. -/
def isTagChar (wide : Bool) (c : Char) : Bool :=
  isNameChar c || c ∈ ";/?:@&=+$.%!~*()".toList || c.toNat = 0x27 || (wide && c ∈ ",[]".toList)

/-- Reads a byte that is written as two hexadecimal digits behind a percent sign. -/
def readEscapedByte : Text → Option (UInt8 × Text)
  | '%' :: a :: b :: r => (Numeral.value? 16 [a, b]).map fun n => (UInt8.ofNat n, r)
  | _ => none

/-- Reads `n` continuation bytes, each written behind a percent sign. -/
def readContinuation : Nat → Text → Option Bytes
  | 0, _ => some []
  | n + 1, t =>
    match readEscapedByte t with
    | some (b, r) =>
      if 0x80 ≤ b ∧ b < 0xC0 then (readContinuation n r).map (b :: ·) else none
    | none => none

/-- How many continuation bytes follow a first byte. -/
def continuationLength? (lead : UInt8) : Option Nat :=
  if lead < 0x80 then some 0
  else if 0xC0 ≤ lead ∧ lead < 0xE0 then some 1
  else if 0xE0 ≤ lead ∧ lead < 0xF0 then some 2
  else if 0xF0 ≤ lead ∧ lead < 0xF8 then some 3
  else none

/-- Reads a first byte and its continuation bytes, each written behind a percent sign. -/
def readEscapedBytes (t : Text) : Option Bytes := do
  let (lead, r) ← readEscapedByte t
  let n ← continuationLength? lead
  let rest ← readContinuation n r
  return lead :: rest

/-- Reads the characters of a tag, at most `fuel` of them, as bytes.  Here `acc` holds, in reverse,
what has been read. -/
def readTagBytes : Nat → Bool → Bytes → Cursor → Option (Bytes × Cursor)
  | 0, _, acc, p => some (acc.reverse, p)
  | fuel + 1, wide, acc, p =>
    match p.peek? with
    | some c =>
      if isTagChar wide c then
        if c = '%' then
          match readEscapedBytes p.rest with
          | some bytes => readTagBytes fuel wide (bytes.reverse ++ acc) (p.skip (3 * bytes.length))
          | none => none
        else readTagBytes fuel wide (c.toUInt8 :: acc) (p.skip 1)
      else some (acc.reverse, p)
    | none => some (acc.reverse, p)

/-- Reads the text of a tag that continues `head`; there has to be something to it.  A tag ends
before the first of its bytes that is zero. -/
def readTagText (wide : Bool) (head : Text) (p : Cursor) : Option (Bytes × Cursor) := do
  let (bytes, p') ← readTagBytes p.rest.length wide [] p
  if head.isEmpty && bytes.isEmpty then none
  else return ((Text.toBytes (head.drop 1) ++ bytes).takeWhile (· ≠ 0), p')

/-- Reads the version behind `%YAML`. -/
def readVersion (p : Cursor) : Option (Token × Cursor) := do
  let (major, p) ← readVersionNumber (p.skipWhile isBlank)
  if p.peek? = some '.' then
    let (minor, p) ← readVersionNumber (p.skip 1)
    return (.version major minor, p)
  else none

/-- Reads the handle behind `%TAG`, and what it stands for. -/
def readTagDirective (p : Cursor) : Option (Token × Cursor) := do
  let (handle, p) ← readTagHandle true (p.skipWhile isBlank)
  if p.peek?.any isBlank then
    let (expansion, p) ← readTagText true [] (p.skipWhile isBlank)
    if isGap p.peek? then return (.tagDirective handle expansion, p) else none
  else none

/-- Moves to the end of a line on which nothing but a comment may follow. -/
def finishLine (p : Cursor) : Option Cursor :=
  let p := p.skipWhile isBlank
  let p := if p.peek? = some '#' then p.skipWhile (fun c => !isBreak c) else p
  if p.peek?.all isBreak then some p.takeBreak.2 else none

/-- Reads a directive up to the end of its line. -/
def readDirective (p : Cursor) : Option (Token × Cursor) := do
  let name := (p.rest.drop 1).takeWhile isNameChar
  let p := p.skip (1 + name.length)
  if isGap p.peek? then
    let (token, p) ←
      if name = "YAML".toList then readVersion p
      else if name = "TAG".toList then readTagDirective p
      else none
    let p ← finishLine p
    return (token, p)
  else none

/-- Reads the name behind `&` or `*`. -/
def readAnchorName (p : Cursor) : Option (Text × Cursor) :=
  let name := (p.rest.drop 1).takeWhile isNameChar
  let p := p.skip (1 + name.length)
  if name.isEmpty then none
  else if isGap p.peek? || p.peek?.any (· ∈ "?:,]\x7d%@`".toList) then some (name, p)
  else none

/-- Reads a tag between angle brackets. -/
def readVerbatimTag (p : Cursor) : Option (Token × Cursor) := do
  let (suffix, p) ← readTagText true [] (p.skip 2)
  if p.peek? = some '>' then return (.tag [] suffix, p.skip 1) else none

/-- Reads a tag that begins with a handle. -/
def readShorthandTag (p : Cursor) : Option (Token × Cursor) := do
  let (handle, p) ← readTagHandle false p
  if handle.length ≥ 2 && handle.getLast? = some '!' then
    let (suffix, p) ← readTagText false [] p
    return (.tag handle suffix, p)
  else
    let (suffix, p) ← readTagText false handle p
    return (if suffix.isEmpty then .tag [] [0x21] else .tag ['!'] suffix, p)

/-- Reads a tag. -/
def readTag (inFlow : Bool) (p : Cursor) : Option (Token × Cursor) := do
  let (token, p) ← if p.at? 1 = some '<' then readVerbatimTag p else readShorthandTag p
  if isGap p.peek? || (inFlow && p.peek? = some ',') then return (token, p) else none

/-! ### Scalars -/

/-- The number of characters of a plain scalar up to the next blank, line break or indicator.  In a
flow collection some characters may not stand behind a colon. -/
def plainRun (inFlow : Bool) : Text → Option Nat
  | [] => some 0
  | c :: rest =>
    if isGap (some c) then some 0
    else if inFlow && c = ':' && rest.head?.any (· ∈ ",?[]\x7b\x7d".toList) then none
    else if (c = ':' && isGap rest.head?) || (inFlow && c ∈ ",[]\x7b\x7d".toList) then some 0
    else (plainRun inFlow rest).map (· + 1)

/-- Continues a plain scalar behind the gap `gap`.  Lines that continue it have to reach column
`margin`, unless it stands in a flow collection.  The answer says whether the scalar is followed by
a line break. -/
def plainFrom : Nat → Bool → Int → Text → Gap → Cursor → Option (Text × Bool × Cursor)
  | 0, _, _, acc, gap, p => some (acc, gap.broken, p)
  | fuel + 1, inFlow, margin, acc, gap, p =>
    if p.atMarker || p.peek? = some '#' then some (acc, gap.broken, p)
    else
      match plainRun inFlow p.rest with
      | none => none
      | some 0 => some (acc, gap.broken, p)
      | some (n + 1) =>
        let acc := acc ++ gap.text ++ p.rest.take (n + 1)
        let p := p.skip (n + 1)
        if p.peek?.isSome && isGap p.peek? then
          match Gap.read p.rest.length margin {} p with
          | none => none
          | some (gap, p) =>
            if !inFlow && Int.ofNat p.column < margin then some (acc, gap.broken, p)
            else plainFrom fuel inFlow margin acc gap p
        else some (acc, false, p)

/-- Reads a plain scalar. -/
def readPlain (inFlow : Bool) (margin : Int) (p : Cursor) : Option (Text × Bool × Cursor) :=
  plainFrom (p.rest.length + 1) inFlow margin [] {} p

/-- The character for a one-letter escape. -/
def simpleEscape? (c : Char) : Option Char :=
  match c with
  | '0' => some (Char.ofNat 0)
  | 'a' => some (Char.ofNat 7)
  | 'b' => some (Char.ofNat 8)
  | 't' => some '\t'
  | '\t' => some '\t'
  | 'n' => some '\n'
  | 'v' => some (Char.ofNat 0xB)
  | 'f' => some (Char.ofNat 0xC)
  | 'r' => some '\r'
  | 'e' => some (Char.ofNat 0x1B)
  | ' ' => some ' '
  | '"' => some '"'
  | '/' => some '/'
  | '\\' => some '\\'
  | 'N' => some (Char.ofNat 0x85)
  | '_' => some (Char.ofNat 0xA0)
  | 'L' => some (Char.ofNat 0x2028)
  | 'P' => some (Char.ofNat 0x2029)
  | _ => none

/-- The number of hexadecimal digits behind an escape for a code point. -/
def escapeWidth? (c : Char) : Option Nat :=
  match c with
  | 'x' => some 2
  | 'u' => some 4
  | 'U' => some 8
  | _ => none

/-- The character for an escape whose letter is `c`, and the number of characters behind the letter
that belong to it. -/
def readEscape (c : Char) (rest : Text) : Option (Char × Nat) :=
  match simpleEscape? c with
  | some d => some (d, 0)
  | none => do
    let width ← escapeWidth? c
    let digits := rest.take width
    let n ← Numeral.value? 16 digits
    if digits.length = width ∧ n.isValidChar then some (Char.ofNat n, width) else none

/-- Continues a quoted scalar whose characters so far are `acc`, in reverse. -/
def quotedFrom : Nat → Bool → Text → Cursor → Option (Text × Cursor)
  | 0, _, _, _ => none
  | fuel + 1, double, acc, p =>
    if p.atMarker then none
    else
      match p.rest with
      | [] => none
      | c :: rest =>
        if !double && c.toNat = 0x27 then
          if rest.head?.any fun d => d.toNat = 0x27 then
            quotedFrom fuel double (c :: acc) (p.skip 2)
          else some (acc.reverse, p.skip 1)
        else if double && c = '"' then some (acc.reverse, p.skip 1)
        else if isGap (some c) then
          match Gap.read p.rest.length 0 {} p with
          | some (gap, p) => quotedFrom fuel double (gap.text.reverse ++ acc) p
          | none => none
        else if double && c = '\\' then
          match rest with
          | [] => none
          | d :: rest =>
            if isBreak d then
              let p := ((p.skip 1).takeBreak).2
              match Gap.read p.rest.length 0 { broken := true } p with
              | some (gap, p) => quotedFrom fuel double (gap.text.reverse ++ acc) p
              | none => none
            else
              match readEscape d rest with
              | some (e, n) => quotedFrom fuel double (e :: acc) (p.skip (2 + n))
              | none => none
        else quotedFrom fuel double (c :: acc) (p.skip 1)

/-- Reads a quoted scalar. -/
def readQuoted (p : Cursor) : Option (Text × Cursor) :=
  quotedFrom (p.rest.length + 1) (p.peek? = some '"') [] (p.skip 1)

/-- How a block scalar ends. -/
inductive Chomping where
  /-- Without its last line break. -/
  | strip
  /-- With its last line break, and none behind it. -/
  | clip
  /-- With all line breaks behind it. -/
  | keep
deriving DecidableEq

/-- The chomping indicator that a character is. -/
def chomping? : Char → Option Chomping
  | '+' => some .keep
  | '-' => some .strip
  | _ => none

/-- Reads the indicators behind `|` or `>`: how the scalar ends, and its indentation, which is zero
if none is given. -/
def readBlockHeader (p : Cursor) : Option (Chomping × Nat × Cursor) :=
  let digit (p : Cursor) : Option (Nat × Cursor) :=
    match p.peek? with
    | some c =>
      if c = '0' then none
      else if c.isDigit then some (c.toNat - '0'.toNat, p.skip 1) else some (0, p)
    | none => some (0, p)
  match p.peek?.bind chomping? with
  | some ch => (digit (p.skip 1)).map fun d => (ch, d)
  | none =>
    match digit p with
    | none => none
    | some (0, p) => some (.clip, 0, p)
    | some (n, p) =>
      match p.peek?.bind chomping? with
      | some ch => some (ch, n, p.skip 1)
      | none => some (.clip, n, p)

/-- Reads the blank lines before a line of a block scalar, and the indentation of that line.  While
the indentation of the scalar is zero it is not known yet, and the largest one is remembered. -/
def blockBreaks : Nat → Nat → Nat → Text → Cursor → Option (Text × Nat × Cursor)
  | 0, _, widest, acc, p => some (acc, widest, p)
  | fuel + 1, indent, widest, acc, p =>
    let room := if indent = 0 then p.rest.length else indent - p.column
    let spaces := ((p.rest.take room).takeWhile (· = ' ')).length
    let p := p.skip spaces
    let widest := max widest p.column
    if (indent = 0 || p.column < indent) && p.peek? = some '\t' then none
    else if p.peek?.any isBreak then
      let (b, p) := p.takeBreak
      blockBreaks fuel indent widest (acc ++ b) p
    else some (acc, widest, p)

/-- Reads the lines of a block scalar.  Here `lead` is the line break before the line at hand,
`later` holds the blank lines between, and `blankBefore` says whether the line before began with a
blank. -/
def blockLines : Nat → Bool → Nat → Text → Text → Text → Bool → Cursor →
    Option (Text × Text × Text × Cursor)
  | 0, _, _, acc, lead, later, _, p => some (acc, lead, later, p)
  | fuel + 1, literal, indent, acc, lead, later, blankBefore, p =>
    if p.column = indent ∧ p.rest ≠ [] then
      let blank := p.peek?.any isBlank
      let joint :=
        if !literal && lead = ['\n'] && !blankBefore && !blank then
          if later.isEmpty then [' '] else later
        else lead ++ later
      let line := p.rest.takeWhile fun c => !isBreak c
      let (lead, p) := (p.skip line.length).takeBreak
      match blockBreaks (p.rest.length + 1) indent 0 [] p with
      | none => none
      | some (later, _, p) =>
        blockLines fuel literal indent (acc ++ joint ++ line) lead later blank p
    else some (acc, lead, later, p)

/-- Reads a block scalar inside a block of indentation `outer`. -/
def readBlock (outer : Int) (p : Cursor) : Option (Text × Cursor) := do
  let literal := p.peek? = some '|'
  let (chomping, given, p) ← readBlockHeader (p.skip 1)
  let p ← finishLine p
  let given := if given = 0 then 0 else outer.toNat + given
  let (later, widest, p) ← blockBreaks (p.rest.length + 1) given 0 [] p
  let indent := if given = 0 then max 1 (max widest (outer + 1).toNat) else given
  let (acc, lead, later, p) ← blockLines (p.rest.length + 1) literal indent [] [] later false p
  let tail := match chomping with
    | .strip => []
    | .clip => lead
    | .keep => lead ++ later
  return (acc ++ tail, p)

end Sentential.Yaml
