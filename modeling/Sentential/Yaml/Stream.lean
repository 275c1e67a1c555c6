import Sentential.Yaml.Token

/-!
# The tokens of a stream

Block structure is shown by indentation alone, so that tokens which open and close blocks have no
characters of their own.  They are put in from two pieces of knowledge:

* the columns of the blocks that are open;
* for each open flow collection, and for the block level, the place at which a key without a
  question mark may have begun.

When a colon turns such a place into a key, the token that announces the key is put in there, and
with it the token that opens a block mapping if the key stands further right than the open block.
A key of this kind stands on one line and has at most 1024 bytes.
-/

namespace Sentential.Yaml

/-- The place at which a key may have begun. -/
structure KeyPlace where
  /-- Whether only a key can stand there. -/
  required : Bool
  /-- The number of tokens before it. -/
  number : Nat
  /-- The place. -/
  cursor : Cursor

/-- How far the tokens of a stream have been read. -/
structure Progress where
  /-- The place that has been reached. -/
  cursor : Cursor
  /-- The tokens so far, the last one first. -/
  tokens : List Token := []
  /-- The column of the innermost block, or `-1` outside of blocks. -/
  indent : Int := -1
  /-- The columns of the blocks around it, the innermost first. -/
  outer : List Int := []
  /-- The places of possible keys, one for each open flow collection and one for the block level,
  the innermost first. -/
  keys : List (Option KeyPlace) := [none]
  /-- Whether a key may begin at the place that has been reached. -/
  keyAllowed : Bool := true

namespace Progress

/-- Whether the place is inside a flow collection. -/
def inFlow (s : Progress) : Bool :=
  match s.keys with
  | _ :: _ :: _ => true
  | _ => false

/-- Adds a token. -/
def push (s : Progress) (t : Token) : Progress :=
  { s with tokens := t :: s.tokens }

/-- Adds tokens, the first one last, behind the first `number` tokens. -/
def insertAt (s : Progress) (number : Nat) (ts : List Token) : Progress :=
  let newer := s.tokens.length - number
  { s with tokens := s.tokens.take newer ++ ts ++ s.tokens.drop newer }

/-- Opens a block at `column`, if the innermost block begins further left. -/
def openBlock (s : Progress) (column : Nat) (t : Token) : Progress :=
  if !s.inFlow && s.indent < column then
    { s with tokens := t :: s.tokens, outer := s.indent :: s.outer, indent := column }
  else s

/-- Closes the blocks that begin further right than `column`; `depth` is the number of blocks. -/
def closeBlocksWithin : Nat → Int → Progress → Progress
  | 0, _, s => s
  | depth + 1, column, s =>
    if column < s.indent then
      match s.outer with
      | around :: outer =>
        closeBlocksWithin depth column
          { s with tokens := .blockEnd :: s.tokens, indent := around, outer := outer }
      | [] => s
    else s

/-- Closes the blocks that begin further right than `column`. -/
def closeBlocks (s : Progress) (column : Int) : Progress :=
  if s.inFlow then s else closeBlocksWithin s.outer.length column s

/-- Gives up the place of a possible key.  That is an error where only a key could stand. -/
def dropKey (s : Progress) : Option Progress :=
  match s.keys with
  | some k :: rest => if k.required then none else some { s with keys := none :: rest }
  | _ => some s

/-- Notes that a key may begin at the place that has been reached. -/
def noteKey (s : Progress) : Option Progress :=
  if s.keyAllowed then do
    let s ← s.dropKey
    let required := !s.inFlow && s.indent == Int.ofNat s.cursor.column
    return { s with keys := some ⟨required, s.tokens.length, s.cursor⟩ :: s.keys.drop 1 }
  else some s

/-- Adds a token and moves on behind it. -/
def accept (s : Progress) (t : Token) (p : Cursor) (keyAllowed : Bool) : Progress :=
  { s with tokens := t :: s.tokens, cursor := p, keyAllowed := keyAllowed }

/-- Moves to the next token: past white space, comments and line breaks, and past a byte order mark
at the start of a line.  Behind a line break a key may begin, outside of flow collections. -/
def skipToToken : Nat → Progress → Progress
  | 0, s => s
  | fuel + 1, s =>
    let tabs := s.inFlow || !s.keyAllowed
    let p := if s.cursor.column == 0 && s.cursor.peek?.any isByteOrderMark then s.cursor.skip 1
      else s.cursor
    let p := p.skipWhile fun c => c = ' ' || (tabs && c = '\t')
    let p := if p.peek? = some '#' then p.skipWhile (fun c => !isBreak c) else p
    if p.peek?.any isBreak then
      skipToToken fuel
        { s with cursor := p.takeBreak.2, keyAllowed := s.keyAllowed || !s.inFlow }
    else { s with cursor := p }

/-! ### The kinds of tokens -/

/-- Reads the marker of a document. -/
def marker (s : Progress) (t : Token) : Option Progress := do
  let s ← (s.closeBlocks (-1)).dropKey
  return s.accept t (s.cursor.skip 3) false

/-- Reads a directive. -/
def directive (s : Progress) : Option Progress := do
  let s ← (s.closeBlocks (-1)).dropKey
  let (t, p) ← readDirective s.cursor
  return s.accept t p false

/-- Reads a bracket that opens a flow collection. -/
def openFlow (s : Progress) (t : Token) : Option Progress := do
  let s ← s.noteKey
  return { s.accept t (s.cursor.skip 1) true with keys := none :: s.keys }

/-- Reads a bracket that closes a flow collection. -/
def closeFlow (s : Progress) (t : Token) : Option Progress := do
  let s ← s.dropKey
  return { s.accept t (s.cursor.skip 1) false with
    keys := if s.inFlow then s.keys.drop 1 else s.keys }

/-- Reads a comma in a flow collection. -/
def flowEntry (s : Progress) : Option Progress := do
  let s ← s.dropKey
  return s.accept .flowEntry (s.cursor.skip 1) true

/-- Reads the dash before a member of a block sequence. -/
def blockEntry (s : Progress) : Option Progress :=
  if !s.inFlow && !s.keyAllowed then none
  else do
    let s ← (s.openBlock s.cursor.column .blockSequenceStart).dropKey
    return s.accept .blockEntry (s.cursor.skip 1) true

/-- Reads the question mark before a key. -/
def explicitKey (s : Progress) : Option Progress :=
  if !s.inFlow && !s.keyAllowed then none
  else do
    let s ← (s.openBlock s.cursor.column .blockMappingStart).dropKey
    return s.accept .key (s.cursor.skip 1) (!s.inFlow)

/-- Whether a place still counts as the beginning of a key. -/
def isCurrent (s : Progress) (k : KeyPlace) : Bool :=
  k.cursor.line == s.cursor.line && s.cursor.offset ≤ k.cursor.offset + 1024

/-- Reads a colon that follows a key without a question mark. -/
def simpleValue (s : Progress) (k : KeyPlace) : Progress :=
  let opens := !s.inFlow && s.indent < Int.ofNat k.cursor.column
  let s := s.insertAt k.number (if opens then [.key, .blockMappingStart] else [.key])
  let s := if opens then { s with outer := s.indent :: s.outer, indent := k.cursor.column } else s
  { s.accept .value (s.cursor.skip 1) false with keys := none :: s.keys.drop 1 }

/-- Reads a colon that follows no key, or one with a question mark. -/
def bareValue (s : Progress) : Option Progress :=
  if !s.inFlow && !s.keyAllowed then none
  else
    let s := s.openBlock s.cursor.column .blockMappingStart
    some (s.accept .value (s.cursor.skip 1) (!s.inFlow))

/-- Reads the colon before a value. -/
def value (s : Progress) : Option Progress :=
  match s.keys with
  | some k :: rest =>
    if s.isCurrent k then some (s.simpleValue k)
    else if k.required then none
    else bareValue { s with keys := none :: rest }
  | _ => bareValue s

/-- Reads an anchor or a reference to one. -/
def anchor (s : Progress) (make : Text → Token) : Option Progress := do
  let s ← s.noteKey
  let (name, p) ← readAnchorName s.cursor
  return s.accept (make name) p false

/-- Reads a tag. -/
def tag (s : Progress) : Option Progress := do
  let s ← s.noteKey
  let (t, p) ← readTag s.inFlow s.cursor
  return s.accept t p false

/-- Reads a block scalar. -/
def blockScalar (s : Progress) : Option Progress := do
  let s ← s.dropKey
  let (t, p) ← readBlock s.indent s.cursor
  return s.accept (.scalar false t) p true

/-- Reads a quoted scalar. -/
def quotedScalar (s : Progress) : Option Progress := do
  let s ← s.noteKey
  let (t, p) ← readQuoted s.cursor
  return s.accept (.scalar false t) p false

/-- Reads a plain scalar. -/
def plainScalar (s : Progress) : Option Progress := do
  let s ← s.noteKey
  let (t, broken, p) ← readPlain s.inFlow (s.indent + 1) s.cursor
  return s.accept (.scalar true t) p broken

/-- Whether a plain scalar may begin with `c`, with `next` behind it. -/
def opensPlain (inFlow : Bool) (c : Char) (next : Option Char) : Bool :=
  !(isGap (some c) || c ∈ "-?:,[]\x7b\x7d#&*!|>\"%@`".toList || c.toNat = 0x27) ||
    (c = '-' && !next.any isBlank) ||
    (!inFlow && (c = '?' || c = ':') && !isGap next)

/-- Reads the token that begins with `c`. -/
def token (s : Progress) (c : Char) : Option Progress :=
  let next := s.cursor.at? 1
  if s.cursor.column = 0 ∧ c = '%' then s.directive
  else if s.cursor.atMarker then s.marker (if c = '-' then .documentStart else .documentEnd)
  else if c = '[' then s.openFlow .flowSequenceStart
  else if c.toNat = 0x7B then s.openFlow .flowMappingStart
  else if c = ']' then s.closeFlow .flowSequenceEnd
  else if c.toNat = 0x7D then s.closeFlow .flowMappingEnd
  else if c = ',' then s.flowEntry
  else if c = '-' ∧ isGap next then s.blockEntry
  else if c = '?' ∧ (s.inFlow || isGap next) then s.explicitKey
  else if c = ':' ∧ (s.inFlow || isGap next) then s.value
  else if c = '*' then s.anchor .alias
  else if c = '&' then s.anchor .anchor
  else if c = '!' then s.tag
  else if (c = '|' ∨ c = '>') ∧ !s.inFlow then s.blockScalar
  else if c.toNat = 0x27 ∨ c = '"' then s.quotedScalar
  else if opensPlain s.inFlow c next then s.plainScalar
  else none

/-- Ends the stream: all blocks are closed. -/
def finish (s : Progress) : Option (List Token) := do
  let s ← (s.closeBlocks (-1)).dropKey
  return s.tokens.reverse

/-- Reads tokens up to the end of the stream.  Each round but the last reads a character, and so does
each step to the next token, so that a bound on the characters is one for both. -/
def run : Nat → Progress → Option (List Token)
  | 0, _ => none
  | fuel + 1, s =>
    let s := skipToToken (fuel + 1) s
    let s := s.closeBlocks s.cursor.column
    match s.cursor.peek? with
    | none => s.finish
    | some c => (s.token c).bind (run fuel)

end Progress

/-- The tokens of a stream, if it is well-formed so far as tokens go. -/
def tokensOf (stream : Text) : Option (List Token) :=
  if stream.all isAllowed then
    Progress.run (stream.length + 2) ⟨⟨stream, 0, 0, 0⟩, [], -1, [], [none], true⟩
  else none

end Sentential.Yaml
