import Sentential.Yaml.Scalar
import Sentential.Yaml.Cursor

/-!
# Writing texts

How a text is written as a scalar of a block mapping or sequence, so that it reads back as that
text.  There are four styles:

* *plain*, without quotes;
* *single-quoted*, for texts that would read as another value, or that have blanks at an end or
  indicators in them;
* *double-quoted*, with escapes, for texts with characters that cannot be shown;
* *literal*, line by line, for texts with line feeds.

Lines are never folded.
-/

namespace Sentential.Yaml

/-- The style of a scalar. -/
inductive Style where
  | plain
  | singleQuoted
  | doubleQuoted
  | literal
deriving DecidableEq

/-! ### What a text contains -/

/-- Whether a character is shown as it is. -/
def isPrintable (c : Char) : Bool :=
  let n := c.toNat
  n == 0xA || (0x20 ≤ n && n ≤ 0x7E) || (0xA0 ≤ n && n ≤ 0xD7FF) ||
    (0xE000 ≤ n && n ≤ 0xFFFD && n != 0xFEFF) || 0x10000 ≤ n

/-- Whether a text holds a neighbouring pair of characters with `p` and `q`. -/
def hasPair (p q : Char → Bool) : Text → Bool
  | a :: b :: rest => (p a && q b) || hasPair p q (b :: rest)
  | _ => false

/-- Whether a text begins like a scalar of another style, or like another token. -/
def opensIndicator : Text → Bool
  | [] => false
  | c :: rest =>
    c ∈ "#,[]\x7b\x7d&*!|>\"%@`".toList || c.toNat = 0x27 ||
      (c ∈ "?:-".toList && isGap rest.head?) ||
      (c :: rest).take 3 = ['-', '-', '-'] || (c :: rest).take 3 = ['.', '.', '.']

/-- Whether a text holds the end of a key or the beginning of a comment, behind its first
character. -/
def holdsIndicator (t : Text) : Bool :=
  hasPair (fun c => isGap (some c)) (· = '#') t ||
    hasPair (· = ':') (fun c => isGap (some c)) (t.drop 1) ||
    (2 ≤ t.length && t.getLast? = some ':')

/-- Whether a text begins or ends with a space or a line break. -/
def hasOuterSpace (t : Text) : Bool :=
  let outer (c : Char) := c = ' ' || isBreak c
  t.head?.any outer || t.getLast?.any outer

/-- Whether a text holds a character that is not shown as it is, or a space before a line break. -/
def needsEscape (t : Text) : Bool :=
  t.any (fun c => !isPrintable c) || hasPair (· = ' ') isBreak t

/-- Whether a text may be written without quotes. -/
def plainAllowed (t : Text) : Bool :=
  !(opensIndicator t || holdsIndicator t || hasOuterSpace t || t.any isBreak || needsEscape t)

/-- Whether a text may be written between single quotes. -/
def singleQuotedAllowed (t : Text) : Bool :=
  !(needsEscape t || hasPair isBreak (· = ' ') t)

/-- Whether a text may be written line by line. -/
def literalAllowed (t : Text) : Bool :=
  !(needsEscape t || t.getLast? = some ' ')

/-- Whether a text without quotes reads as that text. -/
def readsAsText (t : Text) : Bool :=
  !hasLeadingZero t &&
    match plainValue t with
    | .text _ => true
    | _ => false

/-- The style in which a text is written. -/
def styleOf (t : Text) : Style :=
  if '\n' ∈ t then
    if literalAllowed t then .literal else .doubleQuoted
  else if readsAsText t && plainAllowed t then .plain
  else if singleQuotedAllowed t then .singleQuoted
  else .doubleQuoted

/-! ### The styles -/

/-- `n` spaces. -/
def spaces (n : Nat) : Text :=
  List.replicate n ' '

/-- Puts the indentation in front of each line that is not empty.  The first argument says whether
the text begins a line. -/
def indentLines (indent : Nat) : Bool → Text → Text
  | _, [] => []
  | atStart, c :: rest =>
    if isBreak c then c :: indentLines indent true rest
    else (if atStart then spaces indent else []) ++ c :: indentLines indent false rest

/-- A text between single quotes. -/
def singleQuoted (indent : Nat) (t : Text) : Text :=
  let quote := Char.ofNat 0x27
  let doubled := t.flatMap fun c => if c = quote then [quote, quote] else [c]
  let tail := if t.getLast?.any isBreak then spaces indent else []
  quote :: indentLines indent false doubled ++ tail ++ [quote]

/-- The letter of a short escape. -/
def shortEscape? (c : Char) : Option Char :=
  match c.toNat with
  | 0x00 => some '0'
  | 0x07 => some 'a'
  | 0x08 => some 'b'
  | 0x09 => some 't'
  | 0x0A => some 'n'
  | 0x0B => some 'v'
  | 0x0C => some 'f'
  | 0x0D => some 'r'
  | 0x1B => some 'e'
  | 0x22 => some '"'
  | 0x5C => some '\\'
  | 0x85 => some 'N'
  | 0x2028 => some 'L'
  | 0x2029 => some 'P'
  | _ => none

/-- The lowest `width` hexadecimal digits of a number. -/
def hexDigits : Nat → Nat → Text
  | 0, _ => []
  | width + 1, n => hexDigits width (n / 16) ++ [(Nat.digitChar (n % 16)).toUpper]

/-- The escape for a character. -/
def escaped (c : Char) : Text :=
  '\\' ::
    match shortEscape? c with
    | some letter => [letter]
    | none =>
      let n := c.toNat
      if n ≤ 0xFF then 'x' :: hexDigits 2 n
      else if n ≤ 0xFFFF then 'u' :: hexDigits 4 n
      else 'U' :: hexDigits 8 n

/-- A text between double quotes. -/
def doubleQuoted (t : Text) : Text :=
  '"' :: t.flatMap (fun c =>
    if !isPrintable c || isBreak c || c = '"' || c = '\\' then escaped c else [c]) ++ ['"']

/-- How a literal scalar ends: nothing is said for a single line break behind the last line. -/
def chompingSign (t : Text) : Text :=
  match t.reverse with
  | [] => ['-']
  | c :: before =>
    if !isBreak c then ['-']
    else if before.isEmpty || before.head?.any isBreak then ['+']
    else []

/-- A text written line by line. -/
def literal (indent : Nat) (t : Text) : Text :=
  let hint := if t.head?.any (fun c => c = ' ' || isBreak c) then ['2'] else []
  '|' :: hint ++ chompingSign t ++ ['\n'] ++ indentLines indent true t

/-- A text as a scalar whose further lines are indented by `indent`. -/
def scalar (indent : Nat) (t : Text) : Text :=
  match styleOf t with
  | .plain => t
  | .singleQuoted => singleQuoted indent t
  | .doubleQuoted => doubleQuoted t
  | .literal => literal indent t

/-- The end of the line behind a scalar.  A literal scalar may have ended its last line itself. -/
def endLine (t : Text) : Text :=
  if styleOf t = .literal && t.getLast?.any isBreak then [] else ['\n']

/-! ### Entries and members -/

/-- Whether a key needs no question mark: it has one line and at most 128 bytes. -/
def isSimpleKey (key : Text) : Bool :=
  !key.any isBreak && decide (key.byteLength ≤ 128)

/-- An entry of a block mapping of texts. -/
def textEntry (indent : Nat) (key value : Text) : Text :=
  let value := ' ' :: scalar (indent + 2) value ++ endLine value
  let opening :=
    if isSimpleKey key then scalar (indent + 2) key
    else "? ".toList ++ scalar (indent + 2) key ++ endLine key ++ spaces indent
  spaces indent ++ opening ++ ':' :: value

/-- A member of a block sequence of texts. -/
def textItem (indent : Nat) (t : Text) : Text :=
  spaces indent ++ "- ".toList ++ scalar (indent + 2) t ++ endLine t

/-- A sequence of texts as the value of a field, whose members have the given indentation. -/
def textList (indent : Nat) (ts : List Text) : Text :=
  if ts.isEmpty then " []\n".toList else '\n' :: ts.flatMap (textItem indent)

/-- A mapping of texts as the value of a field, whose entries have the given indentation. -/
def textTable (indent : Nat) (entries : List (Text × Text)) : Text :=
  if entries.isEmpty then " \x7b\x7d\n".toList
  else '\n' :: entries.flatMap fun e => textEntry indent e.1 e.2

end Sentential.Yaml
