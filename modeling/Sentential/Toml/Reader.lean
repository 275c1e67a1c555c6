import Sentential.Numeral
import Sentential.Table

/-!
# Reading a TOML table of texts

A table of texts may be given as a TOML document of lines `key = text`.  A key is a bare word or a
quoted text, and a text stands between single or double quotes, or three of them for one that takes
several lines.  Every other value, dotted keys, headers of tables and repeated keys are refused.
-/

namespace Sentential.Toml

/-- Whether a character may stand in a comment or between quotes. -/
def isTextChar (c : Char) : Bool :=
  let n := c.toNat
  n == 0x9 || (0x20 ≤ n && n != 0x7F)

/-- Skips spaces and tabulators. -/
def skipBlank (t : Text) : Text :=
  t.dropWhile fun c => c = ' ' || c = '\t'

/-- What follows a line break at the start of a text. -/
def newline? : Text → Option Text
  | '\n' :: rest => some rest
  | '\r' :: '\n' :: rest => some rest
  | _ => none

/-- Skips blanks and line breaks. -/
def skipBlankLines : Nat → Text → Text
  | 0, t => t
  | fuel + 1, t =>
    match newline? (skipBlank t) with
    | some rest => skipBlankLines fuel rest
    | none => skipBlank t

/-- The quotation mark of a literal text. -/
def apostrophe : Char :=
  Char.ofNat 0x27

/-- Reads the code point of an escape with `width` hexadecimal digits. -/
def readCodePoint (width : Nat) (t : Text) : Option (Char × Text) := do
  let digits := t.take width
  let n ← Numeral.value? 16 digits
  if digits.length = width ∧ n.isValidChar then return (Char.ofNat n, t.drop width) else none

/-- Reads what stands behind a backslash. -/
def readEscape : Text → Option (Char × Text)
  | 'b' :: rest => some (Char.ofNat 8, rest)
  | 't' :: rest => some ('\t', rest)
  | 'n' :: rest => some ('\n', rest)
  | 'f' :: rest => some (Char.ofNat 0xC, rest)
  | 'r' :: rest => some ('\r', rest)
  | '"' :: rest => some ('"', rest)
  | '\\' :: rest => some ('\\', rest)
  | 'u' :: rest => readCodePoint 4 rest
  | 'U' :: rest => readCodePoint 8 rest
  | _ => none

/-- Reads a text on one line up to its closing quotation mark; escapes are read where the mark is
`"`. -/
def readLineText (mark : Char) : Nat → Text → Text → Option (Text × Text)
  | 0, _, _ => none
  | fuel + 1, acc, t =>
    match t with
    | [] => none
    | c :: rest =>
      if c = mark then some (acc.reverse, rest)
      else if mark = '"' ∧ c = '\\' then
        match readEscape rest with
        | some (d, rest) => readLineText mark fuel (d :: acc) rest
        | none => none
      else if isTextChar c then readLineText mark fuel (c :: acc) rest
      else none

/-- Reads a text of several lines.  Up to two quotation marks may stand together in it, and the same
number directly before the closing three.  A backslash at the end of a line drops the white space
that follows. -/
def readLongText (mark : Char) : Nat → Text → Text → Option (Text × Text)
  | 0, _, _ => none
  | fuel + 1, acc, t =>
    match t with
    | [] => none
    | c :: rest =>
      if c = mark then
        let marks := (t.take 5).takeWhile (· = mark)
        if 3 ≤ marks.length then
          some (acc.reverse ++ marks.drop 3, t.drop marks.length)
        else readLongText mark fuel (c :: acc) rest
      else if mark = '"' ∧ c = '\\' then
        match newline? (skipBlank rest) with
        | some rest => readLongText mark fuel acc (skipBlankLines rest.length rest)
        | none =>
          match readEscape rest with
          | some (d, rest) => readLongText mark fuel (d :: acc) rest
          | none => none
      else
        match newline? t with
        | some rest => readLongText mark fuel ('\n' :: acc) rest
        | none => if isTextChar c then readLongText mark fuel (c :: acc) rest else none

/-- Reads the text that is a value. -/
def readValue (t : Text) : Option (Text × Text) :=
  match t with
  | a :: b :: c :: rest =>
    if (a = '"' ∨ a = apostrophe) ∧ b = a ∧ c = a then
      let body := (newline? rest).getD rest
      readLongText a (body.length + 1) [] body
    else if a = '"' ∨ a = apostrophe then readLineText a t.length [] (b :: c :: rest)
    else none
  | a :: rest =>
    if a = '"' ∨ a = apostrophe then readLineText a t.length [] rest else none
  | [] => none

/-- Whether a character may stand in a bare key. -/
def isBareChar (c : Char) : Bool :=
  c.isAlphanum || c = '_' || c = '-'

/-- Reads a key. -/
def readKey (t : Text) : Option (Text × Text) :=
  match t with
  | [] => none
  | c :: rest =>
    if c = '"' ∨ c = apostrophe then readLineText c t.length [] rest
    else
      let key := t.takeWhile isBareChar
      if key.isEmpty then none else some (key, t.drop key.length)

/-- Reads what may stand behind the last value of a line: a comment. -/
def finishLine (t : Text) : Text :=
  match skipBlank t with
  | '#' :: rest => rest.dropWhile isTextChar
  | rest => rest

/-- Reads the lines of a document. -/
def readLines : Nat → Table Text → Text → Option (Table Text)
  | 0, _, _ => none
  | fuel + 1, acc, t =>
    let line := finishLine t
    if line.isEmpty then some acc
    else
      match newline? line with
      | some rest => readLines fuel acc rest
      | none =>
        match readKey line with
        | none => none
        | some (key, rest) =>
          match skipBlank rest with
          | '=' :: rest =>
            match readValue (skipBlank rest) with
            | none => none
            | some (value, rest) =>
              let rest := finishLine rest
              if (acc.get? key).isSome then none
              else if rest.isEmpty then some (acc.insert key value)
              else
                match newline? rest with
                | some rest => readLines fuel (acc.insert key value) rest
                | none => none
          | _ => none

/-- Reads a document of texts. -/
def texts? (t : Text) : Option (Table Text) :=
  let body := match t with
    | c :: rest => if c.toNat = 0xFEFF then rest else t
    | [] => []
  readLines (body.length + 1) .empty body

end Sentential.Toml
