import Sentential.Numeral
import Sentential.Table

/-!
# Reading a JSON object of texts

A table of texts may be given as a JSON object whose values are texts.  Anything else is refused:
other values, text behind the object, control characters in a text, and escapes of surrogates that
do not form a pair.  Of equal keys the last one counts.
-/

namespace Sentential.Json

/-- Skips the white space of JSON. -/
def skipSpace (t : Text) : Text :=
  t.dropWhile fun c => c = ' ' || c = '\t' || c = '\n' || c = '\r'

/-- Reads the four hexadecimal digits of an escape. -/
def readUnit : Text → Option (Nat × Text)
  | a :: b :: c :: d :: rest => (Numeral.value? 16 [a, b, c, d]).map fun n => (n, rest)
  | _ => none

/-- Reads an escaped code point behind `\u`.  One beyond the basic plane is written as a pair of
surrogates. -/
def readCodePoint (t : Text) : Option (Char × Text) :=
  match readUnit t with
  | none => none
  | some (high, rest) =>
    if 0xD800 ≤ high ∧ high < 0xDC00 then
      match rest with
      | '\\' :: 'u' :: rest =>
        match readUnit rest with
        | some (low, rest) =>
          if 0xDC00 ≤ low ∧ low < 0xE000 then
            some (Char.ofNat (0x10000 + (high - 0xD800) * 0x400 + (low - 0xDC00)), rest)
          else none
        | none => none
      | _ => none
    else if 0xDC00 ≤ high ∧ high < 0xE000 then none
    else some (Char.ofNat high, rest)

/-- The character for a one-letter escape. -/
def letterEscape? (c : Char) : Option Char :=
  match c with
  | '"' => some '"'
  | '\\' => some '\\'
  | '/' => some '/'
  | 'b' => some (Char.ofNat 8)
  | 'f' => some (Char.ofNat 0xC)
  | 'n' => some '\n'
  | 'r' => some '\r'
  | 't' => some '\t'
  | _ => none

/-- Reads a text behind its opening quotation mark; `acc` holds, in reverse, what has been read. -/
def readTextFrom : Nat → Text → Text → Option (Text × Text)
  | 0, _, _ => none
  | fuel + 1, acc, t =>
    match t with
    | [] => none
    | '"' :: rest => some (acc.reverse, rest)
    | '\\' :: 'u' :: rest =>
      match readCodePoint rest with
      | some (c, rest) => readTextFrom fuel (c :: acc) rest
      | none => none
    | '\\' :: e :: rest =>
      match letterEscape? e with
      | some c => readTextFrom fuel (c :: acc) rest
      | none => none
    | c :: rest => if c.toNat < 0x20 || c = '\\' then none else readTextFrom fuel (c :: acc) rest

/-- Reads a text. -/
def readText : Text → Option (Text × Text)
  | '"' :: rest => readTextFrom (rest.length + 1) [] rest
  | _ => none

/-- Reads a field of an object: a key, a colon and a text. -/
def readField (t : Text) : Option ((Text × Text) × Text) := do
  let (key, rest) ← readText (skipSpace t)
  match skipSpace rest with
  | ':' :: rest =>
    let (value, rest) ← readText (skipSpace rest)
    return ((key, value), rest)
  | _ => none

/-- Reads the fields of an object up to its closing brace. -/
def readFields : Nat → Table Text → Text → Option (Table Text × Text)
  | 0, _, _ => none
  | fuel + 1, acc, t =>
    match readField t with
    | none => none
    | some ((k, v), rest) =>
      match skipSpace rest with
      | ',' :: rest => readFields fuel (acc.insert k v) rest
      | c :: rest => if c.toNat = 0x7D then some (acc.insert k v, rest) else none
      | [] => none

/-- Reads an object of texts. -/
def texts? (t : Text) : Option (Table Text) := do
  let (table, rest) ←
    match skipSpace t with
    | c :: rest =>
      if c.toNat = 0x7B then
        match skipSpace rest with
        | d :: rest' =>
          if d.toNat = 0x7D then some (.empty, rest')
          else readFields (rest.length + 1) .empty rest
        | [] => none
      else none
    | [] => none
  if (skipSpace rest).isEmpty then return table else none

end Sentential.Json
