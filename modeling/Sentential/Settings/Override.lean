import Sentential.Datum
import Sentential.Numeral

/-!
# Values in environment variables

The value of an environment variable is read as plain data where it has that form: `true` and
`false`, numbers, quoted texts, lists in brackets and dictionaries in braces.  Anything else is the
text itself, without white space around it.  A value of which only a part has the form of data is
taken as the text that it is.
-/

namespace Sentential.Override

/-- Skips blanks and line feeds. -/
def skipSpace (t : Text) : Text :=
  t.dropWhile fun c => c = ' ' || c = '\t' || c = '\n'

/-- Whether a character belongs to a word without quotes. -/
def isWordChar (c : Char) : Bool :=
  !(c = ',' || c = '[' || c = ']' || c.toNat = 0x7B || c.toNat = 0x7D)

/-- Whether a character may stand in a key without quotes. -/
def isKeyChar (c : Char) : Bool :=
  c.isAlphanum || c = '_' || c = '-'

/-- Reads the character behind a backslash. -/
def readEscape : Text → Option (Char × Text)
  | '"' :: rest => some ('"', rest)
  | '\\' :: rest => some ('\\', rest)
  | 'b' :: rest => some (Char.ofNat 8, rest)
  | 'f' :: rest => some (Char.ofNat 0xC, rest)
  | 'n' :: rest => some ('\n', rest)
  | 'r' :: rest => some ('\r', rest)
  | 't' :: rest => some ('\t', rest)
  | c :: rest =>
    let width := if c = 'u' then 4 else if c = 'U' then 8 else 0
    let digits := rest.take width
    match Numeral.value? 16 digits with
    | some n =>
      if digits.length = width ∧ n.isValidChar then some (Char.ofNat n, rest.drop width) else none
    | none => none
  | [] => none

/-- Reads a text behind its opening quotation mark. -/
def readTextFrom : Nat → Text → Text → Option (Text × Text)
  | 0, _, _ => none
  | fuel + 1, acc, t =>
    match t with
    | [] => none
    | '"' :: rest => some (acc.reverse, rest)
    | '\\' :: rest =>
      match readEscape rest with
      | some (c, rest) => readTextFrom fuel (c :: acc) rest
      | none => none
    | c :: rest => readTextFrom fuel (c :: acc) rest

/-- Reads a key with the white space around it. -/
def readKey (t : Text) : Option (Text × Text) :=
  match skipSpace t with
  | '"' :: rest => (readTextFrom (rest.length + 1) [] rest).map fun r => (r.1, skipSpace r.2)
  | t =>
    let key := t.takeWhile isKeyChar
    if key.isEmpty then none else some (key, skipSpace (t.drop key.length))

/-- The value of a word without quotes. -/
def wordValue (word : Text) : Datum :=
  let isFloat := '.' ∈ word && (Numeral.decimal? word).isSome
  let isInteger :=
    match word with
    | '-' :: digits => (Numeral.value? 10 digits).any (· ≤ Nat.pow 2 63)
    | '+' :: digits => (Numeral.value? 10 digits).any (· < Nat.pow 2 64)
    | digits => (Numeral.value? 10 digits).any (· < Nat.pow 2 64)
  if isFloat || isInteger then .number word else .text word

/-- What follows a word at the start of a text. -/
def after? (word t : Text) : Option Text :=
  if word.isPrefixOf t then some (t.drop word.length) else none

mutual

/-- Reads a value with the white space around it.  The first argument bounds the depth of the
calls. -/
def readValue : Nat → Text → Option (Datum × Text)
  | 0, _ => none
  | fuel + 1, t =>
    let t := skipSpace t
    let answer : Option (Datum × Text) :=
      match after? "true".toList t, after? "false".toList t with
      | some rest, _ => some (.bool true, rest)
      | _, some rest => some (.bool false, rest)
      | none, none =>
        match t with
        | [] => some (.text [], [])
        | c :: rest =>
          if c = '[' then (readItems fuel [] rest).map fun r => (.list r.1, r.2)
          else if c.toNat = 0x7B then (readEntries fuel [] rest).map fun r => (.dict r.1, r.2)
          else if c = '"' then
            (readTextFrom (rest.length + 1) [] rest).map fun r => (.text r.1, r.2)
          else if c.toNat = 0x27 then
            match rest with
            | d :: e :: rest => if e = c then some (.text [d], rest) else none
            | _ => none
          else
            let word := t.takeWhile isWordChar
            some (wordValue (Text.trim word), t.drop word.length)
    answer.map fun r => (r.1, skipSpace r.2)

/-- Reads the members of a list up to its closing bracket. -/
def readItems : Nat → List Datum → Text → Option (List Datum × Text)
  | 0, _, _ => none
  | fuel + 1, acc, t =>
    match t with
    | ']' :: rest => some (acc, rest)
    | _ =>
      match readValue fuel t with
      | some (x, ',' :: rest) => readItems fuel (acc ++ [x]) rest
      | some (x, ']' :: rest) => some (acc ++ [x], rest)
      | _ => none

/-- Reads the entries of a dictionary up to its closing brace. -/
def readEntries : Nat → List (Text × Datum) → Text → Option (List (Text × Datum) × Text)
  | 0, _, _ => none
  | fuel + 1, acc, t =>
    if t.head?.any fun c => c.toNat = 0x7D then some (acc, t.drop 1)
    else
      match readKey t with
      | some (k, '=' :: rest) =>
        match readValue fuel rest with
        | some (x, c :: rest) =>
          if c = ',' then readEntries fuel (insertEntry k x acc) rest
          else if c.toNat = 0x7D then some (insertEntry k x acc, rest)
          else none
        | _ => none
      | _ => none

end

/-- The value of an environment variable. -/
def value (t : Text) : Datum :=
  match readValue (t.length + 2) t with
  | some (x, []) => x
  | _ => .text t

end Sentential.Override
