import Sentential.Text.Basic

/-!
# JSON output

JSON values as they are printed, on several lines and indented by two spaces for each level.  An
empty list or object stays on one line.  In texts the quotation mark, the backslash and the control
characters are escaped; all other characters stand as they are.
-/

namespace Sentential

/-- A JSON value. -/
inductive Json where
  /-- The value `null`. -/
  | null
  /-- A truth value. -/
  | bool (b : Bool)
  /-- A text. -/
  | text (t : Text)
  /-- A list. -/
  | list (items : List Json)
  /-- An object, in the order in which its fields are printed. -/
  | object (fields : List (Text × Json))
deriving Inhabited

namespace Json

/-- A list of texts. -/
def texts (ts : List Text) : Json :=
  list (ts.map text)

/-- The lower-case hexadecimal digits of a number below 256. -/
def hexByte (n : Nat) : Text :=
  [Nat.digitChar (n / 16), Nat.digitChar (n % 16)]

/-- How a character stands in a text. -/
def escapedChar (c : Char) : Text :=
  match c.toNat with
  | 0x22 => "\\\"".toList
  | 0x5C => "\\\\".toList
  | 0x08 => "\\b".toList
  | 0x09 => "\\t".toList
  | 0x0A => "\\n".toList
  | 0x0C => "\\f".toList
  | 0x0D => "\\r".toList
  | n => if n < 0x20 then "\\u00".toList ++ hexByte n else [c]

/-- A text between quotation marks. -/
def quoted (t : Text) : Text :=
  '"' :: t.flatMap escapedChar ++ ['"']

/-- A line break with the indentation of a level. -/
def newLine (level : Nat) : Text :=
  '\n' :: List.replicate (2 * level) ' '

mutual

/-- Prints a value on a level. -/
def printAt (level : Nat) : Json → Text
  | null => "null".toList
  | bool b => if b then "true".toList else "false".toList
  | text t => quoted t
  | list [] => "[]".toList
  | list (x :: rest) =>
    '[' :: newLine (level + 1) ++ printAt (level + 1) x ++ printItems (level + 1) rest ++
      newLine level ++ [']']
  | object [] => "\x7b\x7d".toList
  | object ((k, x) :: rest) =>
    "\x7b".toList ++ newLine (level + 1) ++ quoted k ++ ": ".toList ++ printAt (level + 1) x ++
      printFields (level + 1) rest ++ newLine level ++ "\x7d".toList

/-- Prints the members of a list behind the first one. -/
def printItems (level : Nat) : List Json → Text
  | [] => []
  | x :: rest => ',' :: newLine level ++ printAt level x ++ printItems level rest

/-- Prints the fields of an object behind the first one. -/
def printFields (level : Nat) : List (Text × Json) → Text
  | [] => []
  | (k, x) :: rest =>
    ',' :: newLine level ++ quoted k ++ ": ".toList ++ printAt level x ++ printFields level rest

end

/-- Prints a value. -/
def print (j : Json) : Text :=
  printAt 0 j

end Json

end Sentential
