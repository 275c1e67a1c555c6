import Sentential.Datum
import Sentential.Numeral

/-!
# Plain scalars

A YAML scalar that is written without quotes may stand for a value other than its text: for nothing,
a truth value, an integer or a floating-point number.  Digits behind leading zeros are no number,
and neither is a decimal that overflows.
-/

namespace Sentential.Yaml

/-- Whether a text is one of some words. -/
def isOneOf (words : List String) (t : Text) : Bool :=
  words.any fun w => t = w.toList

/-- Whether a text spells nothing. -/
def isNullWord (t : Text) : Bool :=
  isOneOf ["null", "Null", "NULL", "~"] t

/-- The truth value that a word spells. -/
def boolWord? (t : Text) : Option Bool :=
  if isOneOf ["true", "True", "TRUE"] t then some true
  else if isOneOf ["false", "False", "FALSE"] t then some false
  else none

/-- Whether a text is a run of digits that begins with a superfluous zero. -/
def hasLeadingZero (t : Text) : Bool :=
  let digits := match t with
    | '-' :: r => r
    | '+' :: r => r
    | r => r
  match digits with
  | '0' :: c :: r => (c :: r).all Char.isDigit
  | _ => false

/-- The radix that opens an integer, and its digits. -/
def radixDigits? : Text → Option (Nat × Text)
  | '0' :: 'x' :: r => some (16, r)
  | '0' :: 'o' :: r => some (8, r)
  | '0' :: 'b' :: r => some (2, r)
  | _ => none

/-- Whether a text without a sign is an integer of magnitude at most `bound`. -/
def isIntegerUpTo (bound : Nat) (t : Text) : Bool :=
  match radixDigits? t with
  | some (radix, digits) => ((Numeral.value? radix digits).any (· ≤ bound))
  | none => !hasLeadingZero t && ((Numeral.value? 10 t).any (· ≤ bound))

/-- Whether a text spells an unsigned integer of some bits, perhaps behind a plus sign. -/
def isUnsigned (bits : Nat) : Text → Bool
  | '+' :: t => isIntegerUpTo (Nat.pow 2 bits - 1) t
  | t => isIntegerUpTo (Nat.pow 2 bits - 1) t

/-- Whether a text spells an integer of 128 bits. -/
def isInteger : Text → Bool
  | '-' :: t => isIntegerUpTo (Nat.pow 2 127) t
  | t => isUnsigned 128 t

/-- Whether a text spells a floating-point number. -/
def isFloat (t : Text) : Bool :=
  let unsigned := match t with
    | '+' :: r => r
    | r => r
  isOneOf [".inf", ".Inf", ".INF"] unsigned ||
    isOneOf ["-.inf", "-.Inf", "-.INF", ".nan", ".NaN", ".NAN"] t ||
    (match t with
      | '+' :: '-' :: _ => false
      | '+' :: '+' :: _ => false
      | _ => (Numeral.decimal? t).any Numeral.Decimal.isFinite)

/-- The value for which a plain scalar stands. -/
def plainValue (t : Text) : Datum :=
  if t.isEmpty || isNullWord t then .null
  else
    match boolWord? t with
    | some b => .bool b
    | none =>
      if isInteger t then .number t
      else if !hasLeadingZero t && isFloat t then .number t
      else .text t

end Sentential.Yaml
