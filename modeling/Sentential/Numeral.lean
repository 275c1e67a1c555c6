import Sentential.Text.Basic

/-!
# Numerals

Which texts spell a number.  An integer is a run of digits in some radix.  A decimal is a sign,
digits with an optional point, and an optional exponent; at least one digit stands before the
exponent.  Decimals are told apart by whether a binary floating-point number of 64 bits can hold them
without overflow.
-/

namespace Sentential.Numeral

/-- The value of a digit in a radix of at most 16. -/
def digit? (radix : Nat) (c : Char) : Option Nat :=
  let n := c.toNat
  let d := if '0' ≤ c && c ≤ '9' then some (n - '0'.toNat)
    else if 'a' ≤ c && c ≤ 'f' then some (n - 'a'.toNat + 10)
    else if 'A' ≤ c && c ≤ 'F' then some (n - 'A'.toNat + 10)
    else none
  d.filter (· < radix)

/-- The value of a run of digits, on top of the value `n` of the digits before it. -/
def valueFrom (radix n : Nat) : Text → Option Nat
  | [] => some n
  | c :: rest =>
    match digit? radix c with
    | some d => valueFrom radix (n * radix + d) rest
    | none => none

/-- The value of a non-empty run of digits. -/
def value? (radix : Nat) : Text → Option Nat
  | [] => none
  | t => valueFrom radix 0 t

/-- A decimal, taken apart: the digits of its significand, how many of them stand behind the point,
and its exponent. -/
structure Decimal where
  /-- The digits, without the point. -/
  digits : Text
  /-- The number of digits behind the point. -/
  places : Nat
  /-- The exponent. -/
  exponent : Int

/-- Reads an exponent without its letter. -/
def exponent? : Text → Option Int
  | '-' :: t => (value? 10 t).map fun n => -(Int.ofNat n)
  | '+' :: t => (value? 10 t).map Int.ofNat
  | t => (value? 10 t).map Int.ofNat

/-- Reads a decimal without a sign. -/
def unsigned? (t : Text) : Option Decimal :=
  let whole := t.takeWhile Char.isDigit
  let rest := t.dropWhile Char.isDigit
  let behind := match rest with
    | '.' :: r => (r.takeWhile Char.isDigit, r.dropWhile Char.isDigit)
    | _ => ([], rest)
  let digits := whole ++ behind.1
  if digits.isEmpty then none
  else
    match behind.2 with
    | [] => some ⟨digits, behind.1.length, 0⟩
    | c :: r =>
      if c = 'e' ∨ c = 'E' then (exponent? r).map fun e => ⟨digits, behind.1.length, e⟩ else none

/-- Reads a decimal, whose sign is dropped. -/
def decimal? : Text → Option Decimal
  | '-' :: t => unsigned? t
  | '+' :: t => unsigned? t
  | t => unsigned? t

/-- The least magnitude that overflows a 64-bit floating-point number. -/
def overflowBound : Nat :=
  Nat.pow 2 1024 - Nat.pow 2 970

/-- Whether a decimal is held without overflow. -/
def Decimal.isFinite (d : Decimal) : Bool :=
  let n := (valueFrom 10 0 d.digits).getD 0
  let e := d.exponent - d.places
  let width := Int.ofNat (d.digits.dropWhile (· = '0')).length + e
  if n = 0 then true
  else if width > 310 then false
  else if width < 300 then true
  else if 0 ≤ e then decide (n * Nat.pow 10 e.toNat < overflowBound)
  else decide (n < overflowBound * Nat.pow 10 (-e).toNat)

end Sentential.Numeral
