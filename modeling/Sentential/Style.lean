import Sentential.Environment
import Sentential.Formula.Symbol

/-!
# Styled output

Styled text is put between the control sequences of a terminal.  Variables are bold and bright blue,
connectives are yellow, rules are gray and the word *Error* is bold and red.  Each function takes
whether colors are on; where they are off the text stands as it is.
-/

namespace Sentential.Style

/-- A color, as its red, green and blue parts. -/
structure Color where
  /-- The red part, up to 255. -/
  red : Nat
  /-- The green part, up to 255. -/
  green : Nat
  /-- The blue part, up to 255. -/
  blue : Nat

/-- The color of variables. -/
def accent : Color :=
  ⟨89, 194, 255⟩

/-- The color of connectives. -/
def warm : Color :=
  ⟨255, 180, 84⟩

/-- The color of failures. -/
def alarm : Color :=
  ⟨240, 113, 120⟩

/-- The color of what stands back. -/
def gray : Color :=
  ⟨108, 118, 128⟩

/-- The control sequence that selects a rendition. -/
def select (code : Text) : Text :=
  Char.ofNat 0x1B :: '[' :: code ++ ['m']

/-- The code of a foreground color. -/
def Color.code (c : Color) : Text :=
  "38;2;".toList ++ Nat.toDigits 10 c.red ++ ";".toList ++ Nat.toDigits 10 c.green ++ ";".toList ++
    Nat.toDigits 10 c.blue

/-- Text in a color. -/
def colored (on : Bool) (c : Color) (t : Text) : Text :=
  if on then select c.code ++ t ++ select "39".toList else t

/-- Bold text. -/
def bold (on : Bool) (t : Text) : Text :=
  if on then select "1".toList ++ t ++ select "0".toList else t

/-- Bold text in a color. -/
def boldColored (on : Bool) (c : Color) (t : Text) : Text :=
  bold on (colored on c t)

/-- Text that stands back. -/
def muted (on : Bool) (t : Text) : Text :=
  colored on gray t

/-- A horizontal rule. -/
def rule (on : Bool) (width : Nat) : Text :=
  muted on (List.replicate width '─')

/-- A message of failure. -/
def failure (on : Bool) (message : Text) : Text :=
  boldColored on alarm "Error:".toList ++ ' ' :: message

/-- A variable. -/
def variableText (on : Bool) (v : Variable) : Text :=
  boldColored on accent v.name

/-- A connective, as its glyph. -/
def connectiveText (on : Bool) (c : Connective) : Text :=
  colored on warm [c.glyph]

/-- A symbol of a formula. -/
def symbolText (on : Bool) : Symbol → Text
  | .var v => variableText on v
  | .connective c => connectiveText on c
  | .opening => ['(']
  | .closing => [')']
  | .space t => t
  | .other t => t

/-- A written formula.  Connectives are shown as their glyphs, and all else as it is written. -/
def formulaText (on : Bool) (formula : Text) : Text :=
  (symbolsOf formula).flatMap (symbolText on)

/-- Whether colors are on.  A forced choice wins.  Otherwise the environment decides, and where it
says nothing colors are on if the output goes to a terminal. -/
def isOn (forced : Option Bool) (env : Environment) (terminal : Bool) : Bool :=
  match forced with
  | some on => on
  | none =>
    if (env.get? "NO_COLOR".toList).isSome then false
    else if env.get? "CLICOLOR".toList = some "0".toList then false
    else if env.get? "TERM".toList = some "dumb".toList then false
    else (env.get? "CLICOLOR_FORCE".toList).isSome || terminal

end Sentential.Style
