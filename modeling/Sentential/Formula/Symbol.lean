import Sentential.Formula.Connective
import Sentential.Variable

/-!
# Symbols of a written formula

A written formula is cut into variables, connectives, parentheses, white space and single characters
of other text.  Nothing is refused and nothing is lost: only the spelling of a connective is
forgotten.

At each place a run of white space is tried first, then the longest spelling of a connective, then
parentheses and variables.
-/

namespace Sentential

/-- A piece of a written formula. -/
inductive Symbol where
  /-- A propositional variable. -/
  | var (v : Variable)
  /-- A connective, in whichever spelling. -/
  | connective (c : Connective)
  /-- An opening parenthesis. -/
  | opening
  /-- A closing parenthesis. -/
  | closing
  /-- A run of white space. -/
  | space (t : Text)
  /-- Any other character. -/
  | other (t : Text)
deriving DecidableEq

namespace Symbol

/-- Prefers a spelling to the best one so far when it stands at the start of the text and is
longer. -/
def better (t : Text) (best : Option (Connective × Text)) (c : Connective) (spelling : Text) :
    Option (Connective × Text) :=
  if spelling.isPrefixOf t then
    match best with
    | none => some (c, spelling)
    | some (_, held) =>
      if held.byteLength < spelling.byteLength then some (c, spelling) else best
  else best

/-- The connective with the longest spelling at the start of a text, together with that spelling. -/
def connectiveAt? (t : Text) : Option (Connective × Text) :=
  Connective.all.foldl (fun best c => c.spellings.foldl (fun best s => better t best c s) best) none

/-- The symbol for a character that starts no connective and is no white space, and what is left of
the text behind it. -/
def single (c : Char) (rest : Text) : Symbol × Text :=
  if c = '(' then (opening, rest)
  else if c = ')' then (closing, rest)
  else if h : c.isUpper = true then
    (var ⟨c, rest.takeWhile Char.isDigit, h, List.all_takeWhile⟩, rest.dropWhile Char.isDigit)
  else (other [c], rest)

/-- The first symbol of the text `c :: rest`, and what is left behind it. -/
def first (c : Char) (rest : Text) : Symbol × Text :=
  if isSpace c then (space (c :: rest.takeWhile isSpace), rest.dropWhile isSpace)
  else
    match connectiveAt? (c :: rest) with
    | some (conn, spelling) => (connective conn, rest.drop (spelling.length - 1))
    | none => single c rest

theorem length_first_le (c : Char) (rest : Text) : (first c rest).2.length ≤ rest.length := by
  have drop (p : Char → Bool) : (rest.dropWhile p).length ≤ rest.length :=
    (List.dropWhile_sublist p).length_le
  unfold first
  split
  · exact drop _
  · split
    · simp
    · unfold single
      split
      · exact Nat.le_refl _
      · split
        · exact Nat.le_refl _
        · split
          · exact drop _
          · exact Nat.le_refl _

/-- Whether the symbol is a parenthesis. -/
def isParenthesis : Symbol → Bool
  | opening | closing => true
  | _ => false

/-- The variable that a symbol is. -/
def var? : Symbol → Option Variable
  | var v => some v
  | _ => none

end Symbol

/-- The symbols of a written formula, in order. -/
def symbolsOf : Text → List Symbol
  | [] => []
  | c :: rest => (Symbol.first c rest).1 :: symbolsOf (Symbol.first c rest).2
termination_by t => t.length
decreasing_by
  have := Symbol.length_first_le c rest
  simp only [List.length_cons]
  omega

@[simp] theorem symbolsOf_nil : symbolsOf [] = [] := by
  rw [symbolsOf]

theorem symbolsOf_cons (c : Char) (rest : Text) :
    symbolsOf (c :: rest) = (Symbol.first c rest).1 :: symbolsOf (Symbol.first c rest).2 := by
  rw [symbolsOf]

/-- Keeps the first occurrence of each variable. -/
def Variable.distinct : List Variable → List Variable
  | [] => []
  | v :: rest => v :: (Variable.distinct rest).filter (· ≠ v)

/-- The distinct variables of a written formula, in order of first appearance. -/
def variablesIn (formula : Text) : List Variable :=
  Variable.distinct ((symbolsOf formula).filterMap Symbol.var?)

end Sentential
