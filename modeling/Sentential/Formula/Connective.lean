import Sentential.Text.Basic

/-!
# Connectives

The five connectives of propositional logic, with the glyph that stands for each in a formula, the
ASCII spellings that are read as well, the Portuguese word it is read as, and its name.
-/

namespace Sentential

/-- A propositional connective. -/
inductive Connective where
  | negation
  | conjunction
  | disjunction
  | implication
  | biconditional
deriving DecidableEq, Inhabited

namespace Connective

/-- All connectives, the tightest first. -/
def all : List Connective :=
  [negation, conjunction, disjunction, implication, biconditional]

/-- The character that stands for the connective in a formula. -/
def glyph : Connective → Char
  | negation => '¬'
  | conjunction => '∧'
  | disjunction => '∨'
  | implication => '→'
  | biconditional => '↔'

/-- The ASCII spellings that a formula may use instead of the glyph. -/
def ascii : Connective → List Text
  | negation => ["~".toList, "!".toList]
  | conjunction => ["&".toList]
  | disjunction => ["|".toList]
  | implication => ["->".toList, "=>".toList]
  | biconditional => ["<->".toList, "<=>".toList]

/-- All spellings of the connective, the glyph first. -/
def spellings (c : Connective) : List Text :=
  [c.glyph] :: c.ascii

/-- The word, or phrase, as which the connective is read in Portuguese. -/
def word : Connective → Text
  | negation => "não".toList
  | conjunction => "e".toList
  | disjunction => "ou".toList
  | implication => "então".toList
  | biconditional => "se e somente se".toList

/-- The name of the connective. -/
def name : Connective → Text
  | negation => "negation".toList
  | conjunction => "conjunction".toList
  | disjunction => "disjunction".toList
  | implication => "implication".toList
  | biconditional => "biconditional".toList

/-- The connective with the given name. -/
def ofName? (t : Text) : Option Connective :=
  all.find? fun c => c.name = t

end Connective

/-- The sentence shapes that are understood, as messages quote them. -/
def sentenceShapes : Text :=
  "'Se X então Y', 'X e Y', 'X ou Y', 'não X' or 'X ↔ Y'".toList

/-- How a negation is written, as messages quote it. -/
def negationUsage : Text :=
  "'não' must be followed by a clause, as in 'não X'".toList

end Sentential
