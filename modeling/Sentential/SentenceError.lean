import Sentential.Formula.Connective
import Sentential.Variable

/-!
# What can go wrong with a sentence

One type of causes serves both directions: reading a sentence and rendering a formula.
-/

namespace Sentential

/-- Why a sentence cannot be formalized, or a formula cannot be rendered. -/
inductive SentenceError where
  /-- There is nothing but white space. -/
  | emptyInput
  /-- The formula has no variable. -/
  | noPropositions
  /-- The variable has no meaning, or a blank one. -/
  | missingMeaning (v : Variable)
  /-- The sentence has the words of a conditional, but not in an order that gives both sides. -/
  | unparsableConditional
  /-- Nothing is left of a clause, of which the text is `source`. -/
  | emptyClause (source : Text)
deriving DecidableEq

/-- The wording of an error. -/
def SentenceError.message : SentenceError → Text
  | emptyInput => "input is empty".toList
  | noPropositions => "no propositions found in formula".toList
  | missingMeaning v => "no meaning given for ".toList ++ v.name
  | unparsableConditional =>
    "could not parse the conditional sentence; use sentences like ".toList ++ sentenceShapes
  | emptyClause source =>
    "clause is empty after removing negation and punctuation: '".toList ++ source ++
      "'; ".toList ++ negationUsage

end Sentential
