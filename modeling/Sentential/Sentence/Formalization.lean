import Sentential.Legend
import Sentential.Sentence.Outline

/-!
# From a sentence to a formula

A sentence is formalized in two steps.  Its outline is a formula over clauses; then the clauses are
named from left to right, equal clauses by the same variable.  Every sentence starts with a fresh
draft, so that its first clause is always `P`.
-/

namespace Sentential

/-- A formula together with what its variables stand for. -/
structure Formalization where
  /-- The formula. -/
  formula : Formula Variable
  /-- What the variables of the formula stand for. -/
  legend : Legend
deriving DecidableEq

/-- Names the clauses of an outline. -/
def Formalization.ofOutline (f : Formula Text) : Formalization :=
  let r := f.mapAccum (fun clause d => Legend.Draft.resolve d clause) {}
  ⟨r.1, r.2.legend⟩

/-- Formalizes a sentence. -/
def formalize (sentence : Text) : Except SentenceError Formalization :=
  let source := sentence.trim
  if source.isEmpty then .error .emptyInput
  else (outline source (tokenize source)).map Formalization.ofOutline

end Sentential
