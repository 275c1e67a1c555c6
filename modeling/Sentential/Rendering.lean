import Sentential.Formula.Symbol
import Sentential.Legend
import Sentential.SentenceError
import Sentential.Verb

/-!
# From a formula to a sentence

Rendering runs in two halves.  First the distinct variables of a written formula are collected and a
source of meanings is asked once for each; then the meanings are put into the formula and its
connectives are spelled out.

Parentheses are dropped, so that the sentence does not show the grouping.  Only the first
implication is written as *Se …, então …*.
-/

namespace Sentential

/-- Where meanings come from.  An answer may depend on a state, and may change it. -/
abbrev MeaningSource (σ : Type) := Variable → σ → Option Text × σ

/-- A sentence together with the meanings that were put into it. -/
structure Rendering where
  /-- The sentence. -/
  sentence : Text
  /-- The meanings, in order of first appearance of their variables. -/
  meanings : List Legend.Entry
deriving DecidableEq

/-! ### Putting meanings into a formula -/

/-- The clause of a variable in a list of meanings: the first one given. -/
def meaningIn (meanings : List Legend.Entry) (v : Variable) : Except SentenceError Text :=
  match meanings.find? fun e => e.var = v with
  | some e => .ok e.clause
  | none => .error (.missingMeaning v)

/-- A piece of the sentence that is being put together. -/
inductive Piece where
  /-- Text that stands as it is. -/
  | plain (t : Text)
  /-- The place of an implication. -/
  | implication
deriving DecidableEq

/-- The text of a piece that is not the first implication. -/
def Piece.text : Piece → Text
  | plain t => t
  | implication => ' ' :: Connective.implication.word ++ [' ']

/-- The text of pieces one after the other. -/
def piecesText (ps : List Piece) : Text :=
  (ps.map Piece.text).flatten

/-- The pieces for the symbols of a formula without parentheses.  A negation sign directly before a
variable negates its clause; any other stands as it is. -/
def piecesOf (isVerb : VerbDetector) (meanings : List Legend.Entry) :
    List Symbol → Except SentenceError (List Piece)
  | [] => .ok []
  | .connective .negation :: .var v :: rest => do
    let clause ← meaningIn meanings v
    let ps ← piecesOf isVerb meanings rest
    return .plain (negateClause isVerb clause) :: ps
  | .connective .negation :: rest => do
    let ps ← piecesOf isVerb meanings rest
    return .plain [Connective.negation.glyph] :: ps
  | .connective .implication :: rest => do
    let ps ← piecesOf isVerb meanings rest
    return .implication :: ps
  | .connective c :: rest => do
    let ps ← piecesOf isVerb meanings rest
    return .plain (' ' :: c.word ++ [' ']) :: ps
  | .var v :: rest => do
    let clause ← meaningIn meanings v
    let ps ← piecesOf isVerb meanings rest
    return .plain clause :: ps
  | .space t :: rest | .other t :: rest => do
    let ps ← piecesOf isVerb meanings rest
    return .plain t :: ps
  | .opening :: rest | .closing :: rest => piecesOf isVerb meanings rest

/-- What stands before and after the first implication. -/
def splitPieces? : List Piece → Option (List Piece × List Piece)
  | [] => none
  | .implication :: rest => some ([], rest)
  | p :: rest => (splitPieces? rest).map fun sides => (p :: sides.1, sides.2)

/-- The sentence for a list of pieces, before its white space is put in order. -/
def assemble (ps : List Piece) : Text :=
  match splitPieces? ps with
  | some (before, after) =>
    "Se ".toList ++ (piecesText before).trim ++ ", ".toList ++ Connective.implication.word ++
      " ".toList ++ piecesText after
  | none => piecesText ps

/-- Puts meanings into a written formula and spells out its connectives. -/
def renderWith (isVerb : VerbDetector) (formula : Text) (meanings : List Legend.Entry) :
    Except SentenceError Text :=
  if formula.isBlank then .error .emptyInput
  else do
    let symbols := (symbolsOf formula).filter fun s => !s.isParenthesis
    let ps ← piecesOf isVerb meanings symbols
    return Text.unwords (assemble ps).words

/-! ### Asking for meanings -/

/-- Asks for the meaning of each variable in turn, and stops at the first that has none. -/
def gather {σ : Type} (ask : MeaningSource σ) :
    List Variable → σ → Except SentenceError (List Legend.Entry) × σ
  | [], s => (.ok [], s)
  | v :: rest, s =>
    match ask v s with
    | (answer, s') =>
      let clause := (answer.getD []).trim
      if clause.isEmpty then (.error (.missingMeaning v), s')
      else
        match gather ask rest s' with
        | (.ok entries, s'') => (.ok (⟨v, clause⟩ :: entries), s'')
        | (.error e, s'') => (.error e, s'')

/-- Renders a written formula with meanings from `ask`. -/
def render {σ : Type} (isVerb : VerbDetector) (formula : Text) (ask : MeaningSource σ) (s : σ) :
    Except SentenceError Rendering × σ :=
  if formula.isBlank then (.error .emptyInput, s)
  else
    let vs := variablesIn formula
    if vs.isEmpty then (.error .noPropositions, s)
    else
      match gather ask vs s with
      | (.error e, s') => (.error e, s')
      | (.ok meanings, s') =>
        ((renderWith isVerb formula meanings).map fun sentence => ⟨sentence, meanings⟩, s')

namespace MeaningSource

/-- A table that answers without a state. -/
def ofTable (find? : Variable → Option Text) : MeaningSource Unit :=
  fun v s => (find? v, s)

/-- A source that also keeps, in reverse, the variables that were asked for. -/
def recording (find? : Variable → Option Text) : MeaningSource (List Variable) :=
  fun v asked => (find? v, v :: asked)

end MeaningSource

end Sentential
