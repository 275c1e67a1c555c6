import Sentential.Formula.Basic
import Sentential.Sentence.Cuts
import Sentential.Sentence.Token
import Sentential.SentenceError

/-!
# The outline of a sentence

The outline of a sentence is its formula over clauses, before clauses get variables.  The loosest
tier comes first:

* *A se e somente se B* is a biconditional of two sides, cut at the first place where the phrase
  stands;
* *… se A então B* is a conditional of two sides, and what precedes it is skipped;
* a side is a disjunction of parts separated by *ou*;
* a part is a conjunction of runs separated by commas, *e* and *mas*;
* a run is a clause, which may be negated by *não* or `¬`.

Each tier looks for its own separators only.  Empty parts and runs, which come from separators at an
end or next to each other, are dropped.  Negation belongs to a clause and never spans a group.
-/

namespace Sentential

/-- The word that opens a condition. -/
def ifWord : Text :=
  "se".toList

/-- The words that open what follows from a condition. -/
def thenWords : List Text :=
  ["então".toList, "entao".toList]

/-- The phrase of a biconditional. -/
def iffPhrase : List Text :=
  ["se".toList, "e".toList, "somente".toList, "se".toList]

/-- The word between the parts of a disjunction. -/
def orWord : Text :=
  "ou".toList

/-- The words between the runs of a conjunction. -/
def andWords : List Text :=
  ["e".toList, "mas".toList]

/-- The words that negate a clause. -/
def notWords : List Text :=
  ["não".toList, "nao".toList]

namespace Token

/-- Whether the token separates parts of a disjunction. -/
def isOr (t : Token) : Bool :=
  t.isWord orWord

/-- Whether the token separates runs of a conjunction. -/
def isAnd (t : Token) : Bool :=
  t.kind = .comma || t.isAnyWord andWords

/-- Whether the token is a negation word. -/
def isNot (t : Token) : Bool :=
  t.isAnyWord notWords

/-- Whether the token is `então`, in either spelling. -/
def isThen (t : Token) : Bool :=
  t.isAnyWord thenWords

end Token

/-! ### Clauses -/

/-- A clause as it stands in a sentence. -/
structure Literal where
  /-- Whether the clause is negated. -/
  negated : Bool
  /-- The clause without its negation words. -/
  clause : Text
deriving DecidableEq

/-- The formula of a literal. -/
def Literal.formula (l : Literal) : Formula Text :=
  if l.negated then .neg (.atom l.clause) else .atom l.clause

/-- Whether a run begins with a negation that has something behind it. -/
def opensNegated : List Token → Bool
  | t :: _ :: _ => t.kind = .negation || t.isNot
  | _ => false

/-- The tokens of a run without the punctuation at either end. -/
def stripPunctuation (run : List Token) : List Token :=
  ((run.dropWhile Token.isClausePunctuation).reverse.dropWhile Token.isClausePunctuation).reverse

/-- Reads a run of tokens as a clause.  Negation words are taken out wherever they stand, and
several of them negate the clause once. -/
def literalOf (run : List Token) : Literal :=
  let stripped := stripPunctuation run
  let opens := opensNegated stripped
  let body := if opens then stripped.drop 1 else stripped
  ⟨opens || body.any Token.isNot, joinTokens (body.filter fun t => !t.isNot)⟩

/-! ### Tiers -/

/-- The text of some tokens of the sentence `source`. -/
def quoted (source : Text) (ts : List Token) : Text :=
  (sourceText? source ts).getD []

/-- The formula of a run. -/
def runOutline (source : Text) (run : List Token) : Except SentenceError (Formula Text) :=
  let l := literalOf run
  if l.clause.isEmpty then .error (.emptyClause (quoted source run)) else .ok l.formula

/-- Drops the empty ones of the parts of `whole`; at least one has to remain. -/
def dropEmpty (source : Text) (whole : List Token) (parts : List (List Token)) :
    Except SentenceError (List (List Token)) :=
  let kept := parts.filter fun part => !part.isEmpty
  if kept.isEmpty then .error (.emptyClause (quoted source whole)) else .ok kept

/-- The formula of a part of a disjunction. -/
def partOutline (source : Text) (part : List Token) : Except SentenceError (Formula Text) :=
  match cuts Token.isAnd part with
  | [_] => runOutline source part
  | runs => do
    let kept ← dropEmpty source part runs
    let fs ← kept.mapM (runOutline source)
    return Formula.conjunction fs

/-- The formula of a side of a conditional or biconditional, or of a sentence that is neither. -/
def sideOutline (source : Text) (side : List Token) : Except SentenceError (Formula Text) :=
  match innerCuts Token.isOr side with
  | [_] => partOutline source side
  | parts => do
    let kept ← dropEmpty source side parts
    let fs ← kept.mapM (partOutline source)
    return Formula.disjunction fs

/-- Whether tokens begin with the words of a phrase. -/
def startsPhrase : List Text → List Token → Bool
  | [], _ => true
  | _ :: _, [] => false
  | w :: phrase, t :: ts => t.isWord w && startsPhrase phrase ts

/-- The sides of a biconditional: what stands before and after the first place of its phrase. -/
def splitIff? : List Token → Option (List Token × List Token)
  | [] => none
  | t :: rest =>
    if startsPhrase iffPhrase (t :: rest) then some ([], (t :: rest).drop iffPhrase.length)
    else (splitIff? rest).map fun sides => (t :: sides.1, sides.2)

/-- Cuts at the first `então` that has a token behind it. -/
def splitThen? : List Token → Option (List Token × List Token)
  | [] => none
  | [_] => none
  | t :: u :: rest =>
    if t.isThen then some ([], u :: rest)
    else (splitThen? (u :: rest)).map fun sides => (t :: sides.1, sides.2)

/-- The sides of a conditional whose `se` stands just before: at least one token, then the first
`então` behind it that has a token behind it. -/
def splitCondition? : List Token → Option (List Token × List Token)
  | [] => none
  | t :: rest => (splitThen? rest).map fun sides => (t :: sides.1, sides.2)

/-- The sides of a conditional, from the first `se` that can be completed. -/
def splitImplication? : List Token → Option (List Token × List Token)
  | [] => none
  | t :: rest =>
    if t.isWord ifWord then
      match splitCondition? rest with
      | some sides => some sides
      | none => splitImplication? rest
    else splitImplication? rest

/-- The outline of a sentence `source` with the tokens `ts`. -/
def outline (source : Text) (ts : List Token) : Except SentenceError (Formula Text) :=
  match splitIff? ts with
  | some (left, right) => do
    let f ← sideOutline source left
    let g ← sideOutline source right
    return .iff f g
  | none =>
    if ts.any (Token.isWord ifWord) && ts.any Token.isThen then
      match splitImplication? ts with
      | none => .error .unparsableConditional
      | some (condition, conclusion) => do
        let f ← sideOutline source condition
        let g ← sideOutline source conclusion
        return .imp f g
    else sideOutline source ts

end Sentential
