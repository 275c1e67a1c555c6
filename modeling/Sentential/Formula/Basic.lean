import Sentential.Formula.Connective
import Sentential.Variable

/-!
# Formulas

Propositional formulas over atoms of any type: the variables of a finished formula, or the clauses
of one that is still to be named.  Conjunctions and disjunctions take a list of operands, since a
sentence such as *A, B e C* is read as one group.

`Formula.display` writes a formula with glyphs.  A group of two or more operands stands in
parentheses, a negation stands directly before its operand, and an implication or a biconditional
is never put in parentheses.
-/

namespace Sentential

/-- A propositional formula with atoms in `α`. -/
inductive Formula (α : Type) where
  /-- An atom. -/
  | atom (a : α)
  /-- The negation of a formula. -/
  | neg (f : Formula α)
  /-- The conjunction of a list of operands. -/
  | conj (fs : List (Formula α))
  /-- The disjunction of a list of operands. -/
  | disj (fs : List (Formula α))
  /-- An implication. -/
  | imp (f g : Formula α)
  /-- A biconditional. -/
  | iff (f g : Formula α)
deriving Inhabited

namespace Formula

variable {α β σ : Type}

/-! ### Equality -/

mutual

/-- Decides whether two formulas are equal. -/
def decEq [DecidableEq α] : (f g : Formula α) → Decidable (f = g)
  | atom a, atom b => if h : a = b then isTrue (by rw [h]) else isFalse (by simp [h])
  | neg f, neg g =>
    match decEq f g with
    | isTrue h => isTrue (by rw [h])
    | isFalse h => isFalse (by simp [h])
  | conj fs, conj gs =>
    match decEqAll fs gs with
    | isTrue h => isTrue (by rw [h])
    | isFalse h => isFalse (by simp [h])
  | disj fs, disj gs =>
    match decEqAll fs gs with
    | isTrue h => isTrue (by rw [h])
    | isFalse h => isFalse (by simp [h])
  | imp f f', imp g g' =>
    match decEq f g, decEq f' g' with
    | isTrue h, isTrue h' => isTrue (by rw [h, h'])
    | isFalse h, _ => isFalse (by simp [h])
    | _, isFalse h => isFalse (by simp [h])
  | iff f f', iff g g' =>
    match decEq f g, decEq f' g' with
    | isTrue h, isTrue h' => isTrue (by rw [h, h'])
    | isFalse h, _ => isFalse (by simp [h])
    | _, isFalse h => isFalse (by simp [h])
  | atom _, neg _ | atom _, conj _ | atom _, disj _ | atom _, imp _ _ | atom _, iff _ _
  | neg _, atom _ | neg _, conj _ | neg _, disj _ | neg _, imp _ _ | neg _, iff _ _
  | conj _, atom _ | conj _, neg _ | conj _, disj _ | conj _, imp _ _ | conj _, iff _ _
  | disj _, atom _ | disj _, neg _ | disj _, conj _ | disj _, imp _ _ | disj _, iff _ _
  | imp _ _, atom _ | imp _ _, neg _ | imp _ _, conj _ | imp _ _, disj _ | imp _ _, iff _ _
  | iff _ _, atom _ | iff _ _, neg _ | iff _ _, conj _ | iff _ _, disj _ | iff _ _, imp _ _ =>
    isFalse (by intro h; cases h)

/-- Decides whether two lists of operands are equal. -/
def decEqAll [DecidableEq α] : (fs gs : List (Formula α)) → Decidable (fs = gs)
  | [], [] => isTrue rfl
  | [], _ :: _ => isFalse (by simp)
  | _ :: _, [] => isFalse (by simp)
  | f :: fs, g :: gs =>
    match decEq f g, decEqAll fs gs with
    | isTrue h, isTrue h' => isTrue (by rw [h, h'])
    | isFalse h, _ => isFalse (by simp [h])
    | _, isFalse h => isFalse (by simp [h])

end

instance [DecidableEq α] : DecidableEq (Formula α) :=
  decEq

/-! ### Groups -/

/-- The conjunction of `fs`; a single operand stands for itself. -/
def conjunction : List (Formula α) → Formula α
  | [f] => f
  | fs => conj fs

/-- The disjunction of `fs`; a single operand stands for itself. -/
def disjunction : List (Formula α) → Formula α
  | [f] => f
  | fs => disj fs

/-! ### Atoms, from left to right -/

mutual

/-- The atoms of a formula, from left to right. -/
def atoms : Formula α → List α
  | atom a => [a]
  | neg f => atoms f
  | conj fs => atomsAll fs
  | disj fs => atomsAll fs
  | imp f g => atoms f ++ atoms g
  | iff f g => atoms f ++ atoms g

/-- The atoms of a list of operands, from left to right. -/
def atomsAll : List (Formula α) → List α
  | [] => []
  | f :: fs => atoms f ++ atomsAll fs

end

mutual

/-- Replaces the atoms from left to right, handing a state from each to the next. -/
def mapAccum (step : α → σ → β × σ) : Formula α → σ → Formula β × σ
  | atom a, s =>
    let r := step a s
    (atom r.1, r.2)
  | neg f, s =>
    let r := mapAccum step f s
    (neg r.1, r.2)
  | conj fs, s =>
    let r := mapAccumAll step fs s
    (conj r.1, r.2)
  | disj fs, s =>
    let r := mapAccumAll step fs s
    (disj r.1, r.2)
  | imp f g, s =>
    let r := mapAccum step f s
    let r' := mapAccum step g r.2
    (imp r.1 r'.1, r'.2)
  | iff f g, s =>
    let r := mapAccum step f s
    let r' := mapAccum step g r.2
    (iff r.1 r'.1, r'.2)

/-- Replaces the atoms of a list of operands from left to right. -/
def mapAccumAll (step : α → σ → β × σ) : List (Formula α) → σ → List (Formula β) × σ
  | [], s => ([], s)
  | f :: fs, s =>
    let r := mapAccum step f s
    let r' := mapAccumAll step fs r.2
    (r.1 :: r'.1, r'.2)

end

/-! ### Display -/

/-- Writes operands that are already written, with a glyph between neighbours; two or more stand in
parentheses. -/
def displayGroup (glyph : Char) (parts : List Text) : Text :=
  let body := Text.join [' ', glyph, ' '] parts
  if 2 ≤ parts.length then '(' :: body ++ [')'] else body

mutual

/-- Writes a formula with glyphs. -/
def display : Formula Variable → Text
  | atom v => v.name
  | neg f => Connective.negation.glyph :: display f
  | conj fs => displayGroup Connective.conjunction.glyph (displayAll fs)
  | disj fs => displayGroup Connective.disjunction.glyph (displayAll fs)
  | imp f g => display f ++ [' ', Connective.implication.glyph, ' '] ++ display g
  | iff f g => display f ++ [' ', Connective.biconditional.glyph, ' '] ++ display g

/-- Writes each operand of a group. -/
def displayAll : List (Formula Variable) → List Text
  | [] => []
  | f :: fs => display f :: displayAll fs

end

end Formula

end Sentential
