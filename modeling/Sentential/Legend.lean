import Sentential.Text.Lowercase
import Sentential.Variable

/-!
# Legends

A legend says what each propositional variable stands for.  It is a list of entries, in the order in
which they were found, each with a variable and its clause.

Two clauses are the same clause when they agree after white space at their ends is dropped and both
are put in lower case; this common form is the clause's key.  Looking up a clause goes by its key.
Looking up a variable gives its most recent entry.

A `Draft` is a legend that names its clauses itself, in the order in which they turn up.
-/

namespace Sentential

/-- The form of a clause by which clauses are compared. -/
def clauseKey (clause : Text) : Text :=
  clause.trim.lower

/-- A variable together with the clause it stands for. -/
structure Legend.Entry where
  /-- The variable. -/
  var : Variable
  /-- The clause it stands for, without white space at its ends. -/
  clause : Text
deriving DecidableEq

/-- What the variables stand for, in the order in which they were found. -/
structure Legend where
  /-- The entries, oldest first. -/
  entries : List Legend.Entry := []
deriving DecidableEq, Inhabited

namespace Legend

/-- Number of entries. -/
def size (m : Legend) : Nat :=
  m.entries.length

/-- Whether there is no entry. -/
def isEmpty (m : Legend) : Bool :=
  m.entries.isEmpty

/-- The clause that `v` stands for: the one of its last entry. -/
def get? (m : Legend) (v : Variable) : Option Text :=
  (m.entries.reverse.find? fun e => e.var = v).map (·.clause)

/-- The variable that stands for `clause`. -/
def variableFor? (m : Legend) (clause : Text) : Option Variable :=
  let key := clauseKey clause
  (m.entries.find? fun e => clauseKey e.clause = key).map (·.var)

/-- Adds an entry at the end. -/
def push (m : Legend) (v : Variable) (clause : Text) : Legend :=
  ⟨m.entries ++ [⟨v, clause⟩]⟩

/-- Gives the first entry of `v` in the list the clause `clause`. -/
def rebindFirst (v : Variable) (clause : Text) : List Entry → List Entry
  | [] => []
  | e :: rest =>
    if e.var = v then ⟨v, clause⟩ :: rest else e :: rebindFirst v clause rest

/-- Gives the last entry of `v` the clause `clause`. -/
def rebind (m : Legend) (v : Variable) (clause : Text) : Legend :=
  ⟨(rebindFirst v clause m.entries.reverse).reverse⟩

/-- Makes `v` stand for `clause`, and answers the variable that stands for it from now on.  A clause
that is known keeps its variable and nothing changes.  Otherwise the entry of `v` takes the clause,
or becomes a new one. -/
def insert (m : Legend) (v : Variable) (clause : Text) : Variable × Legend :=
  match m.variableFor? clause with
  | some w => (w, m)
  | none =>
    match m.get? v with
    | some _ => (v, m.rebind v clause.trim)
    | none => (v, m.push v clause.trim)

/-- The variable that stands for `clause`.  A clause that is not known yet becomes a new entry under
the next fresh variable. -/
def resolve (m : Legend) (a : Allocator) (clause : Text) : Variable × Legend × Allocator :=
  match m.variableFor? clause with
  | some v => (v, m, a)
  | none => (a.next.1, m.push a.next.1 clause.trim, a.next.2)

/-- A legend under construction: the clauses found so far, and the variables still to be used. -/
structure Draft where
  /-- The clauses found so far. -/
  legend : Legend := {}
  /-- The variables handed out so far. -/
  fresh : Allocator := {}
deriving DecidableEq, Inhabited

/-- The variable for `clause`, a fresh one when the clause turns up for the first time. -/
def Draft.resolve (d : Draft) (clause : Text) : Variable × Draft :=
  let r := d.legend.resolve d.fresh clause
  (r.1, ⟨r.2.1, r.2.2⟩)

end Legend

end Sentential
