import Std.Data.HashMap
import Sentential.Legend

/-!
# Legends with indexes

An indexed legend keeps two indexes beside its entries, so that neither direction has to be searched
for: the place of the last entry of each variable, and the place of the entry of each clause, under
the clause's key.  Each change of the entries changes the indexes with them.

The calls that change a legend are `resolve` and `insert`.  `replay` makes calls one after the other,
each with an allocator of its own.  A `Draft` draws all its fresh variables from one allocator.
-/

namespace Sentential

instance : Hashable Text where
  hash t := hash (String.ofList t)

instance : Hashable Variable where
  hash v := hash v.name

/-- A call that may change a legend. -/
inductive Legend.Call where
  /-- The variable for a clause is wanted, a fresh one if there is none. -/
  | resolve (clause : Text)
  /-- A variable shall stand for a clause. -/
  | insert (v : Variable) (clause : Text)
deriving DecidableEq

/-- The clause that a call gives. -/
def Legend.Call.clause : Call → Text
  | resolve clause | insert _ clause => clause

/-- Makes a call: the variable that is answered, the legend and the allocator afterwards. -/
def Legend.perform (m : Legend) (a : Allocator) : Call → Variable × Legend × Allocator
  | .resolve clause => m.resolve a clause
  | .insert v clause => ((m.insert v clause).1, (m.insert v clause).2, a)

/-- A legend with an index for each direction. -/
structure IndexedLegend where
  /-- The entries, oldest first. -/
  entries : List Legend.Entry := []
  /-- The places of the last entries of variables. -/
  byVariable : Std.HashMap Variable Nat := {}
  /-- The places of the entries of clauses, under the keys of the clauses. -/
  byClause : Std.HashMap Text Nat := {}

namespace IndexedLegend

/-- The legend without its indexes. -/
def legend (m : IndexedLegend) : Legend :=
  ⟨m.entries⟩

/-- Number of entries. -/
def size (m : IndexedLegend) : Nat :=
  m.entries.length

/-- Whether there is no entry. -/
def isEmpty (m : IndexedLegend) : Bool :=
  m.entries.isEmpty

/-- The clause that `v` stands for. -/
def get? (m : IndexedLegend) (v : Variable) : Option Text :=
  m.byVariable[v]?.bind fun i => m.entries[i]?.map (·.clause)

/-- The variable that stands for `clause`. -/
def variableFor? (m : IndexedLegend) (clause : Text) : Option Variable :=
  m.byClause[clauseKey clause]?.bind fun i => m.entries[i]?.map (·.var)

/-- Adds an entry at the end. -/
def push (m : IndexedLegend) (v : Variable) (clause : Text) : IndexedLegend where
  entries := m.entries ++ [⟨v, clause⟩]
  byVariable := m.byVariable.insert v m.entries.length
  byClause := m.byClause.insert (clauseKey clause) m.entries.length

/-- Gives the entry `e` at place `i` another clause. -/
def rebind (m : IndexedLegend) (i : Nat) (e : Legend.Entry) (clause : Text) : IndexedLegend where
  entries := m.entries.set i { e with clause }
  byVariable := m.byVariable
  byClause := (m.byClause.erase (clauseKey e.clause)).insert (clauseKey clause) i

/-- The place of the last entry of `v`, with that entry. -/
def entryOf? (m : IndexedLegend) (v : Variable) : Option (Nat × Legend.Entry) :=
  m.byVariable[v]?.bind fun i => m.entries[i]?.map fun e => (i, e)

/-- The variable that stands for `clause`.  A clause that is not known yet becomes a new entry under
the next fresh variable. -/
def resolve (m : IndexedLegend) (a : Allocator) (clause : Text) :
    Variable × IndexedLegend × Allocator :=
  match m.variableFor? clause with
  | some v => (v, m, a)
  | none => (a.next.1, m.push a.next.1 clause.trim, a.next.2)

/-- Makes `v` stand for `clause`, and answers the variable that stands for it from now on.  A clause
that is known keeps its variable and nothing changes.  Otherwise the entry of `v` takes the clause,
or becomes a new one. -/
def insert (m : IndexedLegend) (v : Variable) (clause : Text) : Variable × IndexedLegend :=
  match m.variableFor? clause with
  | some w => (w, m)
  | none =>
    match m.entryOf? v with
    | some (i, e) => (v, m.rebind i e clause.trim)
    | none => (v, m.push v clause.trim)

/-- Makes a call: the variable that is answered, the legend and the allocator afterwards. -/
def perform (m : IndexedLegend) (a : Allocator) :
    Legend.Call → Variable × IndexedLegend × Allocator
  | .resolve clause => m.resolve a clause
  | .insert v clause => ((m.insert v clause).1, (m.insert v clause).2, a)

/-- Makes calls one after the other, each with the allocator beside it.  The answers are the
variables, with the allocators afterwards. -/
def replay (m : IndexedLegend) :
    List (Allocator × Legend.Call) → List (Variable × Allocator) × IndexedLegend
  | [] => ([], m)
  | (a, call) :: rest =>
    let r := m.perform a call
    let s := r.2.1.replay rest
    ((r.1, r.2.2) :: s.1, s.2)

/-- The legend after calls on an empty one. -/
def after (calls : List (Allocator × Legend.Call)) : IndexedLegend :=
  (replay {} calls).2

/-- An indexed legend under construction, with the allocator from which all its fresh variables
come. -/
structure Draft where
  /-- The legend so far. -/
  legend : IndexedLegend := {}
  /-- The variables handed out so far. -/
  fresh : Allocator := {}

namespace Draft

/-- Makes a call. -/
def perform (d : Draft) (call : Legend.Call) : Variable × Draft :=
  let r := d.legend.perform d.fresh call
  (r.1, ⟨r.2.1, r.2.2⟩)

/-- The draft after calls on an empty one with a fresh allocator. -/
def after (calls : List Legend.Call) : Draft :=
  calls.foldl (fun d call => (d.perform call).2) {}

end Draft

end IndexedLegend

end Sentential
