import Sentential.Yaml.Node

/-!
# References

A document is read from its root, and a reference is followed where it stands: the reading goes on
with the node that has the number of the reference, wherever in the document it is.  Since such a
node may itself hold references, even to itself, the number of references that a reading may follow
is limited by the size of the document.
-/

namespace Sentential.Yaml

namespace Node

mutual

/-- A node and the nodes inside it, in the order in which they begin. -/
def subnodes : Node → List Node
  | reference n => [reference n]
  | scalar n tag plain t => [scalar n tag plain t]
  | sequence n tag items => sequence n tag items :: subnodesOfItems items
  | mapping n tag entries => mapping n tag entries :: subnodesOfEntries entries

/-- The nodes inside a sequence. -/
def subnodesOfItems : List Node → List Node
  | [] => []
  | x :: rest => subnodes x ++ subnodesOfItems rest

/-- The nodes inside a mapping. -/
def subnodesOfEntries : List (Node × Node) → List Node
  | [] => []
  | (k, v) :: rest => subnodes k ++ (subnodes v ++ subnodesOfEntries rest)

end

/-- The number of a node. -/
def number? : Node → Option Nat
  | reference _ => none
  | scalar n _ _ _ => n
  | sequence n _ _ => n
  | mapping n _ _ => n

/-- How much a node counts: collections have a beginning and an end. -/
def weight : Node → Nat
  | reference _ | scalar .. => 1
  | sequence .. | mapping .. => 2

/-- The size of a document. -/
def size (root : Node) : Nat :=
  root.subnodes.foldl (fun n x => n + x.weight) 0

/-- How many references may be followed in a document. -/
def followLimit (root : Node) : Nat :=
  100 * root.size

/-- The nodes of a document that have numbers, the last one first. -/
def targets (root : Node) : List Node :=
  (root.subnodes.filter fun x => x.number?.isSome).reverse

end Node

/-- A reading of something in a document.  Its state is how many references may still be
followed. -/
abbrev Reading (α : Type) :=
  StateT Nat Option α

namespace Reading

/-- Notes that a reference is followed. -/
def countReference : Reading Unit
  | 0 => none
  | left + 1 => some ((), left)

/-- The node itself, or the one to which it refers among `targets`. -/
def follow (targets : List Node) : Node → Reading Node
  | .reference n => do
    countReference
    targets.find? fun x => x.number? = some n
  | node => pure node

/-- The text of a scalar, as it is written. -/
def scalarText (targets : List Node) (node : Node) : Reading Text := do
  match ← follow targets node with
  | .scalar _ _ _ t => return t
  | _ => failure

/-- What a reading of a document gives. -/
def result? {α : Type} (root : Node) (reading : Reading α) : Option α :=
  (reading.run root.followLimit).map (·.1)

end Reading

end Sentential.Yaml
