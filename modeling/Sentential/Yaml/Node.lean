import Sentential.Yaml.Stream
import Sentential.Yaml.Tag

/-!
# Nodes

A YAML document is a tree of scalars, sequences and mappings, and of references to other nodes of
the document.  This module reads the tree from the tokens of a stream.

References go by numbers.  A node with an anchor gets as its number how many different anchors have
been read before it, and a reference the number that its anchor has last been given.  So the same
number may be given twice; it then belongs to the node that comes last in the document.
-/

namespace Sentential.Yaml

/-- A node of a document. -/
inductive Node where
  /-- A reference to the node with a number. -/
  | reference (number : Nat)
  /-- A scalar with its number, if it has one, its tag, whether it is plain, and its text. -/
  | scalar (number : Option Nat) (tag : Tag) (plain : Bool) (text : Text)
  /-- A sequence with its number and its tag. -/
  | sequence (number : Option Nat) (tag : Tag) (items : List Node)
  /-- A mapping with its number and its tag: keys with their values, in the order of the
  document. -/
  | mapping (number : Option Nat) (tag : Tag) (entries : List (Node × Node))
deriving Inhabited

namespace Node

/-- The node of a place at which nothing is written. -/
def empty : Node :=
  scalar none .implicit true []

/-- The tokens that are left, and what has been learned from those before. -/
structure Remaining where
  /-- The tokens that are left. -/
  tokens : List Token
  /-- What the tag handles of the document stand for. -/
  handles : List (Text × Bytes)
  /-- The anchors so far, with the numbers that they have last been given. -/
  anchors : List (Text × Nat) := []

namespace Remaining

/-- The next token. -/
def peek? (r : Remaining) : Option Token :=
  r.tokens.head?

/-- Drops the next token. -/
def skip (r : Remaining) : Remaining :=
  { r with tokens := r.tokens.tail }

/-- Whether the next token is one of `ts`. -/
def nextIs (r : Remaining) (ts : List Token) : Bool :=
  r.peek?.any (· ∈ ts)

/-- Gives a number to an anchor. -/
def name (r : Remaining) (anchor : Text) : Remaining :=
  { r with anchors := insertEntry anchor r.anchors.length r.anchors }

end Remaining

/-- What is written before a node. -/
structure Properties where
  /-- The number that its anchor gives it. -/
  number : Option Nat := none
  /-- Its tag. -/
  tag : Option Tag := none

/-- Reads an anchor, if there is one, and answers its number. -/
def readAnchor (r : Remaining) : Option Nat × Remaining :=
  match r.peek? with
  | some (.anchor a) => (some r.anchors.length, r.skip.name a)
  | _ => (none, r)

/-- Reads a tag, if there is one. -/
def readTag (r : Remaining) : Option (Option Tag × Remaining) :=
  match r.peek? with
  | some (.tag h s) => (Tag.expand? r.handles h s).map fun tag => (some tag, r.skip)
  | _ => some (none, r)

/-- Reads the properties of a node: an anchor and a tag, in either order. -/
def readProperties (r : Remaining) : Option (Properties × Remaining) := do
  let (before, r) := readAnchor r
  let (tag, r) ← readTag r
  if before.isSome then return (⟨before, tag⟩, r)
  else
    let (behind, r) := readAnchor r
    return (⟨behind, tag⟩, r)

/-- The places at which a node may stand differ in which collections may begin there. -/
inductive Place where
  /-- Inside a flow collection. -/
  | flow
  /-- In a block. -/
  | block
  /-- In a block mapping, where the dashes of a sequence need no further indentation. -/
  | entry
deriving DecidableEq

/-- The tokens that end a place in a block mapping. -/
def entryEnds : List Token :=
  [.key, .value, .blockEnd]

mutual

/-- Reads a node.  The first argument bounds the depth of the calls. -/
def read : Nat → Place → Remaining → Option (Node × Remaining)
  | 0, _, _ => none
  | fuel + 1, place, r =>
    match r.peek? with
    | some (.alias name) => (entryAt? name r.anchors).map fun n => (.reference n, r.skip)
    | _ =>
      match readProperties r with
      | some (ps, r) => readContent fuel place ps r
      | none => none

/-- Reads a node behind its properties. -/
def readContent : Nat → Place → Properties → Remaining → Option (Node × Remaining)
  | 0, _, _, _ => none
  | fuel + 1, place, ps, r =>
    let tag := ps.tag.getD .implicit
    match r.peek? with
    | some (.scalar plain t) => some (.scalar ps.number tag plain t, r.skip)
    | some .flowSequenceStart =>
      (readFlowItems fuel true [] r.skip).map fun (xs, r) => (.sequence ps.number tag xs, r)
    | some .flowMappingStart =>
      (readFlowEntries fuel true [] r.skip).map fun (es, r) => (.mapping ps.number tag es, r)
    | some .blockSequenceStart =>
      if place = .flow then emptyContent ps r
      else (readBlockItems fuel [] r.skip).map fun (xs, r) => (.sequence ps.number tag xs, r)
    | some .blockMappingStart =>
      if place = .flow then emptyContent ps r
      else (readBlockEntries fuel [] r.skip).map fun (es, r) => (.mapping ps.number tag es, r)
    | some .blockEntry =>
      if place = .entry then
        (readEntryItems fuel [] r).map fun (xs, r) => (.sequence ps.number tag xs, r)
      else emptyContent ps r
    | _ => emptyContent ps r

/-- A node of which only properties are written. -/
def emptyContent (ps : Properties) (r : Remaining) : Option (Node × Remaining) :=
  if ps.number.isSome || ps.tag.isSome then
    some (.scalar ps.number (ps.tag.getD .implicit) true [], r)
  else none

/-- Reads the node at a place, or an empty one if the place is ended by one of `ends`. -/
def readOrEmpty : Nat → Place → List Token → Remaining → Option (Node × Remaining)
  | 0, _, _, _ => none
  | fuel + 1, place, ends, r => if r.nextIs ends then some (.empty, r) else read fuel place r

/-- Reads the members of a block sequence. -/
def readBlockItems : Nat → List Node → Remaining → Option (List Node × Remaining)
  | 0, _, _ => none
  | fuel + 1, acc, r =>
    match r.peek? with
    | some .blockEntry =>
      match readOrEmpty fuel .block [.blockEntry, .blockEnd] r.skip with
      | some (x, r) => readBlockItems fuel (acc ++ [x]) r
      | none => none
    | some .blockEnd => some (acc, r.skip)
    | _ => none

/-- Reads the members of a sequence whose dashes are not indented. -/
def readEntryItems : Nat → List Node → Remaining → Option (List Node × Remaining)
  | 0, _, _ => none
  | fuel + 1, acc, r =>
    match r.peek? with
    | some .blockEntry =>
      match readOrEmpty fuel .block (.blockEntry :: entryEnds) r.skip with
      | some (x, r) => readEntryItems fuel (acc ++ [x]) r
      | none => none
    | _ => some (acc, r)

/-- Reads the value of a block mapping behind its key. -/
def readBlockValue : Nat → Remaining → Option (Node × Remaining)
  | 0, _ => none
  | fuel + 1, r =>
    match r.peek? with
    | some .value => readOrEmpty fuel .entry entryEnds r.skip
    | _ => some (.empty, r)

/-- Reads the entries of a block mapping. -/
def readBlockEntries : Nat → List (Node × Node) → Remaining →
    Option (List (Node × Node) × Remaining)
  | 0, _, _ => none
  | fuel + 1, acc, r =>
    match r.peek? with
    | some .key =>
      match readOrEmpty fuel .entry entryEnds r.skip with
      | some (k, r) =>
        match readBlockValue fuel r with
        | some (v, r) => readBlockEntries fuel (acc ++ [(k, v)]) r
        | none => none
      | none => none
    | some .blockEnd => some (acc, r.skip)
    | _ => none

/-- Reads the value of a flow mapping behind its key. -/
def readFlowValue : Nat → List Token → Remaining → Option (Node × Remaining)
  | 0, _, _ => none
  | fuel + 1, ends, r =>
    match r.peek? with
    | some .value => readOrEmpty fuel .flow ends r.skip
    | _ => some (.empty, r)

/-- Reads the members of a flow sequence.  A member may be a mapping with a single entry. -/
def readFlowItems : Nat → Bool → List Node → Remaining → Option (List Node × Remaining)
  | 0, _, _, _ => none
  | fuel + 1, first, acc, r =>
    if r.nextIs [.flowSequenceEnd] then some (acc, r.skip)
    else if !first && !r.nextIs [.flowEntry] then none
    else
      let r := if first then r else r.skip
      match r.peek? with
      | some .key =>
        match readSingleEntry fuel r.skip with
        | some (x, r) => readFlowItems fuel false (acc ++ [x]) r
        | none => none
      | some .flowSequenceEnd => some (acc, r.skip)
      | _ =>
        match read fuel .flow r with
        | some (x, r) => readFlowItems fuel false (acc ++ [x]) r
        | none => none

/-- Reads a mapping with a single entry inside a flow sequence. -/
def readSingleEntry : Nat → Remaining → Option (Node × Remaining)
  | 0, _ => none
  | fuel + 1, r =>
    let key := if r.nextIs [.value, .flowEntry, .flowSequenceEnd] then some (.empty, r.skip)
      else read fuel .flow r
    match key with
    | none => none
    | some (k, r) =>
      match readFlowValue fuel [.flowEntry, .flowSequenceEnd] r with
      | some (v, r) => some (.mapping none .implicit [(k, v)], r)
      | none => none

/-- Reads the entries of a flow mapping.  An entry without a key indicator has an empty value. -/
def readFlowEntries : Nat → Bool → List (Node × Node) → Remaining →
    Option (List (Node × Node) × Remaining)
  | 0, _, _, _ => none
  | fuel + 1, first, acc, r =>
    if r.nextIs [.flowMappingEnd] then some (acc, r.skip)
    else if !first && !r.nextIs [.flowEntry] then none
    else
      let r := if first then r else r.skip
      match r.peek? with
      | some .key =>
        match readOrEmpty fuel .flow [.value, .flowEntry, .flowMappingEnd] r.skip with
        | some (k, r) =>
          match readFlowValue fuel [.flowEntry, .flowMappingEnd] r with
          | some (v, r) => readFlowEntries fuel false (acc ++ [(k, v)]) r
          | none => none
        | none => none
      | some .flowMappingEnd => some (acc, r.skip)
      | _ =>
        match read fuel .flow r with
        | some (k, r) => readFlowEntries fuel false (acc ++ [(k, .empty)]) r
        | none => none

end

/-! ### Documents -/

/-- Reads the directives before a document: at most one version, of the first or second revision,
and handles that are all different. -/
def readDirectives : Bool → List (Text × Bytes) → List Token →
    Option (List (Text × Bytes) × List Token)
  | versioned, handles, .version major minor :: rest =>
    if versioned || major ≠ 1 || !(minor = 1 || minor = 2) then none
    else readDirectives true handles rest
  | versioned, handles, .tagDirective handle expansion :: rest =>
    if handles.any fun e => e.1 = handle then none
    else readDirectives versioned (handles ++ [(handle, expansion)]) rest
  | _, handles, rest => some (handles, rest)

/-- Reads the root of a document, or an empty node if there is none. -/
def readRoot (r : Remaining) : Option (Node × List Token) :=
  (read (8 * r.tokens.length + 8) .block r).map fun (node, r) => (node, r.tokens)

/-- Reads the only document of a stream. -/
def ofTokens? (tokens : List Token) : Option Node :=
  let explicit := match tokens with
    | .version .. :: _ | .tagDirective .. :: _ | .documentStart :: _ => true
    | _ => false
  let content : Option (Node × List Token) :=
    if tokens.isEmpty then some (.empty, [])
    else if explicit then
      match readDirectives false [] tokens with
      | some (handles, .documentStart :: rest) =>
        match rest with
        | [] | .documentEnd :: _ | .documentStart :: _ => some (.empty, rest)
        | .version .. :: _ | .tagDirective .. :: _ => some (.empty, rest)
        | _ => readRoot { tokens := rest, handles := handles ++ Tag.standardHandles }
      | _ => none
    else readRoot { tokens := tokens, handles := Tag.standardHandles }
  match content with
  | some (node, rest) => if rest.all (· = .documentEnd) then some node else none
  | none => none

end Node

/-- Reads a stream with one document at most.  If there is none, it counts as an empty one. -/
def read (stream : Text) : Option Node :=
  (tokensOf stream).bind Node.ofTokens?

end Sentential.Yaml
