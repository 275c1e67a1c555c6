import Mathlib.Tactic.Common
import Sentential.Proofs.SavedTokens
import Sentential.Yaml.Value

/-!
# The nodes of saved settings

The tokens of the document in which settings are saved are read as a tree of mappings, sequences and scalars
(`ofTokens?_documentTokens`).  A reader of nodes needs a bound on the depth of its calls; `Node.Reads` keeps
account of the least bound.
-/

namespace Sentential.Yaml

variable {t : Text} {ts : List Text} {entries : List (Text × Text)} {n m fuel : Nat}

/-! ### Nodes of texts -/

/-- A scalar without properties. -/
def plainNode (t : Text) : Node :=
  .scalar none .implicit true t

/-- The node of a text. -/
def textNode (t : Text) : Node :=
  .scalar none .implicit (styleOf t = .plain) t

/-- The node of a list of texts. -/
def listNode (ts : List Text) : Node :=
  .sequence none .implicit (ts.map textNode)

/-- The node of an entry of texts. -/
def entryNodes (e : Text × Text) : Node × Node :=
  (textNode e.1, textNode e.2)

/-- The node of a table of texts. -/
def tableNode (entries : List (Text × Text)) : Node :=
  .mapping none .implicit (entries.map entryNodes)

namespace Node

variable {place : Place} {r : Remaining} {tokens rest : List Token} {x : Node}

/-- Whether a token says something of the node behind it, or stands for a node elsewhere. -/
def isProperty : Token → Bool
  | .alias _ | .anchor _ | .tag .. => true
  | _ => false

/-- The content of a node without properties is read at once. -/
theorem read_eq_readContent {t : Token} (h : r.tokens = t :: rest) (ht : isProperty t = false) :
    read (fuel + 1) place r = readContent fuel place {} r := by
  have hpeek : r.peek? = some t := by rw [Remaining.peek?, h, List.head?_cons]
  have hproperties : readProperties r = some ({}, r) := by
    have hanchor : readAnchor r = (none, r) := by
      unfold readAnchor
      rw [hpeek]
      cases t <;> first | rfl | cases ht
    have htag : readTag r = some (none, r) := by
      unfold readTag
      rw [hpeek]
      cases t <;> first | rfl | cases ht
    simp [readProperties, hanchor, htag]
  rw [read, hpeek]
  cases t <;> first | (simp only [hproperties]; done) | cases ht

/-- A scalar is read wherever it stands. -/
theorem read_scalar {plain : Bool} (h : r.tokens = .scalar plain t :: rest) (hfuel : 2 ≤ fuel) :
    read fuel place r = some (.scalar none .implicit plain t, { r with tokens := rest }) := by
  obtain ⟨fuel, rfl⟩ : ∃ k, fuel = k + 2 := ⟨fuel - 2, by omega⟩
  have hpeek : r.peek? = some (.scalar plain t) := by rw [Remaining.peek?, h, List.head?_cons]
  rw [read_eq_readContent h rfl, readContent, hpeek]
  simp [Remaining.skip, h]

/-- Tokens are read as a node in a block mapping if the calls may be `n` deep. -/
structure Reads (n : Nat) (tokens : List Token) (x : Node) : Prop where
  /-- The tokens begin the node. -/
  starts : ∀ ts, Remaining.nextIs ⟨tokens ++ ts, [], []⟩ entryEnds = false
  /-- The node is read. -/
  read_eq : ∀ fuel r rest, n ≤ fuel → r.tokens = tokens ++ rest → rest.head? ≠ some .blockEntry →
    read fuel .entry r = some (x, { r with tokens := rest })

theorem Reads.mono (h : Reads n tokens x) (hle : n ≤ m) : Reads m tokens x :=
  ⟨h.starts, fun fuel r rest hfuel => h.read_eq fuel r rest (Nat.le_trans hle hfuel)⟩

/-- A node is read at a place where there could be none. -/
theorem Reads.readOrEmpty_eq (h : Reads n tokens x) (hfuel : n < fuel) (hr : r.tokens = tokens ++ rest)
    (hrest : rest.head? ≠ some .blockEntry) :
    readOrEmpty fuel .entry entryEnds r = some (x, { r with tokens := rest }) := by
  obtain ⟨fuel, rfl⟩ : ∃ k, fuel = k + 1 := ⟨fuel - 1, by omega⟩
  have hnext : r.nextIs entryEnds = false := by
    have hstarts := h.starts rest
    rwa [Remaining.nextIs, Remaining.peek?, ← hr] at hstarts
  rw [readOrEmpty, hnext, if_neg (by simp), h.read_eq fuel r rest (by omega) hr hrest]

theorem reads_scalar (plain : Bool) (t : Text) : Reads 2 [.scalar plain t] (.scalar none .implicit plain t) :=
  ⟨fun _ => rfl, fun _ _ _ hfuel hr _ => read_scalar hr hfuel⟩

/-! ### Lists -/

/-- The members of a list are read one by one. -/
theorem readEntryItems_eq (hr : r.tokens = (ts.flatMap fun t => [.blockEntry, scalarToken t]) ++ rest)
    (hrest : rest.head? ≠ some .blockEntry) (hfuel : ts.length + 4 ≤ fuel) (acc : List Node) :
    readEntryItems fuel acc r = some (acc ++ ts.map textNode, { r with tokens := rest }) := by
  induction ts generalizing fuel r acc with
  | nil =>
    obtain ⟨fuel, rfl⟩ : ∃ k, fuel = k + 1 := ⟨fuel - 1, by omega⟩
    have hpeek : r.peek? = rest.head? := by rw [Remaining.peek?, hr]; rfl
    have hsame : ({ r with tokens := rest } : Remaining) = r := by
      rw [show rest = r.tokens from hr.symm]
    rw [readEntryItems, hpeek, List.map_nil, List.append_nil, hsame]
    split
    · next h => exact absurd h hrest
    · rfl
  | cons t ts ih =>
    obtain ⟨fuel, rfl⟩ : ∃ k, fuel = k + 2 := ⟨fuel - 2, by omega⟩
    have hpeek : r.peek? = some .blockEntry := by rw [Remaining.peek?, hr]; rfl
    have hskip : r.skip.tokens =
        scalarToken t :: ((ts.flatMap fun t => [.blockEntry, scalarToken t]) ++ rest) := by
      rw [Remaining.skip, hr]
      rfl
    have hnext : r.skip.nextIs (.blockEntry :: entryEnds) = false := by
      rw [Remaining.nextIs, Remaining.peek?, hskip]
      rfl
    have hitem : readOrEmpty (fuel + 1) .block (.blockEntry :: entryEnds) r.skip =
        some (textNode t,
          { r.skip with tokens := (ts.flatMap fun t => [.blockEntry, scalarToken t]) ++ rest }) := by
      rw [readOrEmpty, hnext, if_neg (by simp), read_scalar hskip (by simp at hfuel; omega)]
      rfl
    rw [readEntryItems, hpeek]
    simp only [hitem]
    rw [ih rfl (by simp at hfuel; omega)]
    simp [Remaining.skip]

/-- A list is read. -/
theorem reads_listTokens (ts : List Text) : Reads (ts.length + 6) (listTokens ts) (listNode ts) := by
  unfold listTokens
  split
  · next hempty =>
    obtain rfl := List.isEmpty_iff.1 hempty
    refine ⟨fun _ => rfl, fun fuel r rest hfuel hr _ => ?_⟩
    obtain ⟨fuel, rfl⟩ : ∃ k, fuel = k + 3 := ⟨fuel - 3, by omega⟩
    have hpeek : r.peek? = some .flowSequenceStart := by rw [Remaining.peek?, hr]; rfl
    have hskip : r.skip.tokens = .flowSequenceEnd :: rest := by rw [Remaining.skip, hr]; rfl
    have hnext : r.skip.nextIs [.flowSequenceEnd] = true := by
      rw [Remaining.nextIs, Remaining.peek?, hskip]
      rfl
    rw [read_eq_readContent hr rfl, readContent, hpeek]
    simp only [readFlowItems, hnext, if_true, Option.map_some]
    simp [Remaining.skip, hr, listNode]
  · next hne =>
    obtain ⟨t, ts', rfl⟩ := List.exists_cons_of_ne_nil (mt List.isEmpty_iff.2 hne)
    refine ⟨fun _ => rfl, fun fuel r rest hfuel hr hrest => ?_⟩
    obtain ⟨fuel, rfl⟩ : ∃ k, fuel = k + 2 := ⟨fuel - 2, by omega⟩
    have hpeek : r.peek? = some .blockEntry := by rw [Remaining.peek?, hr]; rfl
    have hitems : readEntryItems fuel [] r =
        some ([] ++ (t :: ts').map textNode, { r with tokens := rest }) :=
      readEntryItems_eq hr hrest (by omega) []
    rw [read_eq_readContent hr rfl, readContent, hpeek]
    simp [hitems, listNode]

/-! ### Tables -/

/-- Tokens are read as the entries of a block mapping if the calls may be `n` deep for each node. -/
inductive ReadsEntries (n : Nat) : List Token → List (Node × Node) → Prop
  | nil : ReadsEntries n [] []
  | cons {ks vs ts : List Token} {k v : Node} {es : List (Node × Node)} (hk : Reads n ks k)
    (hv : Reads n vs v) (h : ReadsEntries n ts es) :
    ReadsEntries n (.key :: (ks ++ .value :: (vs ++ ts))) ((k, v) :: es)

/-- Entries are followed by a key, or by what follows them all. -/
theorem ReadsEntries.head?_ne {es : List (Node × Node)} (h : ReadsEntries n tokens es)
    (hrest : rest.head? ≠ some .blockEntry) : (tokens ++ rest).head? ≠ some .blockEntry := by
  cases h with
  | nil => exact hrest
  | cons => simp

/-- The entries of a block mapping are read one by one. -/
theorem ReadsEntries.readBlockEntries_eq {es : List (Node × Node)} (h : ReadsEntries n tokens es)
    (hr : r.tokens = tokens ++ .blockEnd :: rest) (hfuel : n + es.length + 3 ≤ fuel)
    (acc : List (Node × Node)) :
    readBlockEntries fuel acc r = some (acc ++ es, { r with tokens := rest }) := by
  induction h generalizing fuel r acc with
  | nil =>
    obtain ⟨fuel, rfl⟩ : ∃ k, fuel = k + 1 := ⟨fuel - 1, by omega⟩
    have hpeek : r.peek? = some .blockEnd := by rw [Remaining.peek?, hr]; rfl
    rw [readBlockEntries, hpeek]
    simp [Remaining.skip, hr]
  | @cons ks vs ts k v es hk hv h ih =>
    obtain ⟨fuel, rfl⟩ : ∃ k, fuel = k + 2 := ⟨fuel - 2, by omega⟩
    rw [List.length_cons] at hfuel
    have hpeek : r.peek? = some .key := by rw [Remaining.peek?, hr]; rfl
    have hskip : r.skip.tokens = ks ++ (.value :: (vs ++ (ts ++ .blockEnd :: rest))) := by
      rw [Remaining.skip, hr]
      simp
    have hkey : readOrEmpty (fuel + 1) .entry entryEnds r.skip =
        some (k, { r.skip with tokens := .value :: (vs ++ (ts ++ .blockEnd :: rest)) }) :=
      hk.readOrEmpty_eq (by omega) hskip (by simp)
    have hvalue : readBlockValue (fuel + 1)
        { r.skip with tokens := .value :: (vs ++ (ts ++ .blockEnd :: rest)) } =
          some (v, { r.skip with tokens := ts ++ .blockEnd :: rest }) := by
      rw [readBlockValue]
      exact hv.readOrEmpty_eq (r := { r.skip with tokens := vs ++ (ts ++ .blockEnd :: rest) }) (by omega)
        rfl (h.head?_ne (by simp))
    rw [readBlockEntries, hpeek]
    simp only [hkey, hvalue]
    rw [ih rfl (by omega)]
    simp [Remaining.skip]

/-- A block mapping is read with its entries. -/
theorem ReadsEntries.read_eq {es : List (Node × Node)} (h : ReadsEntries n tokens es)
    (hr : r.tokens = .blockMappingStart :: (tokens ++ .blockEnd :: rest)) (hplace : place ≠ .flow)
    (hfuel : n + es.length + 5 ≤ fuel) :
    read fuel place r = some (.mapping none .implicit es, { r with tokens := rest }) := by
  obtain ⟨fuel, rfl⟩ : ∃ k, fuel = k + 2 := ⟨fuel - 2, by omega⟩
  have hpeek : r.peek? = some .blockMappingStart := by rw [Remaining.peek?, hr]; rfl
  have hskip : r.skip.tokens = tokens ++ .blockEnd :: rest := by rw [Remaining.skip, hr]; rfl
  rw [read_eq_readContent hr rfl, readContent, hpeek]
  simp only [if_neg hplace, h.readBlockEntries_eq hskip (by omega : n + es.length + 3 ≤ fuel)]
  simp [Remaining.skip]

theorem ReadsEntries.reads {es : List (Node × Node)} (h : ReadsEntries n tokens es) :
    Reads (n + es.length + 5) (.blockMappingStart :: (tokens ++ [.blockEnd])) (.mapping none .implicit es) :=
  ⟨fun _ => rfl, fun fuel r rest hfuel hr _ => h.read_eq (by simpa using hr) (by decide) hfuel⟩

/-- The entries of a table are read. -/
theorem readsEntries_flatMap (entries : List (Text × Text)) :
    ReadsEntries 2 (entries.flatMap entryTokens) (entries.map entryNodes) := by
  induction entries with
  | nil => exact .nil
  | cons e entries ih => exact .cons (reads_scalar _ _) (reads_scalar _ _) ih

/-- A table is read. -/
theorem reads_tableTokens (entries : List (Text × Text)) :
    Reads (entries.length + 7) (tableTokens entries) (tableNode entries) := by
  unfold tableTokens
  split
  · next hempty =>
    obtain rfl := List.isEmpty_iff.1 hempty
    refine ⟨fun _ => rfl, fun fuel r rest hfuel hr _ => ?_⟩
    obtain ⟨fuel, rfl⟩ : ∃ k, fuel = k + 3 := ⟨fuel - 3, by omega⟩
    have hpeek : r.peek? = some .flowMappingStart := by rw [Remaining.peek?, hr]; rfl
    have hskip : r.skip.tokens = .flowMappingEnd :: rest := by rw [Remaining.skip, hr]; rfl
    have hnext : r.skip.nextIs [.flowMappingEnd] = true := by
      rw [Remaining.nextIs, Remaining.peek?, hskip]
      rfl
    rw [read_eq_readContent hr rfl, readContent, hpeek]
    simp only [readFlowEntries, hnext, if_true, Option.map_some]
    simp [Remaining.skip, hr, tableNode]
  · have htable := (readsEntries_flatMap entries).reads
    rw [List.length_map] at htable
    exact htable.mono (by omega)

end Node

end Sentential.Yaml

namespace Sentential.Settings

open Yaml Yaml.Node

/-- The root of the document. -/
def documentNode (s : Settings) : Node :=
  .mapping none .implicit
    [(plainNode jsonKey, plainNode (flagWord s.json)), (plainNode colorKey, plainNode s.color.word),
      (plainNode negationKey, .mapping none .implicit
        [(plainNode suffixesKey, listNode s.extraSuffixes), (plainNode formsKey, listNode s.extraForms)]),
      (plainNode meaningsKey, tableNode s.meanings.entries)]

theorem length_le_listTokens (ts : List Text) : ts.length ≤ (listTokens ts).length := by
  unfold listTokens
  split
  · next hempty => simp [List.isEmpty_iff.1 hempty]
  · simp [List.length_flatMap]
    omega

theorem length_le_tableTokens (entries : List (Text × Text)) :
    entries.length ≤ (tableTokens entries).length := by
  unfold tableTokens
  split
  · next hempty => simp [List.isEmpty_iff.1 hempty]
  · simp [List.length_flatMap, entryTokens]
    omega

/-- The tokens of the document are read as its tree. -/
theorem ofTokens?_documentTokens (s : Settings) :
    Node.ofTokens? (documentTokens s) = some s.documentNode := by
  obtain ⟨n, hn⟩ : ∃ n, n = s.extraSuffixes.length + s.extraForms.length + s.meanings.entries.length + 7 :=
    ⟨_, rfl⟩
  have hword (t : Text) {m : Nat} (hm : 2 ≤ m) : Reads m [.scalar true t] (plainNode t) :=
    (reads_scalar true t).mono hm
  have hsuffixes : Reads n (listTokens s.extraSuffixes) (listNode s.extraSuffixes) :=
    (reads_listTokens s.extraSuffixes).mono (by omega)
  have hforms : Reads n (listTokens s.extraForms) (listNode s.extraForms) :=
    (reads_listTokens s.extraForms).mono (by omega)
  have hmeanings : Reads (n + 7) (tableTokens s.meanings.entries) (tableNode s.meanings.entries) :=
    (reads_tableTokens s.meanings.entries).mono (by omega)
  have hnegation := (ReadsEntries.cons (hword suffixesKey (by omega)) hsuffixes
    (.cons (hword formsKey (by omega)) hforms .nil)).reads
  have hroot := ReadsEntries.cons (hword jsonKey (by omega)) (hword (flagWord s.json) (by omega))
    (.cons (hword colorKey (by omega)) (hword s.color.word (by omega))
      (.cons (hword negationKey (by omega)) hnegation
        (.cons (hword meaningsKey (by omega)) hmeanings .nil)))
  have hlength : n + 16 ≤ 8 * (documentTokens s).length + 8 := by
    have hlists := length_le_listTokens s.extraSuffixes
    have hlists' := length_le_listTokens s.extraForms
    have htable := length_le_tableTokens s.meanings.entries
    simp only [documentTokens, List.length_append, List.length_cons]
    omega
  have hread : Node.read (8 * (documentTokens s).length + 8) .block
      ⟨documentTokens s, Tag.standardHandles, []⟩ =
        some (s.documentNode, ⟨[], Tag.standardHandles, []⟩) :=
    hroot.read_eq (by simp [documentTokens]) (by decide) hlength
  obtain ⟨ts, hts⟩ : ∃ ts, documentTokens s = .blockMappingStart :: ts := ⟨_, rfl⟩
  rw [hts, List.length_cons] at hread
  rw [hts]
  simp [ofTokens?, readRoot, hread]

end Sentential.Settings
