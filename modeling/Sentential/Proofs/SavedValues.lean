import Mathlib.Tactic.Common
import Sentential.Proofs.SavedNodes
import Sentential.Proofs.SavedSettings

/-!
# Saved settings read back

The tree of the document in which settings are saved stands for the layer of all their fields, provided that
no meaning has a key that is reserved in documents (`Settings.readsBack_iff`).  So to load settings undoes
that they have been saved (`Settings.load_save`).
-/

namespace Sentential

namespace Yaml

variable {t : Text}

/-- What a reading gives is passed on. -/
theorem Reading.result?_bind_pure {α β : Type} (root : Node) (x : Reading α) (f : α → β) :
    Reading.result? root (x >>= fun a => pure (f a)) = (x root.followLimit).map fun r => f r.1 := by
  change ((x root.followLimit).bind fun r => some (f r.1, r.2)).map (·.1) = _
  cases x root.followLimit <;> rfl

/-! ### Scalars -/

/-- A bound on an integer may be raised. -/
theorem isIntegerUpTo_mono {a b : Nat} (h : isIntegerUpTo a t = true) (hle : a ≤ b) :
    isIntegerUpTo b t = true := by
  have hraise {o : Option Nat} (h : o.any (· ≤ a) = true) : o.any (· ≤ b) = true := by
    cases o with
    | none => exact h
    | some n => simpa using Nat.le_trans (by simpa using h) hle
  unfold isIntegerUpTo at h ⊢
  split at h
  · exact hraise h
  · rw [Bool.and_eq_true] at h ⊢
    exact ⟨h.1, hraise h.2⟩

/-- A number without sign is an integer. -/
theorem isInteger_of_isUnsigned (h : isUnsigned 64 t = true) : isInteger t = true := by
  have hle : Nat.pow 2 64 - 1 ≤ Nat.pow 2 128 - 1 := by decide
  unfold isInteger
  split
  · next r =>
    -- a minus sign is no digit
    have hnone : isUnsigned 64 ('-' :: r) = false := by
      simp [isUnsigned, isIntegerUpTo, radixDigits?, Numeral.value?, Numeral.valueFrom, Numeral.digit?]
    rw [hnone] at h
    cases h
  · unfold isUnsigned at h ⊢
    split at h
    · exact isIntegerUpTo_mono h hle
    · exact isIntegerUpTo_mono h hle

/-- A text that stands for itself without quotes is no integer. -/
theorem isInteger_eq_false (h : plainValue t = .text t) : isInteger t = false := by
  unfold plainValue at h
  split at h
  · cases h
  · split at h
    · cases h
    · split at h
      · cases h
      · next hinteger => simpa using hinteger

/-- What is written of a text does not say where a value comes from. -/
theorem isOrigin_textNode (t : Text) : isOrigin (textNode t) = false := by
  by_cases hstyle : styleOf t = .plain
  · have hfits := fits_styleOf t
    rw [hstyle] at hfits
    have hunsigned : isUnsigned 64 t = false := by
      by_contra h
      have hinteger := isInteger_of_isUnsigned (eq_true_of_ne_false h)
      rw [isInteger_eq_false hfits.2.2] at hinteger
      cases hinteger
    simp [textNode, isOrigin, hunsigned]
  · simp [textNode, isOrigin, hstyle]

namespace Node

variable {targets : List Node} {depth : Nat} {es : List (Text × Text)}

theorem value_plainNode (targets : List Node) (depth : Nat) (t : Text) :
    value targets depth (plainNode t) = pure (plainValue t) := by
  cases depth <;> rfl

/-- The node of a text stands for the text. -/
theorem value_textNode (targets : List Node) (depth : Nat) (t : Text) :
    value targets depth (textNode t) = pure (.text t) := by
  have hvalue : untaggedValue (styleOf t = .plain) t = .text t := by
    unfold untaggedValue
    split
    · next hstyle =>
      have hfits := fits_styleOf t
      rw [of_decide_eq_true hstyle] at hfits
      exact hfits.2.2
    · rfl
  rw [← hvalue]
  cases depth <;> rfl

/-- The node of a list of texts stands for the list. -/
theorem value_listNode (targets : List Node) (depth : Nat) (ts : List Text) :
    value targets (depth + 1) (listNode ts) = pure (.list (ts.map .text)) := by
  have hitems : (ts.map textNode).mapM (value targets depth) = pure (ts.map Datum.text) := by
    rw [List.mapM_map]
    induction ts with
    | nil => rfl
    | cons t ts ih =>
      rw [List.mapM_cons, Function.comp_apply, value_textNode, ih]
      rfl
  change (do
    let values ← (ts.map textNode).mapM (value targets depth)
    pure (Tag.implicit.wrap (.list values))) = _
  rw [hitems]
  rfl

/-! ### Tables -/

/-- An entry of texts is gathered under its key, unless the key is reserved. -/
theorem gather_entryNodes (targets : List Node) (depth : Nat) (g : Gathered) (e : Text × Text) :
    gather targets (value targets depth) g (entryNodes e) =
      if e.1 = valueKey then pure { g with replacement := some (.text e.2) }
      else if e.1 = originKey then failure
      else pure { g with entries := insertEntry e.1 (.text e.2) g.entries } := by
  change (if e.1 = valueKey then (do
        let value ← value targets depth (textNode e.2)
        pure { g with replacement := some value })
      else if e.1 = originKey then if isOrigin (textNode e.2) then pure g else failure
      else (do
        let value ← value targets depth (textNode e.2)
        pure { g with entries := insertEntry e.1 value g.entries })) = _
  rw [value_textNode, isOrigin_textNode]
  rfl

/-- No key is reserved. -/
def HasPlainKeys (es : List (Text × Text)) : Prop :=
  ∀ e ∈ es, e.1 ≠ valueKey ∧ e.1 ≠ originKey

instance (es : List (Text × Text)) : Decidable (HasPlainKeys es) :=
  inferInstanceAs (Decidable (∀ e ∈ es, e.1 ≠ valueKey ∧ e.1 ≠ originKey))

/-- Entries whose keys are not reserved are all gathered. -/
theorem foldlM_gather (h : HasPlainKeys es) (targets : List Node) (depth : Nat) (g : Gathered) :
    (es.map entryNodes).foldlM (gather targets (value targets depth)) g =
      pure { g with entries := es.foldl (fun acc e => insertEntry e.1 (.text e.2) acc) g.entries } := by
  induction es generalizing g with
  | nil => rfl
  | cons e es ih =>
    obtain ⟨⟨hvalue, horigin⟩, hes⟩ := List.forall_mem_cons.1 h
    rw [List.map_cons, List.foldlM_cons, gather_entryNodes, if_neg hvalue, if_neg horigin]
    exact ih hes { g with entries := insertEntry e.1 (.text e.2) g.entries }

/-- Under the one reserved key a text replaces the mapping, and under the other one none may stand. -/
theorem reserved_of_foldlM_gather {g g' : Gathered} {n m : Nat}
    (h : (es.map entryNodes).foldlM (gather targets (value targets depth)) g n = some (g', m)) :
    (∀ e ∈ es, e.1 ≠ originKey) ∧
      ((∃ t, g.replacement = some (.text t)) ∨ (∃ e ∈ es, e.1 = valueKey) →
        ∃ t, g'.replacement = some (.text t)) := by
  induction es generalizing g n with
  | nil =>
    obtain ⟨rfl, -⟩ := Reading.pure_eq_some_iff.1 h
    exact ⟨by simp, fun h => h.resolve_right (by simp)⟩
  | cons e es ih =>
    rw [List.map_cons, List.foldlM_cons, Reading.bind_eq_some_iff] at h
    obtain ⟨g₁, k, hfirst, hrest⟩ := h
    obtain ⟨horigin, hreplaced⟩ := ih hrest
    rw [gather_entryNodes] at hfirst
    split_ifs at hfirst with hvalue hkey
    · obtain ⟨rfl, -⟩ := Reading.pure_eq_some_iff.1 hfirst
      have hne : e.1 ≠ originKey := by
        rw [hvalue]
        decide
      exact ⟨List.forall_mem_cons.2 ⟨hne, horigin⟩, fun _ => hreplaced (.inl ⟨e.2, rfl⟩)⟩
    · cases hfirst
    · obtain ⟨rfl, -⟩ := Reading.pure_eq_some_iff.1 hfirst
      refine ⟨List.forall_mem_cons.2 ⟨hkey, horigin⟩, fun h => hreplaced ?_⟩
      rcases h with h | ⟨d, hd, hdvalue⟩
      · exact .inl h
      · rcases List.mem_cons.1 hd with rfl | hd
        · exact absurd hdvalue hvalue
        · exact .inr ⟨d, hd, hdvalue⟩

/-- To write entries in the order of their keys gives the entries. -/
theorem foldl_insertEntry_eq {α : Type} {es : List (Text × α)} (h : KeysIncrease es) :
    es.foldl (fun acc e => insertEntry e.1 e.2 acc) [] = es := by
  have hfold (t : Table α) (ds : List (Text × α)) :
      ds.foldl (fun acc e => insertEntry e.1 e.2 acc) t.entries =
        (ds.foldl (fun t e => t.insert e.1 e.2) t).entries := by
    induction ds generalizing t with
    | nil => rfl
    | cons d ds ih => exact ih (t.insert d.1 d.2)
  exact (hfold Table.empty es).trans (congrArg Table.entries (Table.ofList_entries ⟨es, h⟩))

/-- The node of a table of texts stands for the table exactly if no key is reserved. -/
theorem value_tableNode_iff (hes : KeysIncrease es) (targets : List Node) (depth n : Nat) :
    (∃ m, value targets (depth + 1) (tableNode es) n = some (.dict (es.map fun e => (e.1, .text e.2)), m)) ↔
      HasPlainKeys es := by
  have hnode : value targets (depth + 1) (tableNode es) = (do
      let g ← (es.map entryNodes).foldlM (gather targets (value targets depth)) {}
      pure (Tag.implicit.wrap g.value)) := rfl
  rw [hnode]
  constructor
  · rintro ⟨m, h⟩
    rw [Reading.bind_eq_some_iff] at h
    obtain ⟨g, k, hfold, hvalue⟩ := h
    obtain ⟨horigin, hreplaced⟩ := reserved_of_foldlM_gather hfold
    refine fun e he => ⟨fun hkey => ?_, horigin e he⟩
    obtain ⟨t, ht⟩ := hreplaced (.inr ⟨e, he, hkey⟩)
    have hdict := (Reading.pure_eq_some_iff.1 hvalue).1
    simp [Tag.wrap, Gathered.value, ht] at hdict
  · intro h
    have hkeys : KeysIncrease (es.map fun e => (e.1, Datum.text e.2)) := List.pairwise_map.2 hes
    have hentries : es.foldl (fun acc e => insertEntry e.1 (Datum.text e.2) acc) [] =
        es.map fun e => (e.1, .text e.2) := by
      rw [← foldl_insertEntry_eq hkeys, List.foldl_map]
    exact ⟨n, by rw [foldlM_gather h, pure_bind, hentries]; rfl⟩

/-- A field of a section is gathered under its key. -/
theorem gather_field {read : Node → Reading Datum} {x : Node} {value : Datum} {key : Text}
    (hread : read x = pure value) (hvalue : key ≠ valueKey) (horigin : key ≠ originKey) (targets : List Node)
    (g : Gathered) : gather targets read g (plainNode key, x) =
      pure { g with entries := insertEntry key value g.entries } := by
  change (if key = valueKey then (do
        let value ← read x
        pure { g with replacement := some value })
      else if key = originKey then (do
        let node ← Reading.follow targets x
        if isOrigin node then pure g else failure)
      else (do
        let value ← read x
        pure { g with entries := insertEntry key value g.entries })) = _
  rw [if_neg hvalue, if_neg horigin, hread]
  rfl

end Node

end Yaml

namespace Settings

open Yaml

variable {s : Settings} {n : Nat} {targets : List Node}

/-- The value of the section of negations. -/
theorem value_negation (targets : List Node) (depth : Nat) (suffixes forms : List Text) :
    Node.value targets (depth + 2) (.mapping none .implicit
      [(plainNode suffixesKey, listNode suffixes), (plainNode formsKey, listNode forms)]) =
        pure (.dict [(formsKey, .list (forms.map .text)), (suffixesKey, .list (suffixes.map .text))]) := by
  change (do
    let g ← [(plainNode suffixesKey, listNode suffixes), (plainNode formsKey, listNode forms)].foldlM
      (Node.gather targets (Node.value targets (depth + 1))) {}
    pure (Tag.implicit.wrap g.value)) = _
  have horder : formsKey < suffixesKey := by decide
  rw [List.foldlM_cons,
    Node.gather_field (Node.value_listNode targets depth suffixes) (by decide) (by decide), pure_bind,
    List.foldlM_cons,
    Node.gather_field (Node.value_listNode targets depth forms) (by decide) (by decide), pure_bind,
    List.foldlM_nil, pure_bind, insertEntry, insertEntry, if_pos horder]
  rfl

/-- The value of a word of the document. -/
theorem plainValue_flagWord (b : Bool) : plainValue (flagWord b) = .bool b := by
  cases b <;> rfl

theorem plainValue_word (m : ColorMode) : plainValue m.word = .text m.word := by
  have hstyle : styleOf m.word = .plain := by
    cases m <;> decide +kernel
  have hfits := fits_styleOf m.word
  rw [hstyle] at hfits
  exact hfits.2.2

/-- The tree of the document gives the layer of the settings, but for what its table gives. -/
theorem dict?_documentNode (s : Settings) : s.documentNode.dict? =
    (Node.value s.documentNode.targets 127 (tableNode s.meanings.entries)
        s.documentNode.followLimit).map fun r =>
      [(colorKey, .text s.color.word), (jsonKey, .bool s.json), (meaningsKey, r.1),
        (negationKey, .dict [(formsKey, .list (s.extraForms.map .text)),
          (suffixesKey, .list (s.extraSuffixes.map .text))])] := by
  have hroot (targets : List Node) (acc : List (Text × Datum)) (key : Text) (x : Node) :
      Node.rootEntry targets acc (plainNode key, x) = (do
        let value ← Node.value targets 127 x
        pure (insertEntry key value acc)) := rfl
  change Reading.result? s.documentNode (List.foldlM (Node.rootEntry s.documentNode.targets) []
    [(plainNode jsonKey, plainNode (flagWord s.json)), (plainNode colorKey, plainNode s.color.word),
      (plainNode negationKey, .mapping none .implicit
        [(plainNode suffixesKey, listNode s.extraSuffixes), (plainNode formsKey, listNode s.extraForms)]),
      (plainNode meaningsKey, tableNode s.meanings.entries)]) = _
  generalize s.documentNode = root
  rw [List.foldlM_cons, hroot, Node.value_plainNode, plainValue_flagWord, pure_bind, pure_bind,
    List.foldlM_cons, hroot, Node.value_plainNode, plainValue_word, pure_bind, pure_bind,
    List.foldlM_cons, hroot, value_negation root.targets 125, pure_bind, pure_bind,
    List.foldlM_cons, hroot]
  have hbelow (color json negation : Datum) : insertEntry negationKey negation
      (insertEntry colorKey color (insertEntry jsonKey json [])) =
        [(colorKey, color), (jsonKey, json), (negationKey, negation)] := by
    rw [insertEntry, insertEntry, if_pos (by decide : colorKey < jsonKey), insertEntry,
      if_neg (by decide : ¬negationKey < colorKey), if_neg (by decide : ¬negationKey = colorKey), insertEntry,
      if_neg (by decide : ¬negationKey < jsonKey), if_neg (by decide : ¬negationKey = jsonKey), insertEntry]
  have habove (color json negation meanings : Datum) : insertEntry meaningsKey meanings
      [(colorKey, color), (jsonKey, json), (negationKey, negation)] =
        [(colorKey, color), (jsonKey, json), (meaningsKey, meanings), (negationKey, negation)] := by
    rw [insertEntry, if_neg (by decide : ¬meaningsKey < colorKey),
      if_neg (by decide : ¬meaningsKey = colorKey), insertEntry,
      if_neg (by decide : ¬meaningsKey < jsonKey), if_neg (by decide : ¬meaningsKey = jsonKey),
      insertEntry, if_pos (by decide : meaningsKey < negationKey)]
  simp only [hbelow, List.foldlM_nil, bind_pure, Reading.result?_bind_pure, habove]

/-- The document reads back exactly if no meaning has a reserved key. -/
theorem readsBack_iff (s : Settings) : ReadsBack s ↔ Node.HasPlainKeys s.meanings.entries := by
  have hblank : s.document.isBlank = false := by
    have hkey : jsonKey.all isSpace = false := by decide
    rw [document_eq, Text.isBlank, Yaml.field, List.all_append, List.all_append, hkey]
    simp
  have hlayer : documentLayer? s.document = s.documentNode.dict? := by
    rw [documentLayer?, hblank, if_neg (by simp), Yaml.read, tokensOf_document, Option.bind_some,
      ofTokens?_documentTokens, Option.bind_some]
  rw [ReadsBack, hlayer, dict?_documentNode, ← Node.value_tableNode_iff s.meanings.increasing
    s.documentNode.targets 126 s.documentNode.followLimit]
  cases hvalue : Node.value s.documentNode.targets 127 (tableNode s.meanings.entries)
    s.documentNode.followLimit with
  | none => simp
  | some r =>
    simp [layer, Prod.ext_iff]

/-- To load settings undoes that they have been saved.  They can be saved wherever no file stands in the way
of the directory and no directory in that of the file, whatever the file held before.  The document reads back
exactly if no meaning has a key that is reserved in documents, and then the loaded settings are the saved ones
unless the environment overrides them. -/
theorem load_save (s : Settings) :
    (ReadsBack s ↔ Node.HasPlainKeys s.meanings.entries) ∧
    (∀ t p, CanSave t p → ∃ t', save t (Path.ofParts p) s = (.ok (), t')) ∧
    ∀ t directory t', Path.isAbsolute directory = true → save t directory s = (.ok (), t') →
      ReadsBack s → ∀ cwd env, OverridesNothing env → load t' cwd directory env = .ok s :=
  ⟨readsBack_iff s, fun _ _ h => exists_save_eq h s,
    fun _ _ _ habsolute hsave hread cwd _ henv => load_of_save habsolute hsave hread cwd henv⟩

/-- Texts that look like other values, over an older file and with another variable set. -/
theorem load_save_numbers :
    let s : Settings := ⟨true, .never, ["".toList, "true".toList, "null".toList, "1".toList],
      [" z ".toList, "a: b".toList, "x\ny\n\n".toList, "'\"\t".toList],
      .ofList [("".toList, "~".toList), ("k\n".toList, "- #".toList), ("?".toList, "\r\n ".toList)]⟩
    let t : FileTree := ⟨[(["home".toList], .directory), (["home".toList, "c".toList], .directory),
      (["home".toList, "c".toList, fileName], .file (Text.toBytes "json: 7".toList))]⟩
    let env : Environment := [("CPC_DIR".toList, "x".toList)]
    ∃ t', save t "/home/c".toList s = (.ok (), t') ∧ load t' [] "/home/c".toList env = .ok s := by
  intro s t env
  obtain ⟨hread, hsave, hload⟩ := load_save s
  have hkeys : Node.HasPlainKeys s.meanings.entries := by decide +kernel
  have hcan : CanSave t ["home".toList, "c".toList] :=
    canSave_of_isDirectoryAt (by decide +kernel) (by decide +kernel) (by decide +kernel)
  obtain ⟨t', ht'⟩ := hsave t _ hcan
  exact ⟨t', ht', hload t _ t' (by decide) ht' (hread.2 hkeys) [] env (by decide +kernel)⟩

end Settings

end Sentential
