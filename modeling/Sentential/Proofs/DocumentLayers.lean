import Mathlib.Tactic.Common
import Sentential.Proofs.Tables
import Sentential.Settings.Layers

/-!
# Documents give ordered dictionaries

A reading of a document may fail, and it counts the references that it follows.  What each step of it
keeps, the whole reading keeps (`Reading.foldlM_invariant`).  So the keys of a document increase, and so do
those of each dictionary under its keys (`Settings.keysIncrease_of_documentLayer?`).
-/

namespace Sentential

/-- The keys of a dictionary increase. -/
def Datum.IsOrdered (value : Datum) : Prop :=
  ∀ es, value = .dict es → KeysIncrease es

namespace Yaml

namespace Reading

variable {α β : Type} {n m : Nat}

theorem bind_eq_some_iff {x : Reading α} {f : α → Reading β} {b : β} :
    (x >>= f) n = some (b, m) ↔ ∃ a k, x n = some (a, k) ∧ f a k = some (b, m) := by
  change (x n).bind (fun r => f r.1 r.2) = _ ↔ _
  simp [Option.bind_eq_some_iff]

theorem pure_eq_some_iff {a b : α} : (pure a : Reading α) n = some (b, m) ↔ a = b ∧ n = m := by
  change some (a, n) = some (b, m) ↔ _
  simp

theorem liftM_eq_some_iff {o : Option α} {a : α} :
    (liftM o : Reading α) n = some (a, m) ↔ o = some a ∧ n = m := by
  change (o >>= fun a => some (a, n)) = some (a, m) ↔ _
  cases o <;> simp

/-- What each step of a reading keeps, the whole reading keeps. -/
theorem foldlM_invariant {step : β → α → Reading β} {P : β → Prop}
    (hstep : ∀ b a c n m, P b → step b a n = some (c, m) → P c) {as : List α} {b c : β}
    (hb : P b) (h : as.foldlM step b n = some (c, m)) : P c := by
  induction as generalizing b n with
  | nil => exact (pure_eq_some_iff.1 h).1 ▸ hb
  | cons a as ih =>
    rw [List.foldlM_cons, bind_eq_some_iff] at h
    obtain ⟨b', k, hfirst, hrest⟩ := h
    exact ih (hstep b a b' n k hb hfirst) hrest

end Reading

theorem isOrdered_nest {value : Datum} (h : value.IsOrdered) (parts : List Text) :
    (Datum.nest parts value).IsOrdered := by
  cases parts with
  | nil => exact h
  | cons part parts =>
    rw [Datum.nest]
    split
    · exact h
    · rintro _ ⟨⟩
      exact List.pairwise_singleton ..

theorem isOrdered_wrap (tag : Tag) {value : Datum} (h : value.IsOrdered) : (tag.wrap value).IsOrdered := by
  unfold Tag.wrap
  split
  · exact isOrdered_nest h _
  · exact h

theorem isOrdered_of_isDict {value : Datum} (h : ∀ es, value ≠ .dict es) : value.IsOrdered :=
  fun es hes => absurd hes (h es)

theorem plainValue_ne_dict (t : Text) (es : List (Text × Datum)) : plainValue t ≠ .dict es := by
  unfold plainValue
  repeat' split
  all_goals simp

theorem isOrdered_of_scalarValue? {tag : Tag} {plain : Bool} {t : Text} {value : Datum}
    (h : scalarValue? tag plain t = some value) : value.IsOrdered := by
  have huntagged : (untaggedValue plain t).IsOrdered := isOrdered_of_isDict fun es => by
    unfold untaggedValue
    split
    · exact plainValue_ne_dict t es
    · simp
  have hplain (hne : ∀ es, value ≠ .dict es) : value.IsOrdered := isOrdered_of_isDict hne
  cases tag with
  | implicit =>
    cases h
    exact huntagged
  | variant name =>
    cases h
    exact isOrdered_wrap _ huntagged
  | bool =>
    obtain ⟨b, -, rfl⟩ := Option.map_eq_some_iff.1 h
    exact hplain (by simp)
  | other =>
    cases h
    exact hplain (by simp)
  | integer | float | null =>
    simp only [scalarValue?] at h
    split_ifs at h
    cases h
    exact hplain (by simp)

namespace Node

variable {targets : List Node} {n m : Nat}

/-- What is known of the entries of a mapping while they are gathered. -/
def IsOrderedSoFar (g : Gathered) : Prop :=
  KeysIncrease g.entries ∧ ∀ value, g.replacement = some value → value.IsOrdered

/-- An entry keeps it, if values are read as ordered data. -/
theorem IsOrderedSoFar.gather {read : Node → Reading Datum} {g g' : Gathered} {e : Node × Node}
    (hread : ∀ node value n m, read node n = some (value, m) → value.IsOrdered) (hg : IsOrderedSoFar g)
    (h : Node.gather targets read g e n = some (g', m)) : IsOrderedSoFar g' := by
  rw [Node.gather, Reading.bind_eq_some_iff] at h
  obtain ⟨key, k, -, h⟩ := h
  split_ifs at h
  · rw [Reading.bind_eq_some_iff] at h
    obtain ⟨value, k', hvalue, h⟩ := h
    obtain ⟨rfl, -⟩ := Reading.pure_eq_some_iff.1 h
    refine ⟨hg.1, ?_⟩
    rintro _ ⟨⟩
    exact hread _ _ _ _ hvalue
  · rw [Reading.bind_eq_some_iff] at h
    obtain ⟨node, k', -, h⟩ := h
    split_ifs at h
    · exact (Reading.pure_eq_some_iff.1 h).1 ▸ hg
    · cases h
  · rw [Reading.bind_eq_some_iff] at h
    obtain ⟨value, k', -, h⟩ := h
    obtain ⟨rfl, -⟩ := Reading.pure_eq_some_iff.1 h
    exact ⟨keysIncrease_insertEntry _ _ hg.1, hg.2⟩

theorem IsOrderedSoFar.value {g : Gathered} (hg : IsOrderedSoFar g) : g.value.IsOrdered := by
  rw [Gathered.value]
  cases hr : g.replacement with
  | none =>
    rintro _ ⟨⟩
    exact hg.1
  | some value => exact hg.2 value hr

theorem isOrdered_of_value {depth : Nat} {node : Node} {value : Datum}
    (h : node.value targets depth n = some (value, m)) : value.IsOrdered := by
  induction depth generalizing node value n m with
  | zero =>
    rw [Node.value, Reading.bind_eq_some_iff] at h
    obtain ⟨node', k, -, h⟩ := h
    split at h
    · exact isOrdered_of_scalarValue? (Reading.liftM_eq_some_iff.1 h).1
    · cases h
  | succ depth ih =>
    rw [Node.value, Reading.bind_eq_some_iff] at h
    obtain ⟨node', k, -, h⟩ := h
    split at h
    · exact isOrdered_of_scalarValue? (Reading.liftM_eq_some_iff.1 h).1
    · rw [Reading.bind_eq_some_iff] at h
      obtain ⟨values, k', -, h⟩ := h
      rw [Reading.pure_eq_some_iff] at h
      exact h.1 ▸ isOrdered_wrap _ (isOrdered_of_isDict (by simp))
    · rw [Reading.bind_eq_some_iff] at h
      obtain ⟨g, k', hg, h⟩ := h
      rw [Reading.pure_eq_some_iff] at h
      have hstart : IsOrderedSoFar {} := ⟨List.Pairwise.nil, nofun⟩
      have hgathered := Reading.foldlM_invariant
        (fun _ _ _ _ _ hg hstep => hg.gather (fun _ _ _ _ => ih) hstep) hstart hg
      exact h.1 ▸ isOrdered_wrap _ hgathered.value
    · cases h

/-- The entries of a document are ordered, and so are the dictionaries under their keys. -/
theorem keysIncrease_of_dict? {root : Node} {es : List (Text × Datum)} (h : root.dict? = some es) :
    KeysIncrease es ∧ ∀ e ∈ es, e.2.IsOrdered := by
  obtain ⟨entries, -, h⟩ := Option.bind_eq_some_iff.1 h
  obtain ⟨⟨es', m⟩, hrun, rfl⟩ := Option.map_eq_some_iff.1 h
  refine Reading.foldlM_invariant (P := fun es => KeysIncrease es ∧ ∀ e ∈ es, e.2.IsOrdered)
    (fun acc e acc' n m hacc hstep => ?_) ⟨List.Pairwise.nil, by simp⟩ hrun
  rw [rootEntry, Reading.bind_eq_some_iff] at hstep
  obtain ⟨key, k, -, hstep⟩ := hstep
  rw [Reading.bind_eq_some_iff] at hstep
  obtain ⟨value, k', hvalue, hstep⟩ := hstep
  obtain ⟨rfl, -⟩ := Reading.pure_eq_some_iff.1 hstep
  refine ⟨keysIncrease_insertEntry _ _ hacc.1, fun e' he' => ?_⟩
  rcases mem_insertEntry he' with rfl | he'
  · exact isOrdered_of_value hvalue
  · exact hacc.2 e' he'

end Node

end Yaml

namespace Settings

theorem keysIncrease_of_documentLayer? {document : Text} {layer : List (Text × Datum)}
    (h : documentLayer? document = some layer) :
    KeysIncrease layer ∧ ∀ e ∈ layer, e.2.IsOrdered := by
  rw [documentLayer?] at h
  split at h
  · cases h
    exact ⟨List.Pairwise.nil, by simp⟩
  · obtain ⟨root, -, hdict⟩ := Option.bind_eq_some_iff.1 h
    exact Yaml.Node.keysIncrease_of_dict? hdict

end Settings

end Sentential
