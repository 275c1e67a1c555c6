import Mathlib.Data.List.Basic
import Mathlib.Tactic.Common
import Sentential.Formula.Basic

/-!
# Flat formulas

A formula is *flat* when its connectives come in the order of the tiers: a biconditional or an
implication at the root only, then disjunctions, then conjunctions, then negations of atoms
(`Formula.IsFlat`).  Groups have two or more operands.

One side of a flat formula is the same as a list of rows of signed atoms: each row is a conjunction
of literals, and the rows form a disjunction (`Formula.ofRows`, `Formula.isSide_iff`).  A row or a
list with one member stands for that member, so that the rows can be taken from the formula again
(`Formula.toRows_ofRows`, `Formula.frame_formula`).
-/

namespace Sentential

namespace Formula

variable {α β γ : Type}

/-! ### Induction and replacement of atoms -/

/-- Induction over formulas, where the operands of a group are taken all at once. -/
@[elab_as_elim]
theorem induction {motive : Formula α → Prop} (atom : ∀ a, motive (.atom a))
    (neg : ∀ f, motive f → motive (.neg f))
    (conj : ∀ fs, (∀ f ∈ fs, motive f) → motive (.conj fs))
    (disj : ∀ fs, (∀ f ∈ fs, motive f) → motive (.disj fs))
    (imp : ∀ f g, motive f → motive g → motive (.imp f g))
    (iff : ∀ f g, motive f → motive g → motive (.iff f g)) (f : Formula α) : motive f :=
  Formula.rec (motive_2 := fun fs => ∀ f ∈ fs, motive f) atom neg conj disj imp iff
    (fun _ h => absurd h List.not_mem_nil)
    (fun _ _ hhead htail => List.forall_mem_cons.2 ⟨hhead, htail⟩) f

theorem atomsAll_eq_flatMap (fs : List (Formula α)) : atomsAll fs = fs.flatMap atoms := by
  induction fs with
  | nil => rfl
  | cons f fs ih => simp [atomsAll, ih]

@[simp] theorem atoms_conj (fs : List (Formula α)) : (conj fs).atoms = fs.flatMap atoms := by
  rw [atoms, atomsAll_eq_flatMap]

@[simp] theorem atoms_disj (fs : List (Formula α)) : (disj fs).atoms = fs.flatMap atoms := by
  rw [atoms, atomsAll_eq_flatMap]

mutual

/-- Replaces each atom of a formula. -/
def map (φ : α → β) : Formula α → Formula β
  | atom a => atom (φ a)
  | neg f => neg (map φ f)
  | conj fs => conj (mapAll φ fs)
  | disj fs => disj (mapAll φ fs)
  | imp f g => imp (map φ f) (map φ g)
  | iff f g => iff (map φ f) (map φ g)

/-- Replaces each atom of a list of operands. -/
def mapAll (φ : α → β) : List (Formula α) → List (Formula β)
  | [] => []
  | f :: fs => map φ f :: mapAll φ fs

end

theorem mapAll_eq_map (φ : α → β) (fs : List (Formula α)) : mapAll φ fs = fs.map (map φ) := by
  induction fs with
  | nil => rfl
  | cons f fs ih => simp [mapAll, ih]

@[simp] theorem map_conj (φ : α → β) (fs : List (Formula α)) :
    (conj fs).map φ = conj (fs.map (map φ)) := by
  rw [map, mapAll_eq_map]

@[simp] theorem map_disj (φ : α → β) (fs : List (Formula α)) :
    (disj fs).map φ = disj (fs.map (map φ)) := by
  rw [map, mapAll_eq_map]

/-- Replacements that agree on the atoms of a formula give the same formula. -/
theorem map_congr {φ ψ : α → β} {f : Formula α} (h : ∀ a ∈ f.atoms, φ a = ψ a) :
    f.map φ = f.map ψ := by
  induction f using Formula.induction with
  | atom a => exact congrArg atom (h a (List.mem_singleton_self a))
  | neg f ih => exact congrArg neg (ih h)
  | conj fs ih | disj fs ih =>
    simp only [atoms_conj, atoms_disj, List.mem_flatMap] at h
    simp only [map_conj, map_disj, conj.injEq, disj.injEq, List.map_inj_left]
    exact fun f hf => ih f hf fun a ha => h a ⟨f, hf, ha⟩
  | imp f g ihf ihg | iff f g ihf ihg =>
    rw [map, map, ihf fun a ha => h a (List.mem_append_left _ ha),
      ihg fun a ha => h a (List.mem_append_right _ ha)]

/-! ### The shape of a flat formula -/

/-- A literal is an atom or the negation of an atom. -/
inductive IsLiteral : Formula α → Prop
  /-- An atom. -/
  | atom (a : α) : IsLiteral (.atom a)
  /-- The negation of an atom. -/
  | neg (a : α) : IsLiteral (.neg (.atom a))

/-- A unit is a literal or a conjunction of two or more literals. -/
inductive IsUnit : Formula α → Prop
  /-- A literal. -/
  | literal {f : Formula α} (hf : IsLiteral f) : IsUnit f
  /-- A conjunction of literals. -/
  | conj {fs : List (Formula α)} (hlen : 2 ≤ fs.length) (hfs : ∀ f ∈ fs, IsLiteral f) :
    IsUnit (.conj fs)

/-- A side is a unit or a disjunction of two or more units. -/
inductive IsSide : Formula α → Prop
  /-- A unit. -/
  | unit {f : Formula α} (hf : IsUnit f) : IsSide f
  /-- A disjunction of units. -/
  | disj {fs : List (Formula α)} (hlen : 2 ≤ fs.length) (hfs : ∀ f ∈ fs, IsUnit f) :
    IsSide (.disj fs)

/-- A flat formula is a side, or an implication or a biconditional of two sides. -/
inductive IsFlat : Formula α → Prop
  /-- A side. -/
  | side {f : Formula α} (hf : IsSide f) : IsFlat f
  /-- An implication. -/
  | imp {f g : Formula α} (hf : IsSide f) (hg : IsSide g) : IsFlat (.imp f g)
  /-- A biconditional. -/
  | iff {f g : Formula α} (hf : IsSide f) (hg : IsSide g) : IsFlat (.iff f g)

/-! ### Sides as rows of signed atoms -/

/-- The literal over `a`, negated or not. -/
def literal (negated : Bool) (a : α) : Formula α :=
  if negated then .neg (.atom a) else .atom a

/-- The conjunction of a row of signed atoms. -/
def ofRow (row : List (Bool × α)) : Formula α :=
  conjunction (row.map fun l => literal l.1 l.2)

/-- The disjunction of the conjunctions of rows of signed atoms. -/
def ofRows (rows : List (List (Bool × α))) : Formula α :=
  disjunction (rows.map ofRow)

theorem isLiteral_literal (negated : Bool) (a : α) : (literal negated a).IsLiteral := by
  cases negated
  · exact .atom a
  · exact .neg a

theorem isLiteral_iff {f : Formula α} : f.IsLiteral ↔ ∃ l : Bool × α, f = literal l.1 l.2 := by
  constructor
  · rintro (a | a)
    · exact ⟨(false, a), rfl⟩
    · exact ⟨(true, a), rfl⟩
  · rintro ⟨l, rfl⟩
    exact isLiteral_literal l.1 l.2

/-- Formulas that each have a description have a list of descriptions. -/
theorem exists_eq_map_of_forall {δ : Type} {fs : List (Formula α)} {describe : δ → Formula α}
    {p : δ → Prop} (h : ∀ f ∈ fs, ∃ d, p d ∧ f = describe d) :
    ∃ ds : List δ, (∀ d ∈ ds, p d) ∧ fs = ds.map describe := by
  induction fs with
  | nil => exact ⟨[], by simp, rfl⟩
  | cons f fs ih =>
    obtain ⟨d, hd, rfl⟩ := h f (List.mem_cons_self ..)
    obtain ⟨ds, hds, rfl⟩ := ih fun f hf => h f (List.mem_cons_of_mem _ hf)
    exact ⟨d :: ds, List.forall_mem_cons.2 ⟨hd, hds⟩, rfl⟩

/-- A unit is a row that is not empty. -/
theorem isUnit_iff {f : Formula α} : f.IsUnit ↔ ∃ row, row ≠ [] ∧ f = ofRow row := by
  constructor
  · intro h
    cases h with
    | literal hf =>
      obtain ⟨l, rfl⟩ := isLiteral_iff.1 hf
      exact ⟨[l], by simp, rfl⟩
    | @conj fs hlen hfs =>
      have hlit : ∀ f ∈ fs, ∃ l : Bool × α, True ∧ f = literal l.1 l.2 := fun f hf =>
        (isLiteral_iff.1 (hfs f hf)).imp fun l hl => ⟨trivial, hl⟩
      obtain ⟨row, -, rfl⟩ := exists_eq_map_of_forall hlit
      rw [List.length_map] at hlen
      match row, hlen with
      | l :: l' :: row, _ => exact ⟨l :: l' :: row, by simp, rfl⟩
  · rintro ⟨row, hrow, rfl⟩
    match row, hrow with
    | [l], _ => exact .literal (isLiteral_literal l.1 l.2)
    | l :: l' :: row, _ =>
      refine .conj (by simp) fun f hf => ?_
      have hf : f ∈ (l :: l' :: row).map fun l => literal l.1 l.2 := hf
      obtain ⟨l, -, rfl⟩ := List.mem_map.1 hf
      exact isLiteral_literal l.1 l.2

/-- A side is a list of rows that is not empty and has no empty row. -/
theorem isSide_iff {f : Formula α} :
    f.IsSide ↔ ∃ rows, rows ≠ [] ∧ (∀ row ∈ rows, row ≠ []) ∧ f = ofRows rows := by
  constructor
  · intro h
    cases h with
    | unit hf =>
      obtain ⟨row, hrow, rfl⟩ := isUnit_iff.1 hf
      exact ⟨[row], by simp, by simpa using hrow, rfl⟩
    | disj hlen hfs =>
      obtain ⟨rows, hrows, rfl⟩ := exists_eq_map_of_forall fun f hf => isUnit_iff.1 (hfs f hf)
      rw [List.length_map] at hlen
      match rows, hlen with
      | row :: row' :: rows, _ => exact ⟨row :: row' :: rows, by simp, hrows, rfl⟩
  · rintro ⟨rows, hne, hrows, rfl⟩
    match rows, hne with
    | [row], _ => exact .unit (isUnit_iff.2 ⟨row, hrows row (by simp), rfl⟩)
    | row :: row' :: rows, _ =>
      refine .disj (by simp) fun f hf => ?_
      have hf : f ∈ (row :: row' :: rows).map ofRow := hf
      obtain ⟨row, hrow, rfl⟩ := List.mem_map.1 hf
      exact isUnit_iff.2 ⟨row, hrows row hrow, rfl⟩

/-! ### The root -/

end Formula

/-- The root of a flat formula: one side, or the two sides of an implication or a biconditional. -/
inductive Frame (α : Type) where
  /-- A single side. -/
  | single (a : α)
  /-- Two sides of an implication. -/
  | imp (a b : α)
  /-- Two sides of a biconditional. -/
  | iff (a b : α)

namespace Frame

variable {α β : Type}

/-- The sides, in order. -/
def members : Frame α → List α
  | single a => [a]
  | imp a b => [a, b]
  | iff a b => [a, b]

/-- Replaces each side. -/
def map (φ : α → β) : Frame α → Frame β
  | single a => single (φ a)
  | imp a b => imp (φ a) (φ b)
  | iff a b => iff (φ a) (φ b)

/-- The formula whose sides are formulas. -/
def formula : Frame (Formula α) → Formula α
  | single f => f
  | imp f g => .imp f g
  | iff f g => .iff f g

@[simp] theorem members_map (φ : α → β) (frame : Frame α) :
    (frame.map φ).members = frame.members.map φ := by
  cases frame <;> rfl

@[simp] theorem map_map {γ : Type} (φ : α → β) (ψ : β → γ) (frame : Frame α) :
    (frame.map φ).map ψ = frame.map (ψ ∘ φ) := by
  cases frame <;> rfl

theorem map_congr {φ ψ : α → β} {frame : Frame α} (h : ∀ a ∈ frame.members, φ a = ψ a) :
    frame.map φ = frame.map ψ := by
  cases frame with
  | single a => rw [map, map, h a (List.mem_singleton_self a)]
  | imp a b | iff a b =>
    rw [map, map, h a (List.mem_cons_self ..), h b (List.mem_cons_of_mem a (List.mem_singleton_self b))]

end Frame

namespace Formula

/-- A formula is flat if its sides are rows, none of which is missing or empty. -/
theorem isFlat_iff {f : Formula α} :
    f.IsFlat ↔ ∃ frame : Frame (List (List (Bool × α))),
      (∀ rows ∈ frame.members, rows ≠ [] ∧ ∀ row ∈ rows, row ≠ []) ∧
        f = (frame.map ofRows).formula := by
  constructor
  · intro h
    cases h with
    | side hf =>
      obtain ⟨rows, hne, hrows, rfl⟩ := isSide_iff.1 hf
      exact ⟨.single rows, by simpa [Frame.members] using ⟨hne, hrows⟩, rfl⟩
    | imp hf hg =>
      obtain ⟨rows, hne, hrows, rfl⟩ := isSide_iff.1 hf
      obtain ⟨rows', hne', hrows', rfl⟩ := isSide_iff.1 hg
      exact ⟨.imp rows rows', by simpa [Frame.members] using ⟨⟨hne, hrows⟩, hne', hrows'⟩, rfl⟩
    | iff hf hg =>
      obtain ⟨rows, hne, hrows, rfl⟩ := isSide_iff.1 hf
      obtain ⟨rows', hne', hrows', rfl⟩ := isSide_iff.1 hg
      exact ⟨.iff rows rows', by simpa [Frame.members] using ⟨⟨hne, hrows⟩, hne', hrows'⟩, rfl⟩
  · rintro ⟨frame, hframe, rfl⟩
    have hside : ∀ rows ∈ frame.members, (ofRows rows).IsSide := fun rows hmem =>
      isSide_iff.2 ⟨rows, (hframe rows hmem).1, (hframe rows hmem).2, rfl⟩
    cases frame with
    | single rows => exact .side (hside rows (by simp [Frame.members]))
    | imp rows rows' =>
      exact .imp (hside rows (by simp [Frame.members])) (hside rows' (by simp [Frame.members]))
    | iff rows rows' =>
      exact .iff (hside rows (by simp [Frame.members])) (hside rows' (by simp [Frame.members]))

/-! ### Operations on rows -/

@[simp] theorem atoms_literal (negated : Bool) (a : α) : (literal negated a).atoms = [a] := by
  cases negated <;> rfl

@[simp] theorem atoms_conjunction (fs : List (Formula α)) :
    (conjunction fs).atoms = fs.flatMap atoms := by
  unfold conjunction
  split <;> simp

@[simp] theorem atoms_disjunction (fs : List (Formula α)) :
    (disjunction fs).atoms = fs.flatMap atoms := by
  unfold disjunction
  split <;> simp

/-- The atoms of a side are those of its rows. -/
@[simp] theorem atoms_ofRows (rows : List (List (Bool × α))) :
    (ofRows rows).atoms = rows.flatten.map Prod.snd := by
  have hrow (row : List (Bool × α)) : (ofRow row).atoms = row.map Prod.snd := by
    rw [ofRow, atoms_conjunction, List.flatMap_map, List.map_eq_flatMap]
    exact List.flatMap_congr fun l _ => atoms_literal l.1 l.2
  simp [ofRows, List.flatMap_def, hrow, List.map_flatten, Function.comp_def]

@[simp] theorem map_literal (φ : α → β) (negated : Bool) (a : α) :
    (literal negated a).map φ = literal negated (φ a) := by
  cases negated <;> rfl

@[simp] theorem map_conjunction (φ : α → β) (fs : List (Formula α)) :
    (conjunction fs).map φ = conjunction (fs.map (map φ)) := by
  rcases fs with _ | ⟨f, _ | ⟨g, fs⟩⟩ <;> simp [conjunction]

@[simp] theorem map_disjunction (φ : α → β) (fs : List (Formula α)) :
    (disjunction fs).map φ = disjunction (fs.map (map φ)) := by
  rcases fs with _ | ⟨f, _ | ⟨g, fs⟩⟩ <;> simp [disjunction]

/-- Replacing the atoms of a side is replacing those of its rows. -/
@[simp] theorem map_ofRows (φ : α → β) (rows : List (List (Bool × α))) :
    (ofRows rows).map φ = ofRows (rows.map fun row => row.map fun l => (l.1, φ l.2)) := by
  have hrow (row : List (Bool × α)) :
      (ofRow row).map φ = ofRow (row.map fun l => (l.1, φ l.2)) := by
    simp [ofRow, Function.comp_def]
  simp [ofRows, Function.comp_def, hrow]

/-- The atoms of a flat formula are those of its sides. -/
@[simp] theorem atoms_formula (frame : Frame (Formula α)) :
    frame.formula.atoms = frame.members.flatMap atoms := by
  cases frame <;> simp [Frame.formula, Frame.members, atoms]

@[simp] theorem map_formula (φ : α → β) (frame : Frame (Formula α)) :
    frame.formula.map φ = (frame.map (map φ)).formula := by
  cases frame <;> rfl

/-! ### The rows of a flat formula -/

/-- The signed atom of a literal. -/
def toLiterals : Formula α → List (Bool × α)
  | atom a => [(false, a)]
  | neg (atom a) => [(true, a)]
  | _ => []

/-- The signed atoms of a unit. -/
def toRow : Formula α → List (Bool × α)
  | conj fs => fs.flatMap toLiterals
  | f => toLiterals f

/-- The rows of a side. -/
def toRows : Formula α → List (List (Bool × α))
  | disj fs => fs.map toRow
  | f => [toRow f]

/-- The rows of the sides of a flat formula. -/
def frame : Formula α → Frame (List (List (Bool × α)))
  | imp f g => .imp f.toRows g.toRows
  | iff f g => .iff f.toRows g.toRows
  | f => .single f.toRows

theorem toLiterals_literal (l : Bool × α) : (literal l.1 l.2).toLiterals = [l] := by
  obtain ⟨_ | _, a⟩ := l <;> rfl

theorem toRow_ofRow {row : List (Bool × α)} (hrow : row ≠ []) : (ofRow row).toRow = row := by
  match row, hrow with
  | [(false, a)], _ => rfl
  | [(true, a)], _ => rfl
  | l :: l' :: row, _ =>
    have hconj : ofRow (l :: l' :: row) =
        conj ((l :: l' :: row).map fun l => literal l.1 l.2) := rfl
    rw [hconj, toRow, List.flatMap_map, List.flatMap_congr fun l _ => toLiterals_literal l]
    exact List.flatMap_singleton' _

/-- The rows of a side can be taken from its formula. -/
theorem toRows_ofRows {rows : List (List (Bool × α))} (hne : rows ≠ [])
    (hrows : ∀ row ∈ rows, row ≠ []) : (ofRows rows).toRows = rows := by
  match rows, hne with
  | [row], _ =>
    have hrow : row ≠ [] := hrows row (List.mem_singleton_self row)
    have hunit : (ofRow row).toRows = [(ofRow row).toRow] := by
      match row, hrow with
      | [(false, a)], _ => rfl
      | [(true, a)], _ => rfl
      | l :: l' :: row, _ => rfl
    exact hunit.trans (congrArg (fun row => [row]) (toRow_ofRow hrow))
  | row :: row' :: rows, _ =>
    have hdisj : ofRows (row :: row' :: rows) = disj ((row :: row' :: rows).map ofRow) := rfl
    rw [hdisj, toRows, List.map_map]
    conv_rhs => rw [← List.map_id (row :: row' :: rows)]
    exact List.map_congr_left fun row hrow => toRow_ofRow (hrows row hrow)

theorem IsSide.frame_eq {f : Formula α} (hf : f.IsSide) : f.frame = .single f.toRows := by
  rcases hf with (_ | _) | _
  · next hf => cases hf <;> rfl
  · rfl
  · rfl

/-- The rows of the sides can be taken from a flat formula. -/
theorem frame_formula {frame : Frame (List (List (Bool × α)))}
    (h : ∀ rows ∈ frame.members, rows ≠ [] ∧ ∀ row ∈ rows, row ≠ []) :
    (frame.map ofRows).formula.frame = frame := by
  have hside {rows : List (List (Bool × α))} (hmem : rows ∈ frame.members) :
      (ofRows rows).toRows = rows := toRows_ofRows (h rows hmem).1 (h rows hmem).2
  cases frame with
  | single rows =>
    have hrows := hside (List.mem_singleton_self rows)
    obtain ⟨hne, hrow⟩ := h rows (List.mem_singleton_self rows)
    have hsingle : (ofRows rows).frame = .single (ofRows rows).toRows :=
      (isSide_iff.2 ⟨rows, hne, hrow, rfl⟩ : (ofRows rows).IsSide).frame_eq
    exact hsingle.trans (congrArg Frame.single hrows)
  | imp rows rows' =>
    exact congrArg₂ Frame.imp (hside (List.mem_cons_self ..))
      (hside (List.mem_cons_of_mem rows (List.mem_singleton_self rows')))
  | iff rows rows' =>
    exact congrArg₂ Frame.iff (hside (List.mem_cons_self ..))
      (hside (List.mem_cons_of_mem rows (List.mem_singleton_self rows')))

end Formula

end Sentential
