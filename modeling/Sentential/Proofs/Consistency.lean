import Mathlib.Data.List.Basic
import Mathlib.Tactic.Common
import Sentential.Command.Run
import Sentential.Proofs.Formalize
import Sentential.Proofs.Joining
import Sentential.Proofs.Reading

/-!
# Formalizations are consistent

The formula and the legend of a formalization fit together (`Formalization.IsConsistent`): the
variables of the displayed formula are those of the legend, in the same order, which is that in which
they are handed out, and each of them has a clause of its own.  It follows that a formalization can
always be rendered, whatever counts as a verb, and that rendering adds no way in which a command line
could fail.
-/

namespace Sentential

/-- The formula and the legend of a formalization fit together. -/
structure Formalization.IsConsistent (r : Formalization) : Prop where
  /-- The variables of the displayed formula are those of the legend, in the same order. -/
  displayed : variablesIn r.formula.display = r.legend.entries.map Legend.Entry.var
  /-- They are the first ones that are handed out. -/
  fresh : r.legend.entries.map Legend.Entry.var = (Allocator.take {} r.legend.size).1
  /-- There is at least one. -/
  nonempty : 1 ≤ r.legend.size
  /-- No variable has two entries. -/
  nodup : (r.legend.entries.map Legend.Entry.var).Nodup
  /-- No clause is blank, and none has white space at an end. -/
  clauses : ∀ e ∈ r.legend.entries, Text.isBlank e.clause = false ∧ Text.trim e.clause = e.clause
  /-- No two clauses differ in upper and lower case only. -/
  different : r.legend.entries.Pairwise fun e e' => Text.lower e.clause ≠ Text.lower e'.clause
  /-- The formula can be rendered with the clauses of the legend, which are all used, in order. -/
  renders : ∀ isVerb : VerbDetector, ∃ sentence,
    render isVerb r.formula.display (.ofTable r.legend.get?) () =
      (.ok ⟨sentence, r.legend.entries⟩, ())

/-! ### The clauses of a sentence -/

theorem mem_entriesFrom {n : Nat} {cs : List Text} {e : Legend.Entry} (h : e ∈ entriesFrom n cs) :
    ∃ c ∈ cs, e.clause = c.trim := by
  have hmem : e.clause ∈ (entriesFrom n cs).map Legend.Entry.clause := List.mem_map_of_mem h
  rw [clause_entriesFrom] at hmem
  obtain ⟨c, hc, heq⟩ := List.mem_map.1 hmem
  exact ⟨c, hc, heq.symm⟩

/-- Each clause of a sentence is made of tokens that stand in the sentence. -/
theorem exists_tokens_of_mem_clausesIn {ts : List Token} {sides : Frame (List Token)}
    (hsides : sidesOf? ts = some sides) {c : Text} (hc : c ∈ clausesIn sides) :
    ∃ run, run <:+: ts ∧ (∀ t ∈ run, t.isAnd = false) ∧ c = joinTokens (clauseTokens run) := by
  obtain ⟨side, hside, hc⟩ := List.mem_flatMap.1 hc
  obtain ⟨l, hl, rfl⟩ := List.mem_map.1 hc
  obtain ⟨row, hrow, hl⟩ := List.mem_flatten.1 hl
  obtain ⟨run, hrun, hand, rfl⟩ := exists_run_of_mem_sideRows hrow hl
  exact ⟨run, hrun.trans (isInfix_of_mem_sides hsides hside), hand, clause_literalOf run⟩

/-- A clause that can be read is neither empty nor surrounded by white space. -/
theorem clause_ne_nil_and_trim {sentence : Text} {sides : Frame (List Token)}
    (hsides : sidesOf? (tokenize sentence) = some sides)
    (hread : ∀ side ∈ sides.members, ReadableRows (sideRows side)) {c : Text}
    (hc : c ∈ clausesIn sides) : c ≠ [] ∧ c.trim = c := by
  obtain ⟨run, hrun, -, hclause⟩ := exists_tokens_of_mem_clausesIn hsides hc
  have hvisible : ∀ t ∈ clauseTokens run, t.IsVisible := fun t ht =>
    isVisible_of_mem_tokenize (hrun.mem ((clauseTokens_sublist run).mem ht))
  constructor
  · obtain ⟨side, hside, hc⟩ := List.mem_flatMap.1 hc
    obtain ⟨l, hl, rfl⟩ := List.mem_map.1 hc
    obtain ⟨row, hrow, hl⟩ := List.mem_flatten.1 hl
    exact ((hread side hside).2 row hrow).2 l hl
  · rw [hclause]
    exact trim_joinTokens hvisible

theorem clausesIn_ne_nil {sides : Frame (List Token)}
    (hread : ∀ side ∈ sides.members, ReadableRows (sideRows side)) : clausesIn sides ≠ [] := by
  obtain ⟨side, hside⟩ : ∃ side, side ∈ sides.members := by
    cases sides <;> exact ⟨_, List.mem_cons_self ..⟩
  obtain ⟨hne, hrows⟩ := hread side hside
  obtain ⟨row, hrow⟩ := List.exists_mem_of_ne_nil _ hne
  obtain ⟨l, hl⟩ := List.exists_mem_of_ne_nil _ (hrows row hrow).1
  exact List.ne_nil_of_mem (mem_clauses hside hrow hl)

theorem atoms_formalizationOf (sides : Frame (List Token)) :
    (formalizationOf sides).formula.atoms =
      (clausesIn sides).map (naming (clausesIn sides)) := by
  simp [formalizationOf, clausesIn, namedRows, List.flatMap_map, List.map_flatMap, List.map_flatten,
    Function.comp_def]

/-! ### The legend of a sentence -/

/-- The clause that a legend gives to a variable. -/
def Legend.clauseFor (m : Legend) (v : Variable) : Text :=
  ((m.get? v).getD []).trim

section Sides

variable {sentence : Text} {sides : Frame (List Token)}

theorem vars_legend (sides : Frame (List Token)) :
    (formalizationOf sides).legend.entries.map Legend.Entry.var =
      firstVariables (formalizationOf sides).legend.size := by
  rw [Legend.size, formalizationOf, length_entriesFrom, var_entriesFrom, firstVariables,
    List.range_eq_range']

theorem nodup_vars_legend (sides : Frame (List Token)) :
    ((formalizationOf sides).legend.entries.map Legend.Entry.var).Nodup :=
  nodup_vars_entriesFrom _

/-- The variables of the formula are those of the legend. -/
theorem distinct_atoms_formula (sides : Frame (List Token)) :
    Variable.distinct (formalizationOf sides).formula.atoms =
      (formalizationOf sides).legend.entries.map Legend.Entry.var := by
  rw [atoms_formalizationOf, distinct_map_naming, vars_legend, Legend.size, formalizationOf,
    length_entriesFrom]

variable (hsides : sidesOf? (tokenize sentence) = some sides)
  (hread : ∀ side ∈ sides.members, ReadableRows (sideRows side))

include hsides hread

/-- The clauses of the legend are clauses of the sentence. -/
theorem clause_of_mem_legend {e : Legend.Entry} (he : e ∈ (formalizationOf sides).legend.entries) :
    e.clause ≠ [] ∧ Text.trim e.clause = e.clause := by
  obtain ⟨c, hc, heq⟩ := mem_entriesFrom he
  obtain ⟨hne, htrim⟩ := clause_ne_nil_and_trim hsides hread (mem_of_mem_firstsBy hc)
  rw [heq, Text.trim_trim, htrim]
  exact ⟨hne, rfl⟩

theorem clauseFor_legend {e : Legend.Entry} (he : e ∈ (formalizationOf sides).legend.entries) :
    (formalizationOf sides).legend.clauseFor e.var = e.clause := by
  rw [Legend.clauseFor, get?_of_mem (nodup_vars_legend sides) he, Option.getD_some,
    (clause_of_mem_legend hsides hread he).2]

/-- A formalization is rendered as the reading of its formula, with all clauses of its legend. -/
theorem render_formalizationOf (isVerb : VerbDetector) :
    render isVerb (formalizationOf sides).formula.display
        (.ofTable (formalizationOf sides).legend.get?) () =
      (.ok ⟨Text.unwords (spoken ((formalizationOf sides).formula.reading isVerb
        (formalizationOf sides).legend.clauseFor)), (formalizationOf sides).legend.entries⟩, ()) := by
  have hfind : ∀ v ∈ (formalizationOf sides).formula.atoms,
      (((formalizationOf sides).legend.get? v).getD []).trim =
        (formalizationOf sides).legend.clauseFor v ∧
      (formalizationOf sides).legend.clauseFor v ≠ [] := by
    intro v hv
    refine ⟨rfl, ?_⟩
    rw [← mem_distinct_iff, distinct_atoms_formula] at hv
    obtain ⟨e, he, rfl⟩ := List.mem_map.1 hv
    rw [clauseFor_legend hsides hread he]
    exact (clause_of_mem_legend hsides hread he).1
  have hmeanings : (Variable.distinct (formalizationOf sides).formula.atoms).map
      (fun v => Legend.Entry.mk v ((formalizationOf sides).legend.clauseFor v)) =
      (formalizationOf sides).legend.entries := by
    rw [distinct_atoms_formula, List.map_map]
    conv_rhs => rw [← List.map_id (formalizationOf sides).legend.entries]
    refine List.map_congr_left fun e he => ?_
    simp only [Function.comp_apply, clauseFor_legend hsides hread he, id]
  rw [render_display (isFlat_formula hread).isNormal hfind, hmeanings]

omit hsides

theorem one_le_size_legend : 1 ≤ (formalizationOf sides).legend.size := by
  obtain ⟨c, hc⟩ := List.exists_mem_of_ne_nil _ (clausesIn_ne_nil hread)
  have hkey : clauseKey c ∈ (clausesOf (clausesIn sides)).map clauseKey :=
    key_mem_firstsBy_iff.2 (List.mem_map_of_mem hc)
  rw [Legend.size, formalizationOf, length_entriesFrom, ← List.length_map]
  exact List.length_pos_of_mem hkey

end Sides

/-- The keys of the clauses of a legend are these clauses in lower case. -/
theorem pairwise_lower_legend (sides : Frame (List Token)) :
    (formalizationOf sides).legend.entries.Pairwise fun e e' =>
      Text.lower e.clause ≠ Text.lower e'.clause := by
  have hkeys : (formalizationOf sides).legend.entries.map (fun e => Text.lower e.clause) =
      (clausesOf (clausesIn sides)).map clauseKey := by
    change List.map (Text.lower ∘ Legend.Entry.clause) (entriesFrom 0 _) = _
    rw [← List.map_map, clause_entriesFrom, List.map_map]
    rfl
  have hnodup : ((clausesOf (clausesIn sides)).map clauseKey).Nodup := nodup_firstsBy clauseKey _
  rw [← hkeys] at hnodup
  exact List.pairwise_map.1 hnodup

/-- Every formalization is consistent. -/
theorem isConsistent_of_formalize {sentence : Text} {r : Formalization}
    (h : formalize sentence = .ok r) : r.IsConsistent := by
  obtain ⟨sides, hsides, hread, rfl⟩ := formalize_eq_ok_iff.1 h
  have hnormal : (formalizationOf sides).formula.IsNormal := (isFlat_formula hread).isNormal
  refine ⟨?_, ?_, one_le_size_legend hread, nodup_vars_legend sides, fun e he => ?_,
    pairwise_lower_legend sides, fun isVerb => ⟨_, render_formalizationOf hsides hread isVerb⟩⟩
  · rw [Formula.variablesIn_display hnormal.isSolid, distinct_atoms_formula]
  · rw [vars_legend, take_fresh]
  · obtain ⟨hne, htrim⟩ := clause_of_mem_legend hsides hread he
    exact ⟨Text.isBlank_eq_false_of_trim_eq_self hne htrim, htrim⟩

/-! ### Command lines -/

/-- A sentence that can be formalized can be rendered back. -/
theorem code_roundtrip_eq (w : Surroundings) (flags : GlobalFlags) (words : List Text) :
    (runCommand w flags (.roundtrip words)).code = (runCommand w flags (.parse words)).code := by
  unfold runCommand
  cases hcontext : Context.ofFlags w flags with
  | error e => rfl
  | ok c =>
    simp only [Context.run, Context.parse, Context.roundtrip]
    cases hformalize : formalize (Text.unwords words) with
    | error e => rfl
    | ok r =>
      obtain ⟨sentence, hrender⟩ := (isConsistent_of_formalize hformalize).renders c.verbs.isVerb
      simp only [hrender]
      rfl

/-- Every formalization is consistent, so that a sentence is rendered back whenever it can be
formalized. -/
theorem formalize_isConsistent :
    (∀ sentence r, formalize sentence = .ok r → r.IsConsistent) ∧
      ∀ w flags words, (runCommand w flags (.roundtrip words)).code ≠ 0 →
        (runCommand w flags (.parse words)).code ≠ 0 := by
  refine ⟨fun _ _ => isConsistent_of_formalize, fun w flags words h => ?_⟩
  rwa [← code_roundtrip_eq]

/-- A sentence whose clauses repeat. -/
theorem exists_isConsistent_biconditional :
    ∃ r, formalize "não chove, e venta se e somente se Chove".toList = .ok r ∧
      r.legend.size = 2 ∧ r.IsConsistent := by
  have hread : formalize "não chove, e venta se e somente se Chove".toList =
      .ok ⟨.iff (.conj [.neg (.atom (Variable.nth 0)), .atom (Variable.nth 1)])
        (.atom (Variable.nth 0)), ⟨[⟨Variable.nth 0, "chove".toList⟩,
          ⟨Variable.nth 1, "venta".toList⟩]⟩⟩ := by
    decide +kernel
  exact ⟨_, hread, rfl, formalize_isConsistent.1 _ _ hread⟩

end Sentential
