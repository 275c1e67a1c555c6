import Mathlib.Data.List.Induction
import Mathlib.Tactic.Common
import Sentential.IndexedLegend
import Sentential.Proofs.Naming

/-!
# Entries and indexes stay in step

A call on an indexed legend ends in one of four ways (`Performs`): the clause is known, or it comes
in under a variable that was drawn, or under one that was given, or it replaces the clause of an
entry.  None of them breaks `IsIndexed`: the one index holds the last place of each variable, the
other the place of each clause.  Two consequences follow.  Lookups are told by the entries alone
(`isExact_after`), and a legend that searches its entries answers the same (`legend_after`).
-/

namespace Sentential

/-! ### Last places -/

/-- Whether `i` is the last place of `a` in a list. -/
def IsLastAt {α : Type} (as : List α) (a : α) (i : Nat) : Prop :=
  as[i]? = some a ∧ ∀ j, i < j → as[j]? ≠ some a

section LastPlaces

variable {α : Type} {as : List α} {a b : α} {i j : Nat}

/-- What stands at a place after a further member has come in. -/
theorem getElem?_concat_eq_some_iff :
    (as ++ [b])[i]? = some a ↔ as[i]? = some a ∨ i = as.length ∧ b = a := by
  rcases Nat.lt_trichotomy i as.length with hi | rfl | hi
  · rw [List.getElem?_append_left hi]
    exact ⟨.inl, fun h => h.resolve_right fun h => absurd h.1 (by omega)⟩
  · simp
  · rw [List.getElem?_eq_none (by simp; omega), List.getElem?_eq_none (by omega)]
    simp only [reduceCtorEq, false_or, false_iff, not_and]
    omega

/-- A further member takes the last place of its value, and of no other. -/
theorem isLastAt_concat [DecidableEq α] :
    IsLastAt (as ++ [b]) a i ↔ if b = a then i = as.length else IsLastAt as a i := by
  simp only [IsLastAt, ne_eq, getElem?_concat_eq_some_iff]
  split
  · rename_i hb
    constructor
    · rintro ⟨hi, hlater⟩
      rcases hi with hi | ⟨rfl, -⟩
      · have hlt := (List.getElem?_eq_some_iff.1 hi).1
        exact absurd (.inr ⟨rfl, hb⟩) (hlater as.length hlt)
      · rfl
    · rintro rfl
      refine ⟨.inr ⟨rfl, hb⟩, fun j hj => ?_⟩
      rw [List.getElem?_eq_none (by omega)]
      simp only [reduceCtorEq, false_or, not_and]
      omega
  · rename_i hb
    simp [hb]

/-- A value has a last place as soon as it occurs. -/
theorem exists_isLastAt (h : a ∈ as) : ∃ i, IsLastAt as a i := by
  classical
  induction as using List.reverseRecOn with
  | nil => exact absurd h List.not_mem_nil
  | append_singleton as b ih =>
    by_cases hb : b = a
    · exact ⟨as.length, isLastAt_concat.2 (by simp [hb])⟩
    · have hmem : a ∈ as := by
        rcases List.mem_append.1 h with h | h
        · exact h
        · exact absurd (List.mem_singleton.1 h).symm hb
      obtain ⟨i, hi⟩ := ih hmem
      exact ⟨i, isLastAt_concat.2 (by rwa [if_neg hb])⟩

theorem IsLastAt.mem (h : IsLastAt as a i) : a ∈ as :=
  List.mem_of_getElem? h.1

end LastPlaces

namespace IndexedLegend

open Legend (Call)

variable {m m' : IndexedLegend} {a : Allocator} {v : Variable} {c : Text} {i : Nat}
  {e : Legend.Entry} {call : Call}

/-! ### The ways in which a call ends -/

/-- What a call does: one constructor for each way in which it can end. -/
inductive Performs (m : IndexedLegend) (a : Allocator) :
    Call → Variable × IndexedLegend × Allocator → Prop
  /-- The clause is known. -/
  | known {call : Call} {v : Variable} (h : m.variableFor? call.clause = some v) :
      Performs m a call (v, m, a)
  /-- The clause comes in under a variable that is drawn. -/
  | drawn {c : Text} (h : m.variableFor? c = none) :
      Performs m a (.resolve c) (a.next.1, m.push a.next.1 c.trim, a.next.2)
  /-- The clause comes in under a variable that is given and has no entry. -/
  | added {v : Variable} {c : Text} (h : m.variableFor? c = none) (hv : m.entryOf? v = none) :
      Performs m a (.insert v c) (v, m.push v c.trim, a)
  /-- The clause replaces that of the last entry of its variable. -/
  | rebound {v : Variable} {c : Text} {i : Nat} {e : Legend.Entry} (h : m.variableFor? c = none)
      (hv : m.entryOf? v = some (i, e)) : Performs m a (.insert v c) (v, m.rebind i e c.trim, a)

theorem performs_perform (m : IndexedLegend) (a : Allocator) (call : Call) :
    Performs m a call (m.perform a call) := by
  cases call with
  | resolve c =>
    cases h : m.variableFor? c with
    | some v =>
      have hknown : Performs m a (.resolve c) (v, m, a) := .known h
      simpa [perform, resolve, h] using hknown
    | none => simpa [perform, resolve, h] using Performs.drawn h
  | insert v c =>
    cases h : m.variableFor? c with
    | some w =>
      have hknown : Performs m a (.insert v c) (w, m, a) := .known h
      simpa [perform, insert, h] using hknown
    | none =>
      cases hv : m.entryOf? v with
      | some place => simpa [perform, insert, h, hv] using Performs.rebound h hv
      | none => simpa [perform, insert, h, hv] using Performs.added h hv

/-! ### What the indexes hold -/

/-- The variables of the entries. -/
def vars (m : IndexedLegend) : List Variable :=
  m.entries.map Legend.Entry.var

/-- The keys of the clauses of the entries. -/
def keys (m : IndexedLegend) : List Text :=
  m.entries.map fun e => clauseKey e.clause

/-- The indexes tell the places in the list of entries, of which none lies outside.  As a clause has
one place, there is one entry for it. -/
structure IsIndexed (m : IndexedLegend) : Prop where
  /-- A variable leads to its last entry. -/
  byVariable_iff : ∀ (v : Variable) (i : Nat), m.byVariable[v]? = some i ↔ IsLastAt m.vars v i
  /-- A key leads to the entry whose clause has it. -/
  byClause_iff : ∀ (k : Text) (i : Nat), m.byClause[k]? = some i ↔ m.keys[i]? = some k

@[simp] theorem vars_push (m : IndexedLegend) (v : Variable) (c : Text) :
    (m.push v c).vars = m.vars ++ [v] := by
  simp [vars, push]

@[simp] theorem keys_push (m : IndexedLegend) (v : Variable) (c : Text) :
    (m.push v c).keys = m.keys ++ [clauseKey c] := by
  simp [keys, push]

theorem vars_rebind (he : m.entries[i]? = some e) (c : Text) : (m.rebind i e c).vars = m.vars := by
  obtain ⟨hi, rfl⟩ := List.getElem?_eq_some_iff.1 he
  have hi' : i < (m.entries.map Legend.Entry.var).length := by simpa using hi
  have hsame : (m.entries.map Legend.Entry.var)[i] = m.entries[i].var := by simp
  simp only [vars, rebind, List.map_set, ← hsame, List.set_getElem_self]

@[simp] theorem keys_rebind (m : IndexedLegend) (i : Nat) (e : Legend.Entry) (c : Text) :
    (m.rebind i e c).keys = m.keys.set i (clauseKey c) := by
  simp [keys, rebind, List.map_set]

theorem isIndexed_empty : IsIndexed {} where
  byVariable_iff v i := by simp [vars, IsLastAt]
  byClause_iff k i := by simp [keys]

theorem IsIndexed.push (h : m.IsIndexed) (hc : clauseKey c ∉ m.keys) (v : Variable) :
    (m.push v c).IsIndexed where
  byVariable_iff w i := by
    have hinsert : (m.push v c).byVariable[w]? =
        if v = w then some m.vars.length else m.byVariable[w]? := by
      simp [IndexedLegend.push, vars, Std.HashMap.getElem?_insert]
    rw [hinsert, vars_push, isLastAt_concat]
    split
    · exact ⟨fun h => (Option.some.inj h).symm, fun h => congrArg some h.symm⟩
    · exact h.byVariable_iff w i
  byClause_iff k i := by
    have hinsert : (m.push v c).byClause[k]? =
        if clauseKey c = k then some m.keys.length else m.byClause[k]? := by
      simp [IndexedLegend.push, keys, Std.HashMap.getElem?_insert]
    rw [hinsert, keys_push, getElem?_concat_eq_some_iff]
    split
    · rename_i hk
      subst hk
      have hnot : m.keys[i]? ≠ some (clauseKey c) := fun h => hc (List.mem_of_getElem? h)
      simp [hnot, eq_comm]
    · rename_i hk
      simp [hk, h.byClause_iff]

/-- Two places of one key are the same place. -/
theorem IsIndexed.place_unique (h : m.IsIndexed) {i j : Nat} {k : Text}
    (hi : m.keys[i]? = some k) (hj : m.keys[j]? = some k) : i = j :=
  Option.some.inj (((h.byClause_iff k i).2 hi).symm.trans ((h.byClause_iff k j).2 hj))

theorem IsIndexed.rebind (h : m.IsIndexed) (he : m.entries[i]? = some e)
    (hc : clauseKey c ∉ m.keys) : (m.rebind i e c).IsIndexed where
  byVariable_iff v j := by
    rw [vars_rebind he]
    exact h.byVariable_iff v j
  byClause_iff k j := by
    have hlt : i < m.keys.length := by
      simpa [keys] using (List.getElem?_eq_some_iff.1 he).1
    have hold : m.keys[i]? = some (clauseKey e.clause) := by
      simp [keys, he]
    have hinsert : (m.rebind i e c).byClause[k]? =
        if clauseKey c = k then some i
        else if clauseKey e.clause = k then none else m.byClause[k]? := by
      simp [IndexedLegend.rebind, Std.HashMap.getElem?_insert, Std.HashMap.getElem?_erase]
    rw [hinsert, keys_rebind, List.getElem?_set]
    by_cases hij : i = j
    · subst hij
      simp only [hlt, if_true, Option.some.injEq]
      by_cases hk : clauseKey c = k
      · simp [hk]
      · simp only [hk, if_false, iff_false]
        split
        · simp
        · rename_i hek
          rw [h.byClause_iff, hold]
          exact fun hsame => hek (Option.some.inj hsame)
    · simp only [hij, if_false]
      by_cases hk : clauseKey c = k
      · subst hk
        simp only [if_true, Option.some.injEq, hij, false_iff]
        exact fun hj => hc (List.mem_of_getElem? hj)
      · simp only [hk, if_false]
        split
        · rename_i hek
          subst hek
          simp only [reduceCtorEq, false_iff]
          exact fun hj => hij (h.place_unique hold hj)
        · exact h.byClause_iff k j

/-! ### Lookups -/

theorem IsIndexed.variableFor?_eq_some_iff (h : m.IsIndexed) :
    m.variableFor? c = some v ↔
      ∃ (i : Nat) (e : Legend.Entry),
        m.entries[i]? = some e ∧ clauseKey e.clause = clauseKey c ∧ e.var = v := by
  simp only [variableFor?, Option.bind_eq_some_iff, Option.map_eq_some_iff, h.byClause_iff, keys,
    List.getElem?_map]
  constructor
  · rintro ⟨i, ⟨e, he, hk⟩, e', he', rfl⟩
    rw [he, Option.some.injEq] at he'
    subst he'
    exact ⟨i, e, he, hk, rfl⟩
  · rintro ⟨i, e, he, hk, rfl⟩
    exact ⟨i, ⟨e, he, hk⟩, e, he, rfl⟩

theorem IsIndexed.variableFor?_eq_none_iff (h : m.IsIndexed) :
    m.variableFor? c = none ↔ clauseKey c ∉ m.keys := by
  rw [Option.eq_none_iff_forall_ne_some]
  constructor
  · intro hnone hmem
    obtain ⟨e, he, hk⟩ := List.mem_map.1 hmem
    obtain ⟨i, hi⟩ := List.mem_iff_getElem?.1 he
    exact hnone e.var (h.variableFor?_eq_some_iff.2 ⟨i, e, hi, hk, rfl⟩)
  · intro hc v hv
    obtain ⟨i, e, he, hk, -⟩ := h.variableFor?_eq_some_iff.1 hv
    exact hc (List.mem_map.2 ⟨e, List.mem_of_getElem? he, hk⟩)

theorem IsIndexed.entryOf?_eq_some_iff (h : m.IsIndexed) :
    m.entryOf? v = some (i, e) ↔ m.entries[i]? = some e ∧ IsLastAt m.vars v i := by
  simp only [entryOf?, Option.bind_eq_some_iff, Option.map_eq_some_iff, Prod.mk.injEq,
    h.byVariable_iff]
  constructor
  · rintro ⟨j, hj, e', he', rfl, rfl⟩
    exact ⟨he', hj⟩
  · rintro ⟨he, hi⟩
    exact ⟨i, hi, e, he, rfl, rfl⟩

theorem IsIndexed.get?_eq_some_iff (h : m.IsIndexed) :
    m.get? v = some c ↔
      ∃ (i : Nat) (e : Legend.Entry),
        m.entries[i]? = some e ∧ IsLastAt m.vars v i ∧ e.clause = c := by
  simp only [get?, Option.bind_eq_some_iff, Option.map_eq_some_iff, h.byVariable_iff]
  constructor
  · rintro ⟨i, hi, e, he, rfl⟩
    exact ⟨i, e, he, hi, rfl⟩
  · rintro ⟨i, e, he, hi, rfl⟩
    exact ⟨i, hi, e, he, rfl⟩

theorem IsIndexed.get?_eq_none_iff (h : m.IsIndexed) : m.get? v = none ↔ v ∉ m.vars := by
  rw [Option.eq_none_iff_forall_ne_some]
  constructor
  · intro hnone hmem
    obtain ⟨i, hi⟩ := exists_isLastAt hmem
    have hmem := hi.1
    simp only [vars, List.getElem?_map, Option.map_eq_some_iff] at hmem
    obtain ⟨e, he, -⟩ := hmem
    exact hnone e.clause (h.get?_eq_some_iff.2 ⟨i, e, he, hi, rfl⟩)
  · intro hv c hc
    obtain ⟨i, e, -, hi, -⟩ := h.get?_eq_some_iff.1 hc
    exact hv hi.mem

theorem get?_eq_map_entryOf? (m : IndexedLegend) (v : Variable) :
    m.get? v = (m.entryOf? v).map fun place => place.2.clause := by
  unfold get? entryOf?
  cases m.byVariable[v]? with
  | none => rfl
  | some i => simp [Function.comp_def]

theorem IsIndexed.entryOf?_eq_none_iff (h : m.IsIndexed) : m.entryOf? v = none ↔ v ∉ m.vars := by
  rw [← h.get?_eq_none_iff, get?_eq_map_entryOf?, Option.map_eq_none_iff]

/-! ### One call -/

/-- A call on a legend in step leaves a legend in step. -/
theorem Performs.isIndexed {r : Variable × IndexedLegend × Allocator} (hr : Performs m a call r)
    (h : m.IsIndexed) : r.2.1.IsIndexed := by
  have hnew {c : Text} (hc : m.variableFor? c = none) : clauseKey c.trim ∉ m.keys := by
    rw [clauseKey_trim]
    exact h.variableFor?_eq_none_iff.1 hc
  cases hr with
  | known _ => exact h
  | drawn hc => exact h.push (hnew hc) _
  | added hc _ => exact h.push (hnew hc) _
  | rebound hc hv => exact h.rebind (h.entryOf?_eq_some_iff.1 hv).1 (hnew hc)

/-- A call leaves the variables in place, and may bring one more. -/
theorem Performs.vars_isPrefix {r : Variable × IndexedLegend × Allocator}
    (hr : Performs m a call r) (h : m.IsIndexed) : m.vars <+: r.2.1.vars := by
  cases hr with
  | known _ => exact List.prefix_rfl
  | drawn _ => simp
  | added _ _ => simp
  | rebound _ hv => simp [vars_rebind (h.entryOf?_eq_some_iff.1 hv).1]

/-! ### Calls one after the other -/

variable {calls : List (Allocator × Call)}

theorem IsIndexed.replay (h : m.IsIndexed) : (m.replay calls).2.IsIndexed := by
  induction calls generalizing m with
  | nil => exact h
  | cons call calls ih => exact ih ((performs_perform m call.1 call.2).isIndexed h)

theorem isIndexed_after (calls : List (Allocator × Call)) : (after calls).IsIndexed :=
  isIndexed_empty.replay

theorem IsIndexed.vars_isPrefix_replay (h : m.IsIndexed) : m.vars <+: (m.replay calls).2.vars := by
  induction calls generalizing m with
  | nil => exact List.prefix_rfl
  | cons call calls ih =>
    have hstep := performs_perform m call.1 call.2
    exact (hstep.vars_isPrefix h).trans (ih (hstep.isIndexed h))

theorem replay_append (m : IndexedLegend) (calls more : List (Allocator × Call)) :
    (m.replay (calls ++ more)).2 = ((m.replay calls).2.replay more).2 := by
  induction calls generalizing m with
  | nil => rfl
  | cons call calls ih => exact ih _

theorem after_append (calls more : List (Allocator × Call)) :
    after (calls ++ more) = ((after calls).replay more).2 :=
  replay_append {} calls more

/-! ### The entries tell everything -/

/-- Legends that no call and no lookup can tell apart: the entries are the same, and so are the
places that the indexes give. -/
structure Agrees (m m' : IndexedLegend) : Prop where
  /-- The entries are the same. -/
  entries_eq : m.entries = m'.entries
  /-- Variables lead to the same places. -/
  byVariable_eq : ∀ v : Variable, m.byVariable[v]? = m'.byVariable[v]?
  /-- Clauses lead to the same places. -/
  byClause_eq : ∀ k : Text, m.byClause[k]? = m'.byClause[k]?

/-- The indexes are determined by the entries. -/
theorem IsIndexed.agrees (h : m.IsIndexed) (h' : m'.IsIndexed) (heq : m.entries = m'.entries) :
    m.Agrees m' where
  entries_eq := heq
  byVariable_eq v := by
    refine Option.ext fun i => ?_
    rw [h.byVariable_iff, h'.byVariable_iff, vars, vars, heq]
  byClause_eq k := by
    refine Option.ext fun i => ?_
    rw [h.byClause_iff, h'.byClause_iff, keys, keys, heq]

theorem Agrees.variableFor?_eq (h : m.Agrees m') (c : Text) :
    m.variableFor? c = m'.variableFor? c := by
  rw [variableFor?, variableFor?, h.byClause_eq, h.entries_eq]

theorem Agrees.entryOf?_eq (h : m.Agrees m') (v : Variable) : m.entryOf? v = m'.entryOf? v := by
  rw [entryOf?, entryOf?, h.byVariable_eq, h.entries_eq]

theorem Agrees.get?_eq (h : m.Agrees m') (v : Variable) : m.get? v = m'.get? v := by
  rw [get?_eq_map_entryOf?, get?_eq_map_entryOf?, h.entryOf?_eq]

/-- A call on legends that agree has the same answer, and leaves the same entries. -/
theorem Agrees.perform_eq (h : m.Agrees m') (a : Allocator) (call : Call) :
    (m.perform a call).1 = (m'.perform a call).1 ∧
      (m.perform a call).2.1.entries = (m'.perform a call).2.1.entries ∧
      (m.perform a call).2.2 = (m'.perform a call).2.2 := by
  cases call with
  | resolve c =>
    simp only [perform, resolve, h.variableFor?_eq c]
    split <;> simp [push, h.entries_eq]
  | insert v c =>
    simp only [perform, insert, h.variableFor?_eq c, h.entryOf?_eq v]
    split
    · simp [h.entries_eq]
    · split <;> simp [push, rebind, h.entries_eq]

/-- Calls on legends in step with the same entries have the same answers. -/
theorem IsIndexed.replay_eq (h : m.IsIndexed) (h' : m'.IsIndexed) (heq : m.entries = m'.entries)
    (calls : List (Allocator × Call)) :
    (m.replay calls).1 = (m'.replay calls).1 ∧
      (m.replay calls).2.entries = (m'.replay calls).2.entries := by
  induction calls generalizing m m' with
  | nil => exact ⟨rfl, heq⟩
  | cons call calls ih =>
    obtain ⟨hvar, hentries, halloc⟩ := (h.agrees h' heq).perform_eq call.1 call.2
    obtain ⟨hanswers, hlast⟩ := ih ((performs_perform m call.1 call.2).isIndexed h)
      ((performs_perform m' call.1 call.2).isIndexed h') hentries
    refine ⟨?_, hlast⟩
    simp only [IndexedLegend.replay, hvar, halloc, hanswers]

/-! ### A legend that searches its entries -/

/-- The last entry of a variable, with what stands before and behind it. -/
theorem IsIndexed.exists_split (h : m.IsIndexed) (hv : m.entryOf? v = some (i, e)) :
    ∃ before rest, m.entries = before ++ e :: rest ∧ before.length = i ∧ e.var = v ∧
      ∀ d ∈ rest, d.var ≠ v := by
  obtain ⟨he, hplace, hlater⟩ := h.entryOf?_eq_some_iff.1 hv
  obtain ⟨hi, rfl⟩ := List.getElem?_eq_some_iff.1 he
  refine ⟨m.entries.take i, m.entries.drop (i + 1), by simp, by simp; omega, ?_, fun d hd => ?_⟩
  · simpa [vars, he] using hplace
  · obtain ⟨k, hk⟩ := List.mem_iff_getElem?.1 hd
    rw [List.getElem?_drop] at hk
    have hnot := hlater (i + 1 + k) (by omega)
    simpa [vars, hk] using hnot

theorem IsIndexed.legend_variableFor? (h : m.IsIndexed) (c : Text) :
    m.legend.variableFor? c = m.variableFor? c := by
  cases hfind : m.entries.find? fun e => clauseKey e.clause = clauseKey c with
  | none =>
    have hnone : m.variableFor? c = none := by
      refine h.variableFor?_eq_none_iff.2 fun hmem => ?_
      obtain ⟨e, he, hk⟩ := List.mem_map.1 hmem
      exact List.find?_eq_none.1 hfind e he (by simpa using hk)
    simp [Legend.variableFor?, legend, hfind, hnone]
  | some e =>
    obtain ⟨i, hi⟩ := List.mem_iff_getElem?.1 (List.mem_of_find?_eq_some hfind)
    have hk : clauseKey e.clause = clauseKey c := by simpa using List.find?_some hfind
    rw [h.variableFor?_eq_some_iff.2 ⟨i, e, hi, hk, rfl⟩]
    simp [Legend.variableFor?, legend, hfind]

theorem IsIndexed.legend_get? (h : m.IsIndexed) (v : Variable) : m.legend.get? v = m.get? v := by
  rw [get?_eq_map_entryOf?]
  cases hv : m.entryOf? v with
  | none =>
    have hfind : m.entries.reverse.find? (fun e => e.var = v) = none := by
      refine List.find?_eq_none.2 fun e he => ?_
      have := h.entryOf?_eq_none_iff.1 hv
      simp only [vars, List.mem_map, not_exists, not_and] at this
      simpa using this e (List.mem_reverse.1 he)
    simp [Legend.get?, legend, hfind]
  | some place =>
    obtain ⟨i, e⟩ := place
    obtain ⟨before, rest, hsplit, -, hvar, hrest⟩ := h.exists_split hv
    have hfind : rest.reverse.find? (fun e => e.var = v) = none :=
      List.find?_eq_none.2 fun d hd => by simpa using hrest d (List.mem_reverse.1 hd)
    simp [Legend.get?, legend, hsplit, List.find?_append, hfind, hvar]

theorem rebindFirst_append {before rest : List Legend.Entry} (hbefore : ∀ d ∈ before, d.var ≠ v)
    (he : e.var = v) :
    Legend.rebindFirst v c (before ++ e :: rest) = before ++ ⟨v, c⟩ :: rest := by
  induction before with
  | nil => simp [Legend.rebindFirst, he]
  | cons d before ih =>
    obtain ⟨hd, hbefore⟩ := List.forall_mem_cons.1 hbefore
    simp [Legend.rebindFirst, hd, ih hbefore]

theorem IsIndexed.legend_rebind (h : m.IsIndexed) (hv : m.entryOf? v = some (i, e)) (c : Text) :
    m.legend.rebind v c = (m.rebind i e c).legend := by
  obtain ⟨before, rest, hsplit, rfl, rfl, hrest⟩ := h.exists_split hv
  have hback : ∀ d ∈ rest.reverse, d.var ≠ e.var := fun d hd => hrest d (List.mem_reverse.1 hd)
  simp [Legend.rebind, legend, IndexedLegend.rebind, hsplit, rebindFirst_append hback rfl]

/-- A call on the entries alone ends as the call on the indexed legend. -/
theorem IsIndexed.legend_perform (h : m.IsIndexed) (a : Allocator) (call : Call) :
    m.legend.perform a call =
      ((m.perform a call).1, (m.perform a call).2.1.legend, (m.perform a call).2.2) := by
  have hget (v : Variable) : m.legend.get? v = (m.entryOf? v).map fun place => place.2.clause := by
    rw [h.legend_get?, get?_eq_map_entryOf?]
  have hpush (v : Variable) (c : Text) : m.legend.push v c = (m.push v c).legend := rfl
  cases call with
  | resolve c =>
    simp only [Legend.perform, Legend.resolve, perform, resolve, h.legend_variableFor?]
    cases m.variableFor? c with
    | some v => rfl
    | none => simp [hpush]
  | insert v c =>
    simp only [Legend.perform, Legend.insert, perform, insert, h.legend_variableFor?, hget]
    cases m.variableFor? c with
    | some w => rfl
    | none =>
      cases hv : m.entryOf? v with
      | none => simp [hpush]
      | some place => simp [h.legend_rebind hv]

/-- Calls on the entries alone leave the entries of the indexed legend. -/
theorem legend_after (calls : List (Allocator × Call)) :
    (after calls).legend =
      calls.foldl (fun m call => (m.perform call.1 call.2).2.1) ({} : Legend) := by
  have hrun {m : IndexedLegend} (h : m.IsIndexed) : (m.replay calls).2.legend =
      calls.foldl (fun m call => (m.perform call.1 call.2).2.1) m.legend := by
    induction calls generalizing m with
    | nil => rfl
    | cons call calls ih =>
      rw [List.foldl_cons, h.legend_perform]
      exact ih ((performs_perform m call.1 call.2).isIndexed h)
  exact hrun isIndexed_empty

/-! ### Every history -/

/-- What lookups answer, told by the entries.  Clauses are the same if they agree without the white space at
their ends and in lower case. -/
structure IsExact (m : IndexedLegend) : Prop where
  /-- No two entries have the same clause. -/
  clauses_differ : m.entries.Pairwise fun d e => d.clause.trim.lower ≠ e.clause.trim.lower
  /-- A clause has the variable of the entry with that clause. -/
  variableFor?_eq_some_iff : ∀ (c : Text) (v : Variable), m.variableFor? c = some v ↔
    ∃ (i : Nat) (e : Legend.Entry),
      m.entries[i]? = some e ∧ e.clause.trim.lower = c.trim.lower ∧ e.var = v
  /-- It has none if there is no such entry. -/
  variableFor?_eq_none_iff : ∀ c : Text,
    m.variableFor? c = none ↔ ∀ e ∈ m.entries, e.clause.trim.lower ≠ c.trim.lower
  /-- A variable stands for the clause of its last entry. -/
  get?_eq_some_iff : ∀ (v : Variable) (c : Text), m.get? v = some c ↔
    ∃ (i : Nat) (e : Legend.Entry), m.entries[i]? = some e ∧ e.var = v ∧ e.clause = c ∧
      ∀ j d, i < j → m.entries[j]? = some d → d.var ≠ v
  /-- It stands for nothing if it has no entry. -/
  get?_eq_none_iff : ∀ v : Variable, m.get? v = none ↔ ∀ e ∈ m.entries, e.var ≠ v

theorem isLastAt_vars_iff :
    IsLastAt m.vars v i ↔ (∃ e, m.entries[i]? = some e ∧ e.var = v) ∧
      ∀ j d, i < j → m.entries[j]? = some d → d.var ≠ v := by
  simp only [IsLastAt, vars, List.getElem?_map, Option.map_eq_some_iff, ne_eq, not_exists, not_and]
  exact and_congr_right fun _ => ⟨fun h j d hj => h j hj d, fun h j hj d => h j d hj⟩

theorem IsIndexed.isExact (h : m.IsIndexed) : m.IsExact where
  clauses_differ := by
    have hnodup : m.keys.Nodup := List.nodup_iff_getElem?_ne_getElem?.2 fun i j hij hj hsame => by
      have hplace : m.keys[j]? = some m.keys[j] := List.getElem?_eq_getElem hj
      exact absurd (h.place_unique (hsame.trans hplace) hplace) (by omega)
    exact List.pairwise_map.1 hnodup
  variableFor?_eq_some_iff _ _ := h.variableFor?_eq_some_iff
  variableFor?_eq_none_iff c := by
    rw [h.variableFor?_eq_none_iff]
    simp [keys, clauseKey]
  get?_eq_some_iff v c := by
    rw [h.get?_eq_some_iff]
    simp only [isLastAt_vars_iff]
    constructor
    · rintro ⟨i, e, he, ⟨⟨e', he', hv⟩, hlater⟩, hc⟩
      rw [he, Option.some.injEq] at he'
      subst he'
      exact ⟨i, e, he, hv, hc, hlater⟩
    · rintro ⟨i, e, he, hv, hc, hlater⟩
      exact ⟨i, e, he, ⟨⟨e, he, hv⟩, hlater⟩, hc⟩
  get?_eq_none_iff v := by
    rw [h.get?_eq_none_iff]
    simp [vars]

/-- Whether two legends have the same entries and answer every lookup alike. -/
def LookAlike (m m' : IndexedLegend) : Prop :=
  m.entries = m'.entries ∧ (∀ v, m.get? v = m'.get? v) ∧ ∀ c, m.variableFor? c = m'.variableFor? c

theorem Agrees.lookAlike (h : m.Agrees m') : m.LookAlike m' :=
  ⟨h.entries_eq, h.get?_eq, h.variableFor?_eq⟩

/-- After any calls the indexes hold the places of the entries, so that lookups are told by the
entries; further calls leave each entry its place and its variable; and legends with the same entries
cannot be told apart, whatever calls have led to them and whatever calls follow. -/
theorem isExact_after (calls : List (Allocator × Call)) :
    (after calls).IsIndexed ∧ (after calls).IsExact ∧
      (∀ more, (after calls).vars <+: (after (calls ++ more)).vars ∧
        (after calls).size ≤ (after (calls ++ more)).size) ∧
      ∀ other, (after other).entries = (after calls).entries → ∀ later,
        ((after other).replay later).1 = ((after calls).replay later).1 ∧
          ((after other).replay later).2.LookAlike ((after calls).replay later).2 := by
  have h := isIndexed_after calls
  refine ⟨h, h.isExact, fun more => ?_, fun other heq later => ?_⟩
  · have hvars : (after calls).vars <+: (after (calls ++ more)).vars := by
      rw [after_append]
      exact h.vars_isPrefix_replay
    refine ⟨hvars, ?_⟩
    simpa [vars, size] using hvars.length_le
  · have h' := isIndexed_after other
    obtain ⟨hanswers, hentries⟩ := h'.replay_eq h heq later
    exact ⟨hanswers, (h'.replay.agrees h.replay hentries).lookAlike⟩

/-- A clause that has been replaced leaves no trace. -/
theorem exists_lookAlike_rebound :
    let q := Variable.nth 1
    let rebound := after [({}, .insert q "neva".toList), ({}, .insert q "chove".toList)]
    let plain := after [({}, .insert q "chove".toList)]
    let later := [({}, Call.resolve "NEVA".toList)]
    rebound.entries = plain.entries ∧ (rebound.replay later).1 = (plain.replay later).1 ∧
      (rebound.replay later).2.LookAlike (plain.replay later).2 := by
  have hentries : (after [({}, .insert (Variable.nth 1) "neva".toList),
      ({}, .insert (Variable.nth 1) "chove".toList)]).legend =
      (after [({}, .insert (Variable.nth 1) "chove".toList)]).legend := by
    rw [legend_after, legend_after]
    decide +kernel
  have hsame := congrArg Legend.entries hentries
  exact ⟨hsame, (isExact_after _).2.2.2 _ hsame _⟩

end IndexedLegend

end Sentential
