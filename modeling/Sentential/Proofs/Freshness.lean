import Mathlib.Data.List.Count
import Sentential.Proofs.Indexes

/-!
# When a variable that is drawn is fresh

An allocator never hands out a variable twice, but it does not know of the variables that came into a
legend by `insert`.  A draft whose allocator draws such a variable ends with two entries for it, and
from then on the clause of the older entry is not what its variable stands for.
`nodup_vars_after_iff` says that nothing else can go wrong: the variables of the entries differ
exactly if no call draws a variable that has an entry (`DrawsBound`), and exactly then every further
call answers a variable that stands for its clause (`AnswersBack`).
-/

namespace Sentential.IndexedLegend

open Legend (Call)

variable {m : IndexedLegend} {v : Variable} {c : Text} {e : Legend.Entry} {i : Nat}

/-! ### Variables with one entry -/

/-- The variables of the entries differ if each entry can be found by its variable. -/
theorem IsIndexed.nodup_vars_iff (h : m.IsIndexed) :
    m.vars.Nodup ↔ ∀ e ∈ m.entries, m.get? e.var = some e.clause := by
  constructor
  · intro hnodup e he
    obtain ⟨i, hi⟩ := List.mem_iff_getElem?.1 he
    have hplace : m.vars[i]? = some e.var := by simp [vars, hi]
    refine h.get?_eq_some_iff.2 ⟨i, e, hi, ⟨hplace, fun j hj hsame => ?_⟩, rfl⟩
    obtain ⟨hlt, hget⟩ := List.getElem?_eq_some_iff.1 hsame
    exact List.nodup_iff_getElem?_ne_getElem?.1 hnodup i j hj hlt (hplace.trans hsame.symm)
  · intro hfound
    refine List.nodup_iff_getElem?_ne_getElem?.2 fun i j hij hj hsame => ?_
    have hj' : j < m.entries.length := by simpa [vars] using hj
    have hvar : m.entries[i].var = m.entries[j].var := by
      simpa [vars, hj', hij.trans hj'] using hsame
    have hclause : m.entries[i].clause = m.entries[j].clause := by
      have hi := hfound _ (List.getElem_mem (hij.trans hj'))
      rw [hvar, hfound _ (List.getElem_mem hj')] at hi
      exact (Option.some.inj hi).symm
    have hplace : i = j := h.place_unique (k := clauseKey m.entries[j].clause)
      (by simp [keys, hij.trans hj', hclause]) (by simp [keys, hj'])
    omega

theorem get?_push_self (m : IndexedLegend) (v : Variable) (c : Text) :
    (m.push v c).get? v = some c := by
  simp [get?, push]

theorem get?_rebind_self (hv : m.entryOf? v = some (i, e)) (c : Text) :
    (m.rebind i e c).get? v = some c := by
  simp only [entryOf?, Option.bind_eq_some_iff, Option.map_eq_some_iff, Prod.mk.injEq] at hv
  obtain ⟨j, hj, e', he, rfl, rfl⟩ := hv
  have hlt := (List.getElem?_eq_some_iff.1 he).1
  simp [get?, rebind, hj, hlt]

namespace Draft

/-! ### One call -/

/-- Whether a call draws a variable that has an entry already. -/
def DrawsBound (d : Draft) : Call → Prop
  | .resolve c => d.legend.variableFor? c = none ∧ d.fresh.next.1 ∈ d.legend.vars
  | .insert _ _ => False

/-- Whether the variable that a call answers stands for the clause of the call afterwards, up to white space
at its ends and case. -/
def AnswersBack (d : Draft) (call : Call) : Prop :=
  ∃ c, (d.perform call).2.legend.get? (d.perform call).1 = some c ∧
    c.trim.lower = call.clause.trim.lower

variable {d : Draft} {call : Call}

theorem performs_perform (d : Draft) (call : Call) :
    Performs d.legend d.fresh call
      ((d.perform call).1, (d.perform call).2.legend, (d.perform call).2.fresh) :=
  IndexedLegend.performs_perform d.legend d.fresh call

/-- A call answers back unless its clause has an entry that its variable no longer leads to. -/
theorem answersBack_iff (h : d.legend.IsIndexed) :
    d.AnswersBack call ↔ ∀ e ∈ d.legend.entries, clauseKey e.clause = clauseKey call.clause →
      d.legend.get? e.var = some e.clause := by
  have hnew {c : Text} (hc : d.legend.variableFor? c = none) (e : Legend.Entry)
      (he : e ∈ d.legend.entries) : clauseKey e.clause ≠ clauseKey c := fun hk =>
    h.variableFor?_eq_none_iff.1 hc (List.mem_map.2 ⟨e, he, hk⟩)
  have hcall := performs_perform d call
  unfold AnswersBack
  generalize (d.perform call).1 = v, (d.perform call).2.legend = m',
    (d.perform call).2.fresh = a' at hcall ⊢
  cases hcall with
  | known hv =>
    obtain ⟨i, e, he, hk, rfl⟩ := h.variableFor?_eq_some_iff.1 hv
    constructor
    · rintro ⟨c, hget, hc⟩ e' he' hk'
      obtain ⟨i', hi'⟩ := List.mem_iff_getElem?.1 he'
      obtain ⟨j, e'', hj, hlast, rfl⟩ := h.get?_eq_some_iff.1 hget
      -- all three entries have the key of the clause, so they are one
      have hplace {i : Nat} {e : Legend.Entry} (he : d.legend.entries[i]? = some e)
          (hk : clauseKey e.clause = clauseKey call.clause) :
          d.legend.keys[i]? = some (clauseKey call.clause) := by simp [keys, he, hk]
      obtain rfl := h.place_unique (hplace he hk) (hplace hi' hk')
      obtain rfl := h.place_unique (hplace he hk) (hplace hj hc)
      rw [he, Option.some.injEq] at hi' hj
      rw [← hi', hget, ← hj]
    · intro hall
      exact ⟨e.clause, hall e (List.mem_of_getElem? he) hk, hk⟩
  | drawn hc =>
    exact ⟨fun _ e he hk => absurd hk (hnew hc e he), fun _ =>
      ⟨_, get?_push_self .., clauseKey_trim _⟩⟩
  | added hc _ =>
    exact ⟨fun _ e he hk => absurd hk (hnew hc e he), fun _ =>
      ⟨_, get?_push_self .., clauseKey_trim _⟩⟩
  | rebound hc hv =>
    exact ⟨fun _ e he hk => absurd hk (hnew hc e he), fun _ =>
      ⟨_, get?_rebind_self hv _, clauseKey_trim _⟩⟩

/-- A call keeps the variables different unless it draws one that has an entry. -/
theorem nodup_vars_perform_iff (h : d.legend.IsIndexed) :
    (d.perform call).2.legend.vars.Nodup ↔ d.legend.vars.Nodup ∧ ¬ d.DrawsBound call := by
  have hconcat (v : Variable) :
      (d.legend.vars ++ [v]).Nodup ↔ d.legend.vars.Nodup ∧ v ∉ d.legend.vars := by
    rw [List.nodup_append_comm, List.singleton_append, List.nodup_cons, and_comm]
  have hcall := performs_perform d call
  generalize (d.perform call).1 = v, (d.perform call).2.legend = m',
    (d.perform call).2.fresh = a' at hcall ⊢
  cases hcall with
  | known hv =>
    have hnot : ¬ d.DrawsBound call := by
      cases call with
      | resolve c => exact fun hdraws => by simp [hdraws.1, Call.clause] at hv
      | insert w c => exact id
    simp [hnot]
  | drawn hc => rw [vars_push, hconcat, DrawsBound]; simp [hc]
  | added _ hv => rw [vars_push, hconcat, DrawsBound]; simp [h.entryOf?_eq_none_iff.1 hv]
  | rebound _ hv => rw [vars_rebind (h.entryOf?_eq_some_iff.1 hv).1, DrawsBound]; simp

/-! ### Every history -/

theorem after_concat (calls : List Call) (call : Call) :
    after (calls ++ [call]) = ((after calls).perform call).2 := by
  simp [after]

theorem isIndexed_after (calls : List Call) : (after calls).legend.IsIndexed := by
  induction calls using List.reverseRecOn with
  | nil => exact isIndexed_empty
  | append_singleton calls call ih =>
    rw [after_concat]
    exact (performs_perform (after calls) call).isIndexed ih

/-- Where the variables of a draft come from after `calls`, when `taken` have been drawn: each was
drawn or given, one that is still to be drawn has at most one entry, and only one that was given can
have two. -/
structure Origin (calls : List Call) (vars : List Variable) (taken : Nat) : Prop where
  /-- A variable was drawn from the allocator or given by an `insert`. -/
  drawn_or_given : ∀ v ∈ vars, (∃ n < taken, v = Variable.nth n) ∨ ∃ c, .insert v c ∈ calls
  /-- A variable that has not been drawn has at most one entry. -/
  count_nth_le_one : ∀ n, taken ≤ n → vars.count (Variable.nth n) ≤ 1
  /-- No variable has more than two entries. -/
  count_le_two : ∀ v, vars.count v ≤ 2
  /-- A variable with two entries was given by an `insert`. -/
  given_of_count_eq_two : ∀ v, vars.count v = 2 → ∃ c, .insert v c ∈ calls

section Origin

variable {calls more : List Call} {vars : List Variable} {taken : Nat}

/-- A variable that has an entry although it has not been drawn was given. -/
theorem Origin.given_of_mem (h : Origin calls vars taken) (hmem : Variable.nth taken ∈ vars) :
    ∃ c, .insert (Variable.nth taken) c ∈ calls := by
  refine (h.drawn_or_given _ hmem).resolve_left ?_
  rintro ⟨n, hn, hsame⟩
  exact absurd (nth_injective hsame) (by omega)

theorem Origin.mono (h : Origin calls vars taken) (hsub : calls ⊆ more) :
    Origin more vars taken where
  drawn_or_given v hv := (h.drawn_or_given v hv).imp_right fun ⟨c, hc⟩ => ⟨c, hsub hc⟩
  count_nth_le_one := h.count_nth_le_one
  count_le_two := h.count_le_two
  given_of_count_eq_two v hv := (h.given_of_count_eq_two v hv).imp fun _ hc => hsub hc

/-- The next variable is drawn for a new entry. -/
theorem Origin.draw (h : Origin calls vars taken) :
    Origin calls (vars ++ [Variable.nth taken]) (taken + 1) := by
  have hcount (v : Variable) : (vars ++ [Variable.nth taken]).count v =
      vars.count v + if Variable.nth taken = v then 1 else 0 := by
    simp [List.count_append, List.count_singleton]
  have hdrawn := h.count_nth_le_one taken (Nat.le_refl _)
  constructor
  case drawn_or_given =>
    intro v hv
    rcases List.mem_append.1 hv with hv | hv
    · exact (h.drawn_or_given v hv).imp_left fun ⟨n, hn, hv⟩ => ⟨n, by omega, hv⟩
    · exact .inl ⟨taken, by omega, List.mem_singleton.1 hv⟩
  case count_nth_le_one =>
    intro n hn
    have hne : Variable.nth taken ≠ Variable.nth n := nth_injective.ne (by omega)
    have := h.count_nth_le_one n (by omega)
    rw [hcount, if_neg hne]
    omega
  case count_le_two =>
    intro v
    have := h.count_le_two v
    rw [hcount]
    split
    · rename_i hv
      subst hv
      omega
    · omega
  case given_of_count_eq_two =>
    intro v hv
    rw [hcount] at hv
    split at hv
    · rename_i hsame
      subst hsame
      exact h.given_of_mem (List.one_le_count_iff.1 (by omega))
    · exact h.given_of_count_eq_two v (by omega)

/-- A variable without an entry is given one. -/
theorem Origin.give (h : Origin calls vars taken) {v : Variable} (hv : v ∉ vars) {c : Text}
    (hcall : .insert v c ∈ calls) : Origin calls (vars ++ [v]) taken := by
  have hcount (w : Variable) : (vars ++ [v]).count w = if v = w then 1 else vars.count w := by
    rw [List.count_append, List.count_singleton]
    by_cases hw : v = w
    · subst hw
      simp [List.count_eq_zero.2 hv]
    · simp [hw]
  constructor
  case drawn_or_given =>
    intro w hw
    rcases List.mem_append.1 hw with hw | hw
    · exact h.drawn_or_given w hw
    · exact .inr ⟨c, by rwa [List.mem_singleton.1 hw]⟩
  case count_nth_le_one =>
    intro n hn
    rw [hcount]
    split
    · exact Nat.le_refl 1
    · exact h.count_nth_le_one n hn
  case count_le_two =>
    intro w
    rw [hcount]
    split
    · omega
    · exact h.count_le_two w
  case given_of_count_eq_two =>
    intro w hw
    rw [hcount] at hw
    split at hw
    · omega
    · exact h.given_of_count_eq_two w hw

end Origin

/-- A call keeps track of where the variables come from. -/
theorem Origin.perform {calls : List Call} (h : Origin calls d.legend.vars d.fresh.taken)
    (hindexed : d.legend.IsIndexed) (call : Call) :
    Origin (calls ++ [call]) (d.perform call).2.legend.vars (d.perform call).2.fresh.taken := by
  have hmore := h.mono (List.subset_append_left calls [call])
  have hcall := performs_perform d call
  generalize (d.perform call).1 = v, (d.perform call).2.legend = m',
    (d.perform call).2.fresh = a' at hcall ⊢
  cases hcall with
  | known _ => exact hmore
  | drawn _ =>
    rw [vars_push]
    exact hmore.draw
  | @added v c _ hv =>
    rw [vars_push]
    exact hmore.give (hindexed.entryOf?_eq_none_iff.1 hv) (c := c) (by simp)
  | rebound _ hv =>
    rw [vars_rebind (hindexed.entryOf?_eq_some_iff.1 hv).1]
    exact hmore

theorem origin_after (calls : List Call) :
    Origin calls (after calls).legend.vars (after calls).fresh.taken := by
  induction calls using List.reverseRecOn with
  | nil => constructor <;> simp [after, vars]
  | append_singleton calls call ih =>
    rw [after_concat]
    exact ih.perform (isIndexed_after calls) call

/-- No call of a history draws a variable that has an entry. -/
def NeverDrawsBound (calls : List Call) : Prop :=
  ∀ before call rest, calls = before ++ call :: rest → ¬ (after before).DrawsBound call

theorem neverDrawsBound_concat {calls : List Call} :
    NeverDrawsBound (calls ++ [call]) ↔
      NeverDrawsBound calls ∧ ¬ (after calls).DrawsBound call := by
  constructor
  · intro h
    refine ⟨fun before call' rest heq => ?_, h calls call [] rfl⟩
    exact h before call' (rest ++ [call]) (by simp [heq])
  · rintro ⟨h, hlast⟩ before call' rest heq
    rcases List.eq_nil_or_concat rest with rfl | ⟨rest, last, rfl⟩
    · obtain ⟨rfl, hcall⟩ := List.append_inj' heq rfl
      rwa [← List.singleton_inj.1 hcall]
    · rw [List.concat_eq_append, ← List.cons_append, ← List.append_assoc] at heq
      exact h before call' rest (List.append_inj' heq rfl).1

/-- After any calls that share a fresh allocator, the variables of the entries differ exactly if none
of the calls has drawn a variable with an entry, and exactly then each further call answers a
variable that stands for its clause.  A variable that is drawn has an entry only if it was given
before; and no variable has more than two entries, or two without having been given. -/
theorem nodup_vars_after_iff (calls : List Call) :
    ((after calls).legend.vars.Nodup ↔ NeverDrawsBound calls) ∧
      ((after calls).legend.vars.Nodup ↔ ∀ call, (after calls).AnswersBack call) ∧
      (∀ call, (after calls).DrawsBound call →
        ∃ c, .insert (after calls).fresh.next.1 c ∈ calls) ∧
      ∀ v, (after calls).legend.vars.count v ≤ 2 ∧
        ((after calls).legend.vars.count v = 2 → ∃ c, .insert v c ∈ calls) := by
  have hindexed := isIndexed_after calls
  have horigin := origin_after calls
  refine ⟨?_, ?_, fun call hdraws => ?_, fun v =>
    ⟨horigin.count_le_two v, horigin.given_of_count_eq_two v⟩⟩
  · induction calls using List.reverseRecOn with
    | nil => simp [after, vars, NeverDrawsBound]
    | append_singleton calls call ih =>
      rw [neverDrawsBound_concat, after_concat, nodup_vars_perform_iff (isIndexed_after calls),
        ih (isIndexed_after calls) (origin_after calls)]
  · rw [hindexed.nodup_vars_iff]
    simp only [answersBack_iff hindexed]
    exact ⟨fun h _ e he _ => h e he, fun h e he => h (.resolve e.clause) e he rfl⟩
  · cases call with
    | resolve c => exact horigin.given_of_mem hdraws.2
    | insert v c => exact hdraws.elim

/-- The first variable is given to one clause and drawn for another: it has two entries. -/
theorem not_forall_nodup_vars_after :
    ¬ ∀ calls : List Call, (after calls).legend.vars.Nodup := by
  intro h
  have hkeys : clauseKey "chove".toList ≠ clauseKey "neva".toList := by decide +kernel
  have hdraws : (after [.insert (Variable.nth 0) "chove".toList]).DrawsBound
      (.resolve "neva".toList) := by
    simpa [DrawsBound, after, perform, IndexedLegend.perform, insert, variableFor?, entryOf?, push,
      vars, Std.HashMap.getElem?_insert, Allocator.next] using hkeys
  exact (nodup_vars_after_iff _).1.1 (h [.insert (Variable.nth 0) "chove".toList,
    .resolve "neva".toList]) _ _ [] rfl hdraws

end Draft

end Sentential.IndexedLegend
