import Mathlib.Data.List.Induction
import Mathlib.Logic.Function.Iterate
import Mathlib.Tactic.Common
import Sentential.Proofs.Freshness
import Sentential.Proofs.Naming

/-!
# Clauses are named in the order of their discovery

A draft names clauses that are resolved one after the other.  With its indexes it answers as a draft that
searches its entries (`resolveAll_plain`), and one step of the latter appends one clause
(`resolve_draftOf`).  So all that a draft has been through is told by the list of the clauses
(`IsDiscovery`): the variable of a clause counts the different clauses that were found before it, and the
entries list the different clauses, each where it was found first.
-/

namespace Sentential

variable {α β σ κ : Type}

/-! ### One step after the other -/

/-- Steps of a state, one for each member of a list: the answers, and the state afterwards. -/
def steps (step : σ → α → β × σ) (s : σ) : List α → List β × σ
  | [] => ([], s)
  | a :: rest =>
    let r := step s a
    let t := steps step r.2 rest
    (r.1 :: t.1, t.2)

/-- Where a state tells the members that have led to it, the answers are told by the members, provided
that the answer for a member stays the same when further members follow. -/
theorem steps_eq_map {step : σ → α → β × σ} {state : List α → σ} {value : List α → α → β}
    (hstep : ∀ as a, step (state as) a = (value (as ++ [a]) a, state (as ++ [a])))
    (hsettled : ∀ as bs a, a ∈ as → value (as ++ bs) a = value as a) (as bs : List α) :
    steps step (state as) bs = (bs.map (value (as ++ bs)), state (as ++ bs)) := by
  induction bs generalizing as with
  | nil => simp [steps]
  | cons b bs ih =>
    have happend : as ++ [b] ++ bs = as ++ b :: bs := by simp
    have hvalue : value (as ++ b :: bs) b = value (as ++ [b]) b := by
      rw [← happend]
      exact hsettled _ _ _ (by simp)
    simp only [steps, hstep, ih (as ++ [b]), happend, List.map_cons, hvalue]

/-! ### First occurrences -/

/-- A member that is kept is the first one with its key. -/
theorem find?_of_mem_firstsBy [DecidableEq κ] {key : α → κ} {as : List α} {a : α}
    (h : a ∈ firstsBy key as) : as.find? (fun b => key b = key a) = some a := by
  induction as with
  | nil => cases h
  | cons b as ih =>
    obtain rfl | h := List.mem_cons.1 h
    · simp
    · obtain ⟨hmem, hne⟩ := List.mem_filter.1 h
      have hne : key b ≠ key a := fun heq => by simp [heq] at hne
      simpa [hne] using ih hmem

/-- The keys of the members that are kept are the different keys. -/
theorem map_firstsBy [DecidableEq κ] [BEq κ] [LawfulBEq κ] (key : α → κ) (as : List α) :
    (firstsBy key as).map key = (as.map key).eraseDups := by
  induction as using List.reverseRecOn with
  | nil => rfl
  | append_singleton as a ih =>
    rw [firstsBy_concat, List.map_append, ih, List.map_append, List.map_singleton,
      List.eraseDups_append]
    congr 1
    by_cases ha : key a ∈ as.map key
    · rw [if_pos ha, List.removeAll, List.filter_cons_of_neg (by simpa using ha)]
      rfl
    · rw [if_neg ha, List.removeAll, List.filter_cons_of_pos (by simpa using ha)]
      rfl

/-! ### The variables in turn -/

/-- A fresh allocator from which `n` variables have been drawn. -/
def Allocator.after (n : Nat) : Allocator :=
  (fun a => a.next.2)^[n] {}

theorem Allocator.after_eq (n : Nat) : Allocator.after n = ⟨n⟩ := by
  induction n with
  | zero => rfl
  | succ n ih =>
    rw [after, Function.iterate_succ_apply', ← after, ih]
    rfl

/-- A clause gets the variable that is drawn after those of the different clauses before its own. -/
theorem naming_eq_next (cs : List Text) (c : Text) :
    naming cs c = (Allocator.after
      ((cs.map fun c => c.trim.lower).eraseDups.idxOf c.trim.lower)).next.1 := by
  change naming cs c =
    (Allocator.after ((cs.map clauseKey).eraseDups.idxOf (clauseKey c))).next.1
  rw [Allocator.after_eq, ← map_firstsBy]
  rfl

/-- The variable of a clause is settled at the place where it stands. -/
theorem naming_take {cs : List Text} {i : Nat} {c : Text} (hc : cs[i]? = some c) :
    naming (cs.take (i + 1)) c = naming cs c := by
  have hmem : c ∈ cs.take (i + 1) :=
    List.mem_of_getElem? (i := i) (by rw [List.getElem?_take_of_lt (Nat.lt_succ_self i), hc])
  rw [← naming_append hmem (cs.drop (i + 1)), List.take_append_drop]

theorem map_lower_entriesFrom (n : Nat) (cs : List Text) :
    (entriesFrom n cs).map (fun e => e.clause.trim.lower) = cs.map fun c => c.trim.lower := by
  have hforms := congrArg (List.map fun c => c.trim.lower) (clause_entriesFrom n cs)
  rw [List.map_map, List.map_map] at hforms
  exact hforms.trans (List.map_congr_left fun c _ => congrArg Text.lower (Text.trim_trim c))

theorem var_of_getElem?_entriesFrom {cs : List Text} {r : Nat} {e : Legend.Entry}
    (he : (entriesFrom 0 cs)[r]? = some e) : e.var = Variable.nth r := by
  have hlt : r < cs.length := by
    rw [← length_entriesFrom 0]
    exact (List.getElem?_eq_some_iff.1 he).1
  simpa [he, hlt] using congrArg (·[r]?) (var_entriesFrom 0 cs)

namespace IndexedLegend.Draft

/-! ### A draft and its indexes -/

/-- Resolves clauses one after the other, beginning with an empty draft: the variables that are answered,
and the draft afterwards. -/
def resolveAll (cs : List Text) : List Variable × Draft :=
  steps (fun d c => d.perform (.resolve c)) {} cs

/-- A draft without its indexes. -/
def plain (d : Draft) : Legend.Draft :=
  ⟨d.legend.legend, d.fresh⟩

theorem resolve_plain {d : Draft} (h : d.legend.IsIndexed) (c : Text) :
    d.plain.resolve c = ((d.perform (.resolve c)).1, (d.perform (.resolve c)).2.plain) := by
  have hcall : d.legend.legend.resolve d.fresh c = _ := h.legend_perform d.fresh (.resolve c)
  rw [Legend.Draft.resolve, plain, hcall]
  rfl

/-- The indexes stay in step with the entries, and without them the answers and the entries are the same. -/
theorem resolveAll_plain (cs : List Text) :
    (resolveAll cs).2.legend.IsIndexed ∧
      steps Legend.Draft.resolve {} cs = ((resolveAll cs).1, (resolveAll cs).2.plain) := by
  have hrun {d : Draft} (h : d.legend.IsIndexed) :
      let r := steps (fun d c => Draft.perform d (.resolve c)) d cs
      r.2.legend.IsIndexed ∧ steps Legend.Draft.resolve d.plain cs = (r.1, r.2.plain) := by
    -- at each step, the indexes that are in step let the two drafts answer alike
    induction cs generalizing d with
    | nil => exact ⟨h, rfl⟩
    | cons c cs ih =>
      obtain ⟨hlast, hrest⟩ := ih ((performs_perform d (.resolve c)).isIndexed h)
      refine ⟨hlast, ?_⟩
      simp only [steps, resolve_plain h, hrest]
  exact hrun isIndexed_empty

/-- The answers and the draft are those that the list of the clauses tells. -/
theorem resolveAll_eq (cs : List Text) :
    (resolveAll cs).1 = cs.map (naming cs) ∧ (resolveAll cs).2.plain = draftOf cs := by
  have hrun : steps Legend.Draft.resolve (draftOf []) cs =
      (cs.map (naming ([] ++ cs)), draftOf ([] ++ cs)) :=
    steps_eq_map resolve_draftOf (fun _ ds _ h => naming_append h ds) [] cs
  have hstart : draftOf [] = {} := rfl
  rw [hstart, List.nil_append, (resolveAll_plain cs).2] at hrun
  exact Prod.mk.inj hrun

/-! ### What is told by the clauses -/

/-- What the clauses `cs` tell of the variables `vs` that are answered for them, and of the draft
afterwards.  The form of a clause is the clause without the white space at its ends, in lower case. -/
structure IsDiscovery (cs : List Text) (vs : List Variable) (d : Draft) : Prop where
  /-- Each clause is answered. -/
  length_eq : vs.length = cs.length
  /-- A clause gets the variable that is drawn after as many as there are different forms before its own,
  in the order in which the forms turn up. -/
  answer : ∀ (i : Nat) (c : Text), cs[i]? = some c → vs[i]? = some (Allocator.after
    (((cs.take (i + 1)).map fun c => c.trim.lower).eraseDups.idxOf c.trim.lower)).next.1
  /-- Two clauses get the same variable exactly if they have the same form. -/
  answer_eq_iff : ∀ (i j : Nat) (b c : Text), cs[i]? = some b → cs[j]? = some c →
    (vs[i]? = vs[j]? ↔ b.trim.lower = c.trim.lower)
  /-- The entries list the different forms, in the order in which they turn up. -/
  forms_eq : d.legend.entries.map (fun e => e.clause.trim.lower) =
    (cs.map fun c => c.trim.lower).eraseDups
  /-- An entry has the variable of its place, and the clause as it was spelled first, without white space
  at its ends. -/
  entry : ∀ (r : Nat) (e : Legend.Entry), d.legend.entries[r]? = some e →
    e.var = (Allocator.after r).next.1 ∧
      (cs.find? fun c => c.trim.lower = e.clause.trim.lower).map Text.trim = some e.clause
  /-- As many variables have been drawn as there are entries. -/
  fresh_eq : d.fresh = Allocator.after d.legend.size
  /-- A variable that is answered stands for its clause. -/
  stands_for : ∀ (i : Nat) (c : Text) (v : Variable), cs[i]? = some c → vs[i]? = some v →
    ∃ b, d.legend.get? v = some b ∧ b.trim.lower = c.trim.lower

theorem isDiscovery_of_plain {cs : List Text} {d : Draft} (hindexed : d.legend.IsIndexed)
    (hplain : d.plain = draftOf cs) : IsDiscovery cs (cs.map (naming cs)) d := by
  have hlegend : d.legend.legend = ⟨entriesFrom 0 (clausesOf cs)⟩ := congrArg (·.legend) hplain
  have hentries : d.legend.entries = entriesFrom 0 (clausesOf cs) := congrArg (·.entries) hlegend
  have hfresh : d.fresh = ⟨(clausesOf cs).length⟩ := congrArg (·.fresh) hplain
  constructor
  case length_eq => exact List.length_map _
  case answer =>
    intro i c hc
    rw [List.getElem?_map, hc, Option.map_some, ← naming_eq_next, naming_take hc]
  case answer_eq_iff =>
    intro i j b c hb hc
    rw [List.getElem?_map, List.getElem?_map, hb, hc, Option.map_some, Option.map_some,
      Option.some.injEq]
    exact naming_eq_iff (List.mem_of_getElem? hb)
  case forms_eq =>
    rw [hentries, map_lower_entriesFrom]
    exact map_firstsBy clauseKey cs
  case entry =>
    intro r e he
    rw [hentries] at he
    refine ⟨by rw [var_of_getElem?_entriesFrom he, Allocator.after_eq, Allocator.next], ?_⟩
    rw [entriesFrom_clausesOf] at he
    obtain ⟨c, hc, rfl⟩ := List.mem_map.1 (List.mem_of_getElem? he)
    have hfirst : cs.find? (fun b => b.trim.lower = c.trim.lower) = some c := find?_of_mem_firstsBy hc
    simp only [Text.trim_trim, hfirst, Option.map_some]
  case fresh_eq =>
    rw [hfresh, Allocator.after_eq, size, hentries, length_entriesFrom]
  case stands_for =>
    intro i c v hc hv
    rw [List.getElem?_map, hc, Option.map_some, Option.some.injEq] at hv
    obtain ⟨b, hkey, hget⟩ := exists_get?_naming (List.mem_of_getElem? hc)
    rw [← hlegend, hindexed.legend_get?, hv] at hget
    exact ⟨b.trim, hget, (clauseKey_trim b).trans hkey⟩

/-- Clauses that are resolved one after the other are named in the order of their discovery and by nothing
else, and a draft that searches its entries names them in the same way. -/
theorem isDiscovery_resolveAll (cs : List Text) :
    let r := resolveAll cs
    IsDiscovery cs r.1 r.2 ∧
      steps Legend.Draft.resolve {} cs = (r.1, ⟨r.2.legend.legend, r.2.fresh⟩) := by
  intro r
  obtain ⟨hindexed, hsearched⟩ := resolveAll_plain cs
  obtain ⟨hanswers, hplain⟩ := resolveAll_eq cs
  have hdiscovery := isDiscovery_of_plain hindexed hplain
  rw [← hanswers] at hdiscovery
  exact ⟨hdiscovery, hsearched⟩

/-- Clauses that turn up again with other white space and in other case keep their variables, the legend has
them as they were spelled first, and the next new one gets the next variable. -/
theorem resolveAll_spelled_again :
    let cs := [" Chove".toList, "NEVA".toList, "chove\t".toList, "CHOVE".toList, "neva ".toList,
      "venta".toList]
    let r := resolveAll cs
    IsDiscovery cs r.1 r.2 ∧ r.1 = [0, 1, 0, 0, 1, 2].map Variable.nth ∧
      r.2.legend.entries = [⟨Variable.nth 0, "Chove".toList⟩, ⟨Variable.nth 1, "NEVA".toList⟩,
        ⟨Variable.nth 2, "venta".toList⟩] ∧
      r.2.fresh = Allocator.after 3 ∧
      ∃ b, r.2.legend.get? (Variable.nth 1) = some b ∧ b.trim.lower = "neva".toList := by
  intro cs r
  obtain ⟨hdiscovery, hsearched⟩ := isDiscovery_resolveAll cs
  have hrun : steps Legend.Draft.resolve {} cs = ([0, 1, 0, 0, 1, 2].map Variable.nth,
      ⟨⟨[⟨Variable.nth 0, "Chove".toList⟩, ⟨Variable.nth 1, "NEVA".toList⟩,
        ⟨Variable.nth 2, "venta".toList⟩]⟩, ⟨3⟩⟩) := by
    decide +kernel
  obtain ⟨hanswers, hdraft⟩ := Prod.mk.inj (hsearched.symm.trans hrun)
  have hentries := congrArg (fun d => d.legend.entries) hdraft
  have hsize : r.2.legend.size = 3 := congrArg List.length hentries
  refine ⟨hdiscovery, hanswers, hentries, hsize ▸ hdiscovery.fresh_eq, ?_⟩
  obtain ⟨b, hget, hform⟩ := hdiscovery.stands_for 4 "neva ".toList (Variable.nth 1) rfl (by
    rw [hanswers]
    rfl)
  exact ⟨b, hget, hform.trans (by decide +kernel)⟩

end IndexedLegend.Draft

end Sentential
