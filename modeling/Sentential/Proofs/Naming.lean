import Mathlib.Data.List.Nodup
import Mathlib.Tactic.Common
import Sentential.Formula.Symbol
import Sentential.Proofs.Flat
import Sentential.Proofs.Words
import Sentential.Sentence.Formalization

/-!
# How clauses are named

Naming the clauses of an outline walks through them from left to right with a draft of the legend.
After any number of clauses the draft holds their first occurrences, in order, under the first
variables (`draftOf`).  One step appends one clause (`resolve_draftOf`), and since earlier clauses
keep their variables, a whole outline is named by one function (`ofOutline_eq`): each clause gets the
variable whose place is that of its key among the different keys of the outline.
-/

namespace Sentential

variable {α β σ : Type}

/-! ### First occurrences -/

section FirstOccurrences

variable {κ : Type} [DecidableEq κ]

/-- The members of a list whose key is none of an earlier member. -/
def firstsBy (key : α → κ) : List α → List α
  | [] => []
  | a :: rest => a :: (firstsBy key rest).filter fun b => key b ≠ key a

theorem distinct_eq_firstsBy (vs : List Variable) : Variable.distinct vs = firstsBy id vs := by
  induction vs with
  | nil => rfl
  | cons v vs ih => simp [Variable.distinct, firstsBy, ih]

theorem mem_of_mem_firstsBy {key : α → κ} {as : List α} {a : α} (h : a ∈ firstsBy key as) :
    a ∈ as := by
  induction as with
  | nil => exact h
  | cons b as ih =>
    obtain rfl | h := List.mem_cons.1 h
    · exact List.mem_cons_self ..
    · exact List.mem_cons_of_mem b (ih (List.mem_filter.1 h).1)

/-- Every key is kept. -/
theorem key_mem_firstsBy_iff {key : α → κ} {as : List α} {k : κ} :
    k ∈ (firstsBy key as).map key ↔ k ∈ as.map key := by
  induction as with
  | nil => rfl
  | cons a as ih =>
    simp only [firstsBy, List.map_cons, List.mem_cons, ← ih]
    by_cases hk : k = key a
    · simp [hk]
    · simp only [hk, false_or, List.mem_map, List.mem_filter]
      constructor
      · rintro ⟨b, ⟨hb, -⟩, rfl⟩
        exact ⟨b, hb, rfl⟩
      · rintro ⟨b, hb, rfl⟩
        exact ⟨b, ⟨hb, by simpa using hk⟩, rfl⟩

/-- The keys that are kept are different. -/
theorem nodup_firstsBy (key : α → κ) (as : List α) : ((firstsBy key as).map key).Nodup := by
  induction as with
  | nil => exact List.nodup_nil
  | cons a as ih =>
    rw [firstsBy, List.map_cons, List.nodup_cons]
    constructor
    · simp
    · exact ih.sublist (List.filter_sublist.map key)

/-- A further member is kept if its key is new. -/
theorem firstsBy_concat (key : α → κ) (as : List α) (a : α) :
    firstsBy key (as ++ [a]) = firstsBy key as ++ if key a ∈ as.map key then [] else [a] := by
  induction as with
  | nil => simp [firstsBy]
  | cons b as ih =>
    simp only [List.cons_append, firstsBy, ih, List.filter_append, List.map_cons, List.mem_cons]
    by_cases hmem : key a ∈ as.map key
    · simp [hmem]
    · by_cases hb : key a = key b
      · simp [hb]
      · simp [hmem, hb]

/-- Further members leave the kept ones as they are. -/
theorem firstsBy_append (key : α → κ) (as bs : List α) :
    ∃ cs, firstsBy key (as ++ bs) = firstsBy key as ++ cs := by
  induction bs generalizing as with
  | nil => exact ⟨[], by simp⟩
  | cons b bs ih =>
    obtain ⟨cs, hcs⟩ := ih (as ++ [b])
    rw [List.append_assoc, List.singleton_append, firstsBy_concat, List.append_assoc] at hcs
    exact ⟨_, hcs⟩

/-- Only which keys are equal matters. -/
theorem firstsBy_congr {κ' : Type} [DecidableEq κ'] {key : α → κ} {key' : α → κ'} {as : List α}
    (h : ∀ a ∈ as, ∀ b ∈ as, key a = key b ↔ key' a = key' b) :
    firstsBy key as = firstsBy key' as := by
  induction as with
  | nil => rfl
  | cons a as ih =>
    rw [firstsBy, firstsBy, ih fun b hb c hc =>
      h b (List.mem_cons_of_mem a hb) c (List.mem_cons_of_mem a hc)]
    congr 1
    refine List.filter_congr fun b hb => ?_
    have := h b (List.mem_cons_of_mem a (mem_of_mem_firstsBy hb)) a (List.mem_cons_self ..)
    simp [this]

theorem firstsBy_map (φ : α → β) (key : β → κ) (as : List α) :
    firstsBy key (as.map φ) = (firstsBy (key ∘ φ) as).map φ := by
  induction as with
  | nil => rfl
  | cons a as ih => simp [firstsBy, ih, List.filter_map, Function.comp_def]

end FirstOccurrences

theorem mem_distinct_iff {vs : List Variable} {v : Variable} :
    v ∈ Variable.distinct vs ↔ v ∈ vs := by
  have hkeys : v ∈ (firstsBy id vs).map id ↔ v ∈ vs.map id := key_mem_firstsBy_iff
  rwa [List.map_id, List.map_id, ← distinct_eq_firstsBy] at hkeys

/-! ### Fresh variables -/

theorem suffix_injective {m n : Nat} (h : Variable.suffix m = Variable.suffix n) : m = n := by
  have hne (k : Nat) : Nat.toDigits 10 k ≠ [] := Nat.toDigits_ne_nil
  unfold Variable.suffix at h
  split at h <;> split at h
  · omega
  · exact absurd h.symm (hne n)
  · exact absurd h (hne m)
  · have := congrArg (Nat.ofDigitChars 10 · 0) h
    simpa only [Nat.ofDigitChars_ten_toDigits] using this

/-- No variable is handed out twice. -/
theorem nth_injective : Function.Injective Variable.nth := by
  intro m n h
  have hletter : Variable.alphabet.get ⟨m % 26, _⟩ = Variable.alphabet.get ⟨n % 26, _⟩ :=
    congrArg Variable.letter h
  have hrem : m % 26 = n % 26 :=
    congrArg Fin.val ((List.Nodup.get_inj_iff (by decide : Variable.alphabet.Nodup)).1 hletter)
  have hquot : m / 26 = n / 26 := suffix_injective (congrArg Variable.digits h)
  omega

/-- The first `n` variables. -/
def firstVariables (n : Nat) : List Variable :=
  (List.range n).map Variable.nth

theorem take_fresh (n : Nat) : (Allocator.take {} n).1 = firstVariables n := by
  simp [Allocator.take, firstVariables]

theorem nodup_firstVariables (n : Nat) : (firstVariables n).Nodup :=
  List.nodup_range.map nth_injective

/-! ### One step -/

/-- Clauses are compared by keys from which white space has been trimmed already. -/
@[simp] theorem clauseKey_trim (c : Text) : clauseKey c.trim = clauseKey c := by
  rw [clauseKey, Text.trim_trim, clauseKey]

/-- The different clauses of a list, each where it occurs first. -/
def clausesOf (cs : List Text) : List Text :=
  firstsBy clauseKey cs

/-- The variable of a clause among the clauses `cs`. -/
def naming (cs : List Text) (c : Text) : Variable :=
  Variable.nth (((clausesOf cs).map clauseKey).idxOf (clauseKey c))

/-- The entries for clauses, from the variable at place `n` on. -/
def entriesFrom (n : Nat) : List Text → List Legend.Entry
  | [] => []
  | c :: rest => ⟨Variable.nth n, c.trim⟩ :: entriesFrom (n + 1) rest

/-- The draft after the clauses `cs`. -/
def draftOf (cs : List Text) : Legend.Draft :=
  ⟨⟨entriesFrom 0 (clausesOf cs)⟩, ⟨(clausesOf cs).length⟩⟩

theorem entriesFrom_append (n : Nat) (cs ds : List Text) :
    entriesFrom n (cs ++ ds) = entriesFrom n cs ++ entriesFrom (n + cs.length) ds := by
  induction cs generalizing n with
  | nil => rfl
  | cons c cs ih => simp [entriesFrom, ih, Nat.add_assoc, Nat.add_comm 1]

/-- Looking up a clause counts the entries before it. -/
theorem variableFor?_entriesFrom (n : Nat) (cs : List Text) (c : Text) :
    Legend.variableFor? ⟨entriesFrom n cs⟩ c =
      if clauseKey c ∈ cs.map clauseKey then
        some (Variable.nth (n + (cs.map clauseKey).idxOf (clauseKey c)))
      else none := by
  induction cs generalizing n with
  | nil => rfl
  | cons d cs ih =>
    simp only [Legend.variableFor?, entriesFrom, List.find?_cons, clauseKey_trim, List.map_cons,
      List.mem_cons]
    by_cases hd : clauseKey d = clauseKey c
    · simp [hd]
    · have hd' : clauseKey c ≠ clauseKey d := fun h => hd h.symm
      have hrest := ih (n + 1)
      simp only [Legend.variableFor?] at hrest
      simp [hd, hd', hrest, List.idxOf_cons_ne _ hd, Nat.add_assoc, Nat.add_comm 1]

/-- One clause more changes the draft as if it had been there from the start. -/
theorem resolve_draftOf (cs : List Text) (c : Text) :
    (draftOf cs).resolve c = (naming (cs ++ [c]) c, draftOf (cs ++ [c])) := by
  have hkeys : clauseKey c ∈ (clausesOf cs).map clauseKey ↔ clauseKey c ∈ cs.map clauseKey :=
    key_mem_firstsBy_iff
  unfold Legend.Draft.resolve Legend.resolve draftOf naming
  rw [variableFor?_entriesFrom]
  by_cases hmem : clauseKey c ∈ cs.map clauseKey
  · have hsame : clausesOf (cs ++ [c]) = clausesOf cs := by
      rw [clausesOf, firstsBy_concat, if_pos hmem, List.append_nil, clausesOf]
    rw [if_pos (hkeys.2 hmem), hsame, Nat.zero_add]
  · have hmore : clausesOf (cs ++ [c]) = clausesOf cs ++ [c] := by
      rw [clausesOf, firstsBy_concat, if_neg hmem, clausesOf]
    have hnew : clauseKey c ∉ (clausesOf cs).map clauseKey := fun h => hmem (hkeys.1 h)
    have hidx : ((clausesOf cs ++ [c]).map clauseKey).idxOf (clauseKey c) =
        (clausesOf cs).length := by
      rw [List.map_append, List.idxOf_append, if_neg hnew]
      simp
    rw [if_neg hnew, hmore, hidx]
    simp [Legend.push, Allocator.next, entriesFrom_append, entriesFrom]

/-- A clause keeps its variable when further clauses follow. -/
theorem naming_append {cs : List Text} {c : Text} (h : c ∈ cs) (ds : List Text) :
    naming (cs ++ ds) c = naming cs c := by
  obtain ⟨extra, hextra⟩ := firstsBy_append clauseKey cs ds
  have hmem : clauseKey c ∈ (firstsBy clauseKey cs).map clauseKey :=
    key_mem_firstsBy_iff.2 (List.mem_map_of_mem h)
  rw [naming, naming, clausesOf, hextra, List.map_append, List.idxOf_append, if_pos hmem, clausesOf]

/-! ### A whole outline -/

/-- A replacement with a state is a plain replacement, where each value is settled once its atom has
turned up. -/
theorem mapAccum_eq_map {step : α → σ → β × σ} {state : List α → σ} {value : List α → α → β}
    (hstep : ∀ as a, step a (state as) = (value (as ++ [a]) a, state (as ++ [a])))
    (hsettled : ∀ as bs a, a ∈ as → value (as ++ bs) a = value as a) (f : Formula α)
    (as : List α) :
    f.mapAccum step (state as) = (f.map (value (as ++ f.atoms)), state (as ++ f.atoms)) := by
  have hlater (g : Formula α) (as bs : List α) :
      g.map (value (as ++ g.atoms)) = g.map (value (as ++ (g.atoms ++ bs))) := by
    refine Formula.map_congr fun a ha => ?_
    rw [← List.append_assoc]
    exact (hsettled _ _ _ (List.mem_append_right as ha)).symm
  induction f using Formula.induction generalizing as with
  | atom a => simp [Formula.mapAccum, hstep, Formula.map, Formula.atoms]
  | neg f ih => simp [Formula.mapAccum, ih, Formula.map, Formula.atoms]
  | conj fs ih | disj fs ih =>
    have hall : ∀ (as : List α), Formula.mapAccumAll step fs (state as) =
        (fs.map (Formula.map (value (as ++ fs.flatMap Formula.atoms))),
          state (as ++ fs.flatMap Formula.atoms)) := by
      induction fs with
      | nil => simp [Formula.mapAccumAll]
      | cons g gs ihgs =>
        intro as
        obtain ⟨hg, hgs⟩ := List.forall_mem_cons.1 ih
        simp only [Formula.mapAccumAll, hg, ihgs hgs, List.flatMap_cons, List.map_cons,
          List.append_assoc, hlater g as (gs.flatMap Formula.atoms)]
    simp [Formula.mapAccum, hall]
  | imp f g ihf ihg | iff f g ihf ihg =>
    simp only [Formula.mapAccum, ihf, ihg, Formula.map, Formula.atoms, List.append_assoc,
      hlater f as g.atoms]

/-- The variables of an outline are those that its clauses get all together, and its legend lists
the different clauses. -/
theorem ofOutline_eq (f : Formula Text) :
    Formalization.ofOutline f = ⟨f.map (naming f.atoms), ⟨entriesFrom 0 (clausesOf f.atoms)⟩⟩ := by
  have hrun : f.mapAccum (fun c d => Legend.Draft.resolve d c) (draftOf []) =
      (f.map (naming ([] ++ f.atoms)), draftOf ([] ++ f.atoms)) :=
    mapAccum_eq_map resolve_draftOf (fun _ ds _ h => naming_append h ds) f []
  have hstart : draftOf [] = {} := rfl
  rw [hstart, List.nil_append] at hrun
  rw [Formalization.ofOutline, hrun]
  rfl

/-! ### What the names tell -/

/-- Clauses of an outline have the same variable exactly if they have the same key. -/
theorem naming_eq_iff {cs : List Text} {c d : Text} (hc : c ∈ cs) :
    naming cs c = naming cs d ↔ clauseKey c = clauseKey d := by
  have hmem : clauseKey c ∈ (clausesOf cs).map clauseKey :=
    key_mem_firstsBy_iff.2 (List.mem_map_of_mem hc)
  rw [naming, naming, nth_injective.eq_iff, List.idxOf_inj hmem]

theorem length_entriesFrom (n : Nat) (cs : List Text) : (entriesFrom n cs).length = cs.length := by
  induction cs generalizing n with
  | nil => rfl
  | cons c cs ih => simp [entriesFrom, ih]

theorem var_entriesFrom (n : Nat) (cs : List Text) :
    (entriesFrom n cs).map Legend.Entry.var =
      (List.range' n cs.length).map Variable.nth := by
  induction cs generalizing n with
  | nil => rfl
  | cons c cs ih => simp [entriesFrom, ih, List.range'_succ]

theorem clause_entriesFrom (n : Nat) (cs : List Text) :
    (entriesFrom n cs).map Legend.Entry.clause = cs.map Text.trim := by
  induction cs generalizing n with
  | nil => rfl
  | cons c cs ih => simp [entriesFrom, ih]

/-- The entries of trimmed clauses list the first variables beside them. -/
theorem entriesFrom_eq_zipWith {cs : List Text} (htrim : ∀ c ∈ cs, c.trim = c) :
    entriesFrom 0 cs = List.zipWith Legend.Entry.mk (firstVariables cs.length) cs := by
  have hfrom (n : Nat) : entriesFrom n cs =
      List.zipWith Legend.Entry.mk ((List.range' n cs.length).map Variable.nth) cs := by
    induction cs generalizing n with
    | nil => rfl
    | cons c cs ih =>
      obtain ⟨hc, hcs⟩ := List.forall_mem_cons.1 htrim
      simp [entriesFrom, hc, ih hcs, List.range'_succ]
  rw [hfrom, firstVariables, List.range_eq_range']

/-- The first clause to be found gets the first variable, and so on. -/
theorem map_naming_clausesOf (cs : List Text) :
    (clausesOf cs).map (naming cs) = firstVariables (clausesOf cs).length := by
  refine List.ext_getElem (by simp [firstVariables]) fun i hi _ => ?_
  have hi' : i < (clausesOf cs).length := by simpa using hi
  have hidx := (nodup_firstsBy clauseKey cs).idxOf_getElem i (by simpa [clausesOf] using hi')
  simp only [List.getElem_map] at hidx
  simp only [naming, List.getElem_map, firstVariables, List.getElem_range]
  exact congrArg Variable.nth hidx

/-- Each of the different clauses has its entry under its variable. -/
theorem entriesFrom_clausesOf (cs : List Text) :
    entriesFrom 0 (clausesOf cs) = (clausesOf cs).map fun c => ⟨naming cs c, c.trim⟩ := by
  have hvars : (entriesFrom 0 (clausesOf cs)).map Legend.Entry.var =
      (clausesOf cs).map (naming cs) := by
    rw [var_entriesFrom, map_naming_clausesOf, firstVariables, List.range_eq_range']
  have hclauses := clause_entriesFrom 0 (clausesOf cs)
  refine List.ext_getElem (by simp [length_entriesFrom]) fun i hi hi' => ?_
  have hi₁ : i < (clausesOf cs).length := by simpa [length_entriesFrom] using hi
  have hvar := congrArg (fun vs => vs[i]?) hvars
  have hclause := congrArg (fun cs => cs[i]?) hclauses
  simp [hi, hi₁] at hvar hclause
  rw [List.getElem_map, ← hvar, ← hclause]

/-- The entries of the different clauses have different variables. -/
theorem nodup_vars_entriesFrom (cs : List Text) :
    ((entriesFrom 0 cs).map Legend.Entry.var).Nodup := by
  rw [var_entriesFrom, ← List.range_eq_range']
  exact nodup_firstVariables _

/-- A variable that has one entry is looked up there. -/
theorem get?_of_mem {entries : List Legend.Entry}
    (hnodup : (entries.map Legend.Entry.var).Nodup) {e : Legend.Entry} (he : e ∈ entries) :
    Legend.get? ⟨entries⟩ e.var = some e.clause := by
  have hfind : (entries.reverse.find? fun e' => e'.var = e.var) = some e := by
    have hmem : e ∈ entries.reverse := List.mem_reverse.2 he
    have hrev : (entries.reverse.map Legend.Entry.var).Nodup := by
      rwa [List.map_reverse, List.nodup_reverse]
    generalize entries.reverse = rest at hmem hrev
    induction rest with
    | nil => cases hmem
    | cons d rest ih =>
      rw [List.map_cons, List.nodup_cons] at hrev
      obtain rfl | hmem := List.mem_cons.1 hmem
      · simp
      · have hne : d.var ≠ e.var := fun h => hrev.1 (h ▸ List.mem_map_of_mem hmem)
        simpa [hne] using ih hmem hrev.2
  rw [Legend.get?, hfind]
  rfl

/-- The variable of a clause leads to the clause, as it was spelled first. -/
theorem exists_get?_naming {cs : List Text} {c : Text} (hc : c ∈ cs) :
    ∃ d, clauseKey d = clauseKey c ∧
      Legend.get? ⟨entriesFrom 0 (clausesOf cs)⟩ (naming cs c) = some d.trim := by
  obtain ⟨d, hd, hkey⟩ : ∃ d ∈ clausesOf cs, clauseKey d = clauseKey c :=
    List.mem_map.1 (key_mem_firstsBy_iff.2 (List.mem_map_of_mem hc))
  have hentry : Legend.Entry.mk (naming cs d) d.trim ∈ entriesFrom 0 (clausesOf cs) := by
    rw [entriesFrom_clausesOf]
    exact List.mem_map_of_mem hd
  refine ⟨d, hkey, ?_⟩
  rw [(naming_eq_iff hc).2 hkey.symm]
  exact get?_of_mem (nodup_vars_entriesFrom _) hentry

/-- The variables of an outline turn up in the order in which they are handed out. -/
theorem distinct_map_naming (cs : List Text) :
    Variable.distinct (cs.map (naming cs)) = firstVariables (clausesOf cs).length := by
  have hkey : ∀ a ∈ cs, ∀ b ∈ cs, (id ∘ naming cs) a = (id ∘ naming cs) b ↔
      clauseKey a = clauseKey b := fun a ha b _ => naming_eq_iff ha
  rw [distinct_eq_firstsBy, firstsBy_map, firstsBy_congr hkey]
  exact map_naming_clausesOf cs

/-- Clauses whose keys tell the same of them as variables do get these variables, if the variables
turn up in the order in which they are handed out. -/
theorem naming_map_eq {as : List α} {clause : α → Text} {var : α → Variable}
    (hkeys : ∀ a ∈ as, ∀ b ∈ as, clauseKey (clause a) = clauseKey (clause b) ↔ var a = var b)
    {n : Nat} (hvars : Variable.distinct (as.map var) = firstVariables n) :
    (∀ a ∈ as, naming (as.map clause) (clause a) = var a) ∧
      clausesOf (as.map clause) = (firstsBy var as).map clause := by
  have hclauses : clausesOf (as.map clause) = (firstsBy var as).map clause := by
    have hfirsts : firstsBy (clauseKey ∘ clause) as = firstsBy var as := firstsBy_congr hkeys
    rw [clausesOf, firstsBy_map, hfirsts]
  have hfirsts : (firstsBy var as).map var = firstVariables (firstsBy var as).length := by
    have hfirst : (firstsBy var as).map var = firstVariables n := by
      rw [← hvars, distinct_eq_firstsBy, firstsBy_map, Function.id_comp]
    have hlen := congrArg List.length hfirst
    simp only [firstVariables, List.length_map, List.length_range] at hlen
    rw [hfirst, hlen]
  refine ⟨fun a ha => ?_, hclauses⟩
  -- the first clause with the variable of `a` gets this variable, and it has the key of `a`
  have hnames : ∀ b ∈ firstsBy var as, naming (as.map clause) (clause b) = var b := by
    have hmap := map_naming_clausesOf (as.map clause)
    rw [hclauses, List.map_map, List.length_map, ← hfirsts] at hmap
    exact List.map_inj_left.1 hmap
  have hkept : var a ∈ (firstsBy var as).map var :=
    key_mem_firstsBy_iff.2 (List.mem_map_of_mem ha)
  obtain ⟨b, hb, hvar⟩ := List.mem_map.1 hkept
  have hmem : b ∈ as := mem_of_mem_firstsBy hb
  rw [← hvar, ← hnames b hb]
  exact (naming_eq_iff (List.mem_map_of_mem ha)).2 ((hkeys a ha b hmem).2 hvar.symm)

end Sentential
