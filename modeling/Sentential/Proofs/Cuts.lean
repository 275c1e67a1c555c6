import Mathlib.Data.List.Basic
import Mathlib.Tactic.Common
import Sentential.Sentence.Cuts

/-!
# What cutting a list leaves

`Interleaved parts seps xs` says that a list consists of parts with one separator between
neighbours.  Both ways of cutting a list are determined by the separators that they remove:

* `cuts` removes every separator (`cuts_eq_iff`);
* `innerCuts` removes the separators that are neither the first nor the last member of the list, and
  where it cuts at all, the outer parts are not empty (`innerCuts_eq_iff`).
-/

namespace Sentential

variable {α : Type}

/-- Puts a member behind the last part. -/
def appendLast (x : α) : List (List α) → List (List α)
  | [] => [[x]]
  | [part] => [part ++ [x]]
  | part :: next :: parts => part :: appendLast x (next :: parts)

theorem appendLast_ne_nil (x : α) (parts : List (List α)) : appendLast x parts ≠ [] := by
  rcases parts with _ | ⟨part, _ | ⟨next, parts⟩⟩ <;> simp [appendLast]

theorem appendLast_cons {x : α} (part : List α) {parts : List (List α)} (h : parts ≠ []) :
    appendLast x (part :: parts) = part :: appendLast x parts := by
  cases parts with
  | nil => exact absurd rfl h
  | cons next parts => rfl

/-- The list consists of the parts, in order, with one of the separators between neighbours. -/
inductive Interleaved : List (List α) → List α → List α → Prop
  /-- A single part is the whole list. -/
  | single (part : List α) : Interleaved [part] [] part
  /-- A part in front of a separator and of what follows. -/
  | cons (part : List α) (s : α) {parts : List (List α)} {seps xs : List α}
      (h : Interleaved parts seps xs) : Interleaved (part :: parts) (s :: seps) (part ++ s :: xs)

namespace Interleaved

variable {parts : List (List α)} {seps xs : List α}

/-- There is one part more than separators. -/
theorem length_eq (h : Interleaved parts seps xs) : parts.length = seps.length + 1 := by
  induction h with
  | single => rfl
  | cons part s h ih => simp [ih]

/-- There is at least one part. -/
theorem ne_nil (h : Interleaved parts seps xs) : parts ≠ [] := by
  cases h <;> simp

/-- A single part is the whole list. -/
theorem eq_of_single {part : List α} (h : Interleaved [part] seps xs) : part = xs := by
  generalize hparts : [part] = parts at h
  cases h with
  | single => exact List.singleton_inj.1 hparts
  | cons part s h => exact absurd (List.cons_eq_cons.1 hparts).2.symm h.ne_nil

/-- The only part of the empty list is empty. -/
theorem parts_of_nil (h : Interleaved parts seps []) : parts = [[]] := by
  generalize hlist : [] = list at h
  cases h with
  | single => rw [← hlist]
  | cons => simp at hlist

/-- A member put in front of the list goes to the first part. -/
theorem consFirst (x : α) (h : Interleaved parts seps xs) :
    Interleaved (consFirst x parts) seps (x :: xs) := by
  cases h with
  | single => exact single _
  | cons part s h => exact cons (x :: part) s h

/-- A member put at the end of the list goes to the last part. -/
theorem appendLast (x : α) (h : Interleaved parts seps xs) :
    Interleaved (appendLast x parts) seps (xs ++ [x]) := by
  induction h with
  | single => exact single _
  | @cons part s parts seps xs h ih =>
    rw [appendLast_cons part h.ne_nil, List.append_assoc, List.cons_append]
    exact cons part s ih

/-- The first member of the list stands in the first part, unless that part is empty. -/
theorem exists_consFirst {x : α} (h : Interleaved parts seps (x :: xs))
    (hhead : parts.head? ≠ some []) :
    ∃ parts', parts = Sentential.consFirst x parts' ∧ Interleaved parts' seps xs := by
  generalize hlist : x :: xs = list at h
  cases h with
  | single => exact ⟨[xs], by rw [← hlist]; rfl, single xs⟩
  | @cons part s parts seps rest h =>
    cases part with
    | nil => exact absurd rfl hhead
    | cons y part =>
      obtain ⟨rfl, rfl⟩ := List.cons_eq_cons.1 hlist
      exact ⟨part :: parts, rfl, cons part s h⟩

/-- The last member of the list stands in the last part, unless that part is empty. -/
theorem exists_appendLast {x : α} (h : Interleaved parts seps (xs ++ [x]))
    (hlast : parts.getLast? ≠ some []) :
    ∃ parts', parts = Sentential.appendLast x parts' ∧ Interleaved parts' seps xs := by
  generalize hlist : xs ++ [x] = list at h
  induction h generalizing xs with
  | single => exact ⟨[xs], by rw [← hlist]; rfl, single xs⟩
  | @cons part s parts seps rest h ih =>
    rw [List.getLast?_cons_of_ne_nil h.ne_nil] at hlast
    obtain rfl | ⟨rest', y, rfl⟩ := List.eq_nil_or_concat rest
    · -- nothing follows the separator, so the last part would be empty
      rw [h.parts_of_nil] at hlast
      exact absurd rfl hlast
    · have hsplit : xs ++ [x] = (part ++ s :: rest') ++ [y] := by simpa using hlist
      obtain ⟨rfl, hxy⟩ := List.append_inj' hsplit rfl
      obtain rfl := List.singleton_inj.1 hxy
      obtain ⟨parts', rfl, h'⟩ := ih hlast (List.concat_eq_append ..).symm
      exact ⟨part :: parts', (appendLast_cons part h'.ne_nil).symm, cons part s h'⟩

/-- A list that continues behind a separator has one part more in front. -/
theorem append (h : Interleaved parts seps xs) (s : α) {parts' : List (List α)}
    {seps' xs' : List α} (h' : Interleaved parts' seps' xs') :
    Interleaved (parts ++ parts') (seps ++ s :: seps') (xs ++ s :: xs') := by
  induction h with
  | single part => exact cons part s h'
  | cons part s₀ h ih =>
    rw [List.append_assoc, List.cons_append]
    exact cons part s₀ ih

/-- What holds of all parts and separators holds of the list. -/
theorem forall_mem_iff (h : Interleaved parts seps xs) {p : α → Prop} :
    (∀ x ∈ xs, p x) ↔ (∀ s ∈ seps, p s) ∧ ∀ part ∈ parts, ∀ x ∈ part, p x := by
  induction h with
  | single => simp
  | cons part s h ih =>
    simp only [List.mem_append, List.mem_cons, or_imp, forall_and, forall_eq, ih]
    tauto

/-- A member of a part is a member of the list. -/
theorem mem_of_mem_part (h : Interleaved parts seps xs) {part : List α} (hpart : part ∈ parts)
    {x : α} (hx : x ∈ part) : x ∈ xs :=
  (h.forall_mem_iff.1 fun _ hx => hx).2 part hpart x hx

/-- A part is a stretch of the list. -/
theorem isInfix_of_mem (h : Interleaved parts seps xs) {part : List α} (hpart : part ∈ parts) :
    part <:+: xs := by
  induction h with
  | single => exact List.mem_singleton.1 hpart ▸ List.infix_rfl
  | cons first s h ih =>
    obtain rfl | hmem := List.mem_cons.1 hpart
    · exact (List.prefix_append _ _).isInfix
    · exact (ih hmem).trans ((List.suffix_cons _ _).trans (List.suffix_append _ _)).isInfix

/-- A member that is no separator stands in a part, with whole parts before and behind. -/
theorem exists_split (h : Interleaved parts seps xs) {before after : List α} {x : α}
    (hxs : xs = before ++ x :: after) (hx : x ∉ seps) :
    ∃ parts₁ us vs parts₂ seps₁, parts = parts₁ ++ (us ++ x :: vs) :: parts₂ ∧
      Interleaved (parts₁ ++ [us]) seps₁ before ∧ seps₁ ⊆ seps := by
  induction h generalizing before with
  | single part =>
    exact ⟨[], before, after, [], [], by rw [hxs]; rfl, .single before, List.nil_subset _⟩
  | @cons part s parts seps xs h ih =>
    have hne : x ≠ s := fun heq => hx (heq ▸ List.mem_cons_self ..)
    obtain ⟨rest, hrest, htail⟩ | ⟨rest, hrest, htail⟩ := List.append_eq_append_iff.1 hxs
    · cases rest with
      | nil => exact absurd (List.cons_eq_cons.1 htail).1.symm hne
      | cons y rest =>
        obtain ⟨rfl, hlater⟩ := List.cons_eq_cons.1 htail
        obtain ⟨parts₁, us, vs, parts₂, seps₁, rfl, h₁, hsub⟩ :=
          ih hlater fun hmem => hx (List.mem_cons_of_mem s hmem)
        refine ⟨part :: parts₁, us, vs, parts₂, s :: seps₁, rfl, ?_, List.cons_subset_cons s hsub⟩
        rw [hrest]
        exact cons part s h₁
    · cases rest with
      | nil => exact absurd (List.cons_eq_cons.1 htail).1 hne
      | cons y rest =>
        obtain ⟨rfl, -⟩ := List.cons_eq_cons.1 htail
        exact ⟨[], before, rest, parts, [], by rw [hrest]; rfl, .single before, List.nil_subset _⟩

/-- Behind the first of several parts stands a separator. -/
theorem exists_cons {part : List α} (h : Interleaved (part :: parts) seps xs) (hne : parts ≠ []) :
    ∃ s seps' xs', seps = s :: seps' ∧ xs = part ++ s :: xs' ∧ Interleaved parts seps' xs' := by
  generalize hall : part :: parts = all at h
  cases h with
  | single => exact absurd (List.cons_eq_cons.1 hall).2 hne
  | cons part' s h =>
    obtain ⟨rfl, rfl⟩ := List.cons_eq_cons.1 hall
    exact ⟨s, _, _, rfl, rfl, h⟩

/-- A last part that is empty stands behind a separator. -/
theorem exists_append_singleton (h : Interleaved (parts ++ [[]]) seps xs) (hne : parts ≠ []) :
    ∃ seps' s xs', seps = seps' ++ [s] ∧ xs = xs' ++ [s] ∧ Interleaved parts seps' xs' := by
  induction parts generalizing seps xs with
  | nil => exact absurd rfl hne
  | cons part parts ih =>
    rw [List.cons_append] at h
    obtain ⟨s, seps, xs, rfl, rfl, hrest⟩ := h.exists_cons (by simp)
    by_cases hnil : parts = []
    · rw [hnil, List.nil_append] at hrest
      have hxs : [] = xs := hrest.eq_of_single
      have hseps : seps = [] := List.eq_nil_of_length_eq_zero (by simpa using hrest.length_eq)
      rw [hnil, hseps, ← hxs]
      exact ⟨[], s, part, rfl, rfl, .single part⟩
    · obtain ⟨seps', s', xs', rfl, rfl, h'⟩ := ih hrest hnil
      exact ⟨s :: seps', s', part ++ s :: xs', rfl, by simp, .cons part s h'⟩

/-- A part stands at an end of the list exactly if no parts stand there. -/
theorem exists_around {parts₁ parts₂ : List (List α)} {part : List α}
    (h : Interleaved (parts₁ ++ part :: parts₂) seps xs) :
    ∃ before after, xs = before ++ (part ++ after) ∧ (before = [] ↔ parts₁ = []) ∧
      (after = [] ↔ parts₂ = []) := by
  induction parts₁ generalizing seps xs with
  | nil =>
    by_cases hnil : parts₂ = []
    · rw [hnil] at h
      obtain rfl := h.eq_of_single
      exact ⟨[], [], by simp, by simp, by simp [hnil]⟩
    · obtain ⟨s, seps, xs, rfl, rfl, -⟩ := h.exists_cons hnil
      exact ⟨[], s :: xs, by simp, by simp, by simpa using hnil⟩
  | cons first parts₁ ih =>
    rw [List.cons_append] at h
    obtain ⟨s, seps, xs, rfl, rfl, hrest⟩ := h.exists_cons (by simp)
    obtain ⟨before, after, rfl, -, hafter⟩ := ih hrest
    exact ⟨first ++ s :: before, after, by simp, by simp, hafter⟩

/-- Where the parts have no member of a kind, only the separators have. -/
theorem filter_eq_filter (h : Interleaved parts seps xs) {p : α → Bool}
    (hparts : ∀ part ∈ parts, ∀ x ∈ part, p x = false) : xs.filter p = seps.filter p := by
  induction h with
  | single part => simpa using hparts part (by simp)
  | cons part s h ih =>
    obtain ⟨hpart, hrest⟩ := List.forall_mem_cons.1 hparts
    have hnone : part.filter p = [] := by simpa using hpart
    rw [List.filter_append, hnone, List.nil_append, List.filter_cons, List.filter_cons, ih hrest]

/-- The separators are the separating members, where the parts have none. -/
theorem filter_eq (h : Interleaved parts seps xs) {separates : α → Bool}
    (hseps : ∀ s ∈ seps, separates s = true)
    (hparts : ∀ part ∈ parts, ∀ x ∈ part, separates x = false) : xs.filter separates = seps := by
  rw [h.filter_eq_filter hparts, List.filter_eq_self.2 hseps]

/-- The separators are members of the list, in order. -/
theorem sublist (h : Interleaved parts seps xs) : seps.Sublist xs := by
  induction h with
  | single part => exact List.nil_sublist part
  | cons part s h ih => exact (ih.cons_cons s).trans (List.sublist_append_right part _)

/-- Where the list has no more separating members than the separators, the parts have none. -/
theorem separates_eq_false (h : Interleaved parts seps xs) {separates : α → Bool}
    (hseps : ∀ s ∈ seps, separates s = true)
    (hcount : (xs.filter separates).length ≤ seps.length) :
    ∀ part ∈ parts, ∀ x ∈ part, separates x = false := by
  induction h with
  | single part =>
    have hnil : part.filter separates = [] := List.eq_nil_of_length_eq_zero (by simpa using hcount)
    simpa using hnil
  | @cons part s parts seps xs h ih =>
    have hs : separates s = true := hseps s (by simp)
    have hseps' : ∀ s ∈ seps, separates s = true := fun s hs => hseps s (List.mem_cons_of_mem _ hs)
    have hlow : seps.length ≤ (xs.filter separates).length := by
      have hsub := h.sublist.filter separates
      rw [List.filter_eq_self.2 hseps'] at hsub
      exact hsub.length_le
    have htotal : (part.filter separates).length + (xs.filter separates).length ≤ seps.length := by
      simpa [hs, ← Nat.add_assoc] using hcount
    have hnil : part.filter separates = [] := List.eq_nil_of_length_eq_zero (by omega)
    have hpart : ∀ x ∈ part, separates x = false := by simpa using hnil
    rintro part' (_ | ⟨_, hmem⟩)
    · exact hpart
    · exact ih hseps' (by omega) part' hmem

end Interleaved

/-! ### Cutting at every separator -/

variable {separates : α → Bool} {parts : List (List α)} {seps xs : List α}

/-- Cutting removes the separators and nothing else. -/
theorem interleaved_cuts (separates : α → Bool) (xs : List α) :
    Interleaved (cuts separates xs) (xs.filter separates) xs := by
  induction xs with
  | nil => exact .single []
  | cons x rest ih =>
    unfold cuts
    cases hx : separates x with
    | true => simpa [hx] using Interleaved.cons [] x ih
    | false => simpa [hx] using ih.consFirst x

/-- No part contains a separator. -/
theorem separates_eq_false_of_mem_cuts {part : List α} (hpart : part ∈ cuts separates xs) {x : α}
    (hx : x ∈ part) : separates x = false :=
  (interleaved_cuts separates xs).separates_eq_false (fun _ hs => (List.mem_filter.1 hs).2)
    (Nat.le_refl _) part hpart x hx

/-- There is one part more than separators. -/
theorem length_cuts (separates : α → Bool) (xs : List α) :
    (cuts separates xs).length = (xs.filter separates).length + 1 :=
  (interleaved_cuts separates xs).length_eq

/-- A list without separators is one part. -/
theorem cuts_eq_singleton (h : ∀ x ∈ xs, separates x = false) : cuts separates xs = [xs] := by
  induction xs with
  | nil => rfl
  | cons x rest ih =>
    obtain ⟨hx, hrest⟩ := List.forall_mem_cons.1 h
    rw [cuts, ih hrest, hx]
    rfl

/-- What stands before the first separator is the first part. -/
theorem cuts_append_cons_of_forall {part : List α} (hpart : ∀ x ∈ part, separates x = false) {s : α}
    (hs : separates s = true) (xs : List α) :
    cuts separates (part ++ s :: xs) = part :: cuts separates xs := by
  induction part with
  | nil =>
    rw [List.nil_append, cuts, hs]
    rfl
  | cons x part ih =>
    obtain ⟨hx, hpart⟩ := List.forall_mem_cons.1 hpart
    rw [List.cons_append, cuts, ih hpart, hx]
    rfl

/-- Parts free of separators, with separators between them, are what cutting leaves. -/
theorem cuts_eq_of_interleaved (h : Interleaved parts seps xs)
    (hseps : ∀ s ∈ seps, separates s = true)
    (hparts : ∀ part ∈ parts, ∀ x ∈ part, separates x = false) : cuts separates xs = parts := by
  induction h with
  | single part => exact cuts_eq_singleton (List.forall_mem_singleton.1 hparts)
  | cons part s h ih =>
    obtain ⟨hs, hseps⟩ := List.forall_mem_cons.1 hseps
    obtain ⟨hpart, hparts⟩ := List.forall_mem_cons.1 hparts
    rw [cuts_append_cons_of_forall hpart hs, ih hseps hparts]

/-- The parts are determined by the fact that exactly the separators are removed. -/
theorem cuts_eq_iff :
    cuts separates xs = parts ↔ Interleaved parts (xs.filter separates) xs := by
  constructor
  · rintro rfl
    exact interleaved_cuts separates xs
  · intro h
    have hseps : ∀ s ∈ xs.filter separates, separates s = true :=
      fun _ hs => (List.mem_filter.1 hs).2
    exact cuts_eq_of_interleaved h hseps (h.separates_eq_false hseps (Nat.le_refl _))

/-- A separator cuts a list in two, each of which is cut on its own. -/
theorem cuts_append_cons {s : α} (hs : separates s = true) (xs ys : List α) :
    cuts separates (xs ++ s :: ys) = cuts separates xs ++ cuts separates ys := by
  have hall := (interleaved_cuts separates xs).append s (interleaved_cuts separates ys)
  refine cuts_eq_iff.2 ?_
  simpa [hs] using hall

/-- Where a list is cut between its parts already, each part is cut on its own. -/
theorem Interleaved.cuts_eq (h : Interleaved parts seps xs) (hseps : ∀ s ∈ seps, separates s = true) :
    cuts separates xs = parts.flatMap (cuts separates) := by
  induction h with
  | single part => simp
  | cons part s h ih =>
    obtain ⟨hs, hseps⟩ := List.forall_mem_cons.1 hseps
    rw [cuts_append_cons hs, ih hseps, List.flatMap_cons]

/-- Cutting at two kinds of separators is cutting at one kind and then, each part, at the other. -/
theorem flatMap_cuts (p q : α → Bool) (xs : List α) :
    (cuts p xs).flatMap (cuts q) = cuts (fun x => p x || q x) xs := by
  induction xs with
  | nil => rfl
  | cons x rest ih =>
    obtain ⟨part, parts, hparts⟩ := List.exists_cons_of_ne_nil (cuts_ne_nil p rest)
    rw [cuts, cuts, ← ih, hparts]
    cases hp : p x with
    | true => simp [cuts]
    | false =>
      cases hq : q x with
      | true => simp [consFirst, cuts, hq]
      | false =>
        obtain ⟨part', parts', hparts'⟩ := List.exists_cons_of_ne_nil (cuts_ne_nil q part)
        simp [consFirst, cuts, hq, hparts']

/-! ### Cutting at inner separators -/

/-- Sparing the last member is to cut the list without it, and to put it back. -/
theorem cutsBeforeLast_append_singleton (separates : α → Bool) (xs : List α) (z : α) :
    cutsBeforeLast separates (xs ++ [z]) = appendLast z (cuts separates xs) := by
  induction xs with
  | nil => rfl
  | cons x rest ih =>
    obtain ⟨y, rest', hrest⟩ : ∃ y rest', rest ++ [z] = y :: rest' :=
      List.exists_cons_of_ne_nil (by simp)
    rw [List.cons_append, hrest, cutsBeforeLast, ← hrest, ih, cuts]
    have hne := cuts_ne_nil separates rest
    cases separates x with
    | true => exact (appendLast_cons [] hne).symm
    | false =>
      obtain ⟨part, parts, hparts⟩ := List.exists_cons_of_ne_nil hne
      rw [hparts]
      cases parts <;> rfl

/-- Sparing the outer members is to cut what lies between them, and to put them back. -/
theorem innerCuts_cons_append_singleton (separates : α → Bool) (x z : α) (xs : List α) :
    innerCuts separates (x :: (xs ++ [z])) = consFirst x (appendLast z (cuts separates xs)) := by
  rw [innerCuts, cutsBeforeLast_append_singleton]

/-- A member at the end of a list that is no separator goes to the last part. -/
theorem cuts_append_singleton {z : α} (hz : separates z = false) (xs : List α) :
    cuts separates (xs ++ [z]) = appendLast z (cuts separates xs) := by
  refine cuts_eq_iff.2 ?_
  rw [List.filter_append, List.filter_cons_of_neg (by simp [hz]), List.filter_nil, List.append_nil]
  exact (interleaved_cuts separates xs).appendLast z

theorem consFirst_appendLast (x z : α) {parts : List (List α)} (h : parts ≠ []) :
    consFirst x (appendLast z parts) = appendLast z (consFirst x parts) := by
  rcases parts with _ | ⟨part, _ | ⟨next, parts⟩⟩
  · exact absurd rfl h
  · rfl
  · rfl

/-- A member behind the last one, if that is no separator, goes to the last part. -/
theorem exists_innerCuts_append {z : α} (hz : separates z = false) (xs : List α) (x : α) :
    ∃ parts, innerCuts separates (xs ++ [z]) = appendLast z parts ∧
      innerCuts separates (xs ++ [z] ++ [x]) = appendLast x (appendLast z parts) := by
  cases xs with
  | nil => exact ⟨[], rfl, rfl⟩
  | cons y mid =>
    have hne := cuts_ne_nil separates mid
    refine ⟨consFirst y (cuts separates mid), ?_, ?_⟩
    · rw [List.cons_append, innerCuts_cons_append_singleton, consFirst_appendLast y z hne]
    · rw [List.cons_append, List.cons_append, innerCuts_cons_append_singleton,
        cuts_append_singleton hz, consFirst_appendLast y x (appendLast_ne_nil z _),
        consFirst_appendLast y z hne]

theorem head?_consFirst (x : α) (parts : List (List α)) : (consFirst x parts).head? ≠ some [] := by
  cases parts <;> simp [consFirst]

theorem getLast?_appendLast (x : α) (parts : List (List α)) :
    (appendLast x parts).getLast? ≠ some [] := by
  induction parts with
  | nil => simp [appendLast]
  | cons part parts ih =>
    cases parts with
    | nil => simp [appendLast]
    | cons next parts =>
      rw [appendLast_cons part (List.cons_ne_nil _ _),
        List.getLast?_cons_of_ne_nil (appendLast_ne_nil x _)]
      exact ih

theorem getLast?_consFirst {x : α} {parts : List (List α)} (h : parts.getLast? ≠ some []) :
    (consFirst x parts).getLast? ≠ some [] := by
  rcases parts with _ | ⟨part, _ | ⟨next, parts⟩⟩ <;> simp_all [consFirst]

/-- Where the outer parts are not empty, the first and the last member of the list stand in them. -/
theorem Interleaved.exists_inner {x z : α} {mid : List α}
    (h : Interleaved parts seps (x :: (mid ++ [z]))) (hhead : parts.head? ≠ some [])
    (hlast : parts.getLast? ≠ some []) :
    ∃ parts', parts = Sentential.consFirst x (Sentential.appendLast z parts') ∧
      Interleaved parts' seps mid := by
  rw [← List.cons_append] at h
  obtain ⟨parts', rfl, h'⟩ := h.exists_appendLast hlast
  have hhead' : parts'.head? ≠ some [] := by
    rcases parts' with _ | ⟨part, _ | ⟨next, parts'⟩⟩
    · simp
    · simp [h'.eq_of_single]
    · simpa [Sentential.appendLast] using hhead
  obtain ⟨parts'', rfl, h''⟩ := h'.exists_consFirst hhead'
  refine ⟨parts'', ?_, h''⟩
  rcases parts'' with _ | ⟨part, _ | ⟨next, parts''⟩⟩ <;> rfl

/-- Cutting removes exactly the separators that are neither first nor last, and leaves something at
both ends of a list that is not empty. -/
theorem interleaved_innerCuts (separates : α → Bool) (xs : List α) :
    Interleaved (innerCuts separates xs) (xs.tail.dropLast.filter separates) xs ∧
      (xs ≠ [] → (innerCuts separates xs).head? ≠ some [] ∧
        (innerCuts separates xs).getLast? ≠ some []) := by
  cases xs with
  | nil => exact ⟨.single [], fun h => absurd rfl h⟩
  | cons x rest =>
    obtain rfl | ⟨mid, z, rfl⟩ := List.eq_nil_or_concat rest
    · exact ⟨.single [x], fun _ => by simp [innerCuts, cutsBeforeLast, consFirst]⟩
    · rw [List.concat_eq_append, innerCuts_cons_append_singleton, List.tail_cons,
        List.dropLast_concat]
      exact ⟨((interleaved_cuts separates mid).appendLast z).consFirst x,
        fun _ => ⟨head?_consFirst x _, getLast?_consFirst (getLast?_appendLast z _)⟩⟩

/-- The parts are determined by the fact that exactly the inner separators are removed. -/
theorem innerCuts_eq_iff :
    innerCuts separates xs = parts ↔
      Interleaved parts (xs.tail.dropLast.filter separates) xs ∧
        (xs ≠ [] → parts.head? ≠ some [] ∧ parts.getLast? ≠ some []) := by
  constructor
  · rintro rfl
    exact interleaved_innerCuts separates xs
  · rintro ⟨h, hends⟩
    cases xs with
    | nil => rw [h.parts_of_nil]; rfl
    | cons x rest =>
      obtain ⟨hhead, hlast⟩ := hends (List.cons_ne_nil x rest)
      obtain rfl | ⟨mid, z, rfl⟩ := List.eq_nil_or_concat rest
      · obtain ⟨parts', rfl, h'⟩ := h.exists_consFirst hhead
        rw [h'.parts_of_nil]
        rfl
      · rw [List.concat_eq_append] at h ⊢
        rw [List.tail_cons, List.dropLast_concat] at h
        obtain ⟨parts', rfl, h'⟩ := h.exists_inner hhead hlast
        rw [innerCuts_cons_append_singleton, cuts_eq_iff.2 h']

/-- Where the outer parts are not empty, the separators stand between the first and the last member
of the list. -/
theorem Interleaved.sublist_inner (h : Interleaved parts seps xs) (hhead : parts.head? ≠ some [])
    (hlast : parts.getLast? ≠ some []) : seps.Sublist xs.tail.dropLast := by
  cases xs with
  | nil =>
    rw [h.parts_of_nil] at hhead
    exact absurd rfl hhead
  | cons x rest =>
    obtain rfl | ⟨mid, z, rfl⟩ := List.eq_nil_or_concat rest
    · obtain ⟨parts', rfl, h'⟩ := h.exists_consFirst hhead
      exact h'.sublist
    · rw [List.concat_eq_append] at h ⊢
      rw [List.tail_cons, List.dropLast_concat]
      obtain ⟨parts', -, h'⟩ := h.exists_inner hhead hlast
      exact h'.sublist

/-- Parts with separators between them are what cutting at inner separators leaves, if the outer ones
are not empty and the list has no further separators between its first and its last member. -/
theorem innerCuts_eq_of_length_le (h : Interleaved parts seps xs)
    (hseps : ∀ s ∈ seps, separates s = true) (hhead : parts.head? ≠ some [])
    (hlast : parts.getLast? ≠ some [])
    (hcount : (xs.tail.dropLast.filter separates).length ≤ seps.length) :
    innerCuts separates xs = parts := by
  have hsub := (h.sublist_inner hhead hlast).filter separates
  rw [List.filter_eq_self.2 hseps] at hsub
  refine innerCuts_eq_iff.2 ⟨?_, fun _ => ⟨hhead, hlast⟩⟩
  rwa [← hsub.eq_of_length_le hcount]

/-- Nothing stands before the first member of a list without repetitions. -/
theorem eq_nil_of_head? {x : α} {ys : List α} (h : (xs ++ x :: ys).Nodup)
    (hx : (xs ++ x :: ys).head? = some x) : xs = [] := by
  cases xs with
  | nil => rfl
  | cons y xs =>
    obtain rfl : y = x := Option.some.inj hx
    exact absurd (List.mem_append_right xs (List.mem_cons_self ..)) (List.nodup_cons.1 h).1

/-- Nothing stands behind the last member of a list without repetitions. -/
theorem eq_nil_of_getLast? {x : α} {ys : List α} (h : (xs ++ x :: ys).Nodup)
    (hx : (xs ++ x :: ys).getLast? = some x) : ys = [] := by
  obtain rfl | ⟨ys, y, rfl⟩ := List.eq_nil_or_concat ys
  · rfl
  · simp only [List.concat_eq_append] at *
    have hlast : (xs ++ x :: (ys ++ [y])).getLast? = some y := by
      rw [← List.cons_append, ← List.append_assoc, List.getLast?_concat]
    obtain rfl : y = x := Option.some.inj (hlast.symm.trans hx)
    exact absurd (List.mem_append_right ys (List.mem_singleton_self y))
      (List.nodup_cons.1 (List.nodup_append.1 h).2.1).1

/-- A member between the first and the last one of a list without repetitions is neither of them. -/
theorem ne_ends_of_mem_inner (h : xs.Nodup) {x : α} (hx : x ∈ xs.tail.dropLast) :
    xs.head? ≠ some x ∧ xs.getLast? ≠ some x := by
  cases xs with
  | nil => cases hx
  | cons y rest =>
    obtain ⟨hy, hrest⟩ := List.nodup_cons.1 h
    obtain rfl | ⟨mid, z, rfl⟩ := List.eq_nil_or_concat rest
    · cases hx
    · simp only [List.concat_eq_append] at *
      rw [List.tail_cons, List.dropLast_concat] at hx
      have hz : z ∉ mid := fun hmem => (List.nodup_append.1 hrest).2.2 z hmem z (by simp) rfl
      constructor
      · rintro ⟨⟩
        exact hy (List.mem_append_left _ hx)
      · rw [← List.cons_append, List.getLast?_concat]
        rintro ⟨⟩
        exact hz hx

/-- The members between the first and the last one of a list without repetitions are those that are
neither of them. -/
theorem filter_inner_eq [DecidableEq α] (h : xs.Nodup) (p : α → Bool) :
    xs.tail.dropLast.filter p = xs.filter fun x => p x &&
      (decide (xs.head? ≠ some x) && decide (xs.getLast? ≠ some x)) := by
  have hmid : ∀ x ∈ xs.tail.dropLast, (p x &&
      (decide (xs.head? ≠ some x) && decide (xs.getLast? ≠ some x))) = p x := fun x hx => by
    obtain ⟨hhead, hlast⟩ := ne_ends_of_mem_inner h hx
    simp [hhead, hlast]
  rw [← List.filter_congr hmid]
  cases xs with
  | nil => rfl
  | cons y rest =>
    obtain rfl | ⟨mid, z, rfl⟩ := List.eq_nil_or_concat rest
    · simp
    · rw [List.filter_cons_of_neg (by simp), List.tail_cons, List.concat_eq_append,
        List.filter_append, List.dropLast_concat, ← List.cons_append, List.getLast?_concat]
      simp

/-- In a list without repetitions, the inner separators are those that are neither the first nor the
last member. -/
theorem innerCuts_eq_cuts [DecidableEq α] (h : xs.Nodup) :
    innerCuts separates xs = cuts (fun x => separates x &&
      (decide (xs.head? ≠ some x) && decide (xs.getLast? ≠ some x))) xs := by
  refine (cuts_eq_iff.2 ?_).symm
  rw [← filter_inner_eq h]
  exact (interleaved_innerCuts separates xs).1

/-! ### Cutting the images of the members -/

section Map

variable {β : Type} (separates : β → Bool) (f : α → β)

theorem consFirst_map (x : α) (parts : List (List α)) :
    consFirst (f x) (parts.map (List.map f)) = (consFirst x parts).map (List.map f) := by
  cases parts <;> rfl

/-- The parts of the images are the images of the parts. -/
theorem cuts_map (xs : List α) :
    cuts separates (xs.map f) = (cuts (separates ∘ f) xs).map (List.map f) := by
  induction xs with
  | nil => rfl
  | cons x rest ih =>
    rw [List.map_cons, cuts, cuts, ih]
    cases hx : separates (f x) with
    | true => simp [hx]
    | false => simp [hx, consFirst_map]

theorem cutsBeforeLast_map (xs : List α) :
    cutsBeforeLast separates (xs.map f) =
      (cutsBeforeLast (separates ∘ f) xs).map (List.map f) := by
  induction xs with
  | nil => rfl
  | cons x rest ih =>
    cases rest with
    | nil => rfl
    | cons y rest =>
      rw [List.map_cons, List.map_cons, cutsBeforeLast, cutsBeforeLast, ← List.map_cons, ih]
      cases hx : separates (f x) with
      | true => simp [hx]
      | false => simp [hx, consFirst_map]

/-- The inner parts of the images are the images of the inner parts. -/
theorem innerCuts_map (xs : List α) :
    innerCuts separates (xs.map f) = (innerCuts (separates ∘ f) xs).map (List.map f) := by
  cases xs with
  | nil => rfl
  | cons x rest => rw [List.map_cons, innerCuts, innerCuts, cutsBeforeLast_map, consFirst_map]

end Map

end Sentential
