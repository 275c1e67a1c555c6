import Mathlib.Data.List.TakeDrop
import Mathlib.Data.Nat.Find
import Mathlib.Tactic.Common
import Sentential.Proofs.Acceptance

/-!
# Cutting by places

A list can be cut by going through its places and asking for the stretches between them.  A stretch that
would end before it begins, or behind the end of the list, does not exist, and neither does a member
behind the last one; asking for them fails (`stretch`, `memberAt`).

Here lists are cut in this way at inner separators (`innerCutsByPlaces`) and at the words of a
conditional (`splitImplicationByPlaces`).  Neither ever asks for something that does not exist, and both
give what is found by recursion on the list.  For the former, the run that has been read since the last
separator is the stretch from the place that is remembered to the present one; for the latter, both loops
stop at the first place that answers.
-/

namespace Sentential

/-! ### Members and stretches -/

/-- What is asked for and does not exist. -/
inductive OutOfRange where
  /-- The member at a place. -/
  | place (i : Nat)
  /-- The stretch between two places. -/
  | stretch (start stop : Nat)
deriving DecidableEq

section Stretches

variable {α : Type}

/-- The member of a list at place `i`. -/
def memberAt (xs : List α) (i : Nat) : Except OutOfRange α :=
  match xs[i]? with
  | some x => .ok x
  | none => .error (.place i)

/-- The members of a list from place `start` on, up to the one before place `stop`. -/
def stretch (xs : List α) (start stop : Nat) : Except OutOfRange (List α) :=
  if start ≤ stop ∧ stop ≤ xs.length then .ok ((xs.drop start).take (stop - start))
  else .error (.stretch start stop)

theorem memberAt_of_getElem? {xs : List α} {i : Nat} {x : α} (h : xs[i]? = some x) :
    memberAt xs i = .ok x := by
  rw [memberAt, h]

theorem stretch_of_le {xs : List α} {start stop : Nat} (hstart : start ≤ stop)
    (hstop : stop ≤ xs.length) : stretch xs start stop = .ok ((xs.drop start).take (stop - start)) :=
  if_pos ⟨hstart, hstop⟩

/-- The rest of a list is a stretch of it. -/
theorem stretch_length {xs : List α} {start : Nat} (hstart : start ≤ xs.length) :
    stretch xs start xs.length = .ok (xs.drop start) := by
  rw [stretch_of_le hstart (Nat.le_refl _), List.take_of_length_le (by rw [List.length_drop])]

/-- A stretch is found between what stands before it and what stands behind it. -/
theorem stretch_append (before part after : List α) :
    stretch (before ++ (part ++ after)) before.length (before.length + part.length) = .ok part := by
  rw [stretch_of_le (Nat.le_add_right _ _) (by simp), Nat.add_sub_cancel_left, List.drop_left,
    List.take_left]

end Stretches

/-! ### Inner separators -/

section Inner

variable {α : Type}

/-- What is remembered while a list is cut. -/
structure Cutting (α : Type) where
  /-- The parts that are complete. -/
  parts : List (List α) := []
  /-- The place at which the next part begins. -/
  start : Nat := 0

/-- Looks at a member and its place.  A separator that is neither the first nor the last member ends a
part. -/
def Cutting.look (separates : α → Bool) (xs : List α) (s : Cutting α) (m : α × Nat) :
    Except OutOfRange (Cutting α) := do
  if 0 < m.2 ∧ m.2 + 1 < xs.length ∧ separates m.1 = true then
    let part ← stretch xs s.start m.2
    return ⟨s.parts ++ [part], m.2 + 1⟩
  else return s

/-- Looks at members and their places in turn.  What is left behind the last cut is the last part. -/
def Cutting.run (separates : α → Bool) (xs : List α) :
    List (α × Nat) → Cutting α → Except OutOfRange (List (List α))
  | [], s => do
    let part ← stretch xs s.start xs.length
    return s.parts ++ [part]
  | m :: ms, s => do
    let s' ← s.look separates xs m
    run separates xs ms s'

/-- Cuts a list at separators that are neither its first nor its last member, place by place. -/
def innerCutsByPlaces (separates : α → Bool) (xs : List α) : Except OutOfRange (List (List α)) :=
  Cutting.run separates xs xs.zipIdx {}

variable {separates : α → Bool}

theorem cutsBeforeLast_cons (x : α) (rest : List α) :
    cutsBeforeLast separates (x :: rest) =
      if rest ≠ [] ∧ separates x = true then [] :: cutsBeforeLast separates rest
      else consFirst x (cutsBeforeLast separates rest) := by
  cases rest with
  | nil => rfl
  | cons y rest => simp [cutsBeforeLast]

/-- Members that are put in front one by one go to the first part together. -/
theorem foldr_consFirst (run part : List α) (parts : List (List α)) :
    run.foldr consFirst (part :: parts) = (run ++ part) :: parts := by
  induction run with
  | nil => rfl
  | cons x run ih => rw [List.foldr_cons, ih, consFirst, List.cons_append]

/-- While a list is cut, `before` stands before the place that is remembered, and `run` from there to the
member that is looked at. -/
theorem Cutting.look_eq {xs before run : List α} {x : α} {rest : List α}
    (hxs : xs = before ++ (run ++ x :: rest)) (hpos : 0 < before.length + run.length)
    (parts : List (List α)) :
    Cutting.look separates xs ⟨parts, before.length⟩ (x, before.length + run.length) =
      .ok (if rest ≠ [] ∧ separates x = true then ⟨parts ++ [run], before.length + run.length + 1⟩
        else ⟨parts, before.length⟩) := by
  have hinner : before.length + run.length + 1 < xs.length ↔ rest ≠ [] := by
    rw [hxs, ← List.length_pos_iff]
    simp only [List.length_append, List.length_cons]
    omega
  rw [look]
  by_cases hcut : rest ≠ [] ∧ separates x = true
  · rw [if_pos ⟨hpos, hinner.2 hcut.1, hcut.2⟩, if_pos hcut, hxs, stretch_append]
    rfl
  · rw [if_neg fun h => hcut ⟨hinner.1 h.2.1, h.2.2⟩, if_neg hcut]
    rfl

theorem Cutting.run_cons {xs : List α} {s s' : Cutting α} {m : α × Nat}
    (h : s.look separates xs m = .ok s') (ms : List (α × Nat)) :
    run separates xs (m :: ms) s = run separates xs ms s' := by
  rw [run, h]
  rfl

/-- From a member on that is not the first one, what has been read and what follows give the parts that
are left. -/
theorem Cutting.run_eq {xs before run rest : List α} (hxs : xs = before ++ (run ++ rest))
    (hpos : 0 < before.length + run.length) (parts : List (List α)) :
    Cutting.run separates xs (rest.zipIdx (before.length + run.length)) ⟨parts, before.length⟩ =
      .ok (parts ++ run.foldr consFirst (cutsBeforeLast separates rest)) := by
  induction rest generalizing before run parts with
  | nil =>
    have hlast : stretch xs before.length xs.length = .ok run := by
      rw [hxs, List.append_nil, stretch_length (by simp), List.drop_left]
    rw [List.zipIdx_nil, Cutting.run, cutsBeforeLast, foldr_consFirst, List.append_nil, hlast]
    rfl
  | cons x rest ih =>
    rw [List.zipIdx_cons, Cutting.run_cons (Cutting.look_eq hxs hpos parts), cutsBeforeLast_cons]
    by_cases hcut : rest ≠ [] ∧ separates x = true
    · -- the run is a part, and the next one begins behind the separator
      have hlength : (before ++ run ++ [x]).length = before.length + run.length + 1 := by
        simp [Nat.add_assoc]
      have hnext := @ih (before ++ run ++ [x]) [] (by simp [hxs]) (by omega) (parts ++ [run])
      rw [hlength, List.length_nil, Nat.add_zero, List.foldr_nil, List.append_assoc] at hnext
      rw [if_pos hcut, if_pos hcut, foldr_consFirst, List.append_nil]
      exact hnext
    · -- the member belongs to the run
      have hlength : (run ++ [x]).length = run.length + 1 := by simp
      have hnext := @ih before (run ++ [x]) (by simp [hxs]) (by omega) parts
      rw [hlength, List.foldr_append, List.foldr_cons, List.foldr_nil] at hnext
      rw [if_neg hcut, if_neg hcut]
      exact hnext

/-- Cutting place by place never leaves the list, and gives its inner parts. -/
theorem innerCutsByPlaces_eq (separates : α → Bool) (xs : List α) :
    innerCutsByPlaces separates xs = .ok (innerCuts separates xs) := by
  cases xs with
  | nil => rfl
  | cons x rest =>
    have hfirst : Cutting.look separates (x :: rest) {} (x, 0) = .ok {} := by
      rw [Cutting.look, if_neg (by simp)]
      rfl
    have hrest : x :: rest = [] ++ ([x] ++ rest) := rfl
    rw [innerCutsByPlaces, List.zipIdx_cons, Cutting.run_cons hfirst]
    exact Cutting.run_eq hrest (by simp) []

end Inner

/-! ### Searching through places -/

/-- A probe that does not fail finds something of which `found` holds, or there is nothing to be found. -/
def Probes {β ε : Type} (found : β → Prop) (probe : Except ε (Option β)) : Prop :=
  (∃ b, probe = .ok (some b) ∧ found b) ∨ (probe = .ok none ∧ ∀ b, ¬ found b)

/-- Where no place fails, the search does not fail either.  What it finds is found at the first place at
which there is something, and it finds nothing only if there is nothing at any place. -/
theorem findSomeM?_cases {β ε : Type} {probe : Nat → Except ε (Option β)} {found : Nat → β → Prop}
    {s n : Nat} (h : ∀ i, s ≤ i → i < s + n → Probes (found i) (probe i)) :
    (∃ i b, (List.range' s n).findSomeM? probe = .ok (some b) ∧ s ≤ i ∧ i < s + n ∧ found i b ∧
      ∀ j, s ≤ j → j < i → ∀ b', ¬ found j b') ∨
    (List.range' s n).findSomeM? probe = .ok none ∧ ∀ i, s ≤ i → i < s + n → ∀ b, ¬ found i b := by
  induction n generalizing s with
  | zero => exact .inr ⟨rfl, fun i hi hlt => absurd hlt (Nat.not_lt.2 hi)⟩
  | succ n ih =>
    rcases h s (Nat.le_refl s) (by omega) with ⟨b, hprobe, hfound⟩ | ⟨hprobe, hnone⟩
    · have hsearch : (List.range' s (n + 1)).findSomeM? probe = .ok (some b) := by
        rw [List.range'_succ, List.findSomeM?_cons, hprobe]
        rfl
      exact .inl ⟨s, b, hsearch, Nat.le_refl s, by omega, hfound,
        fun j hj hlt => absurd hj (Nat.not_le.2 hlt)⟩
    · have hsearch : (List.range' s (n + 1)).findSomeM? probe =
          (List.range' (s + 1) n).findSomeM? probe := by
        rw [List.range'_succ, List.findSomeM?_cons, hprobe]
        rfl
      -- nothing is found at `s`
      have hbehind {k : Nat} (hlater : ∀ j, s + 1 ≤ j → j < k → ∀ b', ¬ found j b') :
          ∀ j, s ≤ j → j < k → ∀ b', ¬ found j b' := by
        intro j hj hlt
        rcases Nat.eq_or_lt_of_le hj with rfl | hj
        · exact hnone
        · exact hlater j hj hlt
      rw [hsearch]
      rcases @ih (s + 1) fun i hi hlt => h i (by omega) (by omega) with
        ⟨i, b, hfind, hi, hlt, hfound, hfirst⟩ | ⟨hfind, hnot⟩
      · exact .inl ⟨i, b, hfind, by omega, by omega, hfound, hbehind hfirst⟩
      · exact .inr ⟨hfind, hbehind fun j hj hlt => hnot j hj (by omega)⟩

/-! ### The words of a conditional -/

section Conditional

/-- What stands behind the *se* at place `i`, up to the *então* at place `j`, and what stands behind that,
if there is an *então* at place `j`. -/
def conclusionAt (ts : List Token) (i j : Nat) :
    Except OutOfRange (Option (List Token × List Token)) := do
  let closer ← memberAt ts j
  if closer.isThen then
    let condition ← stretch ts (i + 1) j
    let conclusion ← stretch ts (j + 1) ts.length
    return some (condition, conclusion)
  else return none

/-- The condition and the conclusion behind the *se* at place `i`, if there is a *se* at place `i`.  The
*então* is looked for from the second place behind it on, and not at the last place. -/
def conditionAt (ts : List Token) (i : Nat) :
    Except OutOfRange (Option (List Token × List Token)) := do
  let opener ← memberAt ts i
  if opener.isWord ifWord then
    (List.range' (i + 2) (ts.length - 1 - (i + 2))).findSomeM? (conclusionAt ts i)
  else return none

/-- The sides of a conditional, looked for place by place. -/
def splitImplicationByPlaces (ts : List Token) :
    Except OutOfRange (Option (List Token × List Token)) :=
  (List.range' 0 ts.length).findSomeM? (conditionAt ts)

variable {ts : List Token} {i j : Nat}

/-- The sides of a conditional whose words stand at the places `i` and `j`. -/
def SidesAt (ts : List Token) (i j : Nat) (sides : List Token × List Token) : Prop :=
  stretch ts (i + 1) j = .ok sides.1 ∧ stretch ts (j + 1) ts.length = .ok sides.2

/-- Where a condition is complete, its sides exist. -/
theorem CompletesAt.sidesAt (h : CompletesAt ts i j) :
    SidesAt ts i j ((ts.drop (i + 1)).take (j - (i + 1)), ts.drop (j + 1)) := by
  have hcondition := h.condition
  have hconclusion := h.conclusion
  exact ⟨stretch_of_le (by omega) (by omega), stretch_length (by omega)⟩

/-- Of the places at which an *então* completes the condition behind a *se*, there is a first one. -/
theorem CompletesAt.exists_first (h : CompletesAt ts i j) :
    ∃ j, CompletesAt ts i j ∧ ∀ j', CompletesAt ts i j' → j ≤ j' := by
  classical
  have hex : ∃ j, CompletesAt ts i j := ⟨j, h⟩
  exact ⟨Nat.find hex, Nat.find_spec hex, fun j' h' => Nat.find_min' hex h'⟩

/-- At an *então* with the *se* before it, and the tokens that both sides need, a condition is complete. -/
theorem probes_conclusionAt {opener : Token} (hi : ts[i]? = some opener)
    (hopener : opener.isWord ifWord = true) (hcondition : i + 2 ≤ j)
    (hconclusion : j + 1 < ts.length) :
    Probes (fun sides => CompletesAt ts i j ∧ SidesAt ts i j sides) (conclusionAt ts i j) := by
  obtain ⟨closer, hj⟩ : ∃ closer, ts[j]? = some closer :=
    ⟨_, List.getElem?_eq_getElem (by omega)⟩
  cases hcloser : closer.isThen with
  | true =>
    have hcomplete : CompletesAt ts i j :=
      ⟨⟨opener, hi, hopener⟩, ⟨closer, hj, hcloser⟩, hcondition, hconclusion⟩
    obtain ⟨hleft, hright⟩ := hcomplete.sidesAt
    refine .inl ⟨_, ?_, hcomplete, hleft, hright⟩
    simp [conclusionAt, memberAt_of_getElem? hj, hcloser, hleft, hright, bind, Except.bind, pure,
      Except.pure]
  | false =>
    refine .inr ⟨?_, ?_⟩
    · simp [conclusionAt, memberAt_of_getElem? hj, hcloser, bind, Except.bind, pure, Except.pure]
    · intro sides h
      obtain ⟨t, ht, hthen⟩ := h.1.closes
      obtain rfl : closer = t := Option.some.inj (hj.symm.trans ht)
      rw [hcloser] at hthen
      cases hthen

/-- At a *se*, the first *então* is found that completes a condition, if there is one. -/
theorem probes_conditionAt (hi : i < ts.length) :
    Probes (fun sides => ∃ j, CompletesAt ts i j ∧ SidesAt ts i j sides ∧
      ∀ j', CompletesAt ts i j' → j ≤ j') (conditionAt ts i) := by
  obtain ⟨opener, hopen⟩ : ∃ opener, ts[i]? = some opener := ⟨_, List.getElem?_eq_getElem hi⟩
  cases hopener : opener.isWord ifWord with
  | true =>
    have hprobe : conditionAt ts i =
        (List.range' (i + 2) (ts.length - 1 - (i + 2))).findSomeM? (conclusionAt ts i) := by
      simp [conditionAt, memberAt_of_getElem? hopen, hopener, bind, Except.bind]
    -- the places of the search are those at which a condition can be complete
    have hbounds {j : Nat} (h : CompletesAt ts i j) :
        i + 2 ≤ j ∧ j < i + 2 + (ts.length - 1 - (i + 2)) := by
      have hcondition := h.condition
      have hconclusion := h.conclusion
      omega
    have hprobes : ∀ j, i + 2 ≤ j → j < i + 2 + (ts.length - 1 - (i + 2)) →
        Probes (fun sides => CompletesAt ts i j ∧ SidesAt ts i j sides) (conclusionAt ts i j) :=
      fun j hj hlt => probes_conclusionAt hopen hopener hj (by omega)
    rw [hprobe]
    rcases findSomeM?_cases hprobes with
      ⟨j, sides, hfound, -, -, ⟨hcomplete, hsides⟩, hfirst⟩ | ⟨hfound, hnot⟩
    · refine .inl ⟨sides, hfound, j, hcomplete, hsides, fun j' hj' => ?_⟩
      by_contra hlt
      exact hfirst j' (hbounds hj').1 (by omega) _ ⟨hj', hj'.sidesAt⟩
    · refine .inr ⟨hfound, ?_⟩
      rintro sides ⟨j, hcomplete, -⟩
      exact hnot j (hbounds hcomplete).1 (hbounds hcomplete).2 _ ⟨hcomplete, hcomplete.sidesAt⟩
  | false =>
    refine .inr ⟨?_, ?_⟩
    · simp [conditionAt, memberAt_of_getElem? hopen, hopener, bind, Except.bind, pure, Except.pure]
    · rintro sides ⟨j, hcomplete, -⟩
      obtain ⟨t, ht, hif⟩ := hcomplete.opens
      obtain rfl : opener = t := Option.some.inj (hopen.symm.trans ht)
      rw [hopener] at hif
      cases hif

/-- Looking for the sides place by place never leaves the list.  The sides that are found are those at the
first places at which a condition is complete, and none are found only if there are no such places. -/
theorem splitImplicationByPlaces_cases (ts : List Token) :
    (∃ i j sides, splitImplicationByPlaces ts = .ok (some sides) ∧ SplitsAt ts i j ∧
      SidesAt ts i j sides) ∨
    splitImplicationByPlaces ts = .ok none ∧ ¬ ∃ i j, CompletesAt ts i j := by
  have hbound {i j : Nat} (h : CompletesAt ts i j) : i < 0 + ts.length := by
    have hcondition := h.condition
    have hconclusion := h.conclusion
    omega
  have hleast {i j : Nat} (h : CompletesAt ts i j) : ∃ sides j, CompletesAt ts i j ∧
      SidesAt ts i j sides ∧ ∀ j', CompletesAt ts i j' → j ≤ j' := by
    obtain ⟨j', h', hfirst⟩ := h.exists_first
    exact ⟨_, j', h', h'.sidesAt, hfirst⟩
  have hprobes : ∀ i, 0 ≤ i → i < 0 + ts.length →
      Probes (fun sides => ∃ j, CompletesAt ts i j ∧ SidesAt ts i j sides ∧
        ∀ j', CompletesAt ts i j' → j ≤ j') (conditionAt ts i) :=
    fun i _ hi => probes_conditionAt (by omega)
  rcases findSomeM?_cases hprobes with
    ⟨i, sides, hfound, -, -, ⟨j, hcomplete, hsides, hshortest⟩, hfirst⟩ | ⟨hfound, hnot⟩
  · refine .inl ⟨i, j, sides, hfound, ⟨hcomplete, fun i' j' h' => ?_⟩, hsides⟩
    rcases Nat.lt_trichotomy i i' with hlt | rfl | hlt
    · exact .inl hlt
    · exact .inr ⟨rfl, hshortest j' h'⟩
    · obtain ⟨sides', hsides'⟩ := hleast h'
      exact absurd hsides' (hfirst i' (Nat.zero_le _) hlt sides')
  · refine .inr ⟨hfound, ?_⟩
    rintro ⟨i, j, h⟩
    obtain ⟨sides, hsides⟩ := hleast h
    exact hnot i (Nat.zero_le _) (hbound h) sides hsides

theorem sidesAt_iff (h : CompletesAt ts i j) {sides : List Token × List Token} :
    SidesAt ts i j sides ↔ sides = ((ts.drop (i + 1)).take (j - (i + 1)), ts.drop (j + 1)) := by
  constructor
  · intro hsides
    exact Prod.ext (Except.ok.inj (hsides.1.symm.trans h.sidesAt.1))
      (Except.ok.inj (hsides.2.symm.trans h.sidesAt.2))
  · rintro rfl
    exact h.sidesAt

/-- The sides that recursion finds are those at the first places at which a condition is complete. -/
theorem splitImplication?_eq_some_iff_splitsAt {sides : List Token × List Token} :
    splitImplication? ts = some sides ↔ ∃ i j, SplitsAt ts i j ∧ SidesAt ts i j sides := by
  obtain ⟨condition, conclusion⟩ := sides
  rw [splitImplication?_eq_some_iff, splitsAtFirstCondition_iff]
  constructor
  · rintro ⟨i, j, hsplit, rfl, rfl⟩
    exact ⟨i, j, hsplit, hsplit.1.sidesAt⟩
  · rintro ⟨i, j, hsplit, hsides⟩
    obtain ⟨rfl, rfl⟩ := Prod.mk.inj ((sidesAt_iff hsplit.1).1 hsides)
    exact ⟨i, j, hsplit, rfl, rfl⟩

/-- Looking for the sides place by place and by recursion comes to the same. -/
theorem splitImplicationByPlaces_eq (ts : List Token) :
    splitImplicationByPlaces ts = .ok (splitImplication? ts) := by
  rcases splitImplicationByPlaces_cases ts with ⟨i, j, sides, hfound, hsplit, hsides⟩ | ⟨hfound, hnone⟩
  · rw [hfound, splitImplication?_eq_some_iff_splitsAt.2 ⟨i, j, hsplit, hsides⟩]
  · cases hsplit : splitImplication? ts with
    | none => exact hfound
    | some sides =>
      obtain ⟨i, j, hsplit, -⟩ := splitImplication?_eq_some_iff_splitsAt.1 hsplit
      exact absurd ⟨i, j, hsplit.1⟩ hnone

end Conditional

/-! ### The parts of a side -/

section Side

variable {source : Text} {side : List Token}

/-- Where a side is cut at all, its outer parts are not empty. -/
theorem outer_ne_nil {α : Type} {separates : α → Bool} {xs : List α}
    (h : 2 ≤ (innerCuts separates xs).length) :
    (innerCuts separates xs).head? ≠ some [] ∧ (innerCuts separates xs).getLast? ≠ some [] := by
  refine (interleaved_innerCuts separates xs).2 ?_
  rintro rfl
  simp [innerCuts] at h

/-- Dropping the empty parts of a side that is cut leaves at least the outer two. -/
theorem exists_dropEmpty_eq (h : 2 ≤ (innerCuts Token.isOr side).length) :
    ∃ kept, dropEmpty source side (innerCuts Token.isOr side) = .ok kept ∧ 2 ≤ kept.length := by
  obtain ⟨hhead, hlast⟩ := outer_ne_nil h
  rcases hcuts : innerCuts Token.isOr side with _ | ⟨first, _ | ⟨next, parts⟩⟩
  · simp [hcuts] at h
  · simp [hcuts] at h
  · obtain ⟨mid, last, hmid⟩ : ∃ mid last, next :: parts = mid ++ [last] := by
      obtain hnil | ⟨mid, last, hmid⟩ := List.eq_nil_or_concat (next :: parts)
      · cases hnil
      · exact ⟨mid, last, hmid.trans (List.concat_eq_append ..)⟩
    rw [hcuts, hmid] at hhead hlast
    have hfirst : first ≠ [] := fun heq => hhead (by rw [heq, List.head?_cons])
    have hend : last ≠ [] := by
      rintro rfl
      exact hlast (by rw [← List.cons_append, List.getLast?_concat])
    have hkept : nonEmpty (first :: (mid ++ [last])) = first :: (nonEmpty mid ++ [last]) := by
      simp [nonEmpty, hfirst, hend]
    refine ⟨_, dropEmpty_eq_ok_iff.2 ⟨?_, rfl⟩, ?_⟩ <;> rw [hmid, hkept]
    · exact List.cons_ne_nil _ _
    · simp

/-- A side fails only where one of its parts does. -/
theorem exists_of_sideOutline_eq_error {e : SentenceError}
    (h : sideOutline source side = .error e) :
    ∃ part ∈ innerCuts Token.isOr side, partOutline source part = .error e := by
  rcases sideOutline_eq_error h with ⟨rfl, -⟩ | ⟨part, hpart, hread⟩
  · exact ⟨[], List.mem_singleton_self [], h⟩
  · exact ⟨part, (mem_nonEmpty.1 (isPartOf_iff.1 hpart)).1, hread⟩

end Side

/-! ### Both cuts -/

/-- What the search for a conditional has to find, and how. -/
structure SplitsExactly (ts : List Token) : Prop where
  /-- Looking at the places in turn, nothing is asked for that does not exist. -/
  places : splitImplicationByPlaces ts = .ok (splitImplication? ts)
  /-- Sides are found if a condition is complete at some places, and only then. -/
  isSome_iff : (splitImplication? ts).isSome = true ↔ ∃ i j, CompletesAt ts i j
  /-- They are those at the first ones of these places, in lexicographic order. -/
  sides_iff : ∀ sides, splitImplication? ts = some sides ↔
    ∃ i j, SplitsAt ts i j ∧ SidesAt ts i j sides
  /-- Neither side is empty. -/
  ne_nil : ∀ sides, splitImplication? ts = some sides → sides.1 ≠ [] ∧ sides.2 ≠ []

/-- What cutting at inner separators has to give, and how. -/
structure CutsExactly {α : Type} (separates : α → Bool) (xs : List α) : Prop where
  /-- Looking at the places in turn, nothing is asked for that does not exist. -/
  places : innerCutsByPlaces separates xs = .ok (innerCuts separates xs)
  /-- Between the parts, in turn, stand the separators that are neither the first nor the last member. -/
  interleaved : Interleaved (innerCuts separates xs) (xs.tail.dropLast.filter separates) xs
  /-- The places of these separators are told by the outer parts, which are not empty. -/
  unique : ∀ parts, Interleaved parts (xs.tail.dropLast.filter separates) xs →
    (xs ≠ [] → parts.head? ≠ some [] ∧ parts.getLast? ≠ some []) → parts = innerCuts separates xs
  /-- Two or more parts have outer ones that are not empty. -/
  outer : 2 ≤ (innerCuts separates xs).length →
    (innerCuts separates xs).head? ≠ some [] ∧ (innerCuts separates xs).getLast? ≠ some []

theorem splitsExactly (ts : List Token) : SplitsExactly ts where
  places := splitImplicationByPlaces_eq ts
  isSome_iff := by
    rw [Option.isSome_iff_exists]
    constructor
    · rintro ⟨sides, hsides⟩
      obtain ⟨i, j, hsplit, -⟩ := splitImplication?_eq_some_iff_splitsAt.1 hsides
      exact ⟨i, j, hsplit.1⟩
    · intro h
      rcases splitImplicationByPlaces_cases ts with ⟨i, j, sides, -, hsplit, hsides⟩ | ⟨-, hnone⟩
      · exact ⟨sides, splitImplication?_eq_some_iff_splitsAt.2 ⟨i, j, hsplit, hsides⟩⟩
      · exact absurd h hnone
  sides_iff _ := splitImplication?_eq_some_iff_splitsAt
  ne_nil sides hsides := by
    obtain ⟨before, ⟨opener, closer, -, -, hcondition, hconclusion, -⟩, -⟩ :=
      splitImplication?_eq_some_iff.1 hsides
    exact ⟨hcondition, hconclusion⟩

theorem cutsExactly {α : Type} (separates : α → Bool) (xs : List α) : CutsExactly separates xs where
  places := innerCutsByPlaces_eq separates xs
  interleaved := (interleaved_innerCuts separates xs).1
  unique _ h hends := (innerCuts_eq_iff.2 ⟨h, hends⟩).symm
  outer := outer_ne_nil

/-- Conditionals are split, and lists are cut at inner separators, exactly where they should be, however
short they are.  So dropping the empty parts of a side that is cut at an *ou* always leaves two or more,
and a side fails only where one of its parts does. -/
theorem splitsExactly_and_cutsExactly :
    (∀ ts, SplitsExactly ts) ∧
    (∀ (α : Type) (separates : α → Bool) (xs : List α), CutsExactly separates xs) ∧
    ∀ source side,
      ((∃ part, innerCuts Token.isOr side = [part]) ∨
        ∃ kept, dropEmpty source side (innerCuts Token.isOr side) = .ok kept ∧ 2 ≤ kept.length) ∧
      ∀ e, sideOutline source side = .error e →
        ∃ part ∈ innerCuts Token.isOr side, partOutline source part = .error e := by
  refine ⟨splitsExactly, fun _ => cutsExactly, fun source side => ⟨?_, fun e => ?_⟩⟩
  · rcases hcuts : innerCuts Token.isOr side with _ | ⟨part, _ | ⟨next, parts⟩⟩
    · exact absurd hcuts (innerCuts_ne_nil Token.isOr side)
    · exact .inl ⟨part, rfl⟩
    · have hlen : 2 ≤ (innerCuts Token.isOr side).length := by simp [hcuts]
      obtain ⟨kept, hkept, htwo⟩ := @exists_dropEmpty_eq source side hlen
      exact .inr ⟨kept, hcuts ▸ hkept, htwo⟩
  · exact exists_of_sideOutline_eq_error

/-- A side with an *ou* at either end, and two more with nothing but an *e* between them. -/
theorem cutsExactly_lone_and :
    let source := "ou chove ou e ou neva ou".toList
    let side := tokenize source
    let e := SentenceError.emptyClause "e".toList
    (innerCuts Token.isOr side).length = 3 ∧
      (innerCuts Token.isOr side).head? ≠ some [] ∧ (innerCuts Token.isOr side).getLast? ≠ some [] ∧
      sideOutline source side = .error e ∧
      ∃ part ∈ innerCuts Token.isOr side, partOutline source part = .error e := by
  intro source side e
  have hlen : (innerCuts Token.isOr side).length = 3 := by decide +kernel
  have herror : sideOutline source side = .error e := by decide +kernel
  obtain ⟨-, hcuts, hfails⟩ := splitsExactly_and_cutsExactly
  obtain ⟨hhead, hlast⟩ := (hcuts Token Token.isOr side).outer (by omega)
  exact ⟨hlen, hhead, hlast, herror, (hfails source side).2 e herror⟩

end Sentential
