import Mathlib.Data.List.Forall2
import Mathlib.Tactic.Common
import Sentential.Proofs.Lines

/-!
# The runs of a side

The literals of a side are read from its *runs*, which remain when the side is cut at the words between
its rows and its literals, all at once (`sideRuns_eq`).

A word that separates literals can be left in a clause, at an end of the side.  Where such a clause is
written again, the word stands at an end of the tokens of its literal, negation words aside
(`OnlyAtEnds`).  Then the tokens of one literal give at most one run that can be read
(`length_nonEmpty_cuts_le_one`).
-/

namespace Sentential

open Text

/-! ### Runs -/

/-- The tokens of the literals of a side, from left to right. -/
def sideRuns (side : List Token) : List (List Token) :=
  (nonEmpty (innerCuts Token.isOr side)).flatMap fun part => nonEmpty (cuts Token.isAnd part)

theorem flatten_sideRows (side : List Token) :
    (sideRows side).flatten = (sideRuns side).map literalOf := by
  rw [sideRows, sideRuns, List.map_flatMap, List.flatMap_def]
  rfl

/-- Whether a token of a side separates rows of it. -/
def separatesRowsIn (side : List Token) (t : Token) : Bool :=
  t.isOr && (decide (side.head? ≠ some t) && decide (side.getLast? ≠ some t))

/-- Whether a token of a side separates literals of it. -/
def separatesIn (side : List Token) (t : Token) : Bool :=
  separatesRowsIn side t || t.isAnd

theorem separatesIn_of_isAnd (side : List Token) {t : Token} (h : t.isAnd = true) :
    separatesIn side t = true := by
  rw [separatesIn, h, Bool.or_true]

theorem separatesIn_eq {t : Token} (h : t.isAnd = false) (side : List Token) :
    separatesIn side t = separatesRowsIn side t := by
  rw [separatesIn, h, Bool.or_false]

theorem isOr_of_separatesRowsIn {side : List Token} {t : Token} (h : separatesRowsIn side t = true) :
    t.isOr = true := by
  rw [separatesRowsIn, Bool.and_eq_true] at h
  exact h.1

theorem separatesIn_eq_false {t : Token} (hand : t.isAnd = false) (hor : t.isOr = false)
    (side : List Token) : separatesIn side t = false := by
  rw [separatesIn_eq hand, separatesRowsIn, hor, Bool.false_and]

/-- The parts of a side are what remains when it is cut at what separates its rows. -/
theorem innerCuts_isOr_eq {side : List Token} (h : side.Nodup) :
    innerCuts Token.isOr side = cuts (separatesRowsIn side) side :=
  innerCuts_eq_cuts h

/-- The places at which a side is cut between its rows. -/
theorem innerOrs_eq_length_filter {side : List Token} (h : side.Nodup) :
    innerOrs side = (side.filter (separatesRowsIn side)).length := by
  rw [innerOrs, filter_inner_eq h]
  rfl

/-- Where parts are cut, it does not matter that empty ones are dropped before. -/
theorem flatMap_nonEmpty {α : Type} (g : List α → List (List α)) (hg : nonEmpty (g []) = [])
    (parts : List (List α)) :
    (nonEmpty parts).flatMap (fun part => nonEmpty (g part)) = nonEmpty (parts.flatMap g) := by
  induction parts with
  | nil => rfl
  | cons part parts ih =>
    rw [List.flatMap_cons, nonEmpty_append, ← ih]
    by_cases hpart : part = []
    · rw [hpart, hg]
      rfl
    · have hkeep : nonEmpty (part :: parts) = part :: nonEmpty parts := by simp [nonEmpty, hpart]
      rw [hkeep, List.flatMap_cons]

/-- The runs of a side remain when it is cut at everything that separates literals. -/
theorem sideRuns_eq {side : List Token} (h : side.Nodup) :
    sideRuns side = nonEmpty (cuts (separatesIn side) side) := by
  rw [sideRuns, innerCuts_isOr_eq h, flatMap_nonEmpty (cuts Token.isAnd) rfl, flatMap_cuts]
  rfl

/-- A run is not empty, and it is a stretch of the side. -/
theorem mem_sideRuns {side run : List Token} (hrun : run ∈ sideRuns side) :
    run ≠ [] ∧ run <:+: side ∧ ∀ t ∈ run, t.isAnd = false := by
  obtain ⟨part, hpart, hrun⟩ := List.mem_flatMap.1 hrun
  obtain ⟨hmem, hne⟩ := mem_nonEmpty.1 hrun
  exact ⟨hne, ((interleaved_cuts Token.isAnd part).isInfix_of_mem hmem).trans
    ((interleaved_innerCuts Token.isOr side).1.isInfix_of_mem (mem_nonEmpty.1 hpart).1),
    fun t ht => separates_eq_false_of_mem_cuts hmem ht⟩

/-- The runs of a side that can be read have clauses. -/
theorem clause_ne_nil_of_mem_sideRuns {side run : List Token} (h : ReadableRows (sideRows side))
    (hrun : run ∈ sideRuns side) : (literalOf run).clause ≠ [] := by
  have hmem : literalOf run ∈ (sideRows side).flatten := by
    rw [flatten_sideRows]
    exact List.mem_map_of_mem hrun
  obtain ⟨row, hrow, hl⟩ := List.mem_flatten.1 hmem
  exact (h.2 row hrow).2 _ hl

/-- A side has at most as many literals as rows and separators of conjunctions. -/
theorem length_flatten_sideRows_le (side : List Token) :
    (sideRows side).flatten.length ≤ (side.filter Token.isAnd).length + (sideRows side).length := by
  have hrow (part : List Token) : (partRow part).length ≤ (part.filter Token.isAnd).length + 1 := by
    rw [partRow, List.length_map, ← length_cuts]
    exact List.length_filter_le _ _
  have hcons (part : List Token) (parts : List (List Token)) :
      ((nonEmpty (part :: parts)).map partRow).flatten.length +
          ((nonEmpty parts).map partRow).length ≤
        (part.filter Token.isAnd).length + ((nonEmpty parts).map partRow).flatten.length +
          ((nonEmpty (part :: parts)).map partRow).length := by
    have hle := hrow part
    by_cases hpart : part = []
    · simp [nonEmpty, hpart]
    · have hkeep : nonEmpty (part :: parts) = part :: nonEmpty parts := by simp [nonEmpty, hpart]
      rw [hkeep, List.map_cons, List.flatten_cons, List.length_append, List.length_cons]
      omega
  have hinner := (interleaved_innerCuts Token.isOr side).1
  rw [sideRows]
  generalize innerCuts Token.isOr side = parts at hinner ⊢
  generalize side.tail.dropLast.filter Token.isOr = seps at hinner
  induction hinner with
  | single part =>
    have hone := hcons part []
    simp only [nonEmpty, List.filter_nil, List.map_nil, List.flatten_nil, List.length_nil] at hone ⊢
    omega
  | @cons part s parts seps xs h ih =>
    have hone := hcons part parts
    have hsep : (part.filter Token.isAnd).length + (xs.filter Token.isAnd).length ≤
        ((part ++ s :: xs).filter Token.isAnd).length := by
      rw [List.filter_append, List.length_append, List.filter_cons]
      split
      · rw [List.length_cons]
        omega
      · omega
    omega

/-- A run of nothing but negation words has no clause. -/
theorem clause_eq_nil_of_isNot {run : List Token} (h : ∀ t ∈ run, t.isNot = true) :
    (literalOf run).clause = [] := by
  have hnil : clauseTokens run = [] := by
    refine List.eq_nil_iff_forall_not_mem.2 fun t ht => ?_
    have hnot : t.isNot = false := by simpa using List.of_mem_filter ht
    rw [h t ((clauseTokens_sublist run).mem ht)] at hnot
    cases hnot
  rw [clause_literalOf, hnil]
  rfl

theorem isNot_eq_false_of_isOr {t : Token} (h : t.isOr = true) : t.isNot = false := by
  obtain ⟨-, htext⟩ : t.kind = .word ∧ t.text.lower = orWord := of_decide_eq_true h
  have hne : orWord ∉ notWords := by decide
  simp [Token.isNot, Token.isAnyWord, htext, hne]

/-- A negation word does not separate literals. -/
theorem separatesIn_eq_false_of_isNot {t : Token} (h : t.isNot = true) (side : List Token) :
    separatesIn side t = false := by
  obtain ⟨hkind, hmem⟩ : t.kind = .word ∧ t.text.lower ∈ notWords := of_decide_eq_true h
  have hnone : ∀ w ∈ notWords, w ∉ andWords ∧ w ≠ orWord := by decide
  obtain ⟨hand, hor⟩ := hnone _ hmem
  exact separatesIn_eq_false (by simp [Token.isAnd, Token.isAnyWord, hkind, hand])
    (by simp [Token.isOr, Token.isWord, hor]) side

/-- An *então* does not separate literals. -/
theorem isAnd_isOr_eq_false_of_isThen {t : Token} (h : t.isThen = true) :
    t.isAnd = false ∧ t.isOr = false := by
  obtain ⟨hkind, hmem⟩ : t.kind = .word ∧ t.text.lower ∈ thenWords := of_decide_eq_true h
  have hnone : ∀ w ∈ thenWords, w ∉ andWords ∧ w ≠ orWord := by decide
  obtain ⟨hand, hor⟩ := hnone _ hmem
  exact ⟨by simp [Token.isAnd, Token.isAnyWord, hkind, hand], by simp [Token.isOr, Token.isWord, hor]⟩

@[simp] theorem isNot_bare (t : Token) : t.bare.isNot = t.isNot := rfl

/-! ### Words at the ends of literals -/

/-- The tokens with the property `p` stand only at the ends of a list, negation words aside: at its
start if `first` holds, and at its end if `last` holds. -/
def OnlyAtEnds (p : Token → Bool) (first last : Prop) (ts : List Token) : Prop :=
  ∀ us t vs, ts = us ++ t :: vs → p t = true →
    ((∀ u ∈ us, u.isNot = true) ∧ first) ∨ ((∀ v ∈ vs, v.isNot = true) ∧ last)

section Ends

variable {p : Token → Bool} {first last : Prop} {ts us : List Token}

theorem onlyAtEnds_map_bare (hp : ∀ t, p t.bare = p t) :
    OnlyAtEnds p first last (ts.map Token.bare) ↔ OnlyAtEnds p first last ts := by
  constructor
  · rintro h us t vs rfl ht
    have hsplit := h (us.map Token.bare) t.bare (vs.map Token.bare) (by simp) ((hp t).trans ht)
    simpa only [List.forall_mem_map, isNot_bare] using hsplit
  · rintro h us' t' vs' hts ht
    obtain ⟨us, rest, rfl, rfl, hrest⟩ := List.map_eq_append_iff.1 hts
    obtain ⟨t, vs, rfl, rfl, rfl⟩ := List.map_eq_cons_iff.1 hrest
    have hsplit := h us t vs rfl ((hp t).symm.trans ht)
    simpa only [List.forall_mem_map, isNot_bare] using hsplit

/-- Putting in a negation word changes nothing. -/
theorem OnlyAtEnds.insert (h : OnlyAtEnds p first last (ts ++ us)) {x : Token} (hx : x.isNot = true)
    (hpx : p x = false) : OnlyAtEnds p first last (ts ++ x :: us) := by
  intro before t after hsplit ht
  have htx : t ≠ x := fun heq => by
    rw [heq, hpx] at ht
    cases ht
  obtain ⟨rest, rfl, hrest⟩ | ⟨rest, rfl, hrest⟩ := List.append_eq_append_iff.1 hsplit
  · cases rest with
    | nil => exact absurd (List.cons_eq_cons.1 hrest).1.symm htx
    | cons y rest =>
      obtain ⟨rfl, rfl⟩ := List.cons_eq_cons.1 hrest
      refine (h (ts ++ rest) t after (by simp) ht).imp_left fun ⟨hnot, hfirst⟩ => ⟨?_, hfirst⟩
      obtain ⟨hts, hrest⟩ := List.forall_mem_append.1 hnot
      exact List.forall_mem_append.2 ⟨hts, List.forall_mem_cons.2 ⟨hx, hrest⟩⟩
  · cases rest with
    | nil => exact absurd (List.cons_eq_cons.1 hrest).1 htx
    | cons y rest =>
      obtain ⟨rfl, rfl⟩ := List.cons_eq_cons.1 hrest
      refine (h before t (rest ++ us) (by simp) ht).imp_right fun ⟨hnot, hlast⟩ => ⟨?_, hlast⟩
      obtain ⟨hrest, hus⟩ := List.forall_mem_append.1 hnot
      exact List.forall_mem_append.2 ⟨hrest, List.forall_mem_cons.2 ⟨hx, hus⟩⟩

/-- Some of the tokens of a list, in order, stand no further from the ends. -/
theorem OnlyAtEnds.sublist (h : OnlyAtEnds p first last ts) (hsub : us.Sublist ts) :
    OnlyAtEnds p first last us := by
  rintro before t after rfl ht
  obtain ⟨front, rest, rfl, hfront, hrest⟩ := List.append_sublist_iff.1 hsub
  obtain ⟨mid, back, rfl, hmem, hback⟩ := List.cons_sublist_iff.1 hrest
  obtain ⟨mid₁, mid₂, rfl⟩ := List.append_of_mem hmem
  refine (h (front ++ mid₁) t (mid₂ ++ back) (by simp) ht).imp (fun ⟨hnot, hfirst⟩ => ⟨?_, hfirst⟩)
    fun ⟨hnot, hlast⟩ => ⟨?_, hlast⟩
  · exact fun u hu => hnot u (List.mem_append_left mid₁ (hfront.mem hu))
  · exact fun v hv => hnot v (List.mem_append_right mid₂ (hback.mem hv))

/-- Allowing further ends keeps the property. -/
theorem OnlyAtEnds.mono {first' last' : Prop} (h : OnlyAtEnds p first last ts)
    (hfirst : first → first') (hlast : last → last') : OnlyAtEnds p first' last' ts :=
  fun us t vs hts ht => (h us t vs hts ht).imp (And.imp_right hfirst) (And.imp_right hlast)

end Ends

section Cuts

variable {separates : Token → Bool} {ts : List Token}

/-- Negation words alone can be read only if there are none. -/
theorem eq_nil_of_isNot (hnot : ∀ t ∈ ts, t.isNot = true)
    (hor : ∀ t ∈ ts, separates t = true → t.isOr = true)
    (hread : ∀ run ∈ nonEmpty (cuts separates ts), (literalOf run).clause ≠ []) : ts = [] := by
  have hsep : ∀ t ∈ ts, separates t = false := by
    intro t ht
    by_contra h
    have hnot' := isNot_eq_false_of_isOr (hor t ht (by simpa using h))
    rw [hnot t ht] at hnot'
    cases hnot'
  by_contra hne
  refine hread ts ?_ (clause_eq_nil_of_isNot hnot)
  rw [cuts_eq_singleton hsep]
  exact mem_nonEmpty.2 ⟨List.mem_singleton_self ts, hne⟩

/-- Tokens with *ou* at their ends only give at most one run, if all their runs can be read. -/
theorem length_nonEmpty_cuts_le_one (hends : OnlyAtEnds Token.isOr True True ts)
    (hor : ∀ t ∈ ts, separates t = true → t.isOr = true)
    (hread : ∀ run ∈ nonEmpty (cuts separates ts), (literalOf run).clause ≠ []) :
    (nonEmpty (cuts separates ts)).length ≤ 1 := by
  induction hlen : ts.length using Nat.strong_induction_on generalizing ts with
  | _ n ih =>
    by_cases hsep : ∃ t ∈ ts, separates t = true
    · obtain ⟨t, ht, hst⟩ := hsep
      obtain ⟨us, vs, rfl⟩ := List.append_of_mem ht
      have hother : ∀ u, u ∈ us ∨ u ∈ vs → separates u = true → u.isOr = true := fun u hu =>
        hor u (by simpa using hu.imp_right .inr)
      have hus : OnlyAtEnds Token.isOr True True us :=
        hends.sublist (List.sublist_append_left us _)
      have hvs : OnlyAtEnds Token.isOr True True vs :=
        hends.sublist ((List.sublist_cons_self t vs).trans (List.sublist_append_right us _))
      simp only [List.length_append, List.length_cons] at hlen
      rw [cuts_append_cons hst, nonEmpty_append] at hread ⊢
      obtain ⟨hread₁, hread₂⟩ := List.forall_mem_append.1 hread
      -- on one side of the separator there is nothing
      obtain ⟨hnot, -⟩ | ⟨hnot, -⟩ := hends us t vs rfl (hor t ht hst)
      · rw [eq_nil_of_isNot hnot (fun u hu => hother u (.inl hu)) hread₁]
        exact ih vs.length (by omega) hvs (fun u hu => hother u (.inr hu)) hread₂ rfl
      · rw [eq_nil_of_isNot hnot (fun u hu => hother u (.inr hu)) hread₂, List.length_append]
        exact ih us.length (by omega) hus (fun u hu => hother u (.inl hu)) hread₁ rfl
    · have hnone : ∀ t ∈ ts, separates t = false := fun t ht => by
        by_contra h
        exact hsep ⟨t, ht, by simpa using h⟩
      rw [cuts_eq_singleton hnone]
      exact List.length_filter_le _ _

end Cuts

end Sentential
