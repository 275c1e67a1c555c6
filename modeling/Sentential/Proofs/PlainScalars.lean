import Mathlib.Tactic.Common
import Sentential.Proofs.Cursors
import Sentential.Yaml.Token

/-!
# Reading plain scalars

A text that may be written without quotes (`IsPlain`) is read run by run, up to the colon behind a key or to
the end of its line (`readPlain_eq`).
-/

namespace Sentential.Yaml

variable {c : Char} {t u : Text} {p q : Char → Bool}

/-! ### Pairs of neighbours -/

/-- The neighbours in two texts, one after the other, are those in each of them and the two where they
meet. -/
theorem hasPair_append (p q : Char → Bool) (t u : Text) : hasPair p q (t ++ u) =
    (hasPair p q t || hasPair p q u || (t.getLast?.any p && u.head?.any q)) := by
  induction t with
  | nil => simp [hasPair]
  | cons a t ih =>
    cases t with
    | nil =>
      cases u with
      | nil => simp [hasPair]
      | cons b u => simp [hasPair, Bool.or_comm]
    | cons b t =>
      have hlast : (a :: b :: t).getLast? = (b :: t).getLast? := List.getLast?_cons_cons
      rw [hlast, List.cons_append, List.cons_append, hasPair, hasPair, ← List.cons_append, ih]
      simp only [Bool.or_assoc]

theorem hasPair_left (h : hasPair p q (t ++ u) = false) : hasPair p q t = false := by
  rw [hasPair_append, Bool.or_eq_false_iff, Bool.or_eq_false_iff] at h
  exact h.1.1

theorem hasPair_right (h : hasPair p q (t ++ u) = false) : hasPair p q u = false := by
  rw [hasPair_append, Bool.or_eq_false_iff, Bool.or_eq_false_iff] at h
  exact h.1.2

/-- Where two texts meet, no pair of neighbours is formed. -/
theorem hasPair_between {a b : Char} (h : hasPair p q (t ++ u) = false) (ha : t.getLast? = some a)
    (hb : u.head? = some b) : (p a && q b) = false := by
  rw [hasPair_append, Bool.or_eq_false_iff, ha, hb] at h
  exact h.2

/-! ### Texts without quotes -/

/-- A text reads as itself without quotes: nothing in it ends the scalar. -/
structure IsPlain (t : Text) : Prop where
  /-- There is something to it. -/
  ne_nil : t ≠ []
  /-- It does not begin with white space. -/
  startsSolid : StartsSolid t
  /-- It does not begin with a comment. -/
  noComment : t.head? ≠ some '#'
  /-- White space in it is spaces. -/
  gaps : ∀ c ∈ t, isGap (some c) = true → c = ' '
  /-- No comment begins in it. -/
  comments : hasPair (fun c => isGap (some c)) (· = '#') t = false
  /-- No key ends in it. -/
  colons : hasPair (· = ':') (fun c => isGap (some c)) t = false
  /-- It ends neither with a space nor with a colon. -/
  last : ∀ c, t.getLast? = some c → c ≠ ' ' ∧ c ≠ ':'

/-- What keeps a text from standing without quotes. -/
theorem plainAllowed_iff : plainAllowed t = true ↔ opensIndicator t = false ∧
    holdsIndicator t = false ∧ hasOuterSpace t = false ∧ t.any isBreak = false ∧
      needsEscape t = false := by
  simp only [plainAllowed, Bool.not_eq_true', Bool.or_eq_false_iff, and_assoc]

/-- A text that is written without quotes reads as itself. -/
theorem isPlain_of_plainAllowed (h : plainAllowed t = true) (hne : t ≠ []) : IsPlain t := by
  obtain ⟨c, rest, rfl⟩ := List.exists_cons_of_ne_nil hne
  obtain ⟨hopens, hholds, houter, hbreaks, hescape⟩ := plainAllowed_iff.1 h
  simp only [holdsIndicator, Bool.or_eq_false_iff] at hholds
  obtain ⟨⟨hcomments, hcolons⟩, hcolon⟩ := hholds
  simp only [hasOuterSpace, Bool.or_eq_false_iff] at houter
  simp only [needsEscape, Bool.or_eq_false_iff, List.any_eq_false] at hescape
  simp only [List.any_eq_false] at hbreaks
  simp only [opensIndicator, Bool.or_eq_false_iff] at hopens
  have hgaps : ∀ d ∈ c :: rest, isGap (some d) = true → d = ' ' := by
    intro d hd hgap
    by_contra hne
    have htab : d ≠ '\t' := by
      rintro rfl
      exact absurd (hescape.1 _ hd) (by decide)
    simp [isGap, isBlank, hne, htab, hbreaks d hd] at hgap
  have hfollows : (decide (c ∈ "?:-".toList) && isGap rest.head?) = false := hopens.1.1.2
  constructor
  case ne_nil => exact hne
  case startsSolid =>
    rw [startsSolid_cons]
    by_contra hgap
    obtain rfl := hgaps c List.mem_cons_self (eq_true_of_ne_false hgap)
    simp at houter
  case noComment =>
    intro hc
    obtain rfl : c = '#' := by simpa using hc
    exact absurd hopens.1.1.1.1 (by decide)
  case gaps => exact hgaps
  case comments => exact hcomments
  case colons =>
    cases rest with
    | nil => rfl
    | cons d rest =>
      rw [hasPair, Bool.or_eq_false_iff]
      refine ⟨?_, hcolons⟩
      by_cases hc : c = ':'
      · subst hc
        exact hfollows
      · simp [hc]
  case last =>
    intro d hd
    constructor
    · rintro rfl
      simp [hd] at houter
    · rintro rfl
      cases rest with
      | nil =>
        obtain rfl : c = ':' := by simpa using hd
        exact absurd hfollows (by decide)
      | cons e rest => simp [hd] at hcolon

/-- What stands behind a space of a plain text, and begins with none itself, is plain as well. -/
theorem IsPlain.behind_space {front : Text} (h : IsPlain (front ++ t))
    (hspace : front.getLast? = some ' ') (hhead : t.head? ≠ some ' ') : IsPlain t := by
  have hne : t ≠ [] := by
    rintro rfl
    rw [List.append_nil] at h
    exact (h.last ' ' hspace).1 rfl
  obtain ⟨c, rest, rfl⟩ := List.exists_cons_of_ne_nil hne
  constructor
  case ne_nil => exact hne
  case startsSolid =>
    rw [startsSolid_cons]
    by_contra hgap
    exact hhead (congrArg some (h.gaps c (by simp) (eq_true_of_ne_false hgap)))
  case noComment =>
    intro hc
    have hpair := hasPair_between h.comments hspace hc
    exact absurd hpair (by decide)
  case gaps => exact fun c hc => h.gaps c (List.mem_append_right _ hc)
  case comments => exact hasPair_right h.comments
  case colons => exact hasPair_right h.colons
  case last =>
    refine fun c hc => h.last c ?_
    rw [List.getLast?_append, hc]
    rfl

/-- A plain text is a run without white space, or such a run, spaces and another plain text. -/
theorem IsPlain.exists_run (h : IsPlain t) : (∀ c ∈ t, isGap (some c) = false) ∨
    ∃ run n rest, t = run ++ (spaces (n + 1) ++ rest) ∧ run ≠ [] ∧ (∀ c ∈ run, isGap (some c) = false) ∧
      IsPlain rest := by
  obtain ⟨run, more, rfl, hrun, hmore⟩ := Yaml.exists_run (fun c => !isGap (some c)) t
  simp only [Bool.not_eq_true', Bool.not_eq_false'] at hrun hmore
  cases more with
  | nil => exact .inl (by simpa using hrun)
  | cons c more =>
    refine .inr ?_
    obtain rfl : c = ' ' := h.gaps c (by simp) (hmore c rfl)
    have hne : run ≠ [] := by
      rintro rfl
      exact absurd (h.startsSolid ' ' rfl) (by decide)
    obtain ⟨n, rest, rfl, hrest⟩ := exists_spaces_append more
    have hsplit : run ++ ' ' :: (spaces n ++ rest) = (run ++ spaces (n + 1)) ++ rest := by
      simp [spaces_succ]
    have hspace : (run ++ spaces (n + 1)).getLast? = some ' ' := by
      simp [spaces, List.getLast?_replicate]
    exact ⟨run, n, rest, rfl, hne, hrun, (hsplit ▸ h).behind_space hspace hrest⟩

/-! ### Reading -/

/-- A run without white space is counted up to the blank, line break or colon that ends it. -/
theorem plainRun_eq (ht : ∀ c ∈ t, isGap (some c) = false)
    (hcolons : hasPair (· = ':') (fun c => isGap (some c)) t = false)
    (hend : t.getLast? = some ':' → isGap u.head? = false) (hu : plainRun false u = some 0) :
    plainRun false (t ++ u) = some t.length := by
  induction t with
  | nil => exact hu
  | cons c t ih =>
    obtain ⟨hc, ht⟩ := List.forall_mem_cons.1 ht
    have hfollows : (decide (c = ':') && isGap (t ++ u).head?) = false := by
      cases t with
      | nil =>
        by_cases hcolon : c = ':'
        · subst hcolon
          simpa using hend rfl
        · simp [hcolon]
      | cons d t =>
        rw [hasPair, Bool.or_eq_false_iff] at hcolons
        exact hcolons.1
    have hrest := ih ht (hasPair_right (t := [c]) hcolons) fun hlast => hend <| by
      obtain ⟨d, t, rfl⟩ := List.exists_cons_of_ne_nil (List.ne_nil_of_mem (List.mem_of_getLast? hlast))
      rw [List.getLast?_cons_cons, hlast]
    rw [List.cons_append, plainRun, hc, hfollows, hrest]
    rfl

/-- Where a plain scalar ends: before the colon behind a key, or at the end of its line.  In the second
case the reader moves on to the next line, which must not continue the scalar. -/
inductive PlainEnd (margin : Int) (p : Cursor) : Bool → Cursor → Prop
  | colon {rest : Text} (h : p.rest = ':' :: rest) (hrest : isGap rest.head? = true) :
    PlainEnd margin p false p
  | line {n : Nat} {next : Text} (h : p.rest = '\n' :: (spaces n ++ next)) (hnext : StartsSolid next)
    (hn : Int.ofNat n < margin) : PlainEnd margin p true (p.behind ('\n' :: spaces n))

theorem PlainEnd.plainRun_eq {margin : Int} {place place' : Cursor} {broken : Bool}
    (h : PlainEnd margin place broken place') : plainRun false place.rest = some 0 := by
  cases h with
  | colon h hrest =>
    rw [h, plainRun, if_neg (by decide)]
    simp [hrest]
  | line h =>
    rw [h, plainRun]
    rfl

theorem atMarker_eq_false {place : Cursor} (h : 0 < place.column) : place.atMarker = false := by
  have hne : (place.column == 0) = false := by simpa using Nat.ne_of_gt h
  rw [Cursor.atMarker, hne]
  rfl

/-- One round of a plain scalar reads a run, and the gap behind it. -/
theorem plainFrom_run {place : Cursor} (hp : place.rest = t ++ u) (hne : t ≠ []) (ht : IsOneLine t)
    (hrun : plainRun false place.rest = some t.length)
    (hopens : (place.atMarker || decide (place.peek? = some '#')) = false) (fuel : Nat) (margin : Int)
    (acc : Text) (gap : Gap) : plainFrom (fuel + 1) false margin acc gap place =
      let acc := acc ++ gap.text ++ t
      let place := place.behind t
      if place.peek?.isSome && isGap place.peek? then
        match Gap.read place.rest.length margin {} place with
        | none => none
        | some (gap, place) =>
          if Int.ofNat place.column < margin then some (acc, gap.broken, place)
          else plainFrom fuel false margin acc gap place
      else some (acc, false, place) := by
  obtain ⟨k, hk⟩ : ∃ k, t.length = k + 1 := Nat.exists_eq_succ_of_ne_zero (by simpa using hne)
  have htake : place.rest.take (k + 1) = t := by rw [← hk, hp, List.take_left]
  have hskip : place.skip (k + 1) = place.behind t := hk ▸ Cursor.skip_eq_behind hp ht
  rw [plainFrom, if_neg (by simp [hopens]), hrun, hk]
  simp only [htake, hskip]
  cases Gap.read (place.behind t).rest.length margin {} (place.behind t) with
  | none => rfl
  | some => simp only [Bool.not_false, Bool.true_and, decide_eq_true_eq]

theorem isOneLine_of_solid (h : ∀ c ∈ t, isGap (some c) = false) : IsOneLine t :=
  fun c hc => (isGap_eq_false_iff.1 (h c hc)).2.2

section Rounds

variable {margin : Int} {place place' : Cursor} {broken : Bool} {n : Nat}

/-- The last round reads a run without white space up to the end of the scalar. -/
theorem plainFrom_end (hp : place.rest = t ++ u) (hne : t ≠ []) (ht : ∀ c ∈ t, isGap (some c) = false)
    (hrun : plainRun false place.rest = some t.length)
    (hopens : (place.atMarker || decide (place.peek? = some '#')) = false)
    (hend : PlainEnd margin (place.behind t) broken place') (fuel : Nat) (acc : Text) (gap : Gap) :
    plainFrom (fuel + 1) false margin acc gap place = some (acc ++ gap.text ++ t, broken, place') := by
  rw [plainFrom_run hp hne (isOneLine_of_solid ht) hrun hopens]
  cases hend with
  | colon h hrest =>
    have hpeek : (place.behind t).peek? = some ':' := by rw [Cursor.peek?, h, List.head?_cons]
    simp only [hpeek]
    rfl
  | @line n next h hnext hn =>
    have hpeek : (place.behind t).peek? = some '\n' := by rw [Cursor.peek?, h, List.head?_cons]
    have hfuel : ([] : Text).length + n < (place.behind t).rest.length := by
      simp only [h, List.length_nil, List.length_cons, List.length_append, length_spaces]
      omega
    have hread := Gap.read_lines (t := []) h (by decide) (List.forall_mem_singleton.2 (by decide))
      hnext hfuel margin
    simp only [hpeek, hread, List.nil_append, Cursor.column_behind_feed, if_pos hn]
    rfl

/-- Any other round reads a run without white space and the spaces behind it. -/
theorem plainFrom_spaces (hp : place.rest = t ++ (spaces (n + 1) ++ u)) (hne : t ≠ [])
    (ht : ∀ c ∈ t, isGap (some c) = false) (hrun : plainRun false place.rest = some t.length)
    (hopens : (place.atMarker || decide (place.peek? = some '#')) = false) (hu : StartsSolid u)
    (hmargin : margin ≤ Int.ofNat (place.behind (t ++ spaces (n + 1))).column) (fuel : Nat) (acc : Text)
    (gap : Gap) : plainFrom (fuel + 1) false margin acc gap place =
      plainFrom fuel false margin (acc ++ gap.text ++ t) { blanks := spaces (n + 1) }
        (place.behind (t ++ spaces (n + 1))) := by
  have hbehind := Cursor.rest_behind hp
  have hpeek : (place.behind t).peek? = some ' ' := by
    rw [Cursor.peek?, hbehind]
    rfl
  have hlong : n + 1 ≤ (place.behind t).rest.length := by simp [hbehind]
  have hread := Gap.read_spaces hbehind hu hlong {} margin
  have hgap : ((some ' ').isSome && isGap (some ' ')) = true := by decide
  rw [Cursor.behind_append] at hmargin ⊢
  rw [plainFrom_run hp hne (isOneLine_of_solid ht) hrun hopens]
  simp only [hpeek, hread, if_neg (Int.not_lt.2 hmargin), if_pos hgap, List.nil_append]
  rfl

end Rounds

/-- A plain text is read up to its end. -/
theorem plainFrom_eq (ht : IsPlain t) {margin : Int} {place place' : Cursor} {broken : Bool}
    (hp : place.rest = t ++ u) (hend : PlainEnd margin (place.behind t) broken place')
    (hmarker : place.atMarker = false) (hmargin : margin ≤ Int.ofNat place.column + 1) {fuel : Nat}
    (hfuel : t.length < fuel) (acc : Text) (gap : Gap) :
    plainFrom fuel false margin acc gap place = some (acc ++ gap.text ++ t, broken, place') := by
  induction hlen : t.length using Nat.strongRecOn generalizing t fuel acc gap place with
  | _ k ih =>
    obtain ⟨fuel, rfl⟩ : ∃ k, fuel = k + 1 := ⟨fuel - 1, by omega⟩
    have hhead : place.peek? = t.head? := by
      obtain ⟨c, rest, rfl⟩ := List.exists_cons_of_ne_nil ht.ne_nil
      rw [Cursor.peek?, hp]
      rfl
    have hopens : (place.atMarker || decide (place.peek? = some '#')) = false := by
      simp [hmarker, hhead, ht.noComment]
    rcases ht.exists_run with hsolid | ⟨run, n, rest, rfl, hne, hsolid, hrest⟩
    · have hrun : plainRun false place.rest = some t.length := by
        rw [hp]
        refine plainRun_eq hsolid ht.colons (fun h => absurd rfl (ht.last _ h).2) ?_
        rw [← Cursor.rest_behind hp]
        exact hend.plainRun_eq
      exact plainFrom_end hp ht.ne_nil hsolid hrun hopens hend fuel acc gap
    · have hp : place.rest = run ++ (spaces (n + 1) ++ (rest ++ u)) := by simpa using hp
      have hrun : plainRun false place.rest = some run.length := by
        rw [hp]
        refine plainRun_eq hsolid (hasPair_left ht.colons) (fun h => ?_) rfl
        have hpair := hasPair_between ht.colons h (b := ' ') rfl
        exact absurd hpair (by decide)
      have hnext : StartsSolid (rest ++ u) := by
        obtain ⟨c, rest, rfl⟩ := List.exists_cons_of_ne_nil hrest.ne_nil
        exact hrest.startsSolid
      have hcolumn : (place.behind (run ++ spaces (n + 1))).column = place.column + run.length + (n + 1) := by
        rw [Cursor.behind_append, Cursor.column_behind (isOneLine_spaces _),
          Cursor.column_behind (isOneLine_of_solid hsolid), length_spaces]
      have hreach : margin ≤ Int.ofNat (place.behind (run ++ spaces (n + 1))).column := by
        have hpos := List.length_pos_iff.2 hne
        simp only [hcolumn, Int.ofNat_eq_natCast] at hmargin ⊢
        omega
      have hshorter : rest.length < k := by
        simp only [← hlen, List.length_append, length_spaces]
        omega
      rw [plainFrom_spaces hp hne hsolid hrun hopens hnext hreach]
      rw [← List.append_assoc] at hp hend
      rw [Cursor.behind_append] at hend
      have hread := ih rest.length hshorter hrest (Cursor.rest_behind hp) hend
        (atMarker_eq_false (by omega)) (Int.le_add_one hreach) (by omega : rest.length < fuel)
        (acc ++ gap.text ++ run) { blanks := spaces (n + 1) } rfl
      simpa [Gap.text] using hread

/-- A plain text at the start of a scalar is read up to its end. -/
theorem readPlain_eq (ht : IsPlain t) {margin : Int} {place place' : Cursor} {broken : Bool}
    (hp : place.rest = t ++ u) (hend : PlainEnd margin (place.behind t) broken place')
    (hmarker : place.atMarker = false) (hmargin : margin ≤ Int.ofNat place.column + 1) :
    readPlain false margin place = some (t, broken, place') := by
  have hfuel : t.length < place.rest.length + 1 := by
    rw [hp, List.length_append]
    omega
  rw [readPlain, plainFrom_eq ht hp hend hmarker hmargin hfuel]
  rfl

end Sentential.Yaml
