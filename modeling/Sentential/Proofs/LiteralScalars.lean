import Mathlib.Tactic.Common
import Sentential.Proofs.QuotedScalars

/-!
# Reading literal scalars

A literal scalar is read line by line.  What its last line breaks stand for is told by the sign in its
header, so that the reader gives back the text that was written (`readBlock_literal`).
-/

namespace Sentential.Yaml

variable {c d : Char} {t u acc lead later : Text} {n indent fuel : Nat} {place : Cursor}

/-! ### Headers -/

/-- The sign of a way to end a scalar. -/
def Chomping.sign : Chomping → Text
  | .strip => ['-']
  | .clip => []
  | .keep => ['+']

/-- The header of a block scalar behind its first character. -/
def blockHeader (hint : Bool) (ch : Chomping) : Text :=
  (if hint then ['2'] else []) ++ ch.sign

theorem isOneLine_blockHeader (hint : Bool) (ch : Chomping) : IsOneLine (blockHeader hint ch) := by
  cases hint <;> cases ch <;> decide

/-- A header is read up to the end of its line. -/
theorem readBlockHeader_eq {hint : Bool} {ch : Chomping}
    (hp : place.rest = blockHeader hint ch ++ '\n' :: u) : readBlockHeader place =
      some (ch, if hint then 2 else 0, place.behind (blockHeader hint ch)) := by
  have hline := isOneLine_blockHeader hint ch
  have hskip := Cursor.skip_eq_behind hp hline
  rw [← hskip]
  obtain ⟨rest, line, column, offset⟩ := place
  obtain rfl : rest = _ := hp
  cases hint <;> cases ch <;> rfl

/-- Nothing but a line feed follows a header. -/
theorem finishLine_eq (hp : place.rest = '\n' :: u) : finishLine place = some (place.behind ['\n']) := by
  have hskip : place.skipWhile isBlank = place :=
    Cursor.skipWhile_eq_behind (t := []) hp (by decide) (by simp) (by simp; decide)
  have hpeek : place.peek? = some '\n' := by rw [Cursor.peek?, hp, List.head?_cons]
  have hbreak := Cursor.takeBreak_eq hp (by decide) (by decide)
  have hall : Option.all isBreak (some '\n') = true := by decide
  simp [finishLine, hskip, hpeek, hbreak, hall]

/-! ### Blank lines -/

/-- What follows `m` spaces at the start of a line does not belong to the lines before: it is the text of a
line, or stands further left than the scalar and does not begin with white space. -/
def EndsBreaks (indent m : Nat) (u : Text) : Prop :=
  m ≤ indent ∧ ∀ c, u.head? = some c → isBreak c = false ∧ (m < indent → isGap (some c) = false)

/-- The spaces that count as indentation. -/
theorem length_takeWhile_spaces {m : Nat} (hu : EndsBreaks indent m u) :
    (((spaces m ++ u).take indent).takeWhile fun c => c = ' ').length = m := by
  obtain ⟨hm, hu⟩ := hu
  have hspaces : ∀ c ∈ spaces m, decide (c = ' ') = true := fun c hc => by
    simpa using List.eq_of_mem_replicate hc
  rw [List.take_append, List.take_of_length_le (by simpa using hm), length_spaces,
    List.takeWhile_append_of_pos hspaces, List.length_append, length_spaces]
  have hnone : ((u.take (indent - m)).takeWhile fun c => c = ' ') = [] := by
    rw [List.takeWhile_eq_nil_iff]
    intro hpos heq
    have hlt : m < indent := by
      rw [List.length_take] at hpos
      omega
    cases u with
    | nil => simp at hpos
    | cons c u =>
      obtain rfl : c = ' ' := by simpa using heq
      exact absurd ((hu ' ' rfl).2 hlt) (by decide)
  rw [hnone]
  rfl

theorem skip_zero (place : Cursor) : place.skip 0 = place := by
  simp [Cursor.skip, Text.byteLength]

/-- Where the indentation of a line ends. -/
theorem skip_spaces {m : Nat} (hp : place.rest = spaces m ++ u) (hcolumn : place.column = 0) :
    place.skip m = place.behind (spaces m) ∧ (place.behind (spaces m)).peek? = u.head? ∧
      (place.behind (spaces m)).column = m := by
  refine ⟨by simpa using Cursor.skip_eq_behind hp (isOneLine_spaces m), ?_, ?_⟩
  · rw [Cursor.peek?, Cursor.rest_behind hp]
  · rw [Cursor.column_behind (isOneLine_spaces m), hcolumn, length_spaces, Nat.zero_add]

/-- The indentation of a line is skipped. -/
theorem blockBreaks_spaces {m : Nat} (hp : place.rest = spaces m ++ u) (hu : EndsBreaks indent m u)
    (hindent : indent ≠ 0) (hcolumn : place.column = 0) (widest : Nat) (acc : Text) :
    blockBreaks (fuel + 1) indent widest acc place =
      some (acc, max widest m, place.behind (spaces m)) := by
  obtain ⟨hskip, hpeek, hcolumn'⟩ := skip_spaces hp hcolumn
  have htab : (decide (m < indent) && decide (u.head? = some '\t')) = false := by
    by_cases hm : m < indent
    · have htab : u.head? ≠ some '\t' := fun h => absurd ((hu.2 _ h).2 hm) (by decide)
      simp [htab]
    · simp [hm]
  have hbreak : u.head?.any isBreak = false := by
    cases u with
    | nil => rfl
    | cons c u => exact (hu.2 c rfl).1
  simp only [blockBreaks, hindent, hcolumn, hp, if_false, Nat.sub_zero, length_takeWhile_spaces hu, hskip,
    hpeek, hcolumn', decide_false, Bool.false_or, htab, hbreak, Bool.false_eq_true]

/-- A line break at the start of a line is read. -/
theorem blockBreaks_break (hp : place.rest = c :: u) (hc : isBreak c = true)
    (hprintable : isPrintable c = true) (hindent : indent ≠ 0) (hcolumn : place.column = 0) (widest : Nat)
    (acc : Text) :
    blockBreaks (fuel + 1) indent widest acc place =
      blockBreaks fuel indent widest (acc ++ [c]) (place.behind [c]) := by
  have hspace : c ≠ ' ' := by
    rintro rfl
    exact absurd hc (by decide)
  have hpeek : place.peek? = some c := by
    rw [Cursor.peek?, hp]
    rfl
  have hnone : ((place.rest.take indent).takeWhile fun c => c = ' ') = [] := by
    obtain ⟨k, rfl⟩ := Nat.exists_eq_succ_of_ne_zero hindent
    simp [hp, hspace]
  have htab : c ≠ '\t' := ne_tab hprintable
  rw [blockBreaks]
  simp only [hindent, hcolumn, if_false, Nat.sub_zero, hnone, List.length_nil, skip_zero, hpeek,
    Option.any_some, hc, if_true, Cursor.takeBreak_eq hp hc hprintable]
  simp [htab, hcolumn, Cursor.behind]

/-- Blank lines are read with the indentation of the line behind them. -/
theorem blockBreaks_eq {m : Nat} (hp : place.rest = t ++ (spaces m ++ u))
    (ht : ∀ c ∈ t, isBreak c = true ∧ isPrintable c = true) (hu : EndsBreaks indent m u)
    (hindent : 0 < indent) (hcolumn : place.column = 0) (hfuel : t.length < fuel) (widest : Nat)
    (acc : Text) : ∃ widest', blockBreaks fuel indent widest acc place =
      some (acc ++ t, widest', place.behind (t ++ spaces m)) := by
  have hne : indent ≠ 0 := Nat.ne_of_gt hindent
  induction t generalizing fuel acc place with
  | nil =>
    obtain ⟨fuel, rfl⟩ : ∃ k, fuel = k + 1 := ⟨fuel - 1, by simp at hfuel; omega⟩
    refine ⟨max widest m, ?_⟩
    rw [blockBreaks_spaces hp hu hne hcolumn, List.append_nil, List.nil_append]
  | cons c t ih =>
    obtain ⟨fuel, rfl⟩ : ∃ k, fuel = k + 1 := ⟨fuel - 1, by simp at hfuel; omega⟩
    obtain ⟨⟨hc, hprintable⟩, ht⟩ := List.forall_mem_cons.1 ht
    have hnext : (place.behind [c]).rest = t ++ (spaces m ++ u) := Cursor.rest_behind (t := [c]) hp
    have hcolumn' : (place.behind [c]).column = 0 := by simp [Cursor.behind, hc]
    obtain ⟨widest', hrest⟩ := ih hnext ht hcolumn' (by simpa using hfuel) (acc ++ [c])
    refine ⟨widest', ?_⟩
    rw [blockBreaks_break hp hc hprintable hne hcolumn, hrest, List.append_assoc]
    rfl

/-- The indentation of a scalar is found on its first line, if this has characters other than spaces. -/
theorem blockBreaks_zero {m : Nat} (hp : place.rest = spaces m ++ u) (hu : StartsSolid u)
    (hcolumn : place.column = 0) (hfuel : 0 < fuel) :
    blockBreaks fuel 0 0 acc place = some (acc, m, place.behind (spaces m)) := by
  obtain ⟨fuel, rfl⟩ : ∃ k, fuel = k + 1 := ⟨fuel - 1, by omega⟩
  have hspaces : ∀ c ∈ spaces m, decide (c = ' ') = true := fun c hc => by
    simpa using List.eq_of_mem_replicate hc
  have hcount : (place.rest.takeWhile fun c => c = ' ').length = m := by
    rw [hp, List.takeWhile_append_of_pos hspaces, List.length_append, length_spaces]
    cases u with
    | nil => rfl
    | cons c u =>
      have hc : c ≠ ' ' := (isGap_eq_false_iff.1 (startsSolid_cons.1 hu)).1
      simp [hc]
  obtain ⟨hskip, hpeek, hcolumn'⟩ := skip_spaces hp hcolumn
  have htab : u.head? ≠ some '\t' := fun h => absurd (hu _ h) (by decide)
  have hbreak : u.head?.any isBreak = false := by
    cases u with
    | nil => rfl
    | cons c u => exact (isGap_eq_false_iff.1 (startsSolid_cons.1 hu)).2.2
  simp [blockBreaks, hcount, hskip, hpeek, hcolumn', htab, hbreak]

/-! ### Lines -/

/-- Line breaks at the end are not indented. -/
theorem indentLines_append_breaks (hu : ∀ c ∈ u, isBreak c = true) (atStart : Bool) (t : Text) :
    indentLines indent atStart (t ++ u) = indentLines indent atStart t ++ u := by
  induction t generalizing atStart with
  | nil =>
    cases u with
    | nil => rfl
    | cons c u => simpa [indentLines] using indentLines_breaks hu atStart []
  | cons c t ih =>
    rw [List.cons_append, indentLines, indentLines]
    split
    · rw [ih, List.cons_append]
    · rw [ih, List.append_assoc, List.cons_append]

theorem length_le_indentLines (indent : Nat) (atStart : Bool) (t : Text) :
    t.length ≤ (indentLines indent atStart t).length := by
  induction t generalizing atStart with
  | nil => exact Nat.zero_le _
  | cons c t ih =>
    rw [indentLines]
    split
    · simpa using ih true
    · have hrest := ih false
      simp
      omega

/-- A text begins and ends with characters other than line breaks. -/
structure IsCore (t : Text) : Prop where
  /-- There is something to it. -/
  ne_nil : t ≠ []
  /-- It does not begin with a line break. -/
  head : ∀ c, t.head? = some c → isBreak c = false
  /-- It does not end with a line break. -/
  last : ∀ c, t.getLast? = some c → isBreak c = false

/-- Such a text is a line, or a line with line breaks and another such text behind it. -/
theorem IsCore.exists_line (h : IsCore t) : IsOneLine t ∨
    ∃ line b bs rest, t = line ++ (b :: bs ++ rest) ∧ IsOneLine line ∧ line ≠ [] ∧
      (∀ c ∈ b :: bs, isBreak c = true) ∧ IsCore rest := by
  obtain ⟨line, more, rfl, hline, hmore⟩ := exists_run (fun c => !isBreak c) t
  simp only [Bool.not_eq_true', Bool.not_eq_false'] at hline hmore
  cases more with
  | nil => exact .inl (by rwa [List.append_nil])
  | cons b more =>
    refine .inr ?_
    have hb : isBreak b = true := hmore b rfl
    obtain ⟨bs, rest, hsplit, hrun, hrest⟩ := exists_run_cons hb more
    rw [hsplit] at h
    have hlast : rest ≠ [] := by
      rintro rfl
      have hc := h.last ((b :: bs).getLast (List.cons_ne_nil b bs)) (by
        rw [List.append_nil, List.getLast?_append, List.getLast?_eq_some_getLast (List.cons_ne_nil b bs)]
        rfl)
      rw [hrun _ (List.getLast_mem _)] at hc
      cases hc
    refine ⟨line, b, bs, rest, by rw [hsplit], hline, ?_, hrun, hlast, hrest, fun c hc => h.last c ?_⟩
    · rintro rfl
      exact absurd hb (by simp [h.head b rfl])
    · rw [List.getLast?_append, List.getLast?_append, hc]
      rfl

/-- One round reads a line, the line break behind it, and the blank lines that follow. -/
theorem blockLines_line {line : Text} {b : Char} {m : Nat} (hline : IsOneLine line)
    (hp : place.rest = line ++ (b :: t ++ (spaces m ++ u))) (hcolumn : place.column = indent)
    (ht : ∀ c ∈ b :: t, isBreak c = true ∧ isPrintable c = true) (hu : EndsBreaks indent m u)
    (hindent : 0 < indent) (fuel : Nat) (acc lead between : Text) (blank : Bool) :
    ∃ blank', blockLines (fuel + 1) true indent acc lead between blank place =
      blockLines fuel true indent (acc ++ (lead ++ between) ++ line) [b] t blank'
        (place.behind (line ++ (b :: t ++ spaces m))) := by
  obtain ⟨⟨hb, hprintable⟩, ht⟩ := List.forall_mem_cons.1 ht
  have hrest : place.rest ≠ [] := by simp [hp]
  have htake : (place.rest.takeWhile fun c => !isBreak c) = line := by
    rw [hp, List.takeWhile_append_of_pos fun c hc => by simp [hline c hc]]
    simp [hb]
  have hskip : place.skip line.length = place.behind line := Cursor.skip_eq_behind hp hline
  have hbehind := Cursor.rest_behind hp
  have hbreak := Cursor.takeBreak_eq (u := t ++ (spaces m ++ u)) hbehind hb hprintable
  have hnext : ((place.behind line).behind [b]).rest = t ++ (spaces m ++ u) :=
    Cursor.rest_behind (t := [b]) hbehind
  have hzero : ((place.behind line).behind [b]).column = 0 := by simp [Cursor.behind, hb]
  have hfuel : t.length < ((place.behind line).behind [b]).rest.length + 1 := by
    rw [hnext, List.length_append]
    omega
  obtain ⟨widest, hbreaks⟩ := blockBreaks_eq hnext ht hu hindent hzero hfuel 0 []
  refine ⟨place.peek?.any isBlank, ?_⟩
  rw [blockLines, if_pos ⟨hcolumn, hrest⟩]
  simp only [htake, hskip, hbreak, hbreaks, List.nil_append]
  simp [← Cursor.behind_append]

/-- The scalar ends where a line stands further left. -/
theorem blockLines_end (hcolumn : place.column ≠ indent) {between : Text} {blank : Bool} :
    blockLines fuel true indent acc lead between blank place = some (acc, lead, between, place) := by
  cases fuel with
  | zero => rfl
  | succ fuel => rw [blockLines, if_neg fun h => hcolumn h.1]

theorem endsBreaks_of_lt (hn : n < indent) (hu : StartsSolid u) : EndsBreaks indent n u :=
  ⟨hn.le, fun c hc => ⟨(isGap_eq_false_iff.1 (hu c hc)).2.2, fun _ => hu c hc⟩⟩

theorem endsBreaks_self (hu : ∀ c, u.head? = some c → isBreak c = false) : EndsBreaks indent indent u :=
  ⟨Nat.le_refl _, fun c hc => ⟨hu c hc, fun h => absurd h (Nat.lt_irrefl _)⟩⟩

/-- The lines of a literal scalar are read up to the line breaks at its end. -/
theorem blockLines_eq (ht : IsCore t) (hprintable : ∀ c ∈ t, isPrintable c = true)
    (hp : place.rest = indentLines indent false t ++ (d :: later ++ (spaces n ++ u)))
    (hlater : ∀ c ∈ d :: later, isBreak c = true ∧ isPrintable c = true) (hn : n < indent)
    (hu : StartsSolid u) (hcolumn : place.column = indent) (hfuel : t.length < fuel)
    (acc lead between : Text) (blank : Bool) : blockLines fuel true indent acc lead between blank place =
      some (acc ++ (lead ++ between) ++ t, [d], later,
        place.behind (indentLines indent false t ++ (d :: later ++ spaces n))) := by
  induction hlen : t.length using Nat.strongRecOn generalizing t fuel acc lead between blank place with
  | _ k ih =>
    obtain ⟨fuel, rfl⟩ : ∃ k, fuel = k + 1 := ⟨fuel - 1, by omega⟩
    rcases ht.exists_line with hline | ⟨line, b, bs, rest, rfl, hline, hne, hbs, hrest⟩
    · -- the last line
      have hsame : indentLines indent false (t ++ []) = t ++ indentLines indent false [] :=
        indentLines_append hline []
      rw [List.append_nil, indentLines, List.append_nil] at hsame
      rw [hsame] at hp ⊢
      obtain ⟨blank', hround⟩ := blockLines_line hline hp hcolumn hlater (endsBreaks_of_lt hn hu)
        (by omega) fuel acc lead between blank
      have hcolumn' : (place.behind (t ++ (d :: later ++ spaces n))).column = n := by
        rw [Cursor.behind_append, Cursor.column_behind_breaks fun c hc => (hlater c hc).1]
      rw [hround, blockLines_end (by rw [hcolumn']; exact hn.ne)]
    · -- a line with others behind it
      have hbody : indentLines indent false (line ++ (b :: bs ++ rest)) =
          line ++ (b :: bs ++ (spaces indent ++ indentLines indent false rest)) := by
        rw [indentLines_append hline, indentLines_breaks hbs, indentLines_true hrest.ne_nil hrest.head]
      rw [hbody] at hp ⊢
      have hprintable' : ∀ c ∈ b :: bs, isBreak c = true ∧ isPrintable c = true := fun c hc =>
        ⟨hbs c hc, hprintable c (by simp at hc ⊢; tauto)⟩
      have hends : EndsBreaks indent indent
          (indentLines indent false rest ++ (d :: later ++ (spaces n ++ u))) := by
        obtain ⟨a, rest, rfl⟩ := List.exists_cons_of_ne_nil hrest.ne_nil
        rw [indentLines_cons (hrest.head a rfl)]
        exact endsBreaks_self hrest.head
      obtain ⟨blank', hround⟩ := blockLines_line hline (by simpa using hp) hcolumn hprintable' hends
        (by omega) fuel acc lead between blank
      have hnext : (place.behind (line ++ (b :: bs ++ spaces indent))).rest =
          indentLines indent false rest ++ (d :: later ++ (spaces n ++ u)) :=
        Cursor.rest_behind (by simpa using hp)
      have hcolumn' : (place.behind (line ++ (b :: bs ++ spaces indent))).column = indent := by
        rw [Cursor.behind_append, Cursor.column_behind_breaks hbs]
      have hfuel' : rest.length < fuel := by
        simp at hfuel
        omega
      rw [hround, ih rest.length (by rw [← hlen]; simp; omega) hrest
        (fun c hc => hprintable c (by simp; tauto)) hnext hcolumn' hfuel' _ [b] bs blank' rfl]
      simp [← Cursor.behind_append]

/-! ### Scalars -/

/-- The line breaks at the start of a text, what stands between, and the line breaks at its end. -/
theorem exists_core (h : ∃ c ∈ t, isBreak c = false) : ∃ before core after,
    t = before ++ (core ++ after) ∧ (∀ c ∈ before, isBreak c = true) ∧ IsCore core ∧
      ∀ c ∈ after, isBreak c = true := by
  obtain ⟨before, rest, rfl, hbefore, hrest⟩ := exists_run isBreak t
  obtain ⟨run, more, hsplit, hrun, hmore⟩ := exists_run isBreak rest.reverse
  have hrestEq : rest = more.reverse ++ run.reverse := by
    rw [← List.reverse_append, ← hsplit, List.reverse_reverse]
  have hne : more ≠ [] := by
    rintro rfl
    obtain ⟨c, hc, hline⟩ := h
    rcases List.mem_append.1 hc with hc | hc
    · simp [hbefore c hc] at hline
    · simp [hrun c (by simpa [hrestEq] using hc)] at hline
  refine ⟨before, more.reverse, run.reverse, by rw [hrestEq], hbefore, ⟨by simpa using hne, ?_, ?_⟩,
    fun c hc => hrun c (List.mem_reverse.1 hc)⟩
  · intro c hc
    refine hrest c ?_
    rw [hrestEq, List.head?_append, hc]
    rfl
  · intro c hc
    exact hmore c (by simpa using hc)

/-- The line break behind the last line of a text, if the text does not have one. -/
def lineEnd (t : Text) : Text :=
  if t.getLast?.any isBreak then [] else ['\n']

theorem lineEnd_append (t : Text) (c : Char) :
    lineEnd (t ++ [c]) = if isBreak c then [] else ['\n'] := by
  simp [lineEnd]

theorem chompingSign_append (t : Text) (c : Char) : chompingSign (t ++ [c]) =
    if !isBreak c then ['-'] else if t.isEmpty || t.getLast?.any isBreak then ['+'] else [] := by
  simp [chompingSign]

/-- The part of the line breaks at the end of a scalar that belongs to its text. -/
def Chomping.tail (lead later : Text) : Chomping → Text
  | .strip => []
  | .clip => lead
  | .keep => lead ++ later

/-- The way in which a literal scalar ends gives back the line breaks at the end of its text. -/
theorem exists_chomping (before : Text) {core after : Text} (hcore : IsCore core)
    (hafter : ∀ c ∈ after, isBreak c = true) : ∃ (ch : Chomping) (first : Char) (later : Text),
      chompingSign (before ++ (core ++ after)) = ch.sign ∧
      after ++ lineEnd (before ++ (core ++ after)) = first :: later ∧
      (first = '\n' ∨ first ∈ after) ∧ (∀ c ∈ later, c ∈ after) ∧ after = ch.tail [first] later := by
  obtain ⟨init, a, rfl⟩ : ∃ init a, core = init ++ [a] :=
    ⟨core.dropLast, core.getLast hcore.ne_nil, (List.dropLast_append_getLast hcore.ne_nil).symm⟩
  have ha : isBreak a = false := hcore.last a (by simp)
  match after, hafter with
  | [], _ =>
    have hsplit : before ++ (init ++ [a] ++ []) = before ++ init ++ [a] := by simp
    rw [hsplit, chompingSign_append, lineEnd_append, ha]
    exact ⟨.strip, '\n', [], rfl, rfl, .inl rfl, by simp, rfl⟩
  | [d], hafter =>
    have hd : isBreak d = true := hafter d List.mem_cons_self
    have hsplit : before ++ (init ++ [a] ++ [d]) = before ++ init ++ [a] ++ [d] := by simp
    rw [hsplit, chompingSign_append, lineEnd_append, hd]
    exact ⟨.clip, d, [], by simp [ha, Chomping.sign], rfl, .inr (by simp), by simp, rfl⟩
  | d :: e :: rest, hafter =>
    obtain ⟨mid, z, hz⟩ : ∃ mid z, e :: rest = mid ++ [z] :=
      ⟨_, _, (List.dropLast_append_getLast (List.cons_ne_nil e rest)).symm⟩
    have hlast : isBreak z = true := hafter z (by simp [hz])
    have hsplit : before ++ (init ++ [a] ++ d :: e :: rest) =
        before ++ (init ++ [a]) ++ (d :: mid) ++ [z] := by
      simp [hz]
    have hprevious : (before ++ (init ++ [a]) ++ d :: mid).getLast?.any isBreak = true := by
      rw [List.getLast?_append, List.getLast?_eq_some_getLast (List.cons_ne_nil d mid)]
      refine hafter _ ?_
      have hmem := List.getLast_mem (List.cons_ne_nil d mid)
      rw [hz, ← List.cons_append]
      exact List.mem_append_left _ hmem
    rw [hsplit, chompingSign_append, lineEnd_append, hlast, hprevious]
    exact ⟨.keep, d, e :: rest, by simp [Chomping.sign], by simp, .inr (by simp),
      fun c hc => List.mem_cons_of_mem _ hc, rfl⟩

/-- Whether the indentation of a text cannot be seen on its first line. -/
def needsHint (t : Text) : Bool :=
  t.head?.any fun c => c = ' ' || isBreak c

theorem literal_eq {ch : Chomping} (h : chompingSign t = ch.sign) : literal indent t =
    '|' :: (blockHeader (needsHint t) ch ++ '\n' :: indentLines indent true t) := by
  simp [literal, h, blockHeader, needsHint]
  rfl

/-- A block scalar is read behind its header: its first line tells the indentation if the header does
not. -/
theorem readBlock_eq {outer widest : Nat} {hint : Bool} {ch : Chomping} {lead' later' : Text}
    {start first last : Cursor} (hp : place.rest = '|' :: (blockHeader hint ch ++ '\n' :: u))
    (hstart : place.behind ('|' :: (blockHeader hint ch ++ ['\n'])) = start)
    (hbreaks : blockBreaks (start.rest.length + 1) (if hint then outer + 2 else 0) 0 [] start =
      some (later, widest, first))
    (hwidest : hint = false → widest = outer + 2)
    (hlines : blockLines (first.rest.length + 1) true (outer + 2) [] [] later false first =
      some (acc, lead', later', last)) : readBlock outer place =
      some (acc ++ ch.tail lead' later', last) := by
  have hpeek : place.peek? = some '|' := by rw [Cursor.peek?, hp, List.head?_cons]
  have hskip := Cursor.skip_one hp (by decide)
  have hafter : (place.behind ['|']).rest = blockHeader hint ch ++ '\n' :: u :=
    Cursor.rest_behind (t := ['|']) hp
  have hheader := readBlockHeader_eq hafter
  have hfinish := finishLine_eq (Cursor.rest_behind hafter)
  have hstart' : ((place.behind ['|']).behind (blockHeader hint ch)).behind ['\n'] = start := by
    rw [← hstart, ← Cursor.behind_append, ← Cursor.behind_append]
    rfl
  rw [hstart'] at hfinish
  cases hint with
  | false =>
    have hindent : max 1 (max widest (Int.toNat (outer + 1))) = outer + 2 := by
      rw [hwidest rfl]
      omega
    simp only [readBlock, hpeek, hskip, hheader, hfinish, Option.bind_eq_bind, Option.bind_some,
      Bool.false_eq_true, if_false, if_true] at hbreaks ⊢
    simp only [hbreaks, Option.bind_some, hindent, hlines, decide_true]
    cases ch <;> rfl
  | true =>
    simp only [readBlock, hpeek, hskip, hheader, hfinish, Option.bind_eq_bind, Option.bind_some,
      if_true] at hbreaks ⊢
    have htwo : (2 : Nat) ≠ 0 := by decide
    have hgiven : outer + 2 ≠ 0 := by omega
    simp only [htwo, hgiven, if_false, Int.toNat_natCast, hbreaks, Option.bind_some, hlines, decide_true]
    cases ch <;> rfl

/-- What is written behind the header of a literal scalar. -/
theorem indentLines_core {before core after : Text} (hbefore : ∀ c ∈ before, isBreak c = true)
    (hcore : IsCore core) (hafter : ∀ c ∈ after, isBreak c = true) :
    indentLines indent true (before ++ (core ++ after)) =
      before ++ (spaces indent ++ (indentLines indent false core ++ after)) := by
  have hne : core ++ after ≠ [] := List.append_ne_nil_of_left_ne_nil hcore.ne_nil after
  have hhead : ∀ c, (core ++ after).head? = some c → isBreak c = false := fun c hc => by
    rw [List.head?_append_of_ne_nil _ hcore.ne_nil] at hc
    exact hcore.head c hc
  have hrest : indentLines indent true (core ++ after) =
      spaces indent ++ (indentLines indent false core ++ after) := by
    rw [indentLines_true hne hhead, indentLines_append_breaks hafter]
  cases before with
  | nil => exact hrest
  | cons c before => rw [indentLines_breaks hbefore, hrest]

/-- From the start of a line the column behind line breaks, if any, is that of the spaces. -/
theorem column_behind_lines (hcolumn : place.column = 0) (ht : ∀ c ∈ t, isBreak c = true) (n : Nat) :
    (place.behind (t ++ spaces n)).column = n := by
  cases t with
  | nil =>
    rw [List.nil_append, Cursor.column_behind (isOneLine_spaces n), hcolumn, length_spaces, Nat.zero_add]
  | cons c t =>
    exact Cursor.column_behind_breaks ht n place

/-- The header of a literal scalar lets its indentation be found. -/
theorem exists_blockBreaks_eq {outer : Nat} {before core : Text} {start : Cursor}
    (hp : start.rest = before ++ (spaces (outer + 2) ++ (indentLines (outer + 2) false core ++ u)))
    (hcolumn : start.column = 0) (hbefore : ∀ c ∈ before, isBreak c = true) (hcore : IsCore core)
    (hprintable : ∀ c ∈ before ++ core, isPrintable c = true) : ∃ widest,
      blockBreaks (start.rest.length + 1) (if needsHint (before ++ core) then outer + 2 else 0) 0 [] start =
        some (before, widest, start.behind (before ++ spaces (outer + 2))) ∧
      (needsHint (before ++ core) = false → widest = outer + 2) := by
  obtain ⟨a, core, rfl⟩ := List.exists_cons_of_ne_nil hcore.ne_nil
  have ha : isBreak a = false := hcore.head a rfl
  rw [indentLines_cons ha] at hp
  cases hhint : needsHint (before ++ a :: core) with
  | true =>
    have hfuel : before.length < start.rest.length + 1 := by
      rw [hp, List.length_append]
      omega
    have hends : EndsBreaks (outer + 2) (outer + 2) (a :: indentLines (outer + 2) false core ++ u) :=
      endsBreaks_self hcore.head
    obtain ⟨widest, hread⟩ := blockBreaks_eq hp
      (fun c hc => ⟨hbefore c hc, hprintable c (List.mem_append_left _ hc)⟩)
      hends (by omega) hcolumn hfuel 0 []
    exact ⟨widest, hread, nofun⟩
  | false =>
    have hnone : before = [] := by
      cases before with
      | nil => rfl
      | cons c before => simp [needsHint, hbefore c List.mem_cons_self] at hhint
    subst hnone
    have hspace : a ≠ ' ' := by
      rintro rfl
      simp [needsHint] at hhint
    have hsolid : StartsSolid (a :: indentLines (outer + 2) false core ++ u) :=
      startsSolid_cons.2 (isGap_eq_false_iff.2 ⟨hspace, ne_tab (hprintable a (by simp)), ha⟩)
    exact ⟨outer + 2, blockBreaks_zero hp hsolid hcolumn (Nat.succ_pos _), fun _ => rfl⟩

/-- Behind the header of a literal scalar a line begins. -/
theorem behind_header {hint : Bool} {ch : Chomping}
    (hp : place.rest = '|' :: (blockHeader hint ch ++ '\n' :: u)) :
    (place.behind ('|' :: (blockHeader hint ch ++ ['\n']))).rest = u ∧
      (place.behind ('|' :: (blockHeader hint ch ++ ['\n']))).column = 0 := by
  refine ⟨Cursor.rest_behind (by simpa using hp), ?_⟩
  rw [← List.cons_append, Cursor.behind_append]
  exact Cursor.column_behind_feed 0 _

/-- A text with a line that is not empty is read back. -/
theorem readBlock_core {outer : Nat} {before core after : Text} (hbefore : ∀ c ∈ before, isBreak c = true)
    (hcore : IsCore core) (hafter : ∀ c ∈ after, isBreak c = true)
    (hprintable : ∀ c ∈ before ++ (core ++ after), isPrintable c = true)
    (hp : place.rest = literal (outer + 2) (before ++ (core ++ after)) ++
      (lineEnd (before ++ (core ++ after)) ++ (spaces n ++ u))) (hn : n < outer + 2) (hu : StartsSolid u) :
    readBlock outer place = some (before ++ (core ++ after),
      place.behind (literal (outer + 2) (before ++ (core ++ after)) ++
        (lineEnd (before ++ (core ++ after)) ++ spaces n))) := by
  obtain ⟨ch, first, later, hsign, hend, hfirst, hlater, htail⟩ := exists_chomping before hcore hafter
  have hshown : ∀ c ∈ first :: later, isBreak c = true ∧ isPrintable c = true := by
    have hmember {c : Char} (hc : c ∈ after) : isBreak c = true ∧ isPrintable c = true :=
      ⟨hafter c hc, hprintable c (by simp [hc])⟩
    refine List.forall_mem_cons.2 ⟨?_, fun c hc => hmember (hlater c hc)⟩
    rcases hfirst with rfl | hfirst
    · decide
    · exact hmember hfirst
  rw [literal_eq hsign, indentLines_core hbefore hcore hafter] at hp ⊢
  have hp : place.rest = '|' :: (blockHeader (needsHint (before ++ (core ++ after))) ch ++ '\n' ::
      (before ++ (spaces (outer + 2) ++ (indentLines (outer + 2) false core ++
        (first :: later ++ (spaces n ++ u)))))) := by
    rw [hp, ← hend]
    simp
  have hhint : needsHint (before ++ (core ++ after)) = needsHint (before ++ core) := by
    rw [needsHint, needsHint, ← List.append_assoc, List.head?_append_of_ne_nil]
    exact List.append_ne_nil_of_right_ne_nil before hcore.ne_nil
  obtain ⟨hrest, hcolumn⟩ := behind_header hp
  generalize hplace : place.behind ('|' :: (blockHeader (needsHint (before ++ (core ++ after))) ch ++
    ['\n'])) = start at hrest hcolumn
  obtain ⟨widest, hbreaks, hwidest⟩ := exists_blockBreaks_eq hrest hcolumn hbefore hcore
    fun c hc => hprintable c (by simp at hc ⊢; tauto)
  rw [← hhint] at hbreaks hwidest
  have hnext : (start.behind (before ++ spaces (outer + 2))).rest =
      indentLines (outer + 2) false core ++ (first :: later ++ (spaces n ++ u)) :=
    Cursor.rest_behind (by simpa using hrest)
  have hfuel : core.length < (start.behind (before ++ spaces (outer + 2))).rest.length + 1 := by
    have hlong := length_le_indentLines (outer + 2) false core
    rw [hnext, List.length_append]
    omega
  have hlines := blockLines_eq hcore (fun c hc => hprintable c (by simp [hc])) hnext hshown hn hu
    (column_behind_lines hcolumn hbefore _) hfuel [] [] before false
  rw [readBlock_eq hp hplace hbreaks hwidest hlines]
  simp [← htail, ← hplace, ← Cursor.behind_append, ← hend]

/-- A text of line breaks keeps them all, and needs none behind it. -/
theorem chompingSign_of_breaks (hne : t ≠ []) (ht : ∀ c ∈ t, isBreak c = true) :
    chompingSign t = Chomping.keep.sign ∧ lineEnd t = [] := by
  obtain ⟨init, z, rfl⟩ : ∃ init z, t = init ++ [z] :=
    ⟨_, _, (List.dropLast_append_getLast hne).symm⟩
  have hz : isBreak z = true := ht z (by simp)
  have hinit : (init.isEmpty || init.getLast?.any isBreak) = true := by
    cases init with
    | nil => rfl
    | cons d init =>
      rw [List.getLast?_eq_some_getLast (List.cons_ne_nil d init)]
      exact ht _ (List.mem_append_left _ (List.getLast_mem _))
  rw [chompingSign_append, lineEnd_append, hz, hinit]
  exact ⟨rfl, rfl⟩

/-- A text of line breaks is read back. -/
theorem readBlock_breaks {outer : Nat} (hne : t ≠ []) (ht : ∀ c ∈ t, isBreak c = true)
    (hprintable : ∀ c ∈ t, isPrintable c = true)
    (hp : place.rest = literal (outer + 2) t ++ (lineEnd t ++ (spaces n ++ u))) (hn : n < outer + 2)
    (hu : StartsSolid u) : readBlock outer place =
      some (t, place.behind (literal (outer + 2) t ++ (lineEnd t ++ spaces n))) := by
  obtain ⟨hsign, hend⟩ := chompingSign_of_breaks hne ht
  obtain ⟨c, rest, rfl⟩ := List.exists_cons_of_ne_nil hne
  have hhint : needsHint (c :: rest) = true := by simp [needsHint, ht c List.mem_cons_self]
  have hbody : indentLines (outer + 2) true (c :: rest) = c :: rest := by
    simpa [indentLines] using indentLines_breaks ht true []
  rw [hend, literal_eq hsign, hbody, hhint, List.nil_append] at hp ⊢
  have hp : place.rest = '|' :: (blockHeader true .keep ++ '\n' :: (c :: rest ++ (spaces n ++ u))) := by
    simpa using hp
  obtain ⟨hrest, hcolumn⟩ := behind_header hp
  generalize hplace : place.behind ('|' :: (blockHeader true .keep ++ ['\n'])) = start at hrest hcolumn
  have hfuel : (c :: rest).length < start.rest.length + 1 := by
    rw [hrest, List.length_append]
    omega
  obtain ⟨widest, hread⟩ := blockBreaks_eq hrest (fun d hd => ⟨ht d hd, hprintable d hd⟩)
    (endsBreaks_of_lt hn hu) (by omega) hcolumn hfuel 0 []
  have hleft : (start.behind (c :: rest ++ spaces n)).column ≠ outer + 2 := by
    rw [Cursor.column_behind_breaks ht]
    exact hn.ne
  rw [readBlock_eq hp hplace hread (by simp) (blockLines_end hleft)]
  simp [Chomping.tail, ← hplace, ← Cursor.behind_append]

/-- A literal scalar is read back, with the line breaks and the indentation behind it. -/
theorem readBlock_literal {outer : Nat} (hne : t ≠ []) (hprintable : ∀ c ∈ t, isPrintable c = true)
    (hp : place.rest = literal (outer + 2) t ++ (lineEnd t ++ (spaces n ++ u))) (hn : n < outer + 2)
    (hu : StartsSolid u) : readBlock outer place =
      some (t, place.behind (literal (outer + 2) t ++ (lineEnd t ++ spaces n))) := by
  by_cases hcore : ∃ c ∈ t, isBreak c = false
  · obtain ⟨before, core, after, rfl, hbefore, hcore, hafter⟩ := exists_core hcore
    exact readBlock_core hbefore hcore hafter hprintable hp hn hu
  · have hbreaks : ∀ c ∈ t, isBreak c = true := fun c hc => by
      by_contra hline
      exact hcore ⟨c, hc, eq_false_of_ne_true hline⟩
    exact readBlock_breaks hne hbreaks hprintable hp hn hu

/-- Lines end with the last character of the text. -/
theorem getLast?_indentLines (indent : Nat) (atStart : Bool) (t : Text) :
    (indentLines indent atStart t).getLast? = t.getLast? := by
  induction t generalizing atStart with
  | nil => rfl
  | cons c t ih =>
    rw [indentLines]
    split
    · rw [List.getLast?_cons, List.getLast?_cons, ih]
    · rw [List.getLast?_append, List.getLast?_cons, List.getLast?_cons, ih, Option.some_or]

/-- A literal scalar ends with a line break. -/
theorem exists_isBreak_getLast? (hne : t ≠ []) (indent : Nat) :
    ∃ c, (literal indent t ++ lineEnd t).getLast? = some c ∧ isBreak c = true := by
  have hlast : (literal indent t).getLast? = t.getLast? := by
    rw [literal, List.getLast?_append, getLast?_indentLines,
      List.getLast?_eq_some_getLast hne, Option.some_or]
  rw [List.getLast?_append, hlast, lineEnd, List.getLast?_eq_some_getLast hne]
  by_cases hbreak : isBreak (t.getLast hne) = true
  · exact ⟨t.getLast hne, by simp [hbreak], hbreak⟩
  · exact ⟨'\n', by simp [hbreak], by decide⟩

end Sentential.Yaml
