import Mathlib.Tactic.Common
import Sentential.Proofs.JsonGrammar
import Sentential.Proofs.Words
import Sentential.Yaml.Printer

/-!
# Places behind a text

A reader that has read a text is at the place behind it (`Cursor.behind`).  The offset of that place is told
by the bytes of the text, its line and column by the line breaks.  A gap inside a scalar ends at the next
character that is no white space (`Gap.read_spaces`, `Gap.read_lines`).
-/

namespace Sentential.Yaml

variable {c : Char} {t u : Text} {n : Nat}

/-! ### White space -/

/-- A text does not begin with white space. -/
def StartsSolid (t : Text) : Prop :=
  ∀ c, t.head? = some c → isGap (some c) = false

/-- A text stays on one line. -/
def IsOneLine (t : Text) : Prop :=
  ∀ c ∈ t, isBreak c = false

instance (t : Text) : Decidable (IsOneLine t) :=
  List.decidableBAll _ t

theorem startsSolid_cons : StartsSolid (c :: t) ↔ isGap (some c) = false := by
  simp [StartsSolid]

theorem isOneLine_cons : IsOneLine (c :: t) ↔ isBreak c = false ∧ IsOneLine t := by
  simp [IsOneLine]

theorem isOneLine_spaces (n : Nat) : IsOneLine (spaces n) := by
  intro c hc
  rw [List.eq_of_mem_replicate hc]
  decide

theorem spaces_succ (n : Nat) : spaces (n + 1) = ' ' :: spaces n := rfl

@[simp] theorem length_spaces (n : Nat) : (spaces n).length = n :=
  List.length_replicate

/-- What is no white space is neither a space nor a line break. -/
theorem isGap_eq_false_iff : isGap (some c) = false ↔ c ≠ ' ' ∧ c ≠ '\t' ∧ isBreak c = false := by
  simp [isGap, isBlank, and_assoc]

/-- A line break is no blank. -/
theorem isBlank_eq_false (hc : isBreak c = true) : isBlank c = false := by
  rw [isBlank, Bool.or_eq_false_iff, decide_eq_false_iff_not, decide_eq_false_iff_not]
  constructor <;>
  · rintro rfl
    exact absurd hc (by decide)

/-- A text is a run of characters that pass a test, and a text that does not begin with one. -/
theorem exists_run (q : Char → Bool) (t : Text) : ∃ run rest, t = run ++ rest ∧
    (∀ c ∈ run, q c = true) ∧ ∀ c, rest.head? = some c → q c = false :=
  ⟨t.takeWhile q, t.dropWhile q, List.takeWhile_append_dropWhile.symm,
    fun c hc => List.all_eq_true.1 List.all_takeWhile c hc, head?_dropWhile_eq_false q t⟩

theorem exists_run_cons {q : Char → Bool} (hc : q c = true) (t : Text) : ∃ run rest,
    c :: t = c :: run ++ rest ∧ (∀ d ∈ c :: run, q d = true) ∧ ∀ d, rest.head? = some d → q d = false := by
  obtain ⟨run, rest, rfl, hrun, hrest⟩ := exists_run q t
  exact ⟨run, rest, rfl, List.forall_mem_cons.2 ⟨hc, hrun⟩, hrest⟩

/-- A text is a run of spaces, and a text that does not begin with one. -/
theorem exists_spaces_append (t : Text) : ∃ n rest, t = spaces n ++ rest ∧ rest.head? ≠ some ' ' := by
  obtain ⟨run, rest, rfl, hrun, hrest⟩ := exists_run (fun c => c = ' ') t
  have hspaces : run = spaces run.length :=
    List.eq_replicate_iff.2 ⟨rfl, fun c hc => by simpa using hrun c hc⟩
  exact ⟨run.length, rest, by rw [← hspaces], fun h => by simpa using hrest ' ' h⟩

/-! ### Places -/

namespace Cursor

variable {p : Cursor}

/-- The place behind a text. -/
def behind (p : Cursor) : Text → Cursor
  | [] => p
  | c :: t =>
    behind ⟨p.rest.tail, if isBreak c then p.line + 1 else p.line,
      if isBreak c then 0 else p.column + 1, p.offset + c.utf8Size⟩ t

@[simp] theorem behind_nil (p : Cursor) : p.behind [] = p := rfl

theorem behind_append (p : Cursor) (t u : Text) : p.behind (t ++ u) = (p.behind t).behind u := by
  induction t generalizing p with
  | nil => rfl
  | cons c t ih => exact ih _

theorem rest_behind (h : p.rest = t ++ u) : (p.behind t).rest = u := by
  induction t generalizing p with
  | nil => exact h
  | cons c t ih => exact ih (by rw [h]; rfl)

theorem offset_behind (p : Cursor) (t : Text) : (p.behind t).offset = p.offset + t.byteLength := by
  induction t generalizing p with
  | nil => rfl
  | cons c t ih => rw [behind, ih, Text.byteLength, Nat.add_assoc]

theorem line_behind (h : IsOneLine t) (p : Cursor) : (p.behind t).line = p.line := by
  induction t generalizing p with
  | nil => rfl
  | cons c t ih =>
    obtain ⟨hc, ht⟩ := isOneLine_cons.1 h
    rw [behind, ih ht, hc]
    rfl

theorem line_le_behind (p : Cursor) (t : Text) : p.line ≤ (p.behind t).line := by
  induction t generalizing p with
  | nil => exact Nat.le_refl _
  | cons c t ih =>
    refine Nat.le_trans ?_ (ih _)
    dsimp only
    split <;> omega

/-- Behind a line break the line is a later one. -/
theorem line_lt_behind (hc : isBreak c = true) (hmem : c ∈ t) (p : Cursor) :
    p.line < (p.behind t).line := by
  obtain ⟨before, after, rfl⟩ := List.append_of_mem hmem
  have hbefore := line_le_behind p before
  have hafter := line_le_behind ((p.behind before).behind [c]) after
  have hbreak : ((p.behind before).behind [c]).line = (p.behind before).line + 1 := by
    simp [behind, hc]
  rw [← List.singleton_append, behind_append, behind_append]
  omega

theorem column_behind (h : IsOneLine t) (p : Cursor) : (p.behind t).column = p.column + t.length := by
  induction t generalizing p with
  | nil => rfl
  | cons c t ih =>
    obtain ⟨hc, ht⟩ := isOneLine_cons.1 h
    rw [behind, ih ht, hc, List.length_cons]
    simp only [Bool.false_eq_true, if_false]
    omega

/-- Behind a line break the column counts from there. -/
theorem column_behind_append (hlast : t.getLast? = some c) (hc : isBreak c = true) (hu : IsOneLine u)
    (p : Cursor) : (p.behind (t ++ u)).column = u.length := by
  obtain ⟨before, rfl⟩ := List.getLast?_eq_some_iff.1 hlast
  rw [behind_append, column_behind hu, behind_append, behind, hc]
  simp

/-- Behind line breaks the column is that of the spaces. -/
theorem column_behind_breaks (ht : ∀ d ∈ c :: t, isBreak d = true) (n : Nat) (p : Cursor) :
    (p.behind (c :: t ++ spaces n)).column = n := by
  have hlast := List.getLast?_eq_some_getLast (List.cons_ne_nil c t)
  rw [column_behind_append hlast (ht _ (List.getLast_mem _)) (isOneLine_spaces n), length_spaces]

theorem column_behind_feed (n : Nat) (p : Cursor) : (p.behind ('\n' :: spaces n)).column = n :=
  column_behind_breaks (t := []) (List.forall_mem_singleton.2 (by decide)) n p

/-- To move on within a line is to be behind what stands there. -/
theorem skip_eq_behind (h : p.rest = t ++ u) (ht : IsOneLine t) : p.skip t.length = p.behind t := by
  have hrest := rest_behind h
  have hline := line_behind ht p
  have hcolumn := column_behind ht p
  have hoffset := offset_behind p t
  rw [skip, h, List.drop_left, List.take_left, ← hrest, ← hcolumn, ← hoffset, ← hline]

theorem skip_one (h : p.rest = c :: u) (hc : isBreak c = false) : p.skip 1 = p.behind [c] :=
  skip_eq_behind (t := [c]) h (by simpa [IsOneLine] using hc)

theorem skipWhile_eq_behind {q : Char → Bool} (h : p.rest = t ++ u) (ht : IsOneLine t)
    (hq : ∀ c ∈ t, q c = true) (hu : ∀ c, u.head? = some c → q c = false) :
    p.skipWhile q = p.behind t := by
  rw [skipWhile, h, takeWhile_append_of_head hq hu, skip_eq_behind h ht]

/-- A line break that is shown as it is reads as it is. -/
theorem takeBreak_eq (h : p.rest = c :: u) (hc : isBreak c = true) (hprintable : isPrintable c = true) :
    p.takeBreak = ([c], p.behind [c]) := by
  have hcode : c.toNat = 0xA ∨ c.toNat = 0x2028 ∨ c.toNat = 0x2029 := by
    simp only [isBreak, Bool.or_eq_true, beq_iff_eq] at hc
    simp only [isPrintable, Bool.or_eq_true, Bool.and_eq_true, beq_iff_eq, decide_eq_true_eq] at hprintable
    omega
  have hreturn : c ≠ '\r' := by
    rintro rfl
    exact absurd hcode (by decide)
  obtain ⟨rest, line, column, offset⟩ := p
  obtain rfl : rest = c :: u := h
  have hshown : (if c.toNat = 0x2028 ∨ c.toNat = 0x2029 then c else '\n') = c := by
    split
    · rfl
    · next hne =>
      rw [Json.eq_ofNat_of_toNat_eq (hcode.resolve_right hne)]
  unfold takeBreak
  split
  · next heq => exact absurd (List.cons.inj heq).1 hreturn
  · next heq =>
    cases heq
    rw [if_pos hc, hshown]
    simp [behind, hc]
  · next heq => cases heq

end Cursor

/-! ### Gaps -/

namespace Gap

variable {p : Cursor} {fuel : Nat} {margin : Int} {g : Gap}

/-- A run of spaces is read up to what follows it. -/
theorem read_spaces (hp : p.rest = spaces n ++ u) (hu : StartsSolid u) (hfuel : n ≤ fuel) (g : Gap)
    (margin : Int) : read fuel margin g p =
      some (if g.broken then g else { g with blanks := g.blanks ++ spaces n }, p.behind (spaces n)) := by
  induction n generalizing fuel g p with
  | zero =>
    have hkept : (if g.broken then g else { g with blanks := g.blanks ++ spaces 0 }) = g := by
      simp [spaces]
    rw [hkept]
    cases fuel with
    | zero => rfl
    | succ fuel =>
      rw [read, Cursor.peek?, hp]
      cases u with
      | nil => rfl
      | cons c u =>
        have hgap := startsSolid_cons.1 hu
        simp only [isGap, Bool.or_eq_false_iff] at hgap
        simp [spaces, hgap]
  | succ n ih =>
    obtain ⟨fuel, rfl⟩ : ∃ k, fuel = k + 1 := ⟨fuel - 1, by omega⟩
    have hhead : p.peek? = some ' ' := by
      rw [Cursor.peek?, hp]
      rfl
    have hrest : p.rest = ' ' :: (spaces n ++ u) := hp
    have hblank : isBlank ' ' = true := by decide
    have hskip : p.skip 1 = p.behind [' '] := Cursor.skip_one hrest (by decide)
    have hnext : (p.behind [' ']).rest = spaces n ++ u := Cursor.rest_behind (t := [' ']) hrest
    have hfuel := Nat.le_of_succ_le_succ hfuel
    have hbehind : p.behind (spaces (n + 1)) = (p.behind [' ']).behind (spaces n) :=
      Cursor.behind_append p [' '] (spaces n)
    rw [read, hhead]
    simp only [hblank, if_true, hskip, hbehind]
    cases hbroken : g.broken with
    | true => simp [ih hnext hfuel, hbroken]
    | false => simp [ih hnext hfuel, spaces_succ]

/-- A run of line breaks is read one by one. -/
theorem read_breaks (hp : p.rest = t ++ u) (ht : ∀ c ∈ t, isBreak c = true ∧ isPrintable c = true)
    (hbroken : g.broken = true) (fuel : Nat) (margin : Int) : read (fuel + t.length) margin g p =
      read fuel margin { g with later := g.later ++ t } (p.behind t) := by
  induction t generalizing g p with
  | nil => simp
  | cons c t ih =>
    obtain ⟨⟨hc, hprintable⟩, ht⟩ := List.forall_mem_cons.1 ht
    have hhead : p.peek? = some c := by
      rw [Cursor.peek?, hp]
      rfl
    have hnext : (p.behind [c]).rest = t ++ u := Cursor.rest_behind (t := [c]) hp
    rw [List.length_cons, ← Nat.add_assoc, read, hhead]
    simp only [isBlank_eq_false hc, hc, hbroken, Bool.false_eq_true, if_false, if_true,
      Cursor.takeBreak_eq hp hc hprintable]
    rw [ih hnext ht rfl, List.append_assoc, List.singleton_append]
    rfl

/-- A gap with line breaks ends with the spaces of the last line. -/
theorem read_lines (hp : p.rest = c :: (t ++ (spaces n ++ u))) (hc : isBreak c = true)
    (ht : ∀ b ∈ c :: t, isBreak b = true ∧ isPrintable b = true) (hu : StartsSolid u)
    (hfuel : t.length + n < fuel) (margin : Int) : read fuel margin {} p =
      some ({ broken := true, first := [c], later := t }, p.behind (c :: (t ++ spaces n))) := by
  obtain ⟨fuel, rfl⟩ : ∃ k, fuel = k + t.length + 1 := ⟨fuel - t.length - 1, by omega⟩
  obtain ⟨⟨-, hprintable⟩, ht⟩ := List.forall_mem_cons.1 ht
  have hhead : p.peek? = some c := by
    rw [Cursor.peek?, hp]
    rfl
  have hfirst : (p.behind [c]).rest = t ++ (spaces n ++ u) := Cursor.rest_behind (t := [c]) hp
  have hlast := Cursor.rest_behind hfirst
  rw [read, hhead]
  simp only [isBlank_eq_false hc, hc, Bool.false_eq_true, if_false, if_true,
    Cursor.takeBreak_eq hp hc hprintable]
  rw [read_breaks hfirst ht rfl, read_spaces hlast hu (by omega), List.nil_append,
    ← Cursor.behind_append, ← Cursor.behind_append]
  rfl

end Gap

end Sentential.Yaml
