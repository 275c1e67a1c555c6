import Mathlib.Data.List.Forall2
import Mathlib.Tactic.Common
import Sentential.Command.Report
import Sentential.Proofs.Places
import Sentential.Proofs.Words

/-!
# The columns of a printed table

The columns of a table are wide enough for the header and for every row (`Report.fits_widths`), so that
each line has the same length and a column begins at the same place in all of them.  For two columns, the
cells of a row are found again by cutting its line where the second one begins (`Report.cellsAt_rowText`).
-/

namespace Sentential.Report

/-! ### Widths -/

/-- There is a cell for each column, and none is wider than its column. -/
def Fits (ws : List Nat) (cells : List Text) : Prop :=
  List.Forall₂ (fun w t => t.length ≤ w) ws cells

variable {ws : List Nat} {cells cells' header : List Text} {rows : List (List Text)}

theorem fits_map_length (cells : List Text) : Fits (cells.map List.length) cells := by
  induction cells with
  | nil => exact .nil
  | cons t ts ih => exact .cons (Nat.le_refl _) ih

/-- Widening columns makes no cell too wide. -/
theorem Fits.widen (h : Fits ws cells) (cells' : List Text) : Fits (widen ws cells') cells := by
  induction h generalizing cells' with
  | nil => exact .nil
  | cons ht hts ih =>
    cases cells' with
    | nil => exact .cons ht hts
    | cons t' ts' => exact .cons (Nat.le_trans ht (Nat.le_max_left ..)) (ih ts')

/-- Widened columns hold the row for which they are widened. -/
theorem fits_widen (h : ws.length = cells.length) : Fits (widen ws cells) cells := by
  induction ws generalizing cells with
  | nil =>
    rw [List.eq_nil_of_length_eq_zero h.symm]
    exact .nil
  | cons w ws ih =>
    cases cells with
    | nil => cases h
    | cons t ts => exact .cons (Nat.le_max_right ..) (ih (Nat.succ.inj h))

theorem Fits.foldl_widen (h : Fits ws cells) (rows : List (List Text)) :
    Fits (rows.foldl Report.widen ws) cells := by
  induction rows generalizing ws with
  | nil => exact h
  | cons row rows ih => exact ih (h.widen row)

theorem length_widen (ws : List Nat) (cells : List Text) : (widen ws cells).length = ws.length := by
  induction ws generalizing cells with
  | nil => cases cells <;> rfl
  | cons w ws ih =>
    cases cells with
    | nil => rfl
    | cons t ts => exact congrArg Nat.succ (ih ts)

theorem fits_foldl_widen (hrows : ∀ row ∈ rows, row.length = ws.length) :
    ∀ row ∈ rows, Fits (rows.foldl widen ws) row := by
  induction rows generalizing ws with
  | nil => simp
  | cons row rows ih =>
    obtain ⟨hrow, hrows⟩ := List.forall_mem_cons.1 hrows
    refine List.forall_mem_cons.2 ⟨(fits_widen hrow.symm).foldl_widen rows, ih fun row' hrow' => ?_⟩
    rw [hrows row' hrow', length_widen]

/-- The columns of a table hold its header and its rows. -/
theorem fits_widths (hrows : ∀ row ∈ rows, row.length = header.length) :
    ∀ row ∈ header :: rows, Fits (widths header rows) row := by
  refine List.forall_mem_cons.2 ⟨(fits_map_length header).foldl_widen rows, ?_⟩
  exact fits_foldl_widen fun row hrow => by rw [hrows row hrow, List.length_map]

/-! ### Lines -/

/-- A row of cells, without its line break. -/
def rowText (cells : List Text) : Text :=
  Text.join [' ', ' '] cells

theorem rowLine_eq (cells : List Text) : rowLine cells = line (rowText cells) := rfl

theorem length_pad {w : Nat} {t : Text} (h : t.length ≤ w) : (pad w t).length = w := by
  rw [pad, List.length_append, List.length_replicate, Nat.add_sub_cancel' h]

theorem Fits.map_length_padRow (h : Fits ws cells) : (padRow ws cells).map List.length = ws := by
  induction h with
  | nil => rfl
  | cons ht _ ih => rw [padRow, List.map_cons, length_pad ht, ih]

/-- The length of a row depends on the lengths of its cells only. -/
theorem length_rowText (h : cells.map List.length = cells'.map List.length) :
    (rowText cells).length = (rowText cells').length := by
  -- blotted out, the rows are the same
  have hblot (cells : List Text) : (rowText cells).map (fun _ => ' ') =
      rowText ((cells.map List.length).map fun n => List.replicate n ' ') := by
    rw [rowText, Text.join, apply_intercalate fun _ _ => List.map_append, List.map_map,
      List.map_congr_left fun t _ => List.map_const']
    rfl
  have hsame := congrArg List.length ((hblot cells).trans (h ▸ (hblot cells').symm))
  simpa using hsame

/-- The lines of a table without colors. -/
def tableLines (header : List Text) (rows : List (List Text)) : List Text :=
  let ws := widths header rows
  rowText (padRow ws header) :: rowText (ws.map fun w => List.replicate w '─') ::
    rows.map fun row => rowText (padRow ws row)

theorem table_eq_flatMap_line (hne : rows ≠ []) :
    table false header rows = (tableLines header rows).flatMap line := by
  have hbold : (padRow (widths header rows) header).map (Style.bold false) =
      padRow (widths header rows) header := List.map_id _
  have hrule : Style.rule false = fun w => List.replicate w '─' := rfl
  simp only [table, List.isEmpty_iff, if_neg hne, hbold, hrule, rowLine_eq, tableLines,
    List.flatMap_cons, List.flatMap_map, List.append_assoc]

/-- All lines of a table have the same length. -/
theorem length_tableLines (hrows : ∀ row ∈ rows, row.length = header.length) :
    ∀ l ∈ tableLines header rows,
      l.length = (rowText ((widths header rows).map fun w => List.replicate w '─')).length := by
  have hcells : ∀ row ∈ header :: rows, (rowText (padRow (widths header rows) row)).length =
      (rowText ((widths header rows).map fun w => List.replicate w '─')).length := by
    intro row hrow
    apply length_rowText
    rw [(fits_widths hrows row hrow).map_length_padRow, List.map_map]
    simp [Function.comp_def]
  obtain ⟨hheader, hrest⟩ := List.forall_mem_cons.1 hcells
  exact List.forall_mem_cons.2 ⟨hheader, List.forall_mem_cons.2 ⟨rfl, List.forall_mem_map.2 hrest⟩⟩

section Characters

variable {p : Char → Prop} (hspace : p ' ')

include hspace

theorem forall_mem_padRow (hcells : ∀ t ∈ cells, ∀ c ∈ t, p c) :
    ∀ t ∈ padRow ws cells, ∀ c ∈ t, p c := by
  induction cells generalizing ws with
  | nil => cases ws <;> simp [padRow]
  | cons t ts ih =>
    obtain ⟨ht, hts⟩ := List.forall_mem_cons.1 hcells
    cases ws with
    | nil => exact hcells
    | cons w ws =>
      have hfill : ∀ c ∈ List.replicate (w - t.length) ' ', p c := fun c hc =>
        List.eq_of_mem_replicate hc ▸ hspace
      exact List.forall_mem_cons.2 ⟨List.forall_mem_append.2 ⟨ht, hfill⟩, ih hts⟩

theorem forall_mem_rowText (hcells : ∀ t ∈ cells, ∀ c ∈ t, p c) : ∀ c ∈ rowText cells, p c :=
  forall_mem_intercalate (by simpa using hspace) hcells

/-- Besides the characters of its cells, a table consists of spaces and of those of the rule. -/
theorem forall_mem_tableLines (hrule : p '─') (hheader : ∀ t ∈ header, ∀ c ∈ t, p c)
    (hrows : ∀ row ∈ rows, ∀ t ∈ row, ∀ c ∈ t, p c) :
    ∀ l ∈ tableLines header rows, ∀ c ∈ l, p c := by
  have hrow {row : List Text} (h : ∀ t ∈ row, ∀ c ∈ t, p c) :
      ∀ c ∈ rowText (padRow (widths header rows) row), p c :=
    forall_mem_rowText hspace (forall_mem_padRow hspace h)
  have hline : ∀ c ∈ rowText ((widths header rows).map fun w => List.replicate w '─'), p c := by
    apply forall_mem_rowText hspace
    rw [List.forall_mem_map]
    exact fun w _ c hc => List.eq_of_mem_replicate hc ▸ hrule
  refine List.forall_mem_cons.2 ⟨hrow hheader, List.forall_mem_cons.2 ⟨hline, ?_⟩⟩
  exact List.forall_mem_map.2 fun row hmem => hrow (hrows row hmem)

end Characters

/-- Lines without line breaks are found again by cutting the text at its line breaks. -/
theorem cutAt_flatMap_line {ls : List Text} (h : ∀ l ∈ ls, '\n' ∉ l) :
    Text.cutAt '\n' (ls.flatMap line) = ls ++ [[]] := by
  induction ls with
  | nil => rfl
  | cons l ls ih =>
    obtain ⟨hl, hls⟩ := List.forall_mem_cons.1 h
    have hfirst : (l :: ls).flatMap line = l ++ '\n' :: ls.flatMap line := by
      rw [List.flatMap_cons, line, List.append_assoc]
      rfl
    rw [hfirst, cutAt_append_cons hl, ih hls, List.cons_append]

/-! ### Two columns -/

/-- A row that is cut in front of its second column: what stands before and what stands behind, without
the spaces at their ends. -/
def cellsAt (offset : Nat) (l : Text) : Text × Text :=
  (Text.trimEnd (l.take offset) (· = ' '), Text.trimEnd (l.drop offset) (· = ' '))

/-- A column begins at this place of a line, behind two spaces. -/
def HasColumnAt (offset : Nat) (l : Text) : Prop :=
  ∃ before c after, l = before ++ ' ' :: ' ' :: c :: after ∧ before.length + 2 = offset ∧ c ≠ ' '

variable {w w' : Nat} {t t' : Text}

/-- Two columns hold two cells. -/
theorem Fits.exists_pair (h : Fits ws [t, t']) :
    ∃ w w', ws = [w, w'] ∧ t.length ≤ w ∧ t'.length ≤ w' := by
  cases h with
  | cons ht h =>
    cases h with
    | cons ht' h =>
      cases h
      exact ⟨_, _, rfl, ht, ht'⟩

theorem rowText_pair (t t' : Text) : rowText [t, t'] = t ++ ' ' :: ' ' :: t' := by
  simp [rowText, Text.join, List.intercalate]

theorem mem_head?_pad {c : Char} (hc : c ∈ t.head?) (w : Nat) : c ∈ (pad w t).head? := by
  rw [pad, List.head?_append, Option.mem_def.1 hc, Option.some_or]
  rfl

/-- The second column begins behind the first one, where a cell begins with anything but a space. -/
theorem hasColumnAt_rowText (ht : t.length = w) (hhead : ∃ c ∈ t'.head?, c ≠ ' ') :
    HasColumnAt (w + 2) (rowText [t, t']) := by
  obtain ⟨c, hc, hne⟩ := hhead
  obtain ⟨rest, rfl⟩ := List.head?_eq_some_iff.1 hc
  rw [rowText_pair, ← ht]
  exact ⟨t, c, rest, rfl, rfl, hne⟩

/-- The spaces with which a cell is filled up can be removed again. -/
theorem trimEnd_pad (w : Nat) (hlast : t.getLast? ≠ some ' ') :
    Text.trimEnd (pad w t) (· = ' ') = t := by
  have hfill : ∀ c ∈ List.replicate (w - t.length) ' ', decide (c = ' ') = true := fun c hc =>
    decide_eq_true (List.eq_of_mem_replicate hc)
  have hend : ∀ c ∈ t.reverse.head?, decide (c = ' ') = false := fun c hc =>
    decide_eq_false fun heq => hlast (by rwa [heq, List.head?_reverse] at hc)
  rw [Text.trimEnd, pad, List.reverse_append, List.reverse_replicate,
    dropWhile_append_of_head hfill hend, List.reverse_reverse]

/-- What stands in front of the second column is the first cell with two spaces more. -/
theorem pad_append_spaces (ht : t.length ≤ w) : pad w t ++ [' ', ' '] = pad (w + 2) t := by
  have hfill : w + 2 - t.length = w - t.length + 2 := by omega
  rw [pad, pad, List.append_assoc, hfill, List.replicate_add]
  rfl

/-- The cells of a row are found again. -/
theorem cellsAt_rowText (ht : t.length ≤ w) (hlast : t.getLast? ≠ some ' ')
    (hlast' : t'.getLast? ≠ some ' ') :
    cellsAt (w + 2) (rowText [pad w t, pad w' t']) = (t, t') := by
  have hsplit : rowText [pad w t, pad w' t'] = pad (w + 2) t ++ pad w' t' := by
    rw [rowText_pair, ← pad_append_spaces ht, List.append_assoc]
    rfl
  have hlength : (pad (w + 2) t).length = w + 2 := length_pad (by omega)
  rw [cellsAt, hsplit, List.take_left' hlength, List.drop_left' hlength, trimEnd_pad _ hlast,
    trimEnd_pad _ hlast']

end Sentential.Report
