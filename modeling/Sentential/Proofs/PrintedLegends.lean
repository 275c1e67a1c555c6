import Mathlib.Tactic.Common
import Sentential.Proofs.Arguments
import Sentential.Proofs.Columns
import Sentential.Proofs.Consistency
import Sentential.Proofs.Spans
import Sentential.Proofs.UniqueReading

/-!
# What is printed for a sentence

In text, the formula of a sentence is printed on the first line and its legend, behind an empty line, as a
table of two columns (`Report.ShowsLegend`).  A clause consists of spaces and of characters of the sentence
other than white space (`forall_mem_clause`), so that it breaks no line, and no space at its end is lost.

Colors put control sequences into what is printed and change nothing else (`Report.isStyled_formalization`).
Without an escape character in the sentence there is none in its clauses, so that what is printed without
colors is left when the control sequences are deleted (`runLine_shows`).
-/

namespace Sentential

/-! ### The characters of a legend -/

theorem mem_of_mem_token {sentence : Text} {u : Token} (hu : u ∈ tokenize sentence) {c : Char}
    (hc : c ∈ u.text) : c ∈ sentence := by
  obtain ⟨before, after, hsplit, -, -⟩ := (tiles_tokensFrom 0 sentence).exists_append hu
  rw [hsplit]
  exact List.mem_append_right _ (List.mem_append_left _ hc)

/-- A clause consists of spaces and of characters of the sentence, none of which is white space. -/
theorem forall_mem_clause {sentence : Text} {t : Formalization} (h : formalize sentence = .ok t) :
    ∀ e ∈ t.legend.entries, ∀ c ∈ e.clause, c = ' ' ∨ (isSpace c = false ∧ c ∈ sentence) := by
  obtain ⟨sides, hsides, hread, rfl⟩ := formalize_eq_ok_iff.1 h
  intro e he
  obtain ⟨clause, hmem, heq⟩ := mem_entriesFrom he
  have hclause : clause ∈ clausesIn sides := mem_of_mem_firstsBy hmem
  rw [heq, (clause_ne_nil_and_trim hsides hread hclause).2]
  obtain ⟨run, hrun, -, rfl⟩ := exists_tokens_of_mem_clausesIn hsides hclause
  have hchars : ∀ u ∈ clauseTokens run, ∀ c ∈ u.text, c = ' ' ∨ (isSpace c = false ∧ c ∈ sentence) := by
    intro u hu c hc
    have htoken : u ∈ tokenize sentence.trim := hrun.mem ((clauseTokens_sublist run).mem hu)
    have hvisible := (isVisible_of_mem_tokenize htoken).2 c hc
    exact .inr ⟨hvisible, Text.mem_of_mem_trim (mem_of_mem_token htoken hc)⟩
  exact forall_mem_joinTokens (.inl rfl) hchars

/-- The name of a variable consists of characters with which formulas are displayed. -/
theorem Variable.isFormulaChar_of_mem_name (v : Variable) : ∀ c ∈ v.name, isFormulaChar c = true :=
  @Formula.isFormulaChar_of_mem_display (.atom v)

section Legend

variable {sentence : Text} {t : Formalization} (h : formalize sentence = .ok t)

include h

/-- White space in a clause is a plain space. -/
theorem eq_space_of_mem_clause {e : Legend.Entry} (he : e ∈ t.legend.entries) {c : Char}
    (hc : c ∈ e.clause) (hspace : isSpace c = true) : c = ' ' := by
  rcases forall_mem_clause h e he c hc with rfl | ⟨hnot, -⟩
  · rfl
  · rw [hspace] at hnot
    cases hnot

/-- A character that is not in the sentence, and stands neither in formulas nor in clauses as a space, is in
no entry of the legend. -/
theorem notMem_entry {c : Char} (hformula : isFormulaChar c = false)
    (hsentence : isSpace c = true ∨ c ∉ sentence) :
    ∀ e ∈ t.legend.entries, c ∉ e.var.name ∧ c ∉ e.clause := by
  intro e he
  refine ⟨fun hc => ?_, fun hc => ?_⟩
  · rw [e.var.isFormulaChar_of_mem_name c hc] at hformula
    cases hformula
  · rcases forall_mem_clause h e he c hc with rfl | ⟨hnot, hmem⟩
    · exact absurd hformula (by decide)
    · rcases hsentence with hspace | hsentence
      · rw [hspace] at hnot
        cases hnot
      · exact hsentence hmem

end Legend

/-! ### Lines -/

namespace Report

/-- The header of the table for a legend. -/
def legendHeader : List Text :=
  ["Variable".toList, "Clause".toList]

/-- The rows of the table for a legend. -/
def legendRows (m : Legend) : List (List Text) :=
  m.entries.map fun e => [e.var.name, e.clause]

/-- The lines on which a formalization is printed without colors. -/
def textLines (quiet : Bool) (t : Formalization) : List Text :=
  t.formula.display :: if quiet then [] else [] :: tableLines legendHeader (legendRows t.legend)

/-- A legend as it is printed: a header, a rule and rows of one length, whose second column begins at the
same place in all of them, so that cutting the rows there gives the entries of the legend. -/
structure ShowsLegend (m : Legend) (offset length : Nat) (header rule : Text) (rows : List Text) :
    Prop where
  /-- All lines have the same number of characters. -/
  aligned : ∀ l ∈ header :: rule :: rows, l.length = length
  /-- The second column begins at the same place in all of them. -/
  column : ∀ l ∈ header :: rule :: rows, HasColumnAt offset l
  /-- The header names the columns. -/
  named : cellsAt offset header = ("Variable".toList, "Clause".toList)
  /-- The rule goes under both of them. -/
  ruled : rule = List.replicate (offset - 2) '─' ++ ' ' :: ' ' :: List.replicate (length - offset) '─'
  /-- The cells of the rows are the variables and the clauses, in order. -/
  entries : rows.map (cellsAt offset) = m.entries.map fun e => (e.var.name, e.clause)

theorem formalization_eq_flatMap_line {t : Formalization} (ht : t.formula.IsSolid)
    (hne : t.legend.entries ≠ []) (quiet : Bool) :
    formalization false quiet t = (textLines quiet t).flatMap line := by
  have hrows : legendRows t.legend ≠ [] := fun h => hne (List.map_eq_nil_iff.1 h)
  have htable : legendTable false t.legend =
      (tableLines legendHeader (legendRows t.legend)).flatMap line := table_eq_flatMap_line hrows
  rw [formalization, Formula.formulaText_display ht, htable, textLines, List.flatMap_cons]
  cases quiet <;> rfl

section Legend

variable {m : Legend} {w w' : Nat}

theorem length_of_mem_legendRows (m : Legend) :
    ∀ row ∈ legendRows m, row.length = legendHeader.length :=
  List.forall_mem_map.2 fun _ _ => rfl

theorem tableLines_legend (hwidths : widths legendHeader (legendRows m) = [w, w']) :
    tableLines legendHeader (legendRows m) =
      rowText [pad w "Variable".toList, pad w' "Clause".toList] ::
        rowText [List.replicate w '─', List.replicate w' '─'] ::
          m.entries.map fun e => rowText [pad w e.var.name, pad w' e.clause] := by
  rw [tableLines, hwidths, legendRows, List.map_map]
  rfl

/-- The columns of the table are wide enough for the header and for all entries. -/
theorem exists_widths_legend (m : Legend) :
    ∃ w w', widths legendHeader (legendRows m) = [w, w'] ∧ 8 ≤ w ∧ 6 ≤ w' ∧
      ∀ e ∈ m.entries, e.var.name.length ≤ w ∧ e.clause.length ≤ w' := by
  obtain ⟨hheader, hrows⟩ := List.forall_mem_cons.1 (fits_widths (length_of_mem_legendRows m))
  obtain ⟨w, w', hwidths, hw, hw'⟩ := hheader.exists_pair
  refine ⟨w, w', hwidths, hw, hw', fun e he => ?_⟩
  have hrow := hrows _ (List.mem_map_of_mem he)
  rw [hwidths] at hrow
  obtain ⟨v, v', heq, hv, hv'⟩ := hrow.exists_pair
  cases heq
  exact ⟨hv, hv'⟩

/-- The table of a legend shows it, if no clause is empty or has a space at an end. -/
theorem showsLegend_of_widths (hwidths : widths legendHeader (legendRows m) = [w, w']) (hw : 8 ≤ w)
    (hw' : 6 ≤ w') (hfits : ∀ e ∈ m.entries, e.var.name.length ≤ w ∧ e.clause.length ≤ w')
    (hhead : ∀ e ∈ m.entries, ∃ c ∈ e.clause.head?, c ≠ ' ')
    (hlast : ∀ e ∈ m.entries, e.clause.getLast? ≠ some ' ') :
    ShowsLegend m (w + 2) (w + 2 + w') (rowText [pad w "Variable".toList, pad w' "Clause".toList])
      (rowText [List.replicate w '─', List.replicate w' '─'])
      (m.entries.map fun e => rowText [pad w e.var.name, pad w' e.clause]) where
  aligned := by
    intro l hl
    rw [← tableLines_legend hwidths] at hl
    rw [length_tableLines (length_of_mem_legendRows m) l hl, hwidths, List.map_cons,
      List.map_cons, List.map_nil, rowText_pair]
    simp only [List.length_append, List.length_cons, List.length_replicate]
    omega
  column := by
    have hrule : '─' ∈ (List.replicate w' '─').head? := by
      rw [List.head?_replicate, if_neg (by omega)]
      rfl
    refine List.forall_mem_cons.2 ⟨?_, List.forall_mem_cons.2 ⟨?_, List.forall_mem_map.2 ?_⟩⟩
    · exact hasColumnAt_rowText (length_pad hw) ⟨'C', mem_head?_pad rfl w', by decide⟩
    · exact hasColumnAt_rowText List.length_replicate ⟨'─', hrule, by decide⟩
    · intro e he
      obtain ⟨c, hc, hne⟩ := hhead e he
      exact hasColumnAt_rowText (length_pad (hfits e he).1) ⟨c, mem_head?_pad hc w', hne⟩
  named := cellsAt_rowText hw (by decide) (by decide)
  ruled := by rw [rowText_pair, Nat.add_sub_cancel, Nat.add_sub_cancel_left]
  entries := by
    have hname (v : Variable) : v.name.getLast? ≠ some ' ' := fun h =>
      notMem_name (by decide) (by decide) v (List.mem_of_getLast? h)
    rw [List.map_map]
    exact List.map_congr_left fun e he =>
      cellsAt_rowText (hfits e he).1 (hname e.var) (hlast e he)

end Legend

/-- A character that stands neither in formulas nor in the entries of the legend is not printed, if it is
none of those of which the header and the rule consist. -/
theorem notMem_textLines {t : Formalization} {c : Char} (hformula : isFormulaChar c = false)
    (htable : c ∉ '─' :: "VariableClause".toList)
    (hentries : ∀ e ∈ t.legend.entries, c ∉ e.var.name ∧ c ∉ e.clause) (quiet : Bool) :
    ∀ l ∈ textLines quiet t, c ∉ l := by
  have hdisplay : c ∉ t.formula.display := fun hc =>
    ne_of_isFormulaChar (Formula.isFormulaChar_of_mem_display c hc) hformula rfl
  have hrows : ∀ row ∈ legendRows t.legend, ∀ cell ∈ row, ∀ d ∈ cell, c ≠ d := by
    intro row hrow cell hcell d hd
    obtain ⟨e, he, rfl⟩ := List.mem_map.1 hrow
    rintro rfl
    rcases List.mem_pair.1 hcell with rfl | rfl
    · exact (hentries e he).1 hd
    · exact (hentries e he).2 hd
  have hheader : ∀ cell ∈ legendHeader, ∀ d ∈ cell, c ≠ d := by
    intro cell hcell d hd
    rintro rfl
    rcases List.mem_pair.1 hcell with rfl | rfl
    · exact htable (List.mem_cons_of_mem _ (List.mem_append_left "Clause".toList hd))
    · exact htable (List.mem_cons_of_mem _ (List.mem_append_right "Variable".toList hd))
  have hspace : c ≠ ' ' := by
    rintro rfl
    exact absurd hformula (by decide)
  have hrule : c ≠ '─' := fun hc => htable (hc ▸ List.mem_cons_self ..)
  have hlines := forall_mem_tableLines hspace hrule hheader hrows
  cases quiet with
  | true => exact List.forall_mem_singleton.2 hdisplay
  | false =>
    refine List.forall_mem_cons.2 ⟨hdisplay, List.forall_mem_cons.2 ⟨List.not_mem_nil, ?_⟩⟩
    exact fun l hl hc => hlines l hl c hc rfl

/-! ### Colors -/

section Colors

open Style (IsStyled)

theorem isStyled_rowLine {α : Type} {f g : α → Text} {xs : List α}
    (h : ∀ x ∈ xs, IsStyled (f x) (g x)) : IsStyled (rowLine (xs.map f)) (rowLine (xs.map g)) :=
  (IsStyled.join [' ', ' '] h).append (.refl ['\n'])

variable (color : Bool)

theorem isStyled_table (header : List Text) (rows : List (List Text)) :
    IsStyled (table color header rows) (table false header rows) := by
  unfold table
  split
  · exact .nil
  · have hbold : ∀ cell ∈ padRow (widths header rows) header,
        IsStyled (Style.bold color cell) (Style.bold false cell) := fun cell _ =>
      Style.isStyled_bold color (.refl cell)
    have hrule : ∀ w ∈ widths header rows, IsStyled (Style.rule color w) (Style.rule false w) :=
      fun w _ => Style.isStyled_colored color Style.gray (.refl (List.replicate w '─'))
    exact ((isStyled_rowLine hbold).append (isStyled_rowLine hrule)).append (.refl _)

/-- Colors put control sequences into what is printed for a formalization, and nothing else. -/
theorem isStyled_formalization (quiet : Bool) (t : Formalization) :
    IsStyled (formalization color quiet t) (formalization false quiet t) := by
  have hformula := (Style.isStyled_formulaText color t.formula.display).append (.refl ['\n'])
  cases quiet with
  | true => exact hformula.append .nil
  | false => exact hformula.append ((IsStyled.refl (line [])).append (isStyled_table color _ _))

end Colors

end Report

/-! ### Command lines -/

/-- The command line has a sentence formalized, and its result is printed as text. -/
def PrintsText (w : Surroundings) (args : List Text) (sentence : Text) (color quiet : Bool) : Prop :=
  ∃ flags words c, Request.ofArguments args = .run flags (.parse words) ∧
    Text.unwords words = sentence ∧ Context.ofFlags w flags = .ok c ∧ c.json = false ∧
      c.color = color ∧ c.quiet = quiet

section Printed

variable {w : Surroundings} {args : List Text} {sentence : Text} {color quiet : Bool} {t : Formalization}

/-- Whether a command line does so is told by the modes of its context. -/
theorem PrintsText.of_map {flags : GlobalFlags} {words : List Text}
    (hargs : Request.ofArguments args = .run flags (.parse words))
    (hmodes : (Context.ofFlags w flags).map (fun c => (c.json, c.color, c.quiet)) =
      .ok (false, color, quiet)) : PrintsText w args (Text.unwords words) color quiet := by
  obtain ⟨c, hcontext, hc⟩ := exists_eq_ok_of_map_eq_ok hmodes
  obtain ⟨hjson, hcolor, hquiet⟩ : c.json = false ∧ c.color = color ∧ c.quiet = quiet := by
    simpa using hc
  exact ⟨flags, words, c, hargs, rfl, hcontext, hjson, hcolor, hquiet⟩

/-- Such a command line succeeds for each sentence that can be formalized. -/
theorem PrintsText.runLine_eq (hprints : PrintsText w args sentence color quiet)
    (h : formalize sentence = .ok t) :
    ∃ files, runLine w args = ⟨0, Report.formalization color quiet t, [], [], false, files⟩ := by
  obtain ⟨flags, words, c, hargs, rfl, hcontext, hjson, rfl, rfl⟩ := hprints
  refine ⟨c.around.files, ?_⟩
  simp only [runLine, hargs, runCommand, hcontext, Context.run, Context.parse, h, Context.succeed, hjson,
    Bool.false_eq_true, if_false]

variable (h : formalize sentence = .ok t)

include h

theorem formalization_eq_of_formalize (quiet : Bool) :
    Report.formalization false quiet t = (Report.textLines quiet t).flatMap Report.line := by
  have hconsistent := isConsistent_of_formalize h
  have hne : t.legend.entries ≠ [] := List.ne_nil_of_length_pos hconsistent.nonempty
  exact Report.formalization_eq_flatMap_line (isRooted_of_formalize h).isSolid hne quiet

/-- The lines are told by the text. -/
theorem cutAt_formalization (quiet : Bool) :
    Text.cutAt '\n' (Report.formalization false quiet t) = Report.textLines quiet t ++ [[]] := by
  rw [formalization_eq_of_formalize h]
  apply Report.cutAt_flatMap_line
  have hentries := notMem_entry h (c := '\n') (by decide) (.inl (by decide))
  exact Report.notMem_textLines (by decide) (by decide) hentries quiet

/-- Without colors there is no control sequence in the text. -/
theorem escape_notMem_formalization (hescape : Char.ofNat 0x1B ∉ sentence) (quiet : Bool) :
    Char.ofNat 0x1B ∉ Report.formalization false quiet t := by
  have hentries := notMem_entry h (c := Char.ofNat 0x1B) (by decide) (.inr hescape)
  have hlines := Report.notMem_textLines (by decide) (by decide) hentries quiet
  rw [formalization_eq_of_formalize h]
  intro hmem
  obtain ⟨l, hl, hc⟩ := List.mem_flatMap.1 hmem
  rcases List.mem_append.1 hc with hc | hc
  · exact hlines l hl hc
  · exact absurd hc (by decide)

/-- The table shows the legend of the sentence. -/
theorem exists_showsLegend_of_formalize :
    ∃ offset length header rule rows,
      Report.tableLines Report.legendHeader (Report.legendRows t.legend) = header :: rule :: rows ∧
        Report.ShowsLegend t.legend offset length header rule rows := by
  obtain ⟨w, w', hwidths, hw, hw', hfits⟩ := Report.exists_widths_legend t.legend
  have hclauses := (isConsistent_of_formalize h).clauses
  have hends : ∀ e ∈ t.legend.entries, EndsWithout isSpace e.clause := fun e he =>
    Text.trim_eq_self_iff.1 (hclauses e he).2
  have hspace {c : Char} (hc : isSpace c = false) : c ≠ ' ' := by
    rintro rfl
    exact absurd hc (by decide)
  have hhead : ∀ e ∈ t.legend.entries, ∃ c ∈ e.clause.head?, c ≠ ' ' := by
    intro e he
    have hne : e.clause ≠ [] := by
      intro hnil
      have hblank := (hclauses e he).1
      rw [hnil] at hblank
      cases hblank
    have hfirst := List.head?_eq_some_head hne
    exact ⟨_, hfirst, hspace ((hends e he).1 _ hfirst)⟩
  have hlast : ∀ e ∈ t.legend.entries, e.clause.getLast? ≠ some ' ' := fun e he hc =>
    hspace ((hends e he).2 ' ' hc) rfl
  exact ⟨_, _, _, _, _, Report.tableLines_legend hwidths,
    Report.showsLegend_of_widths hwidths hw hw' hfits hhead hlast⟩

end Printed

/-- The text shows a formalization: the formula stands on the first line and, behind an empty line, its
legend as a table. -/
def Report.ShowsText (t : Formalization) (output : Text) : Prop :=
  ∃ offset length header rule rows, ShowsLegend t.legend offset length header rule rows ∧
    Text.cutAt '\n' output = t.formula.display :: [] :: header :: rule :: (rows ++ [[]])

/-- Printed as text, a sentence that can be formalized is shown by its formula and, unless only the
essential is wanted, by the aligned table of its legend, whose clauses have no white space but spaces.  If
there is no escape character in the sentence, colors change nothing but control sequences. -/
theorem runLine_shows {sentence : Text} {t : Formalization} (h : formalize sentence = .ok t) :
    (∀ w args color quiet, PrintsText w args sentence color quiet →
      (runLine w args).code = 0 ∧ (runLine w args).error = []) ∧
    (∀ w args, PrintsText w args sentence false false → Report.ShowsText t (runLine w args).output) ∧
    (∀ w args, PrintsText w args sentence false true →
      Text.cutAt '\n' (runLine w args).output = [t.formula.display, []]) ∧
    (∀ e ∈ t.legend.entries, ∀ c ∈ e.clause, isSpace c = true → c = ' ') ∧
    (Char.ofNat 0x1B ∉ sentence → ∀ w w' args args' color quiet,
      PrintsText w args sentence color quiet → PrintsText w' args' sentence false quiet →
        Style.unstyled (runLine w args).output = (runLine w' args').output) := by
  refine ⟨?_, ?_, ?_, fun e he c hc => eq_space_of_mem_clause h he hc, ?_⟩
  · intro w args color quiet hprints
    obtain ⟨files, hrun⟩ := hprints.runLine_eq h
    rw [hrun]
    exact ⟨rfl, rfl⟩
  · intro w args hprints
    obtain ⟨files, hrun⟩ := hprints.runLine_eq h
    obtain ⟨offset, length, header, rule, rows, hlines, hshows⟩ := exists_showsLegend_of_formalize h
    refine ⟨offset, length, header, rule, rows, hshows, ?_⟩
    rw [hrun, cutAt_formalization h, Report.textLines, if_neg Bool.false_ne_true, hlines]
    rfl
  · intro w args hprints
    obtain ⟨files, hrun⟩ := hprints.runLine_eq h
    rw [hrun, cutAt_formalization h]
    rfl
  · intro hescape w w' args args' color quiet hprints hprints'
    obtain ⟨files, hrun⟩ := hprints.runLine_eq h
    obtain ⟨files', hrun'⟩ := hprints'.runLine_eq h
    have hstyled := Report.isStyled_formalization color quiet t
    rw [hrun, hrun']
    exact Style.unstyled_of_isStyled hstyled (escape_notMem_formalization h hescape quiet)

/-- A conditional with an accented clause, in an empty tree of files, with and without forced colors. -/
theorem runLine_shows_conditional :
    let forced : Surroundings :=
      ⟨⟨[]⟩, [], [("CLICOLOR_FORCE".toList, "1".toList)], [], false, [], []⟩
    let plain : Surroundings := ⟨⟨[]⟩, [], [], [], false, [], []⟩
    let sentence := "se a ação é rápida, então não chove".toList
    let args := ["parse".toList, sentence]
    ∃ t, formalize sentence = .ok t ∧ t.legend.size = 2 ∧ Char.ofNat 0x1B ∉ sentence ∧
      PrintsText forced args sentence true false ∧ PrintsText plain args sentence false false ∧
        Report.ShowsText t (runLine plain args).output ∧
          (runLine forced args).output ≠ (runLine plain args).output ∧
            Style.unstyled (runLine forced args).output = (runLine plain args).output := by
  intro forced plain sentence args
  have hread : formalize sentence = .ok ⟨.imp (.atom (Variable.nth 0)) (.neg (.atom (Variable.nth 1))),
      ⟨[⟨Variable.nth 0, "a ação é rápida".toList⟩, ⟨Variable.nth 1, "chove".toList⟩]⟩⟩ := by
    decide +kernel
  have hescape : Char.ofNat 0x1B ∉ sentence := by decide +kernel
  have hargs : Request.ofArguments args = .run {} (.parse [sentence]) := by decide +kernel
  have hforced : PrintsText forced args sentence true false := .of_map hargs (by decide +kernel)
  have hplain : PrintsText plain args sentence false false := .of_map hargs (by decide +kernel)
  obtain ⟨-, hshows, -, -, hcolors⟩ := runLine_shows hread
  exact ⟨_, hread, rfl, hescape, hforced, hplain, hshows plain args hplain, by decide +kernel,
    hcolors hescape forced plain args args true false hforced hplain⟩

end Sentential
