import Mathlib.Tactic.Common
import Sentential.Command.Run
import Sentential.Proofs.Display
import Sentential.Proofs.Formalize
import Sentential.Proofs.JsonGrammar
import Sentential.Proofs.Styling

/-!
# Displayed formulas can be read in one way

A displayed formula shows its tree as long as each group has two or more operands, so that it stands in
parentheses, and an implication or a biconditional is found at the root only, since these never do
(`Formula.IsRooted`).  The symbols of an operand tell where it ends (`IsOperand.isDelimited`); a
connective behind it can only be the one at the root.

What is printed for a sentence shows the formula in turn, on a line of its own or as a field of JSON.
Colors add control sequences to it and nothing else (`Style.uncontrolled_of_isStyled`), and none of the
characters of a formula is escaped in JSON (`escapedChar_of_isFormulaChar`).
-/

namespace Sentential

namespace Formula

variable {α : Type}

/-! ### Shapes -/

/-- A formula that can stand as an operand: its groups have two or more operands, and there is neither
an implication nor a biconditional in it. -/
inductive IsOperand : Formula α → Prop
  /-- An atom. -/
  | atom (a : α) : IsOperand (.atom a)
  /-- A negation. -/
  | neg {f : Formula α} (hf : IsOperand f) : IsOperand (.neg f)
  /-- A conjunction of two or more operands. -/
  | conj {fs : List (Formula α)} (hlen : 2 ≤ fs.length) (hfs : ∀ f ∈ fs, IsOperand f) :
    IsOperand (.conj fs)
  /-- A disjunction of two or more operands. -/
  | disj {fs : List (Formula α)} (hlen : 2 ≤ fs.length) (hfs : ∀ f ∈ fs, IsOperand f) :
    IsOperand (.disj fs)

/-- A formula in which an implication or a biconditional is found at the root only. -/
inductive IsRooted : Formula α → Prop
  /-- An operand. -/
  | operand {f : Formula α} (hf : IsOperand f) : IsRooted f
  /-- An implication between operands. -/
  | imp {f g : Formula α} (hf : IsOperand f) (hg : IsOperand g) : IsRooted (.imp f g)
  /-- A biconditional between operands. -/
  | iff {f g : Formula α} (hf : IsOperand f) (hg : IsOperand g) : IsRooted (.iff f g)

theorem IsOperand.isSolid {f : Formula α} (h : f.IsOperand) : f.IsSolid := by
  induction h with
  | atom a => exact .atom a
  | neg _ ih => exact .neg ih
  | conj hlen _ ih => exact .conj (List.ne_nil_of_length_pos (by omega)) ih
  | disj hlen _ ih => exact .disj (List.ne_nil_of_length_pos (by omega)) ih

theorem IsRooted.isSolid {f : Formula α} (h : f.IsRooted) : f.IsSolid := by
  cases h with
  | operand hf => exact hf.isSolid
  | imp hf hg => exact .imp hf.isSolid hg.isSolid
  | iff hf hg => exact .iff hf.isSolid hg.isSolid

theorem IsLiteral.isOperand {f : Formula α} (h : f.IsLiteral) : f.IsOperand := by
  cases h with
  | atom a => exact .atom a
  | neg a => exact .neg (.atom a)

theorem IsUnit.isOperand {f : Formula α} (h : f.IsUnit) : f.IsOperand := by
  cases h with
  | literal hf => exact hf.isOperand
  | conj hlen hfs => exact .conj hlen fun f hf => (hfs f hf).isOperand

theorem IsSide.isOperand {f : Formula α} (h : f.IsSide) : f.IsOperand := by
  cases h with
  | unit hf => exact hf.isOperand
  | disj hlen hfs => exact .disj hlen fun f hf => (hfs f hf).isOperand

/-- Every flat formula has this shape. -/
theorem IsFlat.isRooted {f : Formula α} (h : f.IsFlat) : f.IsRooted := by
  cases h with
  | side hf => exact .operand hf.isOperand
  | imp hf hg => exact .imp hf.isOperand hg.isOperand
  | iff hf hg => exact .iff hf.isOperand hg.isOperand

/-! ### Where an operand ends -/

variable {f g : Formula Variable} {fs gs : List (Formula Variable)} {c c' : Connective}
  {ss ts : List Symbol}

/-- The symbols of the operands of a group behind the first one, each with the connective in front of
it. -/
def furtherSymbols (c : Connective) (fs : List (Formula Variable)) : List Symbol :=
  fs.flatMap fun f => infixSymbols c ++ f.symbols

theorem groupSymbols_cons (hlen : 2 ≤ (f :: fs).length) :
    groupSymbols c (symbolsAll (f :: fs)) =
      .opening :: f.symbols ++ furtherSymbols c fs ++ [.closing] := by
  have hlen' : 2 ≤ ((f :: fs).map symbols).length := by rwa [List.length_map]
  rw [groupSymbols, symbolsAll_eq_map, if_pos hlen', List.map_cons, intercalate_cons,
    List.flatMap_map, furtherSymbols]
  simp

/-- What tells an operand in front of any symbols: the formula, and where it ends. -/
def IsDelimited (f : Formula Variable) : Prop :=
  ∀ g : Formula Variable, g.IsOperand → ∀ ss ts : List Symbol,
    f.symbols ++ ss = g.symbols ++ ts → f = g ∧ ss = ts

/-- Further operands can be read in one way, up to the closing parenthesis. -/
theorem furtherSymbols_append_inj (hfs : ∀ f ∈ fs, IsDelimited f) (hgs : ∀ g ∈ gs, g.IsOperand)
    (h : furtherSymbols c fs ++ .closing :: ss = furtherSymbols c' gs ++ .closing :: ts) :
    fs = gs ∧ ss = ts ∧ (fs ≠ [] → c = c') := by
  induction fs generalizing gs with
  | nil =>
    cases gs with
    | nil => exact ⟨rfl, by simpa [furtherSymbols] using h, fun hne => absurd rfl hne⟩
    | cons g gs => simp [furtherSymbols, infixSymbols] at h
  | cons f fs ih =>
    cases gs with
    | nil => simp [furtherSymbols, infixSymbols] at h
    | cons g gs =>
      rw [List.forall_mem_cons] at hfs hgs
      obtain ⟨hc, hfirst⟩ : c = c' ∧ f.symbols ++ (furtherSymbols c fs ++ .closing :: ss) =
          g.symbols ++ (furtherSymbols c' gs ++ .closing :: ts) := by
        simpa [furtherSymbols, infixSymbols] using h
      obtain ⟨rfl, hrest⟩ := hfs.1 g hgs.1 _ _ hfirst
      obtain ⟨rfl, rfl, -⟩ := ih hfs.2 hgs.2 hrest
      exact ⟨rfl, rfl, fun _ => hc⟩

/-- A group can be read in one way, with its connective and its operands. -/
theorem groupSymbols_append_inj (hfs : ∀ f ∈ fs, IsDelimited f) (hgs : ∀ g ∈ gs, g.IsOperand)
    (hlen : 2 ≤ fs.length) (hlen' : 2 ≤ gs.length)
    (h : groupSymbols c (symbolsAll fs) ++ ss = groupSymbols c' (symbolsAll gs) ++ ts) :
    c = c' ∧ fs = gs ∧ ss = ts := by
  match fs, gs, hlen, hlen' with
  | f :: fs, g :: gs, hlen, hlen' =>
    rw [List.forall_mem_cons] at hfs hgs
    rw [groupSymbols_cons hlen, groupSymbols_cons hlen'] at h
    have hfirst : f.symbols ++ (furtherSymbols c fs ++ .closing :: ss) =
        g.symbols ++ (furtherSymbols c' gs ++ .closing :: ts) := by
      simpa using h
    obtain ⟨rfl, hrest⟩ := hfs.1 g hgs.1 _ _ hfirst
    obtain ⟨rfl, rfl, hc⟩ := furtherSymbols_append_inj hfs.2 hgs.2 hrest
    refine ⟨hc ?_, rfl, rfl⟩
    rintro rfl
    simp at hlen

theorem head?_groupSymbols (hlen : 2 ≤ fs.length) :
    (groupSymbols c (symbolsAll fs) ++ ss).head? = some .opening := by
  match fs, hlen with
  | f :: fs, hlen =>
    rw [groupSymbols_cons hlen]
    rfl

/-- The symbols of an operand tell where it ends, whatever follows. -/
theorem IsOperand.isDelimited (hf : f.IsOperand) : f.IsDelimited := by
  -- the first symbol tells an atom, a negation and a group apart; where the parts of a group end is
  -- told by the parts
  induction hf with
  | atom v =>
    intro g hg ss ts h
    have hhead := congrArg List.head? h
    cases hg with
    | atom w =>
      obtain ⟨hv, hrest⟩ : v = w ∧ ss = ts := by simpa [symbols] using h
      exact ⟨by rw [hv], hrest⟩
    | neg _ => simp [symbols] at hhead
    | conj hlen _ | disj hlen _ => simp [symbols, head?_groupSymbols hlen] at hhead
  | neg _ ih =>
    intro g hg ss ts h
    have hhead := congrArg List.head? h
    cases hg with
    | atom w => simp [symbols] at hhead
    | neg hg =>
      obtain ⟨rfl, hrest⟩ := ih _ hg ss ts (by simpa [symbols] using h)
      exact ⟨rfl, hrest⟩
    | conj hlen _ | disj hlen _ => simp [symbols, head?_groupSymbols hlen] at hhead
  | conj hlen _ ih =>
    intro g hg ss ts h
    have hhead := congrArg List.head? h
    cases hg with
    | atom _ | neg _ => simp [symbols, head?_groupSymbols hlen] at hhead
    | conj hlen' hgs =>
      obtain ⟨-, rfl, rfl⟩ := groupSymbols_append_inj ih hgs hlen hlen' h
      exact ⟨rfl, rfl⟩
    | disj hlen' hgs => cases (groupSymbols_append_inj ih hgs hlen hlen' h).1
  | disj hlen _ ih =>
    intro g hg ss ts h
    have hhead := congrArg List.head? h
    cases hg with
    | atom _ | neg _ => simp [symbols, head?_groupSymbols hlen] at hhead
    | conj hlen' hgs => cases (groupSymbols_append_inj ih hgs hlen hlen' h).1
    | disj hlen' hgs =>
      obtain ⟨-, rfl, rfl⟩ := groupSymbols_append_inj ih hgs hlen hlen' h
      exact ⟨rfl, rfl⟩

/-! ### The root -/

variable {f' g' : Formula Variable}

/-- Two operands with a connective between them can be read in one way. -/
theorem IsOperand.infixed_inj (hf : f.IsOperand) (hg : g.IsOperand) (hf' : f'.IsOperand)
    (hg' : g'.IsOperand)
    (h : f.symbols ++ infixSymbols c ++ f'.symbols = g.symbols ++ infixSymbols c' ++ g'.symbols) :
    f = g ∧ c = c' ∧ f' = g' := by
  rw [List.append_assoc, List.append_assoc] at h
  obtain ⟨rfl, hrest⟩ := hf.isDelimited g hg _ _ h
  obtain ⟨hc, hlast⟩ : c = c' ∧ f'.symbols = g'.symbols := by simpa [infixSymbols] using hrest
  exact ⟨rfl, hc, (hf'.isDelimited g' hg' [] [] (by rw [hlast])).1⟩

/-- An operand has no connective at its root that stands between two operands. -/
theorem IsOperand.symbols_ne_infixed (hf : f.IsOperand) (hg : g.IsOperand) :
    f.symbols ≠ g.symbols ++ infixSymbols c ++ g'.symbols := by
  intro h
  have hends := (hf.isDelimited g hg [] (infixSymbols c ++ g'.symbols) (by simpa using h)).2
  cases hends

/-- The symbols of a formula tell its tree. -/
theorem IsRooted.eq_of_symbols_eq (hf : f.IsRooted) (hg : g.IsRooted) (h : f.symbols = g.symbols) :
    f = g := by
  -- both have an operand in front, and behind it nothing or the connective at the root
  cases hf with
  | operand hf =>
    cases hg with
    | operand hg => exact (hf.isDelimited g hg [] [] (by rw [h])).1
    | imp hg _ | iff hg _ => exact absurd h (hf.symbols_ne_infixed hg)
  | imp hf hf' =>
    cases hg with
    | operand hg => exact absurd h.symm (hg.symbols_ne_infixed hf)
    | imp hg hg' =>
      obtain ⟨rfl, -, rfl⟩ := hf.infixed_inj hg hf' hg' h
      rfl
    | iff hg hg' => cases (hf.infixed_inj hg hf' hg' h).2.1
  | iff hf hf' =>
    cases hg with
    | operand hg => exact absurd h.symm (hg.symbols_ne_infixed hf)
    | imp hg hg' => cases (hf.infixed_inj hg hf' hg' h).2.1
    | iff hg hg' =>
      obtain ⟨rfl, -, rfl⟩ := hf.infixed_inj hg hf' hg' h
      rfl

/-- The text as which a formula is displayed does so, too. -/
theorem IsRooted.eq_of_display_eq (hf : f.IsRooted) (hg : g.IsRooted) (h : f.display = g.display) :
    f = g := by
  refine hf.eq_of_symbols_eq hg ?_
  rw [← symbolsOf_display hf.isSolid, h, symbolsOf_display hg.isSolid]

/-- The shapes are needed: in front of an implication, a negation cannot be told from that of its first
operand, and a group of one cannot be told from its operand. -/
theorem display_neg_imp_eq (f g : Formula Variable) :
    (neg (imp f g)).display = (imp (neg f) g).display ∧ (conj [f]).display = f.display ∧
      (disj [f]).display = f.display := by
  simp [display, displayAll, displayGroup, Text.join]

end Formula

/-! ### The text of a formula -/

/-- The characters with which formulas are displayed: upper-case letters, digits, glyphs, parentheses
and spaces. -/
def isFormulaChar (c : Char) : Bool :=
  c.isUpper || c.isDigit || [' ', '(', ')', '¬', '∧', '∨', '→', '↔'].contains c

theorem ne_of_isFormulaChar {c d : Char} (hc : isFormulaChar c = true)
    (hd : isFormulaChar d = false) : d ≠ c := by
  rintro rfl
  rw [hc] at hd
  cases hd

namespace Formula

theorem isFormulaChar_of_mem_infixed (conn : Connective) :
    ∀ c ∈ [' ', conn.glyph, ' '], isFormulaChar c = true :=
  List.all_eq_true.1 (by cases conn <;> decide)

theorem isFormulaChar_of_mem_display {f : Formula Variable} :
    ∀ c ∈ f.display, isFormulaChar c = true := by
  have hgroup {conn : Connective} {fs : List (Formula Variable)}
      (ih : ∀ f ∈ fs, ∀ c ∈ f.display, isFormulaChar c = true) :
      ∀ c ∈ displayGroup conn.glyph (displayAll fs), isFormulaChar c = true := by
    have hbody : ∀ c ∈ Text.join [' ', conn.glyph, ' '] (fs.map display), isFormulaChar c = true :=
      forall_mem_intercalate (isFormulaChar_of_mem_infixed conn) (List.forall_mem_map.2 ih)
    rw [displayGroup, displayAll_eq_map]
    split
    · rw [List.forall_mem_append, List.forall_mem_cons, List.forall_mem_singleton]
      exact ⟨⟨by decide, hbody⟩, by decide⟩
    · exact hbody
  induction f using Formula.induction with
  | atom v =>
    refine List.forall_mem_cons.2 ⟨?_, fun c hc => ?_⟩
    · simp [isFormulaChar, v.letter_isUpper]
    · simp [isFormulaChar, List.all_eq_true.1 v.digits_isDigit c hc]
  | neg f ih => exact List.forall_mem_cons.2 ⟨by decide, ih⟩
  | conj fs ih | disj fs ih => exact hgroup ih
  | imp f g ihf ihg | iff f g ihf ihg =>
    rw [display, List.forall_mem_append, List.forall_mem_append]
    exact ⟨⟨ihf, isFormulaChar_of_mem_infixed _⟩, ihg⟩

/-- A displayed formula is made up of the texts of its symbols. -/
theorem flatMap_symbols (f : Formula Variable) :
    f.symbols.flatMap (Style.symbolText false) = f.display := by
  have hgroup {conn : Connective} {fs : List (Formula Variable)}
      (ih : ∀ f ∈ fs, f.symbols.flatMap (Style.symbolText false) = f.display) :
      (groupSymbols conn (symbolsAll fs)).flatMap (Style.symbolText false) =
        displayGroup conn.glyph (displayAll fs) := by
    have hbody : (List.intercalate (infixSymbols conn) (fs.map symbols)).flatMap
        (Style.symbolText false) = Text.join [' ', conn.glyph, ' '] (fs.map display) := by
      have happend (ss ts : List Symbol) : (ss ++ ts).flatMap (Style.symbolText false) = _ :=
        List.flatMap_append
      rw [apply_intercalate happend, List.map_map, Text.join, ← List.map_congr_left ih]
      rfl
    rw [groupSymbols, displayGroup, symbolsAll_eq_map, displayAll_eq_map, List.length_map,
      List.length_map]
    split
    · simp [hbody, Style.symbolText]
    · exact hbody
  induction f using Formula.induction with
  | atom v => simp [symbols, Style.symbolText, Style.variableText, Style.boldColored, Style.bold,
      Style.colored, display]
  | neg f ih =>
    simp [symbols, Style.symbolText, Style.connectiveText, Style.colored, display, ih]
  | conj fs ih | disj fs ih => exact hgroup ih
  | imp f g ihf ihg | iff f g ihf ihg =>
    simp [symbols, infixSymbols, Style.symbolText, Style.connectiveText, Style.colored, display, ihf,
      ihg]

end Formula

/-! ### Control sequences -/

namespace Style

/-- The text without control sequences, each of which goes from an escape character to the next `m`.
The first argument tells whether the text begins inside of one. -/
def uncontrolled (inside : Bool) : Text → Text
  | [] => []
  | c :: rest =>
    if inside then uncontrolled (c ≠ 'm') rest
    else if c = Char.ofNat 0x1B then uncontrolled true rest
    else c :: uncontrolled false rest

/-- Any character but an escape character stays. -/
theorem uncontrolled_cons {c : Char} (hc : c ≠ Char.ofNat 0x1B) (rest : Text) :
    uncontrolled false (c :: rest) = c :: uncontrolled false rest := by
  rw [uncontrolled, if_neg Bool.false_ne_true, if_neg hc]

/-- A control sequence leaves nothing. -/
theorem uncontrolled_select {code : Text} (hcode : 'm' ∉ code) (rest : Text) :
    uncontrolled false (select code ++ rest) = uncontrolled false rest := by
  have hinside : uncontrolled true (code ++ 'm' :: rest) = uncontrolled false rest := by
    induction code with
    | nil => simp [uncontrolled]
    | cons c code ih =>
      obtain ⟨hc, hcode⟩ := not_or.1 (List.mem_cons.not.1 hcode)
      rw [List.cons_append, uncontrolled, if_pos rfl, decide_eq_true (Ne.symm hc), ih hcode]
  simpa [select, uncontrolled] using hinside

/-- Without control sequences, styled text is the text itself, whatever stands behind it. -/
theorem uncontrolled_of_isStyled {s t : Text} (h : IsStyled s t) (ht : Char.ofNat 0x1B ∉ t)
    (rest : Text) : uncontrolled false (s ++ rest) = t ++ uncontrolled false rest := by
  induction h with
  | nil => rfl
  | char c _ ih =>
    obtain ⟨hc, ht⟩ := not_or.1 (List.mem_cons.not.1 ht)
    rw [List.cons_append, uncontrolled_cons (Ne.symm hc), ih ht, List.cons_append]
  | @select code hcode s t _ ih =>
    have hm : 'm' ∉ code := fun hmem => absurd (hcode 'm' hmem) (by decide)
    rw [List.append_assoc, uncontrolled_select hm, ih ht]

end Style

/-! ### What is printed -/

theorem Formula.formulaText_display {f : Formula Variable} (hf : f.IsSolid) :
    Style.formulaText false f.display = f.display := by
  rw [Style.formulaText, Formula.symbolsOf_display hf, Formula.flatMap_symbols]

/-- What stands in front of a character is told by the text, if the character stands nowhere in it. -/
theorem eq_of_append_cons_eq {α : Type} [DecidableEq α] {a : α} {xs ys xs' ys' : List α}
    (hxs : a ∉ xs) (hxs' : a ∉ xs') (h : xs ++ a :: ys = xs' ++ a :: ys') : xs = xs' := by
  have htake {xs : List α} (hxs : a ∉ xs) (ys : List α) :
      (xs ++ a :: ys).takeWhile (· ≠ a) = xs :=
    takeWhile_append_of_head (fun x hx => decide_eq_true fun h => hxs (h ▸ hx)) (by simp)
  rw [← htake hxs ys, h, htake hxs' ys']

theorem escapedChar_eq_self {c : Char} (hcontrol : 0x20 ≤ c.toNat) (hquote : c ≠ '"')
    (hslash : c ≠ '\\') : Json.escapedChar c = [c] := by
  unfold Json.escapedChar
  split
  case h_1 h => exact absurd (Json.eq_ofNat_of_toNat_eq h) hquote
  case h_2 h => exact absurd (Json.eq_ofNat_of_toNat_eq h) hslash
  case h_8 => rw [if_neg (Nat.not_lt.2 hcontrol)]
  all_goals omega

theorem escapedChar_of_isFormulaChar {c : Char} (h : isFormulaChar c = true) :
    Json.escapedChar c = [c] := by
  refine escapedChar_eq_self ?_ ?_ ?_
  · by_contra hcontrol
    have hall : ∀ n < 0x20, isFormulaChar (Char.ofNat n) = false := by decide
    have hc := hall c.toNat (Nat.lt_of_not_le hcontrol)
    rw [Char.ofNat_toNat, h] at hc
    cases hc
  · exact (ne_of_isFormulaChar h (by decide)).symm
  · exact (ne_of_isFormulaChar h (by decide)).symm

section Printed

variable {t t' : Formalization}

/-- In text, a formalization is printed with its formula on the first line. -/
theorem exists_uncontrolled_formalization (ht : t.formula.IsSolid) (color quiet : Bool) :
    ∃ more, Style.uncontrolled false (Report.formalization color quiet t) =
      t.formula.display ++ '\n' :: more := by
  have hescape : Char.ofNat 0x1B ∉ Style.formulaText false t.formula.display := by
    rw [Formula.formulaText_display ht]
    exact fun hmem => ne_of_isFormulaChar (Formula.isFormulaChar_of_mem_display _ hmem)
      (by decide) rfl
  rw [Report.formalization, Report.line, List.append_assoc,
    Style.uncontrolled_of_isStyled (Style.isStyled_formulaText color _) hescape,
    Formula.formulaText_display ht]
  exact ⟨_, rfl⟩

/-- How the JSON of a formalization begins. -/
def jsonLead : Text :=
  "\x7b\n  \"formula\": \"".toList

/-- In JSON, the formula is the text of the first field. -/
theorem exists_json_formalizationJson (t : Formalization) :
    ∃ more, Report.json (Report.formalizationJson t) =
      jsonLead ++ (t.formula.display ++ '"' :: more) := by
  have hquoted : Json.quoted t.formula.display = '"' :: (t.formula.display ++ ['"']) := by
    rw [Json.quoted, List.flatMap_congr fun c hc =>
      escapedChar_of_isFormulaChar (Formula.isFormulaChar_of_mem_display c hc)]
    simp
  have hlead : jsonLead =
      "\x7b".toList ++ Json.newLine 1 ++ Json.quoted "formula".toList ++ ": ".toList ++ ['"'] := by
    decide
  rw [hlead]
  simp only [Report.json, Report.line, Report.formalizationJson, Report.object, List.map_cons,
    Json.print, Json.printAt, hquoted, List.append_assoc, List.cons_append, List.nil_append,
    Nat.zero_add]
  exact ⟨_, rfl⟩

/-- A formalization as it is printed. -/
def printed (json color quiet : Bool) (t : Formalization) : Text :=
  if json then Report.json (Report.formalizationJson t) else Report.formalization color quiet t

/-- What is printed in text does not begin like JSON. -/
theorem json_ne_formalization (ht' : t'.formula.IsSolid) (color quiet : Bool) :
    Report.json (Report.formalizationJson t) ≠ Report.formalization color quiet t' := by
  intro h
  obtain ⟨more, hjson⟩ := exists_json_formalizationJson t
  obtain ⟨more', htext⟩ := exists_uncontrolled_formalization ht' color quiet
  obtain ⟨c, hc, -⟩ := ht'.head?_display
  obtain ⟨tail, hdisplay⟩ := List.head?_eq_some_iff.1 hc
  have hbrace : c = '\x7b' := by
    rw [← h, hjson, hdisplay] at htext
    exact (List.cons_eq_cons.1 htext).1.symm
  have hchar : isFormulaChar c = true :=
    Formula.isFormulaChar_of_mem_display c (List.mem_of_mem_head? hc)
  exact ne_of_isFormulaChar hchar (by decide) hbrace.symm

/-- What is printed tells the formula, in whichever way it is printed. -/
theorem formula_eq_of_printed_eq (ht : t.formula.IsRooted) (ht' : t'.formula.IsRooted)
    {json color quiet json' color' quiet' : Bool}
    (h : printed json color quiet t = printed json' color' quiet' t') : t.formula = t'.formula := by
  refine ht.eq_of_display_eq ht' ?_
  have hnot {f : Formula Variable} {c : Char} (hc : isFormulaChar c = false) : c ∉ f.display :=
    fun hmem => ne_of_isFormulaChar (Formula.isFormulaChar_of_mem_display c hmem) hc rfl
  cases json <;> cases json'
  · have htext := congrArg (Style.uncontrolled false) h
    obtain ⟨more, hmore⟩ := exists_uncontrolled_formalization ht.isSolid color quiet
    obtain ⟨more', hmore'⟩ := exists_uncontrolled_formalization ht'.isSolid color' quiet'
    rw [printed, printed, if_neg Bool.false_ne_true, if_neg Bool.false_ne_true, hmore, hmore'] at htext
    exact eq_of_append_cons_eq (hnot (by decide)) (hnot (by decide)) htext
  · exact absurd h.symm (json_ne_formalization ht.isSolid color quiet)
  · exact absurd h (json_ne_formalization ht'.isSolid color' quiet')
  · obtain ⟨more, hmore⟩ := exists_json_formalizationJson t
    obtain ⟨more', hmore'⟩ := exists_json_formalizationJson t'
    rw [printed, printed, if_pos rfl, if_pos rfl, hmore, hmore', List.append_cancel_left_eq] at h
    exact eq_of_append_cons_eq (hnot (by decide)) (hnot (by decide)) h

end Printed

theorem isRooted_of_formalize {sentence : Text} {t : Formalization} (h : formalize sentence = .ok t) :
    t.formula.IsRooted := by
  obtain ⟨sides, -, hread, rfl⟩ := formalize_eq_ok_iff.1 h
  exact (isFlat_formula hread).isRooted

/-- A command line that formalizes a sentence, and succeeds, prints its formalization. -/
theorem exists_printed_of_runLine {w : Surroundings} {args : List Text} {flags : GlobalFlags}
    {sentence : List Text} (hargs : Request.ofArguments args = .run flags (.parse sentence))
    (hcode : (runLine w args).code = 0) :
    ∃ t json color quiet, formalize (Text.unwords sentence) = .ok t ∧
      (runLine w args).output = printed json color quiet t := by
  simp only [runLine, hargs, runCommand] at hcode ⊢
  cases hcontext : Context.ofFlags w flags with
  | error e => simp [hcontext] at hcode
  | ok c =>
    simp only [hcontext, Context.run, Context.parse, Context.succeed, Context.fail] at hcode ⊢
    cases hread : formalize (Text.unwords sentence) with
    | error e => simp [hread] at hcode
    | ok t => exact ⟨t, c.json, c.color, c.quiet, rfl, rfl⟩

/-- Formulas with conditionals at the root only and with two or more operands in each group are
displayed alike only if they are the same.  Formalizing a sentence gives such a formula, so that what is
printed for a sentence tells the formula, in text with or without colors and in JSON. -/
theorem display_eq_iff_of_isRooted :
    (∀ f g : Formula Variable, f.IsRooted → g.IsRooted → (f.display = g.display ↔ f = g)) ∧
    (∀ sentence t, formalize sentence = .ok t → t.formula.IsRooted) ∧
    ∀ (w w' : Surroundings) (args args' : List Text) (flags flags' : GlobalFlags)
      (sentence sentence' : List Text),
      Request.ofArguments args = .run flags (.parse sentence) → (runLine w args).code = 0 →
      Request.ofArguments args' = .run flags' (.parse sentence') → (runLine w' args').code = 0 →
      (runLine w args).output = (runLine w' args').output →
      ∃ t t', formalize (Text.unwords sentence) = .ok t ∧
        formalize (Text.unwords sentence') = .ok t' ∧ t.formula = t'.formula := by
  refine ⟨fun f g hf hg => ⟨hf.eq_of_display_eq hg, congrArg _⟩,
    fun sentence t h => isRooted_of_formalize h, ?_⟩
  intro w w' args args' flags flags' sentence sentence' hargs hcode hargs' hcode' houtput
  obtain ⟨t, json, color, quiet, hread, hprinted⟩ := exists_printed_of_runLine hargs hcode
  obtain ⟨t', json', color', quiet', hread', hprinted'⟩ := exists_printed_of_runLine hargs' hcode'
  rw [hprinted, hprinted'] at houtput
  exact ⟨t, t', hread, hread', formula_eq_of_printed_eq (isRooted_of_formalize hread)
    (isRooted_of_formalize hread') houtput⟩

/-- Two sentences with one formula, in an empty tree of files. -/
theorem display_eq_iff_two_sentences :
    let w : Surroundings := ⟨⟨[]⟩, [], [], [], false, [], []⟩
    let first := ["chove e neva".toList]
    let second := ["venta, mas chove".toList]
    (runLine w ("parse".toList :: "-q".toList :: first)).output = "(P ∧ Q)\n".toList ∧
      (runLine w ("parse".toList :: "-q".toList :: second)).output = "(P ∧ Q)\n".toList ∧
      ∃ t t', formalize (Text.unwords first) = .ok t ∧ formalize (Text.unwords second) = .ok t' ∧
        t.formula.IsRooted ∧ t.formula = t'.formula := by
  intro w first second
  have hargs : Request.ofArguments ("parse".toList :: "-q".toList :: first) =
      .run { quiet := true } (.parse first) := by decide +kernel
  have hargs' : Request.ofArguments ("parse".toList :: "-q".toList :: second) =
      .run { quiet := true } (.parse second) := by decide +kernel
  have houtput : (runLine w ("parse".toList :: "-q".toList :: first)).output =
      "(P ∧ Q)\n".toList := by decide +kernel
  have houtput' : (runLine w ("parse".toList :: "-q".toList :: second)).output =
      "(P ∧ Q)\n".toList := by decide +kernel
  obtain ⟨-, hrooted, hprinted⟩ := display_eq_iff_of_isRooted
  obtain ⟨t, t', hread, hread', hsame⟩ := hprinted w w _ _ _ _ _ _ hargs (by decide +kernel) hargs'
    (by decide +kernel) (houtput.trans houtput'.symm)
  exact ⟨houtput, houtput', t, t', hread, hread', hrooted _ t hread, hsame⟩

end Sentential
