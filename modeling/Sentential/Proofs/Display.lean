import Mathlib.Data.List.Basic
import Mathlib.Tactic.Common
import Sentential.Formula.Symbol
import Sentential.Proofs.Flat
import Sentential.Proofs.Words

/-!
# Reading a displayed formula

The symbols of a displayed formula are known from the formula itself (`Formula.symbols`).  They can be
read off its text (`symbolsOf_display`) as long as no group is empty: an empty group is displayed as
nothing, and the spaces around it would run together.

It follows that the variables of a displayed formula are its atoms (`variablesIn_display`).
-/

namespace Sentential

namespace Formula

variable {α β : Type}

/-- No group of the formula is empty. -/
inductive IsSolid : Formula α → Prop
  /-- An atom. -/
  | atom (a : α) : IsSolid (.atom a)
  /-- A negation. -/
  | neg {f : Formula α} (hf : IsSolid f) : IsSolid (.neg f)
  /-- A conjunction of one or more operands. -/
  | conj {fs : List (Formula α)} (hne : fs ≠ []) (hfs : ∀ f ∈ fs, IsSolid f) : IsSolid (.conj fs)
  /-- A disjunction of one or more operands. -/
  | disj {fs : List (Formula α)} (hne : fs ≠ []) (hfs : ∀ f ∈ fs, IsSolid f) : IsSolid (.disj fs)
  /-- An implication. -/
  | imp {f g : Formula α} (hf : IsSolid f) (hg : IsSolid g) : IsSolid (.imp f g)
  /-- A biconditional. -/
  | iff {f g : Formula α} (hf : IsSolid f) (hg : IsSolid g) : IsSolid (.iff f g)

/-- The symbols of a connective between two operands. -/
def infixSymbols (c : Connective) : List Symbol :=
  [.space [' '], .connective c, .space [' ']]

/-- The symbols of a group, from those of its operands. -/
def groupSymbols (c : Connective) (parts : List (List Symbol)) : List Symbol :=
  let body := List.intercalate (infixSymbols c) parts
  if 2 ≤ parts.length then .opening :: body ++ [.closing] else body

mutual

/-- The symbols of a displayed formula. -/
def symbols : Formula Variable → List Symbol
  | atom v => [.var v]
  | neg f => .connective .negation :: symbols f
  | conj fs => groupSymbols .conjunction (symbolsAll fs)
  | disj fs => groupSymbols .disjunction (symbolsAll fs)
  | imp f g => symbols f ++ infixSymbols .implication ++ symbols g
  | iff f g => symbols f ++ infixSymbols .biconditional ++ symbols g

/-- The symbols of each operand of a group. -/
def symbolsAll : List (Formula Variable) → List (List Symbol)
  | [] => []
  | f :: fs => symbols f :: symbolsAll fs

end

theorem symbolsAll_eq_map (fs : List (Formula Variable)) : symbolsAll fs = fs.map symbols := by
  induction fs with
  | nil => rfl
  | cons f fs ih => simp [symbolsAll, ih]

theorem displayAll_eq_map (fs : List (Formula Variable)) : displayAll fs = fs.map display := by
  induction fs with
  | nil => rfl
  | cons f fs ih => simp [displayAll, ih]

end Formula

/-! ### One symbol at a time -/

/-- The characters with which the spellings of connectives begin. -/
def spellingStarts : List Char :=
  ['¬', '~', '!', '∧', '&', '∨', '|', '→', '-', '=', '↔', '<']

/-- No connective starts with any other character. -/
theorem connectiveAt?_eq_none {c : Char} (h : c ∉ spellingStarts) (rest : Text) :
    Symbol.connectiveAt? (c :: rest) = none := by
  have hne : ∀ d ∈ spellingStarts, d ≠ c := fun d hd hdc => h (hdc ▸ hd)
  simp only [spellingStarts, List.forall_mem_cons] at hne
  simp [Symbol.connectiveAt?, Connective.all, Connective.spellings, Connective.glyph,
    Connective.ascii, Symbol.better, hne]

/-- A glyph is read as its connective. -/
theorem connectiveAt?_glyph (conn : Connective) (rest : Text) :
    Symbol.connectiveAt? (conn.glyph :: rest) = some (conn, [conn.glyph]) := by
  cases conn <;>
    simp [Symbol.connectiveAt?, Connective.all, Connective.spellings, Connective.glyph,
      Connective.ascii, Symbol.better]

theorem symbolsOf_glyph (conn : Connective) (rest : Text) :
    symbolsOf (conn.glyph :: rest) = .connective conn :: symbolsOf rest := by
  have hspace : isSpace conn.glyph = false := by cases conn <;> decide
  rw [symbolsOf_cons, Symbol.first, if_neg (by simp [hspace]), connectiveAt?_glyph]
  rfl

theorem symbolsOf_opening (rest : Text) : symbolsOf ('(' :: rest) = .opening :: symbolsOf rest := by
  rw [symbolsOf_cons, Symbol.first, if_neg (by decide), connectiveAt?_eq_none (by decide)]
  rfl

theorem symbolsOf_closing (rest : Text) : symbolsOf (')' :: rest) = .closing :: symbolsOf rest := by
  rw [symbolsOf_cons, Symbol.first, if_neg (by decide), connectiveAt?_eq_none (by decide)]
  rfl

/-- A single space is read as such in front of something else. -/
theorem symbolsOf_space {rest : Text} (h : ∀ c ∈ rest.head?, isSpace c = false) :
    symbolsOf (' ' :: rest) = .space [' '] :: symbolsOf rest := by
  have hspace : isSpace ' ' = true := by decide
  cases rest with
  | nil => rw [symbolsOf_cons, Symbol.first, if_pos hspace]; rfl
  | cons c rest =>
    have hc : isSpace c = false := h c rfl
    rw [symbolsOf_cons, Symbol.first, if_pos hspace]
    simp [hc]

/-- The code points of upper-case letters. -/
theorem toNat_of_isUpper {c : Char} (h : c.isUpper = true) : 65 ≤ c.toNat ∧ c.toNat ≤ 90 := by
  have hrange : 'A'.val ≤ c.val ∧ c.val ≤ 'Z'.val := of_decide_eq_true h
  exact ⟨UInt32.le_iff_toNat_le.1 hrange.1, UInt32.le_iff_toNat_le.1 hrange.2⟩

theorem isDigit_eq_false_of_isUpper {c : Char} (h : c.isUpper = true) : c.isDigit = false := by
  have hupper := toNat_of_isUpper h
  by_contra hdigit
  simp only [Char.isDigit, Bool.and_eq_true, decide_eq_true_eq, ge_iff_le,
    UInt32.le_iff_toNat_le, Bool.not_eq_false] at hdigit
  have hrange : 48 ≤ c.toNat ∧ c.toNat ≤ 57 := hdigit
  omega

theorem isSpace_eq_false_of_isUpper {c : Char} (h : c.isUpper = true) : isSpace c = false := by
  have := toNat_of_isUpper h
  simp [isSpace]
  omega

theorem isSpace_eq_false_of_isDigit {c : Char} (h : c.isDigit = true) : isSpace c = false := by
  have hrange : 48 ≤ c.toNat ∧ c.toNat ≤ 57 := Char.isDigit_iff_toNat.1 h
  simp [isSpace]
  omega

/-- There is no white space in the name of a variable. -/
theorem isSpace_eq_false_of_mem_name (v : Variable) : ∀ c ∈ v.name, isSpace c = false :=
  List.forall_mem_cons.2 ⟨isSpace_eq_false_of_isUpper v.letter_isUpper,
    fun c hc => isSpace_eq_false_of_isDigit (List.all_eq_true.1 v.digits_isDigit c hc)⟩

/-- A character that is neither an upper-case letter nor a digit stands in the name of no variable. -/
theorem notMem_name {c : Char} (hupper : c.isUpper = false) (hdigit : c.isDigit = false)
    (v : Variable) : c ∉ v.name := by
  intro hc
  rcases List.mem_cons.1 hc with rfl | hc
  · rw [v.letter_isUpper] at hupper
    cases hupper
  · rw [List.all_eq_true.1 v.digits_isDigit c hc] at hdigit
    cases hdigit

theorem not_mem_spellingStarts_of_isUpper {c : Char} (h : c.isUpper = true) :
    c ∉ spellingStarts := by
  intro hmem
  have hall : spellingStarts.all (fun d => !d.isUpper) = true := by decide
  have hnot := List.all_eq_true.1 hall c hmem
  rw [h] at hnot
  cases hnot

/-- A variable is read with all of its digits. -/
theorem symbolsOf_name (v : Variable) {rest : Text} (h : ∀ c ∈ rest.head?, c.isDigit = false) :
    symbolsOf (v.name ++ rest) = .var v :: symbolsOf rest := by
  have hdigits : ∀ c ∈ v.digits, c.isDigit = true := List.all_eq_true.1 v.digits_isDigit
  have htake : (v.digits ++ rest).takeWhile Char.isDigit = v.digits :=
    takeWhile_append_of_head hdigits h
  have hdrop : (v.digits ++ rest).dropWhile Char.isDigit = rest :=
    dropWhile_append_of_head hdigits h
  have hparen {c : Char} (hc : c.isUpper = false) : v.letter ≠ c := fun hletter =>
    Bool.false_ne_true (hc.symm.trans (hletter ▸ v.letter_isUpper))
  have hopening : v.letter ≠ '(' := hparen (by decide)
  have hclosing : v.letter ≠ ')' := hparen (by decide)
  rw [Variable.name, List.cons_append, symbolsOf_cons, Symbol.first,
    if_neg (by simp [isSpace_eq_false_of_isUpper v.letter_isUpper]),
    connectiveAt?_eq_none (not_mem_spellingStarts_of_isUpper v.letter_isUpper)]
  simp only [Symbol.single, hopening, hclosing, if_false, v.letter_isUpper, dif_pos, htake, hdrop]

/-! ### A whole formula -/

namespace Formula

/-- A displayed formula begins with no white space and with no digit. -/
theorem IsSolid.head?_display {f : Formula Variable} (hf : f.IsSolid) :
    ∃ c, f.display.head? = some c ∧ isSpace c = false ∧ c.isDigit = false := by
  have hgroup (glyph : Char) {fs : List (Formula Variable)} (hne : fs ≠ [])
      (ih : ∀ f ∈ fs, ∃ c, f.display.head? = some c ∧ isSpace c = false ∧ c.isDigit = false) :
      ∃ c, (displayGroup glyph (displayAll fs)).head? = some c ∧ isSpace c = false ∧
        c.isDigit = false := by
    match fs, hne with
    | [f], _ =>
      obtain ⟨c, hc⟩ := ih f (by simp)
      exact ⟨c, by simpa [displayGroup, displayAll, Text.join, List.intercalate] using hc⟩
    | f :: g :: fs, _ =>
      exact ⟨'(', by simp [displayGroup, displayAll], by decide, by decide⟩
  induction hf with
  | atom v =>
    exact ⟨v.letter, rfl, isSpace_eq_false_of_isUpper v.letter_isUpper,
      isDigit_eq_false_of_isUpper v.letter_isUpper⟩
  | neg _ _ => exact ⟨'¬', rfl, by decide, by decide⟩
  | conj hne _ ih => exact hgroup _ hne ih
  | disj hne _ ih => exact hgroup _ hne ih
  | imp _ _ ihf _ | iff _ _ ihf _ =>
    obtain ⟨c, hc, hspace⟩ := ihf
    exact ⟨c, by simp [display, hc], hspace⟩

/-- In front of anything but a digit, the text `t` is read as the symbols `ss`. -/
def ReadsAs (t : Text) (ss : List Symbol) : Prop :=
  ∀ rest : Text, (∀ c ∈ rest.head?, c.isDigit = false) →
    symbolsOf (t ++ rest) = ss ++ symbolsOf rest

/-- A connective between two operands is read as such, if the second one begins with no white
space. -/
theorem ReadsAs.append {s t : Text} {ss ts : List Symbol} (hs : ReadsAs s ss) (ht : ReadsAs t ts)
    {c : Char} (hc : t.head? = some c) (hspace : isSpace c = false) (conn : Connective) :
    ReadsAs (s ++ ([' ', conn.glyph, ' '] ++ t)) (ss ++ (infixSymbols conn ++ ts)) := by
  intro rest hrest
  have hdigit : ∀ c ∈ (' ' :: conn.glyph :: ' ' :: (t ++ rest)).head?, c.isDigit = false := by
    rintro _ ⟨⟩
    decide
  have hglyph : ∀ c ∈ (conn.glyph :: ' ' :: (t ++ rest)).head?, isSpace c = false := by
    rintro _ ⟨⟩
    cases conn <;> decide
  have hstart : ∀ c ∈ (t ++ rest).head?, isSpace c = false := by simpa [hc] using hspace
  calc symbolsOf (s ++ ([' ', conn.glyph, ' '] ++ t) ++ rest)
      = symbolsOf (s ++ ' ' :: conn.glyph :: ' ' :: (t ++ rest)) := by simp
    _ = ss ++ symbolsOf (' ' :: conn.glyph :: ' ' :: (t ++ rest)) := hs _ hdigit
    _ = ss ++ (infixSymbols conn ++ (ts ++ symbolsOf rest)) := by
      rw [symbolsOf_space hglyph, symbolsOf_glyph, symbolsOf_space hstart, ht rest hrest]
      rfl
    _ = ss ++ (infixSymbols conn ++ ts) ++ symbolsOf rest := by simp

/-- Operands that are written with a connective between neighbours begin like the first one. -/
theorem head?_join {s : Text} {c : Char} (hc : s.head? = some c) (sep : Text) (ts : List Text) :
    (Text.join sep (s :: ts)).head? = some c := by
  cases ts with
  | nil => simpa [Text.join] using hc
  | cons t ts => simp [Text.join, hc]

/-- Operands that are written with a connective between neighbours. -/
theorem readsAs_join (conn : Connective) {fs : List (Formula Variable)} (hne : fs ≠ [])
    (hsolid : ∀ f ∈ fs, f.IsSolid) (hfs : ∀ f ∈ fs, ReadsAs f.display f.symbols) :
    ReadsAs (Text.join [' ', conn.glyph, ' '] (fs.map display))
      (List.intercalate (infixSymbols conn) (fs.map symbols)) := by
  induction fs with
  | nil => exact absurd rfl hne
  | cons f fs ih =>
    obtain ⟨hf, hfs⟩ := List.forall_mem_cons.1 hfs
    cases fs with
    | nil => simpa [Text.join] using hf
    | cons g fs =>
      obtain ⟨c, hc, hspace, -⟩ := (hsolid g (by simp)).head?_display
      have hgs := ih (by simp) (fun f hf => hsolid f (List.mem_cons_of_mem _ hf)) hfs
      have hstart := head?_join hc [' ', conn.glyph, ' '] (fs.map display)
      simp only [Text.join, List.map_cons, List.intercalate_cons_cons, List.append_assoc]
      exact hf.append hgs hstart hspace conn

/-- A group stands in parentheses where there are two or more operands. -/
theorem readsAs_displayGroup (conn : Connective) {fs : List (Formula Variable)} (hne : fs ≠ [])
    (hsolid : ∀ f ∈ fs, f.IsSolid) (hfs : ∀ f ∈ fs, ReadsAs f.display f.symbols) :
    ReadsAs (displayGroup conn.glyph (displayAll fs)) (groupSymbols conn (symbolsAll fs)) := by
  have hbody := readsAs_join conn hne hsolid hfs
  rw [displayGroup, groupSymbols, displayAll_eq_map, symbolsAll_eq_map, List.length_map,
    List.length_map]
  split
  · intro rest hrest
    have hclosing : ∀ c ∈ (')' :: rest).head?, c.isDigit = false := by
      rintro _ ⟨⟩
      decide
    simp [symbolsOf_opening, hbody _ hclosing, symbolsOf_closing]
  · exact hbody

/-- The symbols of a formula can be read off its display. -/
theorem readsAs_display {f : Formula Variable} (hf : f.IsSolid) : ReadsAs f.display f.symbols := by
  induction hf with
  | atom v => exact fun rest hrest => symbolsOf_name v hrest
  | neg _ ih =>
    intro rest hrest
    rw [display, List.cons_append, symbolsOf_glyph, ih rest hrest]
    rfl
  | conj hne hfs ih => exact readsAs_displayGroup .conjunction hne hfs ih
  | disj hne hfs ih => exact readsAs_displayGroup .disjunction hne hfs ih
  | imp _ hg ihf ihg | iff _ hg ihf ihg =>
    obtain ⟨c, hc, hspace, -⟩ := hg.head?_display
    simpa only [display, symbols, List.append_assoc] using ihf.append ihg hc hspace _

theorem symbolsOf_display {f : Formula Variable} (hf : f.IsSolid) :
    symbolsOf f.display = f.symbols := by
  simpa using readsAs_display hf [] (by simp)

/-! ### Variables -/

theorem filterMap_intercalate (sep : List Symbol) (hsep : sep.filterMap Symbol.var? = [])
    (parts : List (List Symbol)) :
    (List.intercalate sep parts).filterMap Symbol.var? =
      parts.flatMap (List.filterMap Symbol.var?) := by
  induction parts with
  | nil => rfl
  | cons part parts ih =>
    cases parts with
    | nil => simp
    | cons next parts => simp [hsep, ih]

@[simp] theorem filterMap_infixSymbols (conn : Connective) :
    (infixSymbols conn).filterMap Symbol.var? = [] := rfl

/-- The variables among the symbols of a formula are its atoms. -/
theorem filterMap_symbols (f : Formula Variable) : f.symbols.filterMap Symbol.var? = f.atoms := by
  have hgroup (conn : Connective) {fs : List (Formula Variable)}
      (ih : ∀ f ∈ fs, f.symbols.filterMap Symbol.var? = f.atoms) :
      (groupSymbols conn (symbolsAll fs)).filterMap Symbol.var? = fs.flatMap atoms := by
    have hbody : (List.intercalate (infixSymbols conn) (symbolsAll fs)).filterMap Symbol.var? =
        fs.flatMap atoms := by
      rw [filterMap_intercalate _ rfl, symbolsAll_eq_map, List.flatMap_map]
      exact List.flatMap_congr ih
    have hopening : Symbol.var? .opening = none := rfl
    have hclosing : Symbol.var? .closing = none := rfl
    rw [groupSymbols]
    split
    · simp [hbody, hopening, hclosing]
    · exact hbody
  induction f using Formula.induction with
  | atom v => rfl
  | neg f ih => exact ih
  | conj fs ih => rw [atoms_conj, symbols, hgroup _ ih]
  | disj fs ih => rw [atoms_disj, symbols, hgroup _ ih]
  | imp f g ihf ihg | iff f g ihf ihg => simp [symbols, atoms, ihf, ihg]

/-- The variables of a displayed formula are its atoms, each where it occurs first. -/
theorem variablesIn_display {f : Formula Variable} (hf : f.IsSolid) :
    variablesIn f.display = Variable.distinct f.atoms := by
  rw [variablesIn, symbolsOf_display hf, filterMap_symbols]

end Formula

end Sentential
