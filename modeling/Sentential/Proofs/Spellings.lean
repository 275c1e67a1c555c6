import Mathlib.Data.List.Forall2
import Mathlib.Tactic.Common
import Sentential.Proofs.Display
import Sentential.Proofs.Spans
import Sentential.Proofs.Words

/-!
# How the symbols of a formula are spelled

Each symbol of a written formula stands for a stretch of the text (`Symbol.Spells`), and goes as far
as it can (`Symbol.IsMaximal`).  A list of symbols with spellings of this kind that make up the whole
text is a reading of it (`IsReading`).  Every text has one reading, and its symbols are those that are
taken from it one after the other (`exists_isReading_iff`); in particular no character of a text is
lost.

Where a connective may begin, the spellings of all connectives are tried one after the other, and the
longest so far is held (`IsLongest`).
-/

namespace Sentential

/-! ### The longest spelling of a connective -/

namespace Connective

variable {c d : Connective} {w : Text}

/-- All spellings with their connectives, in the order in which they are tried. -/
def candidates : List (Connective × Text) :=
  all.flatMap fun c => c.spellings.map fun w => (c, w)

theorem mem_all (c : Connective) : c ∈ all := by
  cases c <;> decide

theorem mem_candidates_iff : (c, w) ∈ candidates ↔ w ∈ c.spellings := by
  simp [candidates, mem_all]

theorem forall_mem_candidates_iff {p : Text → Prop} :
    (∀ candidate ∈ candidates, p candidate.2) ↔ ∀ d : Connective, ∀ w ∈ d.spellings, p w :=
  ⟨fun h _ _ hw => h _ (mem_candidates_iff.2 hw),
    fun h candidate hmem => h candidate.1 candidate.2 (mem_candidates_iff.1 hmem)⟩

/-- A spelling belongs to one connective. -/
theorem eq_of_mem_spellings (hc : w ∈ c.spellings) (hd : w ∈ d.spellings) : c = d := by
  have hall : ∀ c ∈ all, ∀ d ∈ all, ∀ w ∈ c.spellings, w ∈ d.spellings → c = d := by decide
  exact hall c (mem_all c) d (mem_all d) w hc hd

/-- A spelling begins with a character that is no white space. -/
theorem exists_cons_of_mem_spellings (hw : w ∈ c.spellings) :
    ∃ first tail, w = first :: tail ∧ isSpace first = false := by
  have hall : ∀ c ∈ all, ∀ w ∈ c.spellings, w.head?.any (!isSpace ·) = true := by decide
  have hhead := hall c (mem_all c) w hw
  cases w with
  | nil => cases hhead
  | cons first tail => exact ⟨first, tail, rfl, by simpa using hhead⟩

theorem ne_nil_of_mem_spellings (hw : w ∈ c.spellings) : w ≠ [] := by
  obtain ⟨first, tail, rfl, -⟩ := exists_cons_of_mem_spellings hw
  exact List.cons_ne_nil first tail

end Connective

namespace Symbol

open Connective (candidates)

variable {c : Connective} {t w : Text} {tried : List (Connective × Text)}
  {held : Option (Connective × Text)}

/-- What is held is the longest of the spellings tried so far with which the text begins, and nothing
is held if it begins with none of them. -/
def IsLongest (t : Text) (tried : List (Connective × Text)) : Option (Connective × Text) → Prop
  | none => ∀ candidate ∈ tried, ¬ candidate.2 <+: t
  | some held => held ∈ tried ∧ held.2 <+: t ∧
      ∀ candidate ∈ tried, candidate.2 <+: t → candidate.2.byteLength ≤ held.2.byteLength

/-- One more spelling is tried. -/
theorem IsLongest.better (h : IsLongest t tried held) (c : Connective) (w : Text) :
    IsLongest t (tried ++ [(c, w)]) (Symbol.better t held c w) := by
  unfold Symbol.better
  split
  · next hw =>
    have hw : w <+: t := List.isPrefixOf_iff_prefix.1 hw
    cases held with
    | none =>
      exact ⟨by simp, hw, List.forall_mem_append.2
        ⟨fun candidate hmem hstarts => absurd hstarts (h candidate hmem), by simp⟩⟩
    | some held =>
      obtain ⟨hheld, hstarts, hlongest⟩ := h
      simp only
      split
      · next hlt =>
        exact ⟨by simp, hw, List.forall_mem_append.2
          ⟨fun candidate hmem hcandidate => (hlongest candidate hmem hcandidate).trans hlt.le,
            by simp⟩⟩
      · next hle =>
        exact ⟨List.mem_append_left _ hheld, hstarts, List.forall_mem_append.2
          ⟨hlongest, List.forall_mem_singleton.2 fun _ => Nat.le_of_not_lt hle⟩⟩
  · next hw =>
    have hw : ¬ w <+: t := fun h => hw (List.isPrefixOf_iff_prefix.2 h)
    cases held with
    | none => exact List.forall_mem_append.2 ⟨h, List.forall_mem_singleton.2 hw⟩
    | some held =>
      obtain ⟨hheld, hstarts, hlongest⟩ := h
      exact ⟨List.mem_append_left _ hheld, hstarts, List.forall_mem_append.2
        ⟨hlongest, List.forall_mem_singleton.2 fun hcandidate => absurd hcandidate hw⟩⟩

/-- Spellings are tried one after the other. -/
theorem IsLongest.foldl (h : IsLongest t tried held) (more : List (Connective × Text)) :
    IsLongest t (tried ++ more) (more.foldl (fun held p => Symbol.better t held p.1 p.2) held) := by
  induction more generalizing tried held with
  | nil => simpa using h
  | cons candidate more ih =>
    have hmore := ih (h.better candidate.1 candidate.2)
    rwa [List.append_assoc, List.singleton_append] at hmore

theorem isLongest_connectiveAt? (t : Text) : IsLongest t candidates (connectiveAt? t) := by
  have hfold : connectiveAt? t =
      candidates.foldl (fun held p => Symbol.better t held p.1 p.2) none := by
    rw [connectiveAt?, Connective.candidates, List.foldl_flatMap]
    simp only [List.foldl_map]
  have hnone : IsLongest t [] none := by simp [IsLongest]
  rw [hfold]
  exact hnone.foldl candidates

/-- No connective is found where none of the spellings begins. -/
theorem connectiveAt?_eq_none_iff :
    connectiveAt? t = none ↔ ∀ d : Connective, ∀ w ∈ d.spellings, ¬ w <+: t := by
  rw [← Connective.forall_mem_candidates_iff (p := fun w => ¬ w <+: t)]
  have hlongest := isLongest_connectiveAt? t
  cases h : connectiveAt? t with
  | none =>
    rw [h] at hlongest
    exact iff_of_true rfl hlongest
  | some held =>
    rw [h] at hlongest
    exact iff_of_false (by simp) fun hnone => hnone held hlongest.1 hlongest.2.1

/-- The connective that is found has the longest of the spellings that begin here. -/
theorem connectiveAt?_eq_some_iff :
    connectiveAt? t = some (c, w) ↔ w ∈ c.spellings ∧ w <+: t ∧
      ∀ d : Connective, ∀ w' ∈ d.spellings, w' <+: t → w'.length ≤ w.length := by
  have hlongest := isLongest_connectiveAt? t
  constructor
  · intro h
    rw [h] at hlongest
    obtain ⟨hmem, hstarts, hlongest⟩ := hlongest
    refine ⟨Connective.mem_candidates_iff.1 hmem, hstarts, fun d w' hw' hstarts' => ?_⟩
    have hbytes := hlongest (d, w') (Connective.mem_candidates_iff.2 hw') hstarts'
    exact (Text.isPrefix_of_byteLength_le hstarts' hstarts hbytes).length_le
  · rintro ⟨hw, hstarts, hall⟩
    cases h : connectiveAt? t with
    | none => exact absurd hstarts (connectiveAt?_eq_none_iff.1 h c w hw)
    | some held =>
      rw [h] at hlongest
      obtain ⟨hmem, hstarts', hlongest⟩ := hlongest
      have hmem := Connective.mem_candidates_iff.1 hmem
      -- each of the two spellings begins the other one
      have hbytes := hlongest (c, w) (Connective.mem_candidates_iff.2 hw) hstarts
      have hle := (Text.isPrefix_of_byteLength_le hstarts hstarts' hbytes).length_le
      have heq : held.2 = w := List.IsPrefix.eq_of_length
        (List.prefix_of_prefix_length_le hstarts' hstarts (hall held.1 held.2 hmem hstarts'))
        (Nat.le_antisymm (hall held.1 held.2 hmem hstarts') hle)
      have hc : held.1 = c := Connective.eq_of_mem_spellings hmem (heq ▸ hw)
      rw [← hc, ← heq]

/-! ### Spellings of symbols -/

/-- The texts that stand for a symbol. -/
inductive Spells : Symbol → Text → Prop
  /-- A variable is spelled as its name. -/
  | var (v : Variable) : Spells (.var v) v.name
  /-- A connective has its glyph and its ASCII spellings. -/
  | connective {c : Connective} {w : Text} (hw : w ∈ c.spellings) : Spells (.connective c) w
  /-- An opening parenthesis. -/
  | opening : Spells .opening ['(']
  /-- A closing parenthesis. -/
  | closing : Spells .closing [')']
  /-- White space stands for itself. -/
  | space (t : Text) : Spells (.space t) t
  /-- So does any other character. -/
  | other (t : Text) : Spells (.other t) t

/-- Whether a symbol that is spelled `w` goes as far as it can in front of `rest`, and nothing else is
read in its place. -/
def IsMaximal : Symbol → Text → Text → Prop
  | var _, _, rest => ∀ c ∈ rest.head?, c.isDigit = false
  | connective _, w, rest =>
    ∀ d : Connective, ∀ w' ∈ d.spellings, w' <+: w ++ rest → w'.length ≤ w.length
  | opening, _, _ | closing, _, _ => True
  | space t, _, rest => t ≠ [] ∧ t.isBlank = true ∧ ∀ c ∈ rest.head?, isSpace c = false
  | other t, w, rest => ∃ c, t = [c] ∧ isSpace c = false ∧ c ≠ '(' ∧ c ≠ ')' ∧ c.isUpper = false ∧
    ∀ d : Connective, ∀ w' ∈ d.spellings, ¬ w' <+: w ++ rest

/-- Whether the symbol is white space. -/
def isWhite : Symbol → Bool
  | space _ => true
  | _ => false

/-- What is left behind a spelling does not hold its first character. -/
theorem drop_of_append_eq_cons {c : Char} {rest more : Text} (hw : w ≠ [])
    (h : w ++ more = c :: rest) : rest.drop (w.length - 1) = more := by
  cases w with
  | nil => exact absurd rfl hw
  | cons d w =>
    obtain ⟨-, rfl⟩ := List.cons_eq_cons.1 h
    simp

/-- The first symbol of a text is spelled at its start. -/
theorem exists_spells_first (c : Char) (rest : Text) :
    ∃ w, (first c rest).1.Spells w ∧ (first c rest).1.IsMaximal w (first c rest).2 ∧
      w ++ (first c rest).2 = c :: rest := by
  unfold first
  split
  · next hspace =>
    refine ⟨_, .space _, ⟨List.cons_ne_nil _ _, ?_, head?_dropWhile_eq_false isSpace rest⟩, ?_⟩
    · simp [Text.isBlank, hspace, List.all_takeWhile]
    · rw [List.cons_append, List.takeWhile_append_dropWhile]
  · next hspace =>
    split
    · next conn spelling h =>
      obtain ⟨hmem, ⟨more, hmore⟩, hlongest⟩ := connectiveAt?_eq_some_iff.1 h
      have hdrop : rest.drop (spelling.length - 1) = more := drop_of_append_eq_cons
        (Connective.ne_nil_of_mem_spellings hmem) hmore
      refine ⟨spelling, .connective hmem, ?_, ?_⟩
      · simp only [hdrop]
        rw [IsMaximal, hmore]
        exact hlongest
      · simp only [hdrop]
        exact hmore
    · next h =>
      have hnone := connectiveAt?_eq_none_iff.1 h
      unfold single
      split
      · next hc => exact ⟨_, .opening, trivial, by rw [hc]; rfl⟩
      · split
        · next hc => exact ⟨_, .closing, trivial, by rw [hc]; rfl⟩
        · split
          · next hupper =>
            refine ⟨_, .var _, head?_dropWhile_eq_false Char.isDigit rest, ?_⟩
            rw [Variable.name, List.cons_append, List.takeWhile_append_dropWhile]
          · next hopen hclose hupper =>
            exact ⟨_, .other _, ⟨c, rfl, by simpa using hspace, hopen, hclose, by simpa using hupper,
              hnone⟩, rfl⟩

/-- A symbol that is spelled at the start of a text is the first one of the text. -/
theorem Spells.symbolsOf_append {s : Symbol} {rest : Text} (hs : s.Spells w)
    (hmax : s.IsMaximal w rest) : symbolsOf (w ++ rest) = s :: symbolsOf rest := by
  cases hs with
  | var v => exact symbolsOf_name v hmax
  | opening => exact symbolsOf_opening rest
  | closing => exact symbolsOf_closing rest
  | @connective conn w hw =>
    have hfound : connectiveAt? (w ++ rest) = some (conn, w) :=
      connectiveAt?_eq_some_iff.2 ⟨hw, List.prefix_append w rest, hmax⟩
    obtain ⟨c, tail, rfl, hspace⟩ := Connective.exists_cons_of_mem_spellings hw
    rw [List.cons_append] at hfound ⊢
    rw [symbolsOf_cons, first, if_neg (by simp [hspace]), hfound]
    simp
  | space t =>
    obtain ⟨hne, hblank, hrest⟩ := hmax
    obtain ⟨c, tail, rfl⟩ := List.exists_cons_of_ne_nil hne
    obtain ⟨hc, htail⟩ := List.forall_mem_cons.1 (List.all_eq_true.1 hblank)
    rw [List.cons_append, symbolsOf_cons, first, if_pos hc, takeWhile_append_of_head htail hrest,
      dropWhile_append_of_head htail hrest]
  | other t =>
    obtain ⟨c, rfl, hspace, hopen, hclose, hupper, hnone⟩ := hmax
    have hfound : connectiveAt? (c :: rest) = none := connectiveAt?_eq_none_iff.2 hnone
    rw [List.singleton_append, symbolsOf_cons, first, if_neg (by simp [hspace]), hfound]
    simp [single, hopen, hclose, hupper]

end Symbol

/-! ### Readings -/

/-- A text is read as symbols: each of them is spelled, the spellings make up the text, and each one
goes as far as it can in front of those that follow. -/
structure IsReading (formula : Text) (ss : List Symbol) (ws : List Text) : Prop where
  /-- Each symbol has a spelling. -/
  spells : List.Forall₂ Symbol.Spells ss ws
  /-- The spellings make up the text. -/
  flatten_eq : ws.flatten = formula
  /-- Each spelling goes as far as it can. -/
  isMaximal : ∀ (i : Nat) (s : Symbol) (w : Text), ss[i]? = some s → ws[i]? = some w →
    s.IsMaximal w (ws.drop (i + 1)).flatten

section Readings

variable {formula w : Text} {s : Symbol} {ss : List Symbol} {ws : List Text}

theorem isReading_nil : IsReading [] [] [] :=
  ⟨.nil, rfl, by simp⟩

/-- A symbol in front of a reading. -/
theorem IsReading.cons (h : IsReading formula ss ws) (hs : s.Spells w)
    (hmax : s.IsMaximal w formula) : IsReading (w ++ formula) (s :: ss) (w :: ws) where
  spells := .cons hs h.spells
  flatten_eq := by rw [List.flatten_cons, h.flatten_eq]
  isMaximal i t u ht hu := by
    cases i with
    | zero =>
      obtain rfl := Option.some.inj ht
      obtain rfl := Option.some.inj hu
      rwa [List.drop_one, List.tail_cons, h.flatten_eq]
    | succ i => exact h.isMaximal i t u ht hu

/-- Every reading is built up in this way, from its last symbol to its first one. -/
theorem IsReading.induction
    {motive : ∀ (formula : Text) (ss : List Symbol) (ws : List Text), IsReading formula ss ws → Prop}
    (nil : motive [] [] [] isReading_nil)
    (cons : ∀ {formula w : Text} {s : Symbol} {ss : List Symbol} {ws : List Text}
      (h : IsReading formula ss ws) (hs : s.Spells w) (hmax : s.IsMaximal w formula),
      motive formula ss ws h → motive (w ++ formula) (s :: ss) (w :: ws) (h.cons hs hmax))
    {formula : Text} {ss : List Symbol} {ws : List Text} (h : IsReading formula ss ws) :
    motive formula ss ws h := by
  obtain ⟨hspells, rfl, hmax⟩ := h
  induction hspells with
  | nil => exact nil
  | cons hs hspells ih =>
    have hmaxs := fun i => hmax (i + 1)
    exact cons ⟨hspells, rfl, hmaxs⟩ hs (hmax 0 _ _ rfl rfl) (ih hmaxs)

/-- White space is read up to its end, so that no more of it follows. -/
theorem IsReading.isChain (h : IsReading formula ss ws) :
    ss.IsChain fun s s' => ¬ (s.isWhite = true ∧ s'.isWhite = true) := by
  induction h using IsReading.induction with
  | nil => exact .nil
  | cons hss hs hmax ih =>
    cases hss using IsReading.induction with
    | nil => exact .singleton _
    | cons _ hs' hmax' _ =>
      refine .cons_cons ?_ ih
      rintro ⟨hwhite, hwhite'⟩
      cases hs with
      | space t =>
        cases hs' with
        | space t' =>
          obtain ⟨hne, hblank, -⟩ := hmax'
          obtain ⟨c, tail, rfl⟩ := List.exists_cons_of_ne_nil hne
          have hc : isSpace c = true := List.all_eq_true.1 hblank c (List.mem_cons_self ..)
          have hstop : isSpace c = false := hmax.2.2 c rfl
          rw [hc] at hstop
          cases hstop
        | _ => cases hwhite'
      | _ => cases hwhite

/-- The symbols that are taken from a text one after the other are a reading of it. -/
theorem exists_isReading_symbolsOf (formula : Text) :
    ∃ ws, IsReading formula (symbolsOf formula) ws := by
  fun_induction symbolsOf formula with
  | case1 => exact ⟨[], isReading_nil⟩
  | case2 c rest ih =>
    obtain ⟨ws, hws⟩ := ih
    obtain ⟨w, hspells, hmax, hsplit⟩ := Symbol.exists_spells_first c rest
    rw [← hsplit]
    exact ⟨w :: ws, hws.cons hspells hmax⟩

/-- A text has no other reading. -/
theorem IsReading.symbolsOf_eq (h : IsReading formula ss ws) : symbolsOf formula = ss := by
  induction h using IsReading.induction with
  | nil => exact symbolsOf_nil
  | cons _ hs hmax ih => rw [hs.symbolsOf_append hmax, ih]

end Readings

/-- A text has exactly one reading, that as the symbols that are taken from it one after the other: no
character is lost, and each symbol goes as far as it can.  Two symbols of white space never stand next
to each other. -/
theorem exists_isReading_iff (formula : Text) :
    (∀ ss, (∃ ws, IsReading formula ss ws) ↔ ss = symbolsOf formula) ∧
      (symbolsOf formula).IsChain fun s s' => ¬ (s.isWhite = true ∧ s'.isWhite = true) := by
  obtain ⟨ws, hws⟩ := exists_isReading_symbolsOf formula
  refine ⟨fun ss => ⟨?_, ?_⟩, hws.isChain⟩
  · rintro ⟨ws', hws'⟩
    exact hws'.symbolsOf_eq.symm
  · rintro rfl
    exact ⟨ws, hws⟩

end Sentential
