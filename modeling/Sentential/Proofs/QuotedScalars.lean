import Mathlib.Algebra.GroupWithZero.Nat
import Mathlib.Tactic.Common
import Sentential.Proofs.PlainScalars

/-!
# Reading quoted scalars

Between single quotes a text is written as it is, but for quotes, which are doubled, and for the
indentation behind line breaks.  Between double quotes whatever is not shown is escaped.  In both cases
the reader gives the text back (`readQuoted_singleQuoted`, `readQuoted_doubleQuoted`).
-/

namespace Sentential.Yaml

variable {c d : Char} {t u acc : Text} {n indent fuel : Nat} {place : Cursor} {double : Bool}

/-! ### Indentation -/

section Indentation

theorem indentLines_cons_of_isBreak (hc : isBreak c = true) (atStart : Bool) (t : Text) :
    indentLines indent atStart (c :: t) = c :: indentLines indent true t := by
  rw [indentLines, if_pos hc]

theorem indentLines_cons (hc : isBreak c = false) (t : Text) :
    indentLines indent false (c :: t) = c :: indentLines indent false t := by
  rw [indentLines, hc]
  rfl

/-- Behind line breaks a line begins. -/
theorem indentLines_breaks (ht : ∀ b ∈ c :: t, isBreak b = true) (atStart : Bool) (u : Text) :
    indentLines indent atStart (c :: t ++ u) = c :: t ++ indentLines indent true u := by
  induction t generalizing c atStart with
  | nil => exact indentLines_cons_of_isBreak (ht c List.mem_cons_self) atStart u
  | cons d t ih =>
    obtain ⟨hc, ht⟩ := List.forall_mem_cons.1 ht
    rw [List.cons_append, indentLines_cons_of_isBreak hc, ih ht]
    rfl

/-- A line that is not empty begins with the indentation. -/
theorem indentLines_true (hne : t ≠ []) (ht : ∀ c, t.head? = some c → isBreak c = false) :
    indentLines indent true t = spaces indent ++ indentLines indent false t := by
  obtain ⟨c, t, rfl⟩ := List.exists_cons_of_ne_nil hne
  have hc := ht c rfl
  rw [indentLines_cons hc, indentLines, hc]
  rfl

/-- Within a line there is no further indentation. -/
theorem indentLines_append (ht : IsOneLine t) (u : Text) :
    indentLines indent false (t ++ u) = t ++ indentLines indent false u := by
  induction t with
  | nil => rfl
  | cons c t ih =>
    obtain ⟨hc, ht⟩ := isOneLine_cons.1 ht
    rw [List.cons_append, indentLines_cons hc, ih ht]
    rfl

end Indentation

/-! ### Rounds of the reader -/

section Rounds

/-- The single quote. -/
def quote : Char :=
  Char.ofNat 0x27

/-- The quote that ends a quoted scalar. -/
def closingQuote (double : Bool) : Char :=
  if double then '"' else quote

/-- One round of the reader takes `written` for `part`, in front of `u`. -/
structure IsRound (double : Bool) (part written u : Text) : Prop where
  /-- The reader moves on. -/
  ne_nil : written ≠ []
  /-- It is not at the beginning of a line behind what it takes. -/
  column_pos : ∀ place : Cursor, 0 < place.column → 0 < (place.behind written).column
  /-- It goes on behind what it takes. -/
  quotedFrom_eq : ∀ (fuel : Nat) (acc : Text) (place : Cursor), place.rest = written ++ u →
    0 < place.column → quotedFrom (fuel + 1) double acc place =
      quotedFrom fuel double (part.reverse ++ acc) (place.behind written)

theorem column_behind_pos (h : IsOneLine t) (place : Cursor) (hcolumn : 0 < place.column) :
    0 < (place.behind t).column := by
  rw [Cursor.column_behind h]
  omega

/-- A character that has no meaning of its own stands for itself. -/
theorem isRound_char (hgap : isGap (some c) = false) (hquote : c ≠ closingQuote double)
    (hslash : double = true → c ≠ '\\') (u : Text) : IsRound double [c] [c] u := by
  have hline : isBreak c = false := (isGap_eq_false_iff.1 hgap).2.2
  refine ⟨List.cons_ne_nil c [], column_behind_pos (by simpa [IsOneLine] using hline), ?_⟩
  intro fuel acc place hp hcolumn
  have hskip := Cursor.skip_one hp hline
  rw [quotedFrom, atMarker_eq_false hcolumn, if_neg (by simp), hp]
  cases double with
  | false =>
    have hcode : c.toNat ≠ 0x27 := fun h => hquote (Json.eq_ofNat_of_toNat_eq h)
    simp [hcode, hgap, hskip]
  | true => simp_all [closingQuote]

/-- A run of spaces stands for itself. -/
theorem isRound_spaces (n : Nat) (hu : StartsSolid u) :
    IsRound double (spaces (n + 1)) (spaces (n + 1)) u := by
  refine ⟨by simp [spaces_succ], column_behind_pos (isOneLine_spaces _), ?_⟩
  intro fuel acc place hp hcolumn
  have hlong : n + 1 ≤ place.rest.length := by simp [hp]
  have hread := Gap.read_spaces hp hu hlong {} 0
  have hrest : place.rest = ' ' :: (spaces n ++ u) := hp
  have hgap : isGap (some ' ') = true := by decide
  rw [quotedFrom, atMarker_eq_false hcolumn, if_neg (by simp)]
  simp only [hread]
  simp [hrest, hgap, Gap.text]

/-- A run of line breaks other than line feeds stands for itself, and the indentation behind it for
nothing. -/
theorem isRound_breaks (ht : ∀ b ∈ c :: t, isBreak b = true ∧ isPrintable b = true) (hfeed : c ≠ '\n')
    (hn : 0 < n) (hu : StartsSolid u) : IsRound double (c :: t) (c :: t ++ spaces n) u := by
  obtain ⟨hc, -⟩ := ht c List.mem_cons_self
  refine ⟨List.cons_ne_nil c _, fun place _ => ?_, fun fuel acc place hp hcolumn => ?_⟩
  · rw [Cursor.column_behind_breaks fun b hb => (ht b hb).1]
    exact hn
  · have hp : place.rest = c :: (t ++ (spaces n ++ u)) := by simpa using hp
    have hlong : t.length + n < place.rest.length := by
      simp only [hp, List.length_cons, List.length_append, length_spaces]
      omega
    have hread := Gap.read_lines hp hc ht hu hlong 0
    have hgap : isGap (some c) = true := by simp [isGap, hc]
    have hquote : c.toNat ≠ 0x27 := by
      intro h
      rw [Json.eq_ofNat_of_toNat_eq h] at hc
      exact absurd hc (by decide)
    have hdouble : c ≠ '"' := by
      rintro rfl
      exact absurd hc (by decide)
    rw [quotedFrom, atMarker_eq_false hcolumn, if_neg (by simp)]
    simp only [hread]
    simp [hp, hgap, hquote, hdouble, Gap.text, hfeed]

/-- A text that is read round by round. -/
inductive IsRounds (double : Bool) (u : Text) : Text → Text → Prop
  | nil : IsRounds double u [] []
  | round {part written t w : Text} (hround : IsRound double part written (w ++ u))
    (hrest : IsRounds double u t w) : IsRounds double u (part ++ t) (written ++ w)

/-- The reader ends with the closing quote. -/
theorem quotedFrom_closingQuote (hp : place.rest = closingQuote double :: u)
    (hu : double = false → u.head? ≠ some quote) (hcolumn : 0 < place.column) :
    quotedFrom (fuel + 1) double acc place = some (acc.reverse, place.behind [closingQuote double]) := by
  rw [quotedFrom, atMarker_eq_false hcolumn, if_neg (by simp), hp]
  cases double with
  | false =>
    have hquote : (quote.toNat = 0x27) = True := by decide
    have hskip : place.skip 1 = place.behind [quote] := Cursor.skip_one hp (by decide)
    have hnext : (u.head?.any fun d => d.toNat = 0x27) = false := by
      cases u with
      | nil => rfl
      | cons d u =>
        have hd : d.toNat ≠ 0x27 := fun h => hu rfl (congrArg some (Json.eq_ofNat_of_toNat_eq h))
        simpa using hd
    simp [closingQuote, hquote, hnext, hskip]
  | true =>
    have hskip : place.skip 1 = place.behind ['"'] := Cursor.skip_one hp (by decide)
    simp [closingQuote, hskip]

/-- A text that is read round by round is read, with the quote behind it. -/
theorem IsRounds.quotedFrom_eq {w : Text} (h : IsRounds double (closingQuote double :: u) t w)
    (hp : place.rest = w ++ closingQuote double :: u) (hu : double = false → u.head? ≠ some quote)
    (hcolumn : 0 < place.column) (hfuel : place.rest.length ≤ fuel) : quotedFrom fuel double acc place =
      some (acc.reverse ++ t, place.behind (w ++ [closingQuote double])) := by
  induction h generalizing fuel acc place with
  | nil =>
    obtain ⟨fuel, rfl⟩ : ∃ k, fuel = k + 1 := ⟨fuel - 1, by simp [hp] at hfuel; omega⟩
    rw [quotedFrom_closingQuote hp hu hcolumn, List.append_nil, List.nil_append]
  | @round part written t w hround hrest ih =>
    have hlength : place.rest.length = written.length + (w ++ closingQuote double :: u).length := by
      rw [hp, List.append_assoc, List.length_append]
    have hpos := List.length_pos_iff.2 hround.ne_nil
    obtain ⟨fuel, rfl⟩ : ∃ k, fuel = k + 1 := ⟨fuel - 1, by omega⟩
    rw [List.append_assoc] at hp
    have hnext := Cursor.rest_behind hp
    rw [hround.quotedFrom_eq fuel acc place hp hcolumn,
      ih hnext (hround.column_pos place hcolumn) (by rw [hnext]; omega), List.append_assoc written,
      Cursor.behind_append place written, List.reverse_append, List.reverse_reverse, List.append_assoc]

end Rounds

/-! ### Single quotes -/

/-- What stands between single quotes. -/
def quotedBody (indent : Nat) (t : Text) : Text :=
  indentLines indent false (t.flatMap fun c => if c = quote then [quote, quote] else [c]) ++
    if t.getLast?.any isBreak then spaces indent else []

theorem singleQuoted_eq (indent : Nat) (t : Text) :
    singleQuoted indent t = quote :: (quotedBody indent t ++ [quote]) := rfl

theorem quotedBody_nil (indent : Nat) : quotedBody indent [] = [] := rfl

/-- A quote is doubled, and any other character of a line stands for itself. -/
theorem quotedBody_cons (hc : isBreak c = false) (t : Text) : quotedBody indent (c :: t) =
    (if c = quote then [quote, quote] else [c]) ++ quotedBody indent t := by
  have hline : IsOneLine (if c = quote then [quote, quote] else [c]) := by
    split
    · decide
    · simpa [IsOneLine] using hc
  have hlast : (c :: t).getLast?.any isBreak = t.getLast?.any isBreak := by
    cases t with
    | nil => simp [hc]
    | cons d t => rw [List.getLast?_cons_cons]
  rw [quotedBody, List.flatMap_cons, indentLines_append hline, hlast, List.append_assoc, quotedBody]

theorem quotedBody_spaces (n : Nat) (t : Text) :
    quotedBody indent (spaces n ++ t) = spaces n ++ quotedBody indent t := by
  induction n with
  | zero => rfl
  | succ n ih =>
    rw [spaces_succ, List.cons_append, quotedBody_cons (by decide), ih, if_neg (by decide)]
    rfl

/-- The text behind line breaks is indented, even if there is none. -/
theorem quotedBody_breaks (ht : ∀ b ∈ c :: t, isBreak b = true)
    (hu : ∀ d, u.head? = some d → isBreak d = false) : quotedBody indent (c :: t ++ u) =
      (c :: t ++ spaces indent) ++ quotedBody indent u := by
  have hplain : (c :: t).flatMap (fun c => if c = quote then [quote, quote] else [c]) = c :: t := by
    rw [List.flatMap_congr (g := fun c => [c]) fun b hb => if_neg ?_, List.flatMap_singleton']
    rintro rfl
    exact absurd (ht _ hb) (by decide)
  rw [quotedBody, List.flatMap_append, hplain, indentLines_breaks ht]
  cases u with
  | nil =>
    have hlast : (c :: t).getLast?.any isBreak = true := by
      rw [List.getLast?_eq_some_getLast (List.cons_ne_nil c t)]
      exact ht _ (List.getLast_mem _)
    simp [hlast, quotedBody, indentLines]
  | cons d u =>
    have hd := hu d rfl
    have hlast : (c :: t ++ d :: u).getLast? = (d :: u).getLast? := by
      rw [List.getLast?_append, List.getLast?_eq_some_getLast (List.cons_ne_nil d u)]
      rfl
    have hne : (d :: u).flatMap (fun c => if c = quote then [quote, quote] else [c]) ≠ [] := by
      rw [List.flatMap_cons]
      split <;> simp
    have hhead : ∀ e, ((d :: u).flatMap fun c => if c = quote then [quote, quote] else [c]).head? = some e →
        isBreak e = false := by
      intro e he
      rw [List.flatMap_cons] at he
      split at he
      · next hquote =>
        cases he
        exact hquote ▸ hd
      · cases he
        exact hd
    rw [indentLines_true hne hhead, hlast, quotedBody]
    simp

/-- A text can be written between single quotes, and has no line feeds. -/
structure IsQuotable (t : Text) : Prop where
  /-- All characters are shown. -/
  printable : ∀ c ∈ t, isPrintable c = true
  /-- No character is a line feed. -/
  noFeed : '\n' ∉ t
  /-- No line ends with a space. -/
  noSpaceBefore : hasPair (· = ' ') isBreak t = false
  /-- No line but the first begins with a space. -/
  noSpaceBehind : hasPair isBreak (· = ' ') t = false

theorem IsQuotable.right (h : IsQuotable (t ++ u)) : IsQuotable u :=
  ⟨fun c hc => h.printable c (List.mem_append_right t hc),
    fun hc => h.noFeed (List.mem_append_right t hc), hasPair_right h.noSpaceBefore,
    hasPair_right h.noSpaceBehind⟩

/-- A character that is shown is no tabulator. -/
theorem ne_tab (h : isPrintable c = true) : c ≠ '\t' := by
  rintro rfl
  exact absurd h (by decide)

/-- A doubled quote stands for one. -/
theorem isRound_quote (u : Text) : IsRound false [quote] [quote, quote] u := by
  refine ⟨List.cons_ne_nil _ _, column_behind_pos (by decide), fun fuel acc place hp hcolumn => ?_⟩
  have hquote : (quote.toNat = 0x27) = True := by decide
  have hskip : place.skip 2 = place.behind [quote, quote] := Cursor.skip_eq_behind hp (by decide)
  rw [quotedFrom, atMarker_eq_false hcolumn, if_neg (by simp), hp]
  simp [hquote, hskip]

/-- The body between single quotes begins with white space only if the text does. -/
theorem startsSolid_quotedBody (ht : ∀ c, t.head? = some c → isGap (some c) = false) (u : Text) :
    StartsSolid (quotedBody indent t ++ quote :: u) := by
  cases t with
  | nil =>
    rw [quotedBody_nil, List.nil_append, startsSolid_cons]
    decide
  | cons c t =>
    have hc := ht c rfl
    rw [quotedBody_cons (isGap_eq_false_iff.1 hc).2.2]
    split
    · exact startsSolid_cons.2 (by decide)
    · exact startsSolid_cons.2 hc

/-- Behind line breaks a text that can be quoted has no white space. -/
theorem IsQuotable.startsSolid_of_break (h : IsQuotable (t ++ u)) (hlast : t.getLast? = some c)
    (hc : isBreak c = true) (hu : ∀ d, u.head? = some d → isBreak d = false) :
    ∀ d, u.head? = some d → isGap (some d) = false := by
  intro d hd
  have hpair := hasPair_between h.noSpaceBehind hlast hd
  rw [hc] at hpair
  have hprintable := h.printable d (List.mem_append_right t (List.mem_of_mem_head? hd))
  exact isGap_eq_false_iff.2 ⟨by simpa using hpair, ne_tab hprintable, hu d hd⟩

/-- Behind all spaces of a run a text that can be quoted has no white space. -/
theorem IsQuotable.startsSolid_of_spaces (h : IsQuotable (spaces (n + 1) ++ u))
    (hu : u.head? ≠ some ' ') : ∀ d, u.head? = some d → isGap (some d) = false := by
  intro d hd
  have hlast : (spaces (n + 1)).getLast? = some ' ' := by simp [spaces, List.getLast?_replicate]
  have hpair := hasPair_between h.noSpaceBefore hlast hd
  have hprintable := h.printable d (List.mem_append_right _ (List.mem_of_mem_head? hd))
  exact isGap_eq_false_iff.2 ⟨fun hspace => hu (hspace ▸ hd), ne_tab hprintable, by simpa using hpair⟩

/-- What stands between single quotes is read round by round. -/
theorem isRounds_quotedBody (ht : IsQuotable t) (hindent : 0 < indent) (u : Text) :
    IsRounds false (quote :: u) t (quotedBody indent t) := by
  induction hlen : t.length using Nat.strongRecOn generalizing t with
  | _ k ih =>
    cases t with
    | nil => exact .nil
    | cons c t =>
      by_cases hbreak : isBreak c = true
      · -- line breaks, with the indentation behind them
        obtain ⟨bs, rest, hsplit, hrun, hrest⟩ := exists_run_cons hbreak t
        rw [hsplit] at ht hlen ⊢
        obtain ⟨b, hb⟩ : ∃ b, (c :: bs).getLast? = some b :=
          ⟨_, List.getLast?_eq_some_getLast (List.cons_ne_nil c bs)⟩
        have hsolid := ht.startsSolid_of_break hb (hrun b (List.mem_of_getLast? hb)) hrest
        have hshown : ∀ b ∈ c :: bs, isBreak b = true ∧ isPrintable b = true := fun b hb =>
          ⟨hrun b hb, ht.printable b (List.mem_append_left _ hb)⟩
        have hfeed : c ≠ '\n' := fun h => ht.noFeed (h ▸ by simp)
        have hshort : rest.length < k := by
          rw [← hlen, List.length_append, List.length_cons]
          omega
        rw [quotedBody_breaks hrun hrest]
        exact .round (isRound_breaks hshown hfeed hindent (startsSolid_quotedBody hsolid u))
          (ih rest.length hshort ht.right rfl)
      by_cases hspace : c = ' '
      · -- spaces within a line
        subst hspace
        obtain ⟨n, rest, rfl, hrest⟩ := exists_spaces_append t
        have hspaces : ' ' :: (spaces n ++ rest) = spaces (n + 1) ++ rest := rfl
        rw [hspaces] at ht hlen ⊢
        have hshort : rest.length < k := by
          rw [← hlen, List.length_append, length_spaces]
          omega
        have hsolid := ht.startsSolid_of_spaces hrest
        rw [quotedBody_spaces]
        exact .round (isRound_spaces n (startsSolid_quotedBody hsolid u))
          (ih rest.length hshort ht.right rfl)
      · have hline : isBreak c = false := eq_false_of_ne_true hbreak
        have hrest := ih t.length (by simp [← hlen]) (ht.right (t := [c])) rfl
        rw [quotedBody_cons hline]
        by_cases hquote : c = quote
        · rw [if_pos hquote, hquote]
          exact .round (isRound_quote _) hrest
        · rw [if_neg hquote]
          have hgap : isGap (some c) = false :=
            isGap_eq_false_iff.2 ⟨hspace, ne_tab (ht.printable c List.mem_cons_self), hline⟩
          have hplain : c ≠ closingQuote false := hquote
          exact .round (isRound_char hgap hplain (by simp) _) hrest

/-- A text between single quotes is read back. -/
theorem readQuoted_singleQuoted (ht : IsQuotable t) (hp : place.rest = singleQuoted indent t ++ u)
    (hu : u.head? ≠ some quote) (hindent : 0 < indent) :
    readQuoted place = some (t, place.behind (singleQuoted indent t)) := by
  rw [singleQuoted_eq] at hp ⊢
  have hrest : place.rest = quote :: (quotedBody indent t ++ quote :: u) := by simpa using hp
  have hnext : (place.behind [quote]).rest = quotedBody indent t ++ quote :: u :=
    Cursor.rest_behind (t := [quote]) hrest
  have hpeek : decide (place.peek? = some '"') = false := by
    rw [Cursor.peek?, hrest, List.head?_cons]
    decide
  rw [readQuoted, hpeek, Cursor.skip_one hrest (by decide),
    (isRounds_quotedBody ht hindent u).quotedFrom_eq hnext (fun _ => hu)
      (by rw [Cursor.column_behind (by decide)]; simp) (by rw [hnext, hrest]; simp; omega)]
  rfl

/-! ### Double quotes -/

theorem valueFrom_append (radix n : Nat) (t u : Text) : Numeral.valueFrom radix n (t ++ u) =
    (Numeral.valueFrom radix n t).bind fun m => Numeral.valueFrom radix m u := by
  induction t generalizing n with
  | nil => rfl
  | cons c t ih =>
    rw [List.cons_append, Numeral.valueFrom, Numeral.valueFrom]
    cases Numeral.digit? radix c with
    | none => rfl
    | some d => exact ih _

theorem length_hexDigits (width n : Nat) : (hexDigits width n).length = width := by
  induction width generalizing n with
  | zero => rfl
  | succ width ih => simp [hexDigits, ih]

/-- The hexadecimal digits of a number give the number. -/
theorem valueFrom_hexDigits (width n m : Nat) :
    Numeral.valueFrom 16 m (hexDigits width n) = some (m * 16 ^ width + n % 16 ^ width) := by
  induction width generalizing n with
  | zero => simp [hexDigits, Numeral.valueFrom, Nat.mod_one]
  | succ width ih =>
    have hdigit : ∀ d < 16, Numeral.digit? 16 (Nat.digitChar d).toUpper = some d := by decide
    have hlow := hdigit (n % 16) (Nat.mod_lt _ (by omega))
    have hnumber : (m * 16 ^ width + n / 16 % 16 ^ width) * 16 + n % 16 =
        m * 16 ^ (width + 1) + n % 16 ^ (width + 1) := by
      rw [Nat.pow_succ, Nat.mul_comm (16 ^ width) 16, Nat.mod_mul, Nat.add_mul, Nat.mul_assoc,
        Nat.mul_comm (16 ^ width) 16]
      omega
    rw [hexDigits, valueFrom_append, ih, Option.bind_some]
    simp only [Numeral.valueFrom, hlow, hnumber]

/-- A character takes one byte, and is shown within a line. -/
def IsByte (c : Char) : Prop :=
  isPrintable c = true ∧ isBreak c = false ∧ c.utf8Size = 1

instance (c : Char) : Decidable (IsByte c) :=
  inferInstanceAs (Decidable (_ ∧ _))

/-- The letter of a short escape is read as the character. -/
theorem simpleEscape?_of_shortEscape? (h : shortEscape? c = some d) :
    simpleEscape? d = some c ∧ IsByte d := by
  unfold shortEscape? at h
  split at h
  case h_15 => cases h
  all_goals
    next hcode =>
      cases h
      rw [Json.eq_ofNat_of_toNat_eq hcode]
      decide

theorem value?_hexDigits {width : Nat} (hwidth : 0 < width) (hn : n < 16 ^ width) :
    Numeral.value? 16 (hexDigits width n) = some n := by
  have hvalue := valueFrom_hexDigits width n 0
  rw [Nat.zero_mul, Nat.zero_add, Nat.mod_eq_of_lt hn] at hvalue
  cases hdigits : hexDigits width n with
  | nil =>
    have hlength := length_hexDigits width n
    rw [hdigits] at hlength
    exact absurd hlength.symm (Nat.ne_of_gt hwidth)
  | cons c digits => rwa [hdigits] at hvalue

theorem isByte_of_mem_hexDigits {width : Nat} (hc : c ∈ hexDigits width n) : IsByte c := by
  induction width generalizing n with
  | zero => cases hc
  | succ width ih =>
    rw [hexDigits, List.mem_append, List.mem_singleton] at hc
    rcases hc with hc | rfl
    · exact ih hc
    · have hdigit : ∀ d < 16, IsByte (Nat.digitChar d).toUpper := by decide
      exact hdigit _ (Nat.mod_lt _ (by omega))

/-- The escape for a character is a backslash, a letter and digits. -/
structure IsEscape (c letter : Char) (digits : Text) : Prop where
  /-- The character is written so. -/
  escaped_eq : escaped c = '\\' :: letter :: digits
  /-- The letter and the digits take one byte each. -/
  isByte : ∀ d ∈ letter :: digits, IsByte d
  /-- The number of bytes is bounded by that of the character. -/
  length_le : digits.length + 2 ≤ 4 * c.utf8Size
  /-- The character is read back. -/
  readEscape_eq : ∀ rest, readEscape letter (digits ++ rest) = some (c, digits.length)

theorem readEscape_hexDigits {letter : Char} {width : Nat} (hletter : simpleEscape? letter = none)
    (hwidth : escapeWidth? letter = some width) (hpos : 0 < width) (hc : c.toNat < 16 ^ width)
    (rest : Text) : readEscape letter (hexDigits width c.toNat ++ rest) = some (c, width) := by
  have htake : (hexDigits width c.toNat ++ rest).take width = hexDigits width c.toNat := by
    rw [List.take_append_of_le_length (by rw [length_hexDigits]), List.take_of_length_le
      (by rw [length_hexDigits])]
  have hvalid : c.toNat.isValidChar := c.valid
  simp only [readEscape, hletter, hwidth, Option.bind_eq_bind, Option.bind_some, htake,
    value?_hexDigits hpos hc, length_hexDigits, hvalid, and_self, if_true, Char.ofNat_toNat]

/-- The greater a character, the more bytes it takes. -/
theorem le_utf8Size (c : Char) :
    (0xFF < c.toNat → 2 ≤ c.utf8Size) ∧ (0xFFFF < c.toNat → 4 ≤ c.utf8Size) := by
  have hcode : c.val.toNat = c.toNat := rfl
  simp only [Char.utf8Size, UInt32.le_iff_toNat_le, hcode, UInt32.toNat_ofNatLT]
  constructor
  all_goals
    intro h
    split_ifs <;> omega

/-- A letter and the digits of a character escape it, if they are many enough and not too many. -/
theorem isEscape_hexDigits {letter : Char} {width : Nat}
    (hescaped : escaped c = '\\' :: letter :: hexDigits width c.toNat) (hbyte : IsByte letter)
    (hletter : simpleEscape? letter = none) (hwidth : escapeWidth? letter = some width) (hpos : 0 < width)
    (hc : c.toNat < 16 ^ width) (hlength : width + 2 ≤ 4 * c.utf8Size) :
    IsEscape c letter (hexDigits width c.toNat) := by
  constructor
  case escaped_eq => exact hescaped
  case isByte => exact List.forall_mem_cons.2 ⟨hbyte, fun d hd => isByte_of_mem_hexDigits hd⟩
  case length_le => rwa [length_hexDigits]
  case readEscape_eq =>
    rw [length_hexDigits]
    exact readEscape_hexDigits hletter hwidth hpos hc

/-- Every character has an escape. -/
theorem exists_isEscape (c : Char) : ∃ letter digits, IsEscape c letter digits := by
  have hsize : 0 < c.utf8Size := c.utf8Size_pos
  cases hshort : shortEscape? c with
  | some letter =>
    obtain ⟨hread, hbyte⟩ := simpleEscape?_of_shortEscape? hshort
    refine ⟨letter, [], by rw [escaped, hshort], by simpa using hbyte, by simp; omega, fun rest => ?_⟩
    rw [readEscape, hread]
    rfl
  | none =>
    have hescaped : escaped c = '\\' ::
        if c.toNat ≤ 0xFF then 'x' :: hexDigits 2 c.toNat
        else if c.toNat ≤ 0xFFFF then 'u' :: hexDigits 4 c.toNat
        else 'U' :: hexDigits 8 c.toNat := by
      rw [escaped, hshort]
    have hvalid : c.toNat < 0x110000 := by
      rcases c.valid with hc | hc
      · exact Nat.lt_trans hc (by decide)
      · exact hc.2
    obtain ⟨htwo, hfour⟩ := le_utf8Size c
    by_cases hx : c.toNat ≤ 0xFF
    · rw [if_pos hx] at hescaped
      exact ⟨_, _, isEscape_hexDigits hescaped (by decide) (by decide) (by decide) (by omega) (by omega)
        (by omega)⟩
    rw [if_neg hx] at hescaped
    by_cases hu : c.toNat ≤ 0xFFFF
    · rw [if_pos hu] at hescaped
      exact ⟨_, _, isEscape_hexDigits hescaped (by decide) (by decide) (by decide) (by omega) (by omega)
        (by omega)⟩
    · rw [if_neg hu] at hescaped
      exact ⟨_, _, isEscape_hexDigits hescaped (by decide) (by decide) (by decide) (by omega) (by omega)
        (by omega)⟩

/-- An escape stands for its character. -/
theorem isRound_escape {letter : Char} {digits : Text} (h : IsEscape c letter digits) (u : Text) :
    IsRound true [c] (escaped c) u := by
  have hline : IsOneLine (escaped c) := by
    rw [h.escaped_eq, isOneLine_cons]
    exact ⟨by decide, fun d hd => (h.isByte d hd).2.1⟩
  have hlength : (escaped c).length = 2 + digits.length := by
    simp [h.escaped_eq]
    omega
  refine ⟨by simp [h.escaped_eq], column_behind_pos hline, fun fuel acc place hp hcolumn => ?_⟩
  have hskip : place.skip (2 + digits.length) = place.behind (escaped c) :=
    hlength ▸ Cursor.skip_eq_behind hp hline
  have hrest : place.rest = '\\' :: letter :: (digits ++ u) := by simp [hp, h.escaped_eq]
  have hbreak : isBreak letter = false := (h.isByte letter List.mem_cons_self).2.1
  have hgap : isGap (some '\\') = false := by decide
  rw [quotedFrom, atMarker_eq_false hcolumn, if_neg (by simp), hrest]
  simp [hgap, hbreak, h.readEscape_eq u, hskip]

/-- How a character is written between double quotes. -/
def doubleQuotedChar (c : Char) : Text :=
  if !isPrintable c || isBreak c || c = '"' || c = '\\' then escaped c else [c]

theorem doubleQuoted_eq (t : Text) :
    doubleQuoted t = '"' :: (t.flatMap doubleQuotedChar ++ ['"']) := rfl

theorem doubleQuotedChar_space : doubleQuotedChar ' ' = [' '] := by
  decide

theorem flatMap_doubleQuotedChar_spaces (n : Nat) : (spaces n).flatMap doubleQuotedChar = spaces n := by
  induction n with
  | zero => rfl
  | succ n ih => rw [spaces_succ, List.flatMap_cons, ih, doubleQuotedChar_space, List.singleton_append]

/-- A character between double quotes begins with white space only if it is a space. -/
theorem startsSolid_doubleQuotedChar (hc : c ≠ ' ') (u : Text) : StartsSolid (doubleQuotedChar c ++ u) := by
  unfold doubleQuotedChar
  split_ifs with hspecial
  · exact startsSolid_cons.2 (by decide)
  · simp only [Bool.or_eq_true, Bool.not_eq_true', not_or, Bool.not_eq_false, Bool.not_eq_true] at hspecial
    exact startsSolid_cons.2 (isGap_eq_false_iff.2 ⟨hc, ne_tab hspecial.1.1.1, hspecial.1.1.2⟩)

/-- A character between double quotes other than a space is read on its own. -/
theorem isRound_doubleQuotedChar (hc : c ≠ ' ') (u : Text) : IsRound true [c] (doubleQuotedChar c) u := by
  unfold doubleQuotedChar
  split_ifs with hspecial
  · obtain ⟨letter, digits, h⟩ := exists_isEscape c
    exact isRound_escape h u
  · simp only [Bool.or_eq_true, Bool.not_eq_true', decide_eq_true_eq, not_or, Bool.not_eq_false,
      Bool.not_eq_true] at hspecial
    obtain ⟨⟨⟨hprintable, hbreak⟩, hquote⟩, hslash⟩ := hspecial
    have hplain : c ≠ closingQuote true := hquote
    exact isRound_char (isGap_eq_false_iff.2 ⟨hc, ne_tab hprintable, hbreak⟩) hplain (fun _ => hslash) u

/-- What stands between double quotes is read round by round. -/
theorem isRounds_flatMap (t u : Text) : IsRounds true ('"' :: u) t (t.flatMap doubleQuotedChar) := by
  induction hlen : t.length using Nat.strongRecOn generalizing t with
  | _ k ih =>
    cases t with
    | nil => exact .nil
    | cons c t =>
      by_cases hspace : c = ' '
      · -- spaces within a line
        subst hspace
        obtain ⟨n, rest, rfl, hrest⟩ := exists_spaces_append t
        have hspaces : ' ' :: (spaces n ++ rest) = spaces (n + 1) ++ rest := rfl
        have hshort : rest.length < k := by
          rw [← hlen, List.length_cons, List.length_append]
          omega
        have hsolid : StartsSolid (rest.flatMap doubleQuotedChar ++ '"' :: u) := by
          cases rest with
          | nil => exact startsSolid_cons.2 (by decide)
          | cons d rest =>
            rw [List.flatMap_cons, List.append_assoc]
            exact startsSolid_doubleQuotedChar (by simpa using hrest) _
        rw [hspaces, List.flatMap_append, flatMap_doubleQuotedChar_spaces]
        exact .round (isRound_spaces n hsolid) (ih rest.length hshort rest rfl)
      · rw [List.flatMap_cons]
        exact .round (isRound_doubleQuotedChar hspace _) (ih t.length (by simp [← hlen]) t rfl)

/-- A text between double quotes is read back. -/
theorem readQuoted_doubleQuoted (hp : place.rest = doubleQuoted t ++ u) :
    readQuoted place = some (t, place.behind (doubleQuoted t)) := by
  rw [doubleQuoted_eq] at hp ⊢
  have hrest : place.rest = '"' :: (t.flatMap doubleQuotedChar ++ '"' :: u) := by simpa using hp
  have hnext : (place.behind ['"']).rest = t.flatMap doubleQuotedChar ++ '"' :: u :=
    Cursor.rest_behind (t := ['"']) hrest
  have hpeek : decide (place.peek? = some '"') = true := by
    rw [Cursor.peek?, hrest, List.head?_cons]
    decide
  rw [readQuoted, hpeek, Cursor.skip_one hrest (by decide),
    (isRounds_flatMap t u).quotedFrom_eq hnext (by simp)
      (by rw [Cursor.column_behind (by decide)]; simp) (by rw [hnext, hrest]; simp; omega)]
  rfl

end Sentential.Yaml
