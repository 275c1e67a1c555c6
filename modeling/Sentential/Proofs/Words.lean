import Mathlib.Data.List.TakeWhile
import Mathlib.Tactic.Common
import Sentential.Text.Basic

/-!
# Trimming, and the words of a text

Trimming removes white space at both ends and nothing else, so that a text is trimmed exactly if no
white space stands at either end (`trim_eq_self_iff`).

The words of a text are its maximal runs free of white space.  White space separates, so that the
words of two texts with white space between them are those of the first text followed by those of the
second (`words_append_cons`), and writing words on one line keeps them (`words_unwords`).
-/

namespace Sentential

/-! ### Dropping members at both ends -/

section Ends

variable {α : Type} {p : α → Bool} {xs core before after : List α}

/-- The list without the members that satisfy `p` at either end. -/
def dropEnds (p : α → Bool) (xs : List α) : List α :=
  ((xs.dropWhile p).reverse.dropWhile p).reverse

/-- No member at either end satisfies `p`. -/
def EndsWithout (p : α → Bool) (xs : List α) : Prop :=
  (∀ x ∈ xs.head?, p x = false) ∧ ∀ x ∈ xs.getLast?, p x = false

theorem takeWhile_append_of_head (hbefore : ∀ x ∈ before, p x = true)
    (hcore : ∀ x ∈ core.head?, p x = false) : (before ++ core).takeWhile p = before := by
  rw [List.takeWhile_append_of_pos hbefore]
  cases core with
  | nil => exact List.append_nil before
  | cons x core => simp [hcore x rfl]

theorem dropWhile_append_of_head (hbefore : ∀ x ∈ before, p x = true)
    (hcore : ∀ x ∈ core.head?, p x = false) : (before ++ core).dropWhile p = core := by
  rw [List.dropWhile_append_of_pos hbefore]
  cases core with
  | nil => rfl
  | cons x core => simp [hcore x rfl]

theorem head?_dropWhile_eq_false (p : α → Bool) (xs : List α) :
    ∀ x ∈ (xs.dropWhile p).head?, p x = false := by
  intro x hx
  have hnot := List.head?_dropWhile_not p xs
  rw [Option.mem_def] at hx
  simpa [hx] using hnot

/-- No member that is dropped remains at an end. -/
theorem endsWithout_dropEnds (p : α → Bool) (xs : List α) : EndsWithout p (dropEnds p xs) := by
  constructor
  · intro x hx
    -- what is left after the end is dropped begins like what is left after the start is dropped
    rw [dropEnds, List.head?_reverse] at hx
    obtain ⟨after, hafter⟩ := List.dropWhile_suffix p (l := (xs.dropWhile p).reverse)
    have hlast : x ∈ (xs.dropWhile p).reverse.getLast? := by
      rw [← hafter, Option.mem_def, List.getLast?_append, Option.mem_def.1 hx]
      rfl
    rw [List.getLast?_reverse] at hlast
    exact head?_dropWhile_eq_false p xs x hlast
  · intro x hx
    rw [dropEnds, List.getLast?_reverse] at hx
    exact head?_dropWhile_eq_false p _ x hx

/-- Only members that satisfy `p` are dropped. -/
theorem exists_append_dropEnds (p : α → Bool) (xs : List α) :
    ∃ before after, xs = before ++ (dropEnds p xs ++ after) ∧
      (∀ x ∈ before, p x = true) ∧ ∀ x ∈ after, p x = true := by
  refine ⟨xs.takeWhile p, ((xs.dropWhile p).reverse.takeWhile p).reverse, ?_, ?_, ?_⟩
  · rw [dropEnds, ← List.reverse_append, List.takeWhile_append_dropWhile, List.reverse_reverse,
      List.takeWhile_append_dropWhile]
  · exact List.all_eq_true.1 List.all_takeWhile
  · intro x hx
    exact List.all_eq_true.1 List.all_takeWhile x (List.mem_reverse.1 hx)

/-- What is left is determined by the fact that the members dropped satisfy `p`, and that none of
those at the ends of what is left does. -/
theorem dropEnds_eq_iff : dropEnds p xs = core ↔
    (∃ before after, xs = before ++ (core ++ after) ∧
      (∀ x ∈ before, p x = true) ∧ ∀ x ∈ after, p x = true) ∧ EndsWithout p core := by
  constructor
  · rintro rfl
    exact ⟨exists_append_dropEnds p xs, endsWithout_dropEnds p xs⟩
  · rintro ⟨⟨before, after, rfl, hbefore, hafter⟩, hhead, hlast⟩
    have hrev : ∀ x ∈ after.reverse, p x = true := fun x hx => hafter x (List.mem_reverse.1 hx)
    cases core with
    | nil =>
      have hall : (before ++ after).dropWhile p = [] :=
        List.dropWhile_eq_nil_iff.2 fun x hx => (List.mem_append.1 hx).elim (hbefore x) (hafter x)
      rw [dropEnds, List.nil_append, hall]
      rfl
    | cons y core =>
      have hstart : ∀ x ∈ (y :: core ++ after).head?, p x = false := hhead
      rw [dropEnds, dropWhile_append_of_head hbefore hstart, List.reverse_append,
        dropWhile_append_of_head hrev (by rwa [List.head?_reverse]), List.reverse_reverse]

theorem dropEnds_eq_self (h : EndsWithout p xs) : dropEnds p xs = xs :=
  dropEnds_eq_iff.2 ⟨⟨[], [], by simp, by simp, by simp⟩, h⟩

theorem endsWithout_map {β : Type} {φ : β → α} {ys : List β} :
    EndsWithout p (ys.map φ) ↔ EndsWithout (p ∘ φ) ys := by
  simp [EndsWithout]

/-- A member that may stand at an end can be put in anywhere. -/
theorem EndsWithout.insert (h : EndsWithout p (before ++ after)) {x : α} (hx : p x = false) :
    EndsWithout p (before ++ x :: after) := by
  obtain ⟨hhead, hlast⟩ := h
  constructor
  · cases before with
    | nil => simpa using hx
    | cons y before => exact hhead
  · rw [List.getLast?_append]
    cases after with
    | nil => simpa using hx
    | cons y after => simpa [List.getLast?_append, List.getLast?_cons] using hlast

end Ends

/-! ### Lists with separators -/

section Separators

variable {α β : Type} {sep : List α} {parts : List (List α)}

/-- The first part is followed by the others, each with a separator in front of it. -/
theorem intercalate_cons (sep part : List α) (parts : List (List α)) :
    List.intercalate sep (part :: parts) = part ++ parts.flatMap fun part => sep ++ part := by
  induction parts generalizing part with
  | nil => simp
  | cons next parts ih =>
    rw [List.intercalate_cons_cons, ih, List.flatMap_cons]
    simp

/-- Parts that are not empty make a list that is not empty. -/
theorem intercalate_ne_nil (hne : parts ≠ []) (hparts : ∀ part ∈ parts, part ≠ []) :
    List.intercalate sep parts ≠ [] := by
  obtain ⟨part, parts, rfl⟩ := List.exists_cons_of_ne_nil hne
  rw [intercalate_cons]
  exact List.append_ne_nil_of_left_ne_nil (hparts part (List.mem_cons_self ..)) _

/-- What holds of the separator and of the parts holds of the whole. -/
theorem forall_mem_intercalate {p : α → Prop} (hsep : ∀ a ∈ sep, p a)
    (hparts : ∀ part ∈ parts, ∀ a ∈ part, p a) : ∀ a ∈ List.intercalate sep parts, p a := by
  cases parts with
  | nil => simp
  | cons part parts =>
    obtain ⟨hpart, hrest⟩ := List.forall_mem_cons.1 hparts
    rw [intercalate_cons, List.forall_mem_append]
    refine ⟨hpart, fun a ha => ?_⟩
    obtain ⟨next, hnext, ha⟩ := List.mem_flatMap.1 ha
    exact (List.mem_append.1 ha).elim (hsep a) (hrest next hnext a)

/-- What is done to lists stretch by stretch is done to the separator and to the parts. -/
theorem apply_intercalate {φ : List α → List β} (hφ : ∀ xs ys, φ (xs ++ ys) = φ xs ++ φ ys)
    (sep : List α) (parts : List (List α)) :
    φ (List.intercalate sep parts) = List.intercalate (φ sep) (parts.map φ) := by
  induction parts with
  | nil => exact List.append_cancel_left ((hφ [] []).symm.trans (List.append_nil _).symm)
  | cons part parts ih =>
    cases parts with
    | nil => simp
    | cons next parts =>
      rw [List.map_cons] at ih
      rw [List.intercalate_cons_cons, hφ, hφ, ih, List.map_cons, List.map_cons,
        List.intercalate_cons_cons]

end Separators

/-! ### Lengths in bytes -/

theorem byteLength_append (s t : Text) :
    Text.byteLength (s ++ t) = s.byteLength + t.byteLength := by
  induction s with
  | nil => simp [Text.byteLength]
  | cons c s ih => simp [Text.byteLength, ih, Nat.add_assoc]

theorem byteLength_pos {t : Text} (h : t ≠ []) : 0 < t.byteLength := by
  cases t with
  | nil => exact absurd rfl h
  | cons c t => exact Nat.lt_of_lt_of_le c.utf8Size_pos (Nat.le_add_right ..)

namespace Text

/-! ### Trimming -/

theorem trim_eq_dropEnds (t : Text) : t.trim = dropEnds isSpace t := rfl

/-- A text is trimmed exactly if no white space stands at either end. -/
theorem trim_eq_self_iff {t : Text} : t.trim = t ↔ EndsWithout isSpace t := by
  constructor
  · intro h
    rw [← h, trim_eq_dropEnds]
    exact endsWithout_dropEnds isSpace t
  · exact dropEnds_eq_self

/-- Trimming twice is trimming once. -/
@[simp] theorem trim_trim (t : Text) : t.trim.trim = t.trim :=
  trim_eq_self_iff.2 (endsWithout_dropEnds isSpace t)

/-- Trimming adds no character. -/
theorem mem_of_mem_trim {t : Text} {c : Char} (hc : c ∈ t.trim) : c ∈ t := by
  obtain ⟨before, after, hsplit, -, -⟩ := exists_append_dropEnds isSpace t
  rw [hsplit]
  exact List.mem_append_right _ (List.mem_append_left _ hc)

/-- A text that holds something else than white space at its start is not blank. -/
theorem isBlank_eq_false_of_trim_eq_self {t : Text} (hne : t ≠ []) (h : t.trim = t) :
    t.isBlank = false := by
  cases t with
  | nil => exact absurd rfl hne
  | cons c rest => simp [isBlank, (trim_eq_self_iff.1 h).1 c rfl]

/-! ### Words -/

/-- A list of words: none is empty, and none holds white space. -/
def IsWords (ws : List Text) : Prop :=
  ∀ w ∈ ws, w ≠ [] ∧ ∀ c ∈ w, isSpace c = false

/-- Whether a text is a single word. -/
def isUnbroken (w : Text) : Bool :=
  !w.isEmpty && w.all fun c => !isSpace c

theorem isUnbroken_iff {w : Text} :
    isUnbroken w = true ↔ w ≠ [] ∧ ∀ c ∈ w, isSpace c = false := by
  simp [isUnbroken]

theorem wordsFrom_eq {run : Text} (h : ∀ c ∈ run, isSpace c = false) (t : Text) :
    wordsFrom run t = words (run.reverse ++ t) := by
  induction run generalizing t with
  | nil => rfl
  | cons c run ih =>
    obtain ⟨hc, hrun⟩ := List.forall_mem_cons.1 h
    rw [List.reverse_cons, List.append_assoc, List.singleton_append, ← ih hrun, wordsFrom,
      if_neg (by simp [hc])]

theorem wordsFrom_append_cons (run s : Text) {c : Char} (hc : isSpace c = true) (t : Text) :
    wordsFrom run (s ++ c :: t) = wordsFrom run s ++ words t := by
  induction s generalizing run with
  | nil => cases run <;> simp [wordsFrom, hc, words]
  | cons d s ih =>
    rw [List.cons_append, wordsFrom, wordsFrom]
    split
    · split <;> simp [ih]
    · exact ih (d :: run)

/-- White space separates words. -/
theorem words_append_cons (s : Text) {c : Char} (hc : isSpace c = true) (t : Text) :
    words (s ++ c :: t) = words s ++ words t :=
  wordsFrom_append_cons [] s hc t

@[simp] theorem words_nil : words [] = [] := rfl

/-- White space in front of a text adds no word. -/
theorem words_cons_space {c : Char} (hc : isSpace c = true) (t : Text) :
    words (c :: t) = words t :=
  words_append_cons [] hc t

/-- A text free of white space is one word. -/
theorem words_eq_singleton {w : Text} (hne : w ≠ []) (h : ∀ c ∈ w, isSpace c = false) :
    words w = [w] := by
  have hrev : ∀ c ∈ w.reverse, isSpace c = false := fun c hc => h c (List.mem_reverse.1 hc)
  have := wordsFrom_eq hrev []
  rw [List.reverse_reverse, List.append_nil] at this
  rw [← this, wordsFrom, List.reverse_reverse, if_neg (by simpa using hne)]

/-- White space around a text adds no word. -/
theorem words_of_all_space {t : Text} (h : ∀ c ∈ t, isSpace c = true) : words t = [] := by
  induction t with
  | nil => rfl
  | cons c t ih =>
    obtain ⟨hc, ht⟩ := List.forall_mem_cons.1 h
    rw [words_cons_space hc, ih ht]

theorem words_append_of_all_space (s : Text) {t : Text} (h : ∀ c ∈ t, isSpace c = true) :
    words (s ++ t) = words s := by
  cases t with
  | nil => rw [List.append_nil]
  | cons c t =>
    obtain ⟨hc, ht⟩ := List.forall_mem_cons.1 h
    rw [words_append_cons s hc, words_of_all_space ht, List.append_nil]

theorem words_append_of_all_space_left {s : Text} (h : ∀ c ∈ s, isSpace c = true) (t : Text) :
    words (s ++ t) = words t := by
  induction s with
  | nil => rfl
  | cons c s ih =>
    obtain ⟨hc, hs⟩ := List.forall_mem_cons.1 h
    rw [List.cons_append, words_cons_space hc, ih hs]

/-- Trimming keeps the words. -/
@[simp] theorem words_trim (t : Text) : words t.trim = words t := by
  obtain ⟨before, after, ht, hbefore, hafter⟩ := exists_append_dropEnds isSpace t
  conv_rhs => rw [ht]
  rw [words_append_of_all_space_left hbefore, words_append_of_all_space _ hafter,
    trim_eq_dropEnds]

/-- The words of a text are words. -/
theorem isWords_words (t : Text) : IsWords (words t) := by
  have hfrom (run : Text) (h : ∀ c ∈ run, isSpace c = false) : IsWords (wordsFrom run t) := by
    induction t generalizing run with
    | nil =>
      rw [wordsFrom]
      split
      · simp [IsWords]
      · next hrun => simpa [IsWords] using ⟨by simpa using hrun, h⟩
    | cons c t ih =>
      rw [wordsFrom]
      split
      · split
        · exact ih [] (by simp)
        · next hrun =>
          exact List.forall_mem_cons.2 ⟨⟨by simpa using hrun, by simpa using h⟩, ih [] (by simp)⟩
      · next hc => exact ih (c :: run) (List.forall_mem_cons.2 ⟨by simpa using hc, h⟩)
  exact hfrom [] (by simp)

/-- A text without words is white space. -/
theorem words_eq_nil_iff {t : Text} : words t = [] ↔ ∀ c ∈ t, isSpace c = true := by
  have hfrom (run : Text) (h : wordsFrom run t = []) : run = [] ∧ ∀ c ∈ t, isSpace c = true := by
    induction t generalizing run with
    | nil =>
      rw [wordsFrom] at h
      split at h
      · next hrun => exact ⟨by simpa using hrun, by simp⟩
      · cases h
    | cons c t ih =>
      rw [wordsFrom] at h
      split at h
      · next hc =>
        split at h
        · next hrun =>
          exact ⟨by simpa using hrun, List.forall_mem_cons.2 ⟨hc, (ih [] h).2⟩⟩
        · cases h
      · exact absurd (ih _ h).1 (List.cons_ne_nil c run)
  exact ⟨fun h => (hfrom [] h).2, words_of_all_space⟩

/-- White space at the end of the first text, or at the start of the second, keeps words apart. -/
theorem words_append {s t : Text} (h : (∃ c ∈ s.getLast?, isSpace c = true) ∨
    ∃ c ∈ t.head?, isSpace c = true) : words (s ++ t) = words s ++ words t := by
  rcases h with ⟨c, hlast, hc⟩ | ⟨c, hhead, hc⟩
  · obtain ⟨s', rfl⟩ := List.getLast?_eq_some_iff.1 hlast
    rw [List.append_assoc, List.singleton_append, words_append_cons s' hc, words_append_cons s' hc,
      words_nil, List.append_nil]
  · cases t with
    | nil => cases hhead
    | cons d t =>
      obtain rfl : d = c := Option.some.inj hhead
      rw [words_append_cons s hc, words_cons_space hc]

/-! ### Words on one line -/

@[simp] theorem unwords_nil : unwords [] = [] := rfl

@[simp] theorem unwords_singleton (w : Text) : unwords [w] = w := by
  simp [unwords, join]

theorem unwords_cons (w : Text) {ws : List Text} (h : ws ≠ []) :
    unwords (w :: ws) = w ++ ' ' :: unwords ws := by
  cases ws with
  | nil => exact absurd rfl h
  | cons v ws => simp [unwords, join]

/-- Two lists of words on one line have a space between them. -/
theorem unwords_append {vs ws : List Text} (hvs : vs ≠ []) (hws : ws ≠ []) :
    unwords (vs ++ ws) = unwords vs ++ ' ' :: unwords ws := by
  induction vs with
  | nil => exact absurd rfl hvs
  | cons v vs ih =>
    cases vs with
    | nil => rw [List.singleton_append, unwords_cons v hws, unwords_singleton]
    | cons v' vs =>
      rw [List.cons_append, unwords_cons v (by simp), ih (by simp),
        unwords_cons v (List.cons_ne_nil v' vs), List.append_assoc, List.cons_append]

/-- Words that are written on one line can be read back. -/
theorem words_unwords {ws : List Text} (h : IsWords ws) : words (unwords ws) = ws := by
  induction ws with
  | nil => rfl
  | cons w ws ih =>
    obtain ⟨⟨hne, hspace⟩, hws⟩ := List.forall_mem_cons.1 h
    by_cases hnil : ws = []
    · rw [hnil, unwords_singleton, words_eq_singleton hne hspace]
    · rw [unwords_cons w hnil, words_append_cons w (by decide), ih hws,
        words_eq_singleton hne hspace, List.singleton_append]

theorem unwords_ne_nil {ws : List Text} (h : IsWords ws) (hne : ws ≠ []) : unwords ws ≠ [] := by
  intro hempty
  have hwords := words_unwords h
  rw [hempty, words_nil] at hwords
  exact hne hwords.symm

/-- No white space stands at the ends of a line of words. -/
theorem endsWithout_unwords {ws : List Text} (h : IsWords ws) :
    EndsWithout isSpace (unwords ws) := by
  induction ws with
  | nil => exact ⟨by simp, by simp⟩
  | cons w ws ih =>
    obtain ⟨⟨hne, hspace⟩, hws⟩ := List.forall_mem_cons.1 h
    have hhead : ∀ c ∈ w.head?, isSpace c = false := fun c hc =>
      hspace c (List.mem_of_mem_head? hc)
    by_cases hnil : ws = []
    · rw [hnil, unwords_singleton]
      exact ⟨hhead, fun c hc => hspace c (List.mem_of_mem_getLast? hc)⟩
    · have hline : unwords ws ≠ [] := unwords_ne_nil hws hnil
      rw [unwords_cons w hnil]
      constructor
      · intro c hc
        rw [List.head?_append, List.head?_eq_some_head hne] at hc
        exact hhead c (by rwa [List.head?_eq_some_head hne])
      · intro c hc
        rw [List.getLast?_append, List.getLast?_cons_of_ne_nil hline,
          List.getLast?_eq_some_getLast hline] at hc
        exact (ih hws).2 c (by rwa [List.getLast?_eq_some_getLast hline])

/-- A line of words is trimmed. -/
theorem trim_unwords {ws : List Text} (h : IsWords ws) : trim (unwords ws) = unwords ws :=
  trim_eq_self_iff.2 (endsWithout_unwords h)

end Text

/-! ### Blank texts -/

theorem trim_eq_nil_iff {t : Text} : t.trim = [] ↔ t.isBlank = true := by
  rw [Text.isBlank, List.all_eq_true, ← Text.words_eq_nil_iff, ← Text.words_trim,
    Text.words_eq_nil_iff]
  constructor
  · intro h
    simp [h]
  · intro h
    -- what is left begins with no white space, so nothing is left
    cases ht : t.trim with
    | nil => rfl
    | cons c rest =>
      have hends := endsWithout_dropEnds isSpace t
      rw [← Text.trim_eq_dropEnds, ht] at hends
      rw [ht] at h
      exact absurd (h c (by simp)) (by simp [hends.1 c rfl])

theorem isEmpty_trim (t : Text) : t.trim.isEmpty = t.isBlank := by
  rw [Bool.eq_iff_iff, List.isEmpty_iff, trim_eq_nil_iff]

theorem isBlank_trim (t : Text) : t.trim.isBlank = t.isBlank := by
  rw [← isEmpty_trim, Text.trim_trim, isEmpty_trim]

end Sentential
