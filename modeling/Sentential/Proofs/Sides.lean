import Mathlib.Data.List.Forall2
import Mathlib.Tactic.Common
import Sentential.Proofs.Outline

/-!
# Where a sentence is split

A biconditional is split at the first place of its phrase (`splitIff?_eq_some_iff`).  A conditional is
split at the first *se* that has a token behind it and, further on, an *então* with a token behind it;
of these *então*, the first one counts (`splitImplication?_eq_some_iff`).
-/

namespace Sentential

/-! ### The first of several cuts -/

/-- What a search for the first of several cuts gives: one with the shortest part in front, or nothing if
there is no cut. -/
def FindsFirst (cut : List Token → List Token → Prop) : Option (List Token × List Token) → Prop
  | some (left, right) =>
    cut left right ∧ ∀ left' right', cut left' right' → left.length ≤ left'.length
  | none => ∀ left right, ¬ cut left right

theorem FindsFirst.nil {cut : List Token → List Token → Prop} {right : List Token}
    (h : cut [] right) : FindsFirst cut (some ([], right)) :=
  ⟨h, fun _ _ _ => Nat.zero_le _⟩

/-- Where no cut comes at once, the first one is the first one behind the token in front. -/
theorem FindsFirst.cons {cut cut' : List Token → List Token → Prop} {t : Token}
    {found : Option (List Token × List Token)} (h : FindsFirst cut found)
    (hcons : ∀ left right, cut' left right ↔ ∃ left', left = t :: left' ∧ cut left' right) :
    FindsFirst cut' (found.map fun sides => (t :: sides.1, sides.2)) := by
  cases found with
  | none =>
    intro left right hcut
    obtain ⟨left', -, hcut'⟩ := (hcons left right).1 hcut
    exact h left' right hcut'
  | some sides =>
    obtain ⟨left, right⟩ := sides
    obtain ⟨hcut, hfirst⟩ := h
    refine ⟨(hcons _ _).2 ⟨left, rfl, hcut⟩, fun left' right' hcut' => ?_⟩
    obtain ⟨left'', rfl, hcut''⟩ := (hcons left' right').1 hcut'
    exact Nat.succ_le_succ (hfirst left'' right' hcut'')

/-! ### Biconditionals -/

/-- The tokens are the words of a phrase, one by one. -/
def SpellsOut (phrase : List Text) (ts : List Token) : Prop :=
  List.Forall₂ (fun word t => Token.isWord word t = true) phrase ts

/-- The phrase of a biconditional stands between `left` and `right`. -/
def SplitsAtPhrase (ts left right : List Token) : Prop :=
  ∃ phrase, SpellsOut iffPhrase phrase ∧ ts = left ++ (phrase ++ right)

/-- The phrase of a biconditional stands between `left` and `right` for the first time. -/
def SplitsAtFirstPhrase (ts left right : List Token) : Prop :=
  SplitsAtPhrase ts left right ∧
    ∀ left' right', SplitsAtPhrase ts left' right' → left.length ≤ left'.length

theorem startsPhrase_iff {phrase : List Text} {ts : List Token} :
    startsPhrase phrase ts = true ↔ ∃ us rest, SpellsOut phrase us ∧ ts = us ++ rest := by
  induction phrase generalizing ts with
  | nil => exact ⟨fun _ => ⟨[], ts, .nil, rfl⟩, fun _ => by cases ts <;> rfl⟩
  | cons w phrase ih =>
    cases ts with
    | nil =>
      constructor
      · nofun
      · rintro ⟨us, rest, _ | ⟨hw, hus⟩, hts⟩
        simp at hts
    | cons t ts =>
      rw [startsPhrase, Bool.and_eq_true, ih]
      constructor
      · rintro ⟨hw, us, rest, hus, rfl⟩
        exact ⟨t :: us, rest, .cons hw hus, rfl⟩
      · rintro ⟨us, rest, hspells, hts⟩
        cases hspells with
        | cons hw hus =>
          obtain ⟨rfl, rfl⟩ := List.cons_eq_cons.1 hts
          exact ⟨hw, _, rest, hus, rfl⟩

/-- A phrase that begins later begins later in the tail as well. -/
theorem splitsAtPhrase_cons {t : Token} {ts left right : List Token} :
    SplitsAtPhrase (t :: ts) (t :: left) right ↔ SplitsAtPhrase ts left right := by
  simp [SplitsAtPhrase]

theorem SplitsAtPhrase.left_eq {t : Token} {ts left right : List Token}
    (h : SplitsAtPhrase (t :: ts) left right) : left = [] ∨ ∃ left', left = t :: left' := by
  obtain ⟨phrase, -, hts⟩ := h
  cases left with
  | nil => exact .inl rfl
  | cons u left =>
    obtain ⟨rfl, -⟩ := List.cons_eq_cons.1 hts
    exact .inr ⟨left, rfl⟩

theorem splitsAtPhrase_nil_iff {ts right : List Token} :
    SplitsAtPhrase ts [] right ↔
      startsPhrase iffPhrase ts = true ∧ right = ts.drop iffPhrase.length := by
  rw [startsPhrase_iff]
  constructor
  · rintro ⟨phrase, hphrase, rfl⟩
    refine ⟨⟨phrase, right, hphrase, rfl⟩, ?_⟩
    rw [hphrase.length_eq]
    simp
  · rintro ⟨⟨us, rest, hus, rfl⟩, rfl⟩
    exact ⟨us, hus, by rw [hus.length_eq, List.drop_left, List.nil_append]⟩

/-- The split that is found is the first one; none is found if there is none. -/
theorem splitIff?_spec (ts : List Token) : FindsFirst (SplitsAtPhrase ts) (splitIff? ts) := by
  induction ts with
  | nil =>
    rintro left right ⟨phrase, hphrase, hts⟩
    obtain ⟨-, hnil⟩ := List.append_eq_nil_iff.1 hts.symm
    obtain ⟨rfl, -⟩ := List.append_eq_nil_iff.1 hnil
    cases hphrase
  | cons t ts ih =>
    rw [splitIff?]
    by_cases hstarts : startsPhrase iffPhrase (t :: ts) = true
    · rw [if_pos hstarts]
      exact .nil (splitsAtPhrase_nil_iff.2 ⟨hstarts, rfl⟩)
    · rw [if_neg hstarts]
      -- a split of the whole begins with `t`, since the phrase does not stand at the start
      refine ih.cons fun left right => ⟨fun h => ?_, ?_⟩
      · obtain rfl | ⟨left', rfl⟩ := h.left_eq
        · exact absurd (splitsAtPhrase_nil_iff.1 h).1 hstarts
        · exact ⟨left', rfl, splitsAtPhrase_cons.1 h⟩
      · rintro ⟨left', rfl, h⟩
        exact splitsAtPhrase_cons.2 h

/-- There is one first place. -/
theorem SplitsAtFirstPhrase.unique {ts left right left' right' : List Token}
    (h : SplitsAtFirstPhrase ts left right) (h' : SplitsAtFirstPhrase ts left' right') :
    left = left' ∧ right = right' := by
  have hlen : left.length = left'.length := Nat.le_antisymm (h.2 _ _ h'.1) (h'.2 _ _ h.1)
  obtain ⟨phrase, hphrase, rfl⟩ := h.1
  obtain ⟨phrase', hphrase', hts⟩ := h'.1
  obtain ⟨rfl, hrest⟩ := List.append_inj hts hlen
  obtain ⟨-, rfl⟩ := List.append_inj hrest (hphrase.length_eq.symm.trans hphrase'.length_eq)
  exact ⟨rfl, rfl⟩

theorem splitIff?_eq_some_iff {ts left right : List Token} :
    splitIff? ts = some (left, right) ↔ SplitsAtFirstPhrase ts left right := by
  have hspec := splitIff?_spec ts
  constructor
  · intro h
    rwa [h] at hspec
  · intro h
    cases hsplit : splitIff? ts with
    | none =>
      rw [hsplit] at hspec
      exact absurd h.1 (hspec left right)
    | some sides =>
      rw [hsplit] at hspec
      obtain ⟨rfl, rfl⟩ := h.unique hspec
      rfl

theorem splitIff?_eq_none_iff {ts : List Token} :
    splitIff? ts = none ↔ ∀ left right, ¬ SplitsAtPhrase ts left right := by
  have hspec := splitIff?_spec ts
  constructor
  · intro h
    rwa [h] at hspec
  · intro h
    cases hsplit : splitIff? ts with
    | none => rfl
    | some sides =>
      rw [hsplit] at hspec
      exact absurd hspec.1 (h _ _)

/-! ### Conditionals -/

/-- Behind `before`, a *se* and an *então* stand in front of a condition and a conclusion, neither of
which is empty. -/
def SplitsAtCondition (ts before condition conclusion : List Token) : Prop :=
  ∃ opener closer, opener.isWord ifWord = true ∧ closer.isThen = true ∧
    condition ≠ [] ∧ conclusion ≠ [] ∧
      ts = before ++ opener :: (condition ++ closer :: conclusion)

/-- Of all places where a condition and a conclusion can be found, this is the one whose *se* comes
first, and among those with this *se* the one whose *então* comes first. -/
def SplitsAtFirstCondition (ts condition conclusion : List Token) : Prop :=
  ∃ before, SplitsAtCondition ts before condition conclusion ∧
    ∀ before' condition' conclusion', SplitsAtCondition ts before' condition' conclusion' →
      before.length < before'.length ∨
        before.length = before'.length ∧ condition.length ≤ condition'.length

/-- An *então* stands between `left` and `right`, and there is a token behind it. -/
def SplitsAtThen (ts left right : List Token) : Prop :=
  ∃ closer, closer.isThen = true ∧ right ≠ [] ∧ ts = left ++ closer :: right

theorem splitsAtThen_cons {t : Token} {ts left right : List Token} :
    SplitsAtThen (t :: ts) (t :: left) right ↔ SplitsAtThen ts left right := by
  simp [SplitsAtThen]

theorem SplitsAtThen.left_eq {t : Token} {ts left right : List Token}
    (h : SplitsAtThen (t :: ts) left right) :
    left = [] ∧ t.isThen = true ∨ ∃ left', left = t :: left' := by
  obtain ⟨closer, hcloser, -, hts⟩ := h
  cases left with
  | nil =>
    obtain ⟨rfl, -⟩ := List.cons_eq_cons.1 hts
    exact .inl ⟨rfl, hcloser⟩
  | cons u left =>
    obtain ⟨rfl, -⟩ := List.cons_eq_cons.1 hts
    exact .inr ⟨left, rfl⟩

/-- Cutting at an *então* goes on behind a token that is none. -/
theorem splitThen?_cons {t : Token} (ht : t.isThen = false) (ts : List Token) :
    splitThen? (t :: ts) = (splitThen? ts).map fun sides => (t :: sides.1, sides.2) := by
  cases ts with
  | nil => rfl
  | cons u ts =>
    rw [splitThen?, ht]
    rfl

/-- Cutting at an *então* ends at the first one that has a token behind it. -/
theorem splitThen?_cons_of_isThen {t : Token} (ht : t.isThen = true) {ts : List Token}
    (hne : ts ≠ []) : splitThen? (t :: ts) = some ([], ts) := by
  obtain ⟨u, us, rfl⟩ := List.exists_cons_of_ne_nil hne
  rw [splitThen?, if_pos ht]

/-- The *então* at which tokens are cut is the first one with a token behind it. -/
theorem splitThen?_spec (ts : List Token) : FindsFirst (SplitsAtThen ts) (splitThen? ts) := by
  induction ts with
  | nil =>
    rintro left right ⟨closer, -, -, hts⟩
    simp at hts
  | cons t ts ih =>
    cases ht : t.isThen with
    | true =>
      obtain rfl | hne := eq_or_ne ts []
      · rintro left right ⟨closer, -, hright, hts⟩
        simp [List.singleton_eq_append_iff, hright] at hts
      · rw [splitThen?_cons_of_isThen ht hne]
        exact .nil ⟨t, ht, hne, rfl⟩
    | false =>
      rw [splitThen?_cons ht]
      refine ih.cons fun left right => ⟨fun h => ?_, ?_⟩
      · obtain ⟨-, hthen⟩ | ⟨left', rfl⟩ := h.left_eq
        · exact absurd (hthen.symm.trans ht) Bool.noConfusion
        · exact ⟨left', rfl, splitsAtThen_cons.1 h⟩
      · rintro ⟨left', rfl, h⟩
        exact splitsAtThen_cons.2 h

theorem splitCondition?_cons (t : Token) (ts : List Token) :
    splitCondition? (t :: ts) = (splitThen? ts).map fun sides => (t :: sides.1, sides.2) := rfl

/-- The condition that is found behind a *se* is the shortest one. -/
theorem splitCondition?_spec (ts : List Token) :
    FindsFirst (fun condition conclusion => condition ≠ [] ∧ SplitsAtThen ts condition conclusion)
      (splitCondition? ts) := by
  cases ts with
  | nil =>
    rintro condition conclusion ⟨-, closer, -, -, hts⟩
    simp at hts
  | cons t ts =>
    rw [splitCondition?_cons]
    refine (splitThen?_spec ts).cons fun condition conclusion => ⟨?_, ?_⟩
    · rintro ⟨hne, h⟩
      obtain ⟨hnil, -⟩ | ⟨condition', rfl⟩ := h.left_eq
      · exact absurd hnil hne
      · exact ⟨condition', rfl, splitsAtThen_cons.1 h⟩
    · rintro ⟨condition', rfl, h⟩
      exact ⟨List.cons_ne_nil t condition', splitsAtThen_cons.2 h⟩

/-- What can be found with `t` as the *se*, and what can be found behind `t`. -/
theorem splitsAtCondition_cons_iff {t : Token} {ts before condition conclusion : List Token} :
    SplitsAtCondition (t :: ts) before condition conclusion ↔
      (before = [] ∧ t.isWord ifWord = true ∧ condition ≠ [] ∧
        SplitsAtThen ts condition conclusion) ∨
      ∃ before', before = t :: before' ∧ SplitsAtCondition ts before' condition conclusion := by
  constructor
  · rintro ⟨opener, closer, hopener, hcloser, hcondition, hconclusion, hts⟩
    cases before with
    | nil =>
      obtain ⟨rfl, htail⟩ := List.cons_eq_cons.1 hts
      exact .inl ⟨rfl, hopener, hcondition, closer, hcloser, hconclusion, htail⟩
    | cons u before =>
      obtain ⟨rfl, htail⟩ := List.cons_eq_cons.1 hts
      exact .inr ⟨before, rfl, opener, closer, hopener, hcloser, hcondition, hconclusion, htail⟩
  · rintro (⟨rfl, hword, hcondition, closer, hcloser, hconclusion, rfl⟩ | ⟨before, rfl, h⟩)
    · exact ⟨t, closer, hword, hcloser, hcondition, hconclusion, rfl⟩
    · obtain ⟨opener, closer, hopener, hcloser, hcondition, hconclusion, rfl⟩ := h
      exact ⟨opener, closer, hopener, hcloser, hcondition, hconclusion, rfl⟩

/-- What a search for the first condition and its conclusion gives. -/
def FindsFirstCondition (ts : List Token) : Option (List Token × List Token) → Prop
  | some (condition, conclusion) => SplitsAtFirstCondition ts condition conclusion
  | none => ∀ before condition conclusion, ¬ SplitsAtCondition ts before condition conclusion

/-- Where the token in front completes no condition, everything is found behind it. -/
theorem FindsFirstCondition.cons {t : Token} {ts : List Token}
    {found : Option (List Token × List Token)} (h : FindsFirstCondition ts found)
    (hnot : t.isWord ifWord = true → ∀ condition conclusion,
      ¬ (condition ≠ [] ∧ SplitsAtThen ts condition conclusion)) :
    FindsFirstCondition (t :: ts) found := by
  have hbehind {before condition conclusion : List Token}
      (hsplit : SplitsAtCondition (t :: ts) before condition conclusion) :
      ∃ before', before = t :: before' ∧ SplitsAtCondition ts before' condition conclusion := by
    obtain ⟨-, hword, hfront⟩ | hsplit := splitsAtCondition_cons_iff.1 hsplit
    · exact absurd hfront (hnot hword condition conclusion)
    · exact hsplit
  cases found with
  | none =>
    intro before condition conclusion hsplit
    obtain ⟨before', -, hsplit'⟩ := hbehind hsplit
    exact h before' condition conclusion hsplit'
  | some sides =>
    obtain ⟨condition, conclusion⟩ := sides
    obtain ⟨before, hsplit, hfirst⟩ := h
    refine ⟨t :: before, splitsAtCondition_cons_iff.2 (.inr ⟨before, rfl, hsplit⟩), ?_⟩
    intro before' condition' conclusion' hsplit'
    obtain ⟨before'', rfl, hsplit''⟩ := hbehind hsplit'
    simpa using hfirst before'' condition' conclusion' hsplit''

/-- The split that is found is the first one; none is found if there is none. -/
theorem splitImplication?_spec (ts : List Token) :
    FindsFirstCondition ts (splitImplication? ts) := by
  induction ts with
  | nil =>
    rintro before condition conclusion ⟨opener, closer, -, -, -, -, hts⟩
    simp at hts
  | cons t ts ih =>
    rw [splitImplication?]
    by_cases hword : t.isWord ifWord = true
    · rw [if_pos hword]
      have hspec := splitCondition?_spec ts
      cases hsplit : splitCondition? ts with
      | none =>
        rw [hsplit] at hspec
        exact ih.cons fun _ => hspec
      | some sides =>
        obtain ⟨condition, conclusion⟩ := sides
        rw [hsplit] at hspec
        obtain ⟨⟨hne, hthen⟩, hfirst⟩ := hspec
        refine ⟨[], splitsAtCondition_cons_iff.2 (.inl ⟨rfl, hword, hne, hthen⟩), ?_⟩
        intro before' condition' conclusion' hsplit'
        obtain ⟨rfl, -, hfront⟩ | ⟨_, rfl, -⟩ := splitsAtCondition_cons_iff.1 hsplit'
        · exact .inr ⟨rfl, hfirst _ _ hfront⟩
        · exact .inl (Nat.zero_lt_succ _)
    · rw [if_neg hword]
      exact ih.cons fun h => absurd h hword

/-- There is one first place. -/
theorem SplitsAtFirstCondition.unique {ts condition conclusion condition' conclusion' : List Token}
    (h : SplitsAtFirstCondition ts condition conclusion)
    (h' : SplitsAtFirstCondition ts condition' conclusion') :
    condition = condition' ∧ conclusion = conclusion' := by
  obtain ⟨before, hsplit, hfirst⟩ := h
  obtain ⟨before', hsplit', hfirst'⟩ := h'
  have hlens : before.length = before'.length ∧ condition.length = condition'.length := by
    have := hfirst _ _ _ hsplit'
    have := hfirst' _ _ _ hsplit
    omega
  obtain ⟨opener, closer, -, -, -, -, rfl⟩ := hsplit
  obtain ⟨opener', closer', -, -, -, -, hts⟩ := hsplit'
  obtain ⟨-, hopener⟩ := List.append_inj hts hlens.1
  obtain ⟨-, hcondition⟩ := List.cons_eq_cons.1 hopener
  obtain ⟨hcondition, hcloser⟩ := List.append_inj hcondition hlens.2
  exact ⟨hcondition, (List.cons_eq_cons.1 hcloser).2⟩

theorem splitImplication?_eq_some_iff {ts condition conclusion : List Token} :
    splitImplication? ts = some (condition, conclusion) ↔
      SplitsAtFirstCondition ts condition conclusion := by
  have hspec := splitImplication?_spec ts
  constructor
  · intro h
    rwa [h] at hspec
  · intro h
    cases hsplit : splitImplication? ts with
    | none =>
      rw [hsplit] at hspec
      obtain ⟨before, h, -⟩ := h
      exact absurd h (hspec before condition conclusion)
    | some sides =>
      rw [hsplit] at hspec
      obtain ⟨rfl, rfl⟩ := h.unique hspec
      rfl

theorem splitImplication?_eq_none_iff {ts : List Token} :
    splitImplication? ts = none ↔
      ∀ before condition conclusion, ¬ SplitsAtCondition ts before condition conclusion := by
  have hspec := splitImplication?_spec ts
  constructor
  · intro h
    rwa [h] at hspec
  · intro h
    cases hsplit : splitImplication? ts with
    | none => rfl
    | some sides =>
      rw [hsplit] at hspec
      obtain ⟨before, hsplit, -⟩ := hspec
      exact absurd hsplit (h before _ _)

/-! ### All sentences -/

/-- Whether the tokens have both a *se* and an *então*. -/
def HasConditionalWords (ts : List Token) : Prop :=
  (∃ t ∈ ts, t.isWord ifWord = true) ∧ ∃ t ∈ ts, t.isThen = true

/-- How the tokens of a sentence are cut into sides: those with the phrase *se e somente se* at the
first place of the phrase, those with *se* and *então* at the first condition that is complete, and
any others not at all. -/
inductive SplitsInto (ts : List Token) : Frame (List Token) → Prop
  /-- A biconditional. -/
  | iff {left right : List Token} (hsplit : SplitsAtFirstPhrase ts left right) :
    SplitsInto ts (.iff left right)
  /-- A conditional. -/
  | imp {condition conclusion : List Token} (hphrase : ∀ left right, ¬ SplitsAtPhrase ts left right)
    (hwords : HasConditionalWords ts) (hsplit : SplitsAtFirstCondition ts condition conclusion) :
    SplitsInto ts (.imp condition conclusion)
  /-- A single side. -/
  | single (hphrase : ∀ left right, ¬ SplitsAtPhrase ts left right)
    (hwords : ¬ HasConditionalWords ts) : SplitsInto ts (.single ts)

theorem hasConditionalWords_iff {ts : List Token} :
    (ts.any (Token.isWord ifWord) && ts.any Token.isThen) = true ↔ HasConditionalWords ts := by
  simp [HasConditionalWords]

/-- The sides that are found are those into which the tokens are to be cut. -/
theorem sidesOf?_eq_some_iff {ts : List Token} {sides : Frame (List Token)} :
    sidesOf? ts = some sides ↔ SplitsInto ts sides := by
  unfold sidesOf?
  cases hiff : splitIff? ts with
  | some pair =>
    obtain ⟨left, right⟩ := pair
    have hfirst := splitIff?_eq_some_iff.1 hiff
    constructor
    · rintro ⟨⟩
      exact .iff hfirst
    · rintro (h | ⟨hphrase, -, -⟩ | ⟨hphrase, -⟩)
      · obtain ⟨rfl, rfl⟩ := h.unique hfirst
        rfl
      · exact absurd hfirst.1 (hphrase left right)
      · exact absurd hfirst.1 (hphrase left right)
  | none =>
    have hphrase := splitIff?_eq_none_iff.1 hiff
    by_cases hwords : (ts.any (Token.isWord ifWord) && ts.any Token.isThen) = true
    · simp only [hwords, if_true, Option.map_eq_some_iff]
      constructor
      · rintro ⟨⟨condition, conclusion⟩, hsplit, rfl⟩
        exact .imp hphrase (hasConditionalWords_iff.1 hwords)
          (splitImplication?_eq_some_iff.1 hsplit)
      · rintro (h | ⟨-, -, hsplit⟩ | ⟨-, hnot⟩)
        · exact absurd h.1 (hphrase _ _)
        · exact ⟨_, splitImplication?_eq_some_iff.2 hsplit, rfl⟩
        · exact absurd (hasConditionalWords_iff.1 hwords) hnot
    · simp only [hwords]
      have hnot : ¬ HasConditionalWords ts := fun h => hwords (hasConditionalWords_iff.2 h)
      constructor
      · rintro ⟨⟩
        exact .single hphrase hnot
      · rintro (h | ⟨-, h, -⟩ | -)
        · exact absurd h.1 (hphrase _ _)
        · exact absurd h hnot
        · rfl

/-- A side is a stretch of the sentence. -/
theorem isInfix_of_mem_sides {ts : List Token} {sides : Frame (List Token)}
    (h : sidesOf? ts = some sides) {side : List Token} (hside : side ∈ sides.members) :
    side <:+: ts := by
  cases sidesOf?_eq_some_iff.1 h with
  | iff hsplit =>
    obtain ⟨phrase, -, rfl⟩ := hsplit.1
    obtain rfl | rfl : side = _ ∨ side = _ := by simpa [Frame.members] using hside
    · exact (List.prefix_append _ _).isInfix
    · exact ((List.suffix_append _ _).trans (List.suffix_append _ _)).isInfix
  | @imp condition conclusion _ _ hsplit =>
    obtain ⟨before, ⟨opener, closer, -, -, -, -, rfl⟩, -⟩ := hsplit
    obtain rfl | rfl : side = condition ∨ side = conclusion := by simpa [Frame.members] using hside
    · exact ⟨before ++ [opener], closer :: conclusion, by simp⟩
    · exact ⟨before ++ opener :: (condition ++ [closer]), [], by simp⟩
  | single =>
    obtain rfl : side = ts := by simpa [Frame.members] using hside
    exact List.infix_rfl

end Sentential
