import Mathlib.Tactic.Common
import Sentential.Proofs.Acceptance
import Sentential.Proofs.Origins

/-!
# The clauses of a legend

A clause in the legend of a sentence is not empty, has no white space at its ends and holds no negation
word.  End marks at its ends are taken away before the negation is, so that a mark can be left at an end:
this is so exactly if negation stood between the mark and the end (`ShieldsMark`, `isClauseText_of_formalize`),
as in *chove! não*.
-/

namespace Sentential

/-- Negation that opens a clause: negation words, which may stand behind a negation sign. -/
def IsOpeningNegation (lead : List Token) : Prop :=
  (∀ t ∈ lead, t.isNot = true) ∨
    ∃ sign ws, lead = sign :: ws ∧ sign.kind = .negation ∧ ∀ t ∈ ws, t.isNot = true

/-- Nothing but negation stands between an end mark and an end of the tokens. -/
def ShieldsMark (core : List Token) : Prop :=
  ∃ before mark after, core = before ++ mark :: after ∧ mark.isEndMark = true ∧
    (IsOpeningNegation before ∨ ∀ t ∈ after, t.isNot = true)

/-- The clause is read from a run of the sentence, of which `core` is left when end marks are taken away
at both ends. -/
inductive ClauseFrom (sentence : Text) (core : List Token) (clause : Text) : Prop
  /-- The clause is what the negation leaves of `core`. -/
  | ofRun {sides : Frame (List Token)} {side part run body : List Token}
    (hsides : SplitsInto (tokenize sentence.trim) sides) (hside : side ∈ sides.members)
    (hpart : IsPartOf part side) (hrun : IsRunOf run part) (hcore : StripsTo run core)
    (hbody : LeavesBody core body) (hclause : clause = joinTokens body)

/-- What is so of a clause in the legend of a sentence. -/
structure IsClauseText (sentence clause : Text) : Prop where
  /-- It is not empty. -/
  ne_nil : clause ≠ []
  /-- It has no white space at its ends. -/
  trim_eq : clause.trim = clause
  /-- It holds no negation word. -/
  plain : ∀ t ∈ tokenize clause, t.isNot = false
  /-- It is read from the sentence. -/
  read : ∃ core, ClauseFrom sentence core clause
  /-- Punctuation stands at one of its ends exactly if negation shielded an end mark. -/
  ends : ∀ core, ClauseFrom sentence core clause →
    (EndsWithout Token.isClausePunctuation (tokenize clause) ↔ ¬ ShieldsMark core)

/-! ### The ends of what is kept -/

section Ends

variable {α : Type} {p q : α → Bool} {xs : List α}

theorem endsWithout_congr (h : ∀ x ∈ xs, p x = q x) : EndsWithout p xs ↔ EndsWithout q xs := by
  have hhead : ∀ x ∈ xs.head?, p x = q x := fun x hx => h x (List.mem_of_mem_head? hx)
  have hlast : ∀ x ∈ xs.getLast?, p x = q x := fun x hx => h x (List.mem_of_mem_getLast? hx)
  unfold EndsWithout
  constructor
  · rintro ⟨hp, hp'⟩
    exact ⟨fun x hx => by rw [← hhead x hx, hp x hx], fun x hx => by rw [← hlast x hx, hp' x hx]⟩
  · rintro ⟨hq, hq'⟩
    exact ⟨fun x hx => by rw [hhead x hx, hq x hx], fun x hx => by rw [hlast x hx, hq' x hx]⟩

/-- The first member that is kept satisfies `p` if only members that are dropped stand before it. -/
theorem exists_head?_filter_iff (hq : ∀ x, p x = true → q x = true) :
    (∃ x ∈ (xs.filter q).head?, p x = true) ↔
      ∃ before x after, xs = before ++ x :: after ∧ p x = true ∧ ∀ y ∈ before, q y = false := by
  simp only [List.head?_filter, Option.mem_def, List.find?_eq_some_iff_append]
  constructor
  · rintro ⟨x, ⟨-, before, after, rfl, hbefore⟩, hx⟩
    exact ⟨before, x, after, rfl, hx, by simpa using hbefore⟩
  · rintro ⟨before, x, after, rfl, hx, hbefore⟩
    exact ⟨x, ⟨hq x hx, before, after, rfl, by simpa using hbefore⟩, hx⟩

/-- Of what is kept, an end satisfies `p` if only members that are dropped stand between a member with `p`
and an end. -/
theorem not_endsWithout_filter_iff (hq : ∀ x, p x = true → q x = true) :
    ¬ EndsWithout p (xs.filter q) ↔ ∃ before x after, xs = before ++ x :: after ∧ p x = true ∧
      ((∀ y ∈ before, q y = false) ∨ ∀ y ∈ after, q y = false) := by
  have hfirst : (∃ x ∈ (xs.filter q).head?, p x = true) ↔ _ := exists_head?_filter_iff hq
  have hlast : (∃ x ∈ (xs.reverse.filter q).head?, p x = true) ↔ _ := exists_head?_filter_iff hq
  rw [List.filter_reverse, List.head?_reverse] at hlast
  have hends : ¬ EndsWithout p (xs.filter q) ↔
      (∃ x ∈ (xs.filter q).head?, p x = true) ∨ ∃ x ∈ (xs.filter q).getLast?, p x = true := by
    unfold EndsWithout
    rw [Decidable.not_and_iff_not_or_not]
    simp
  rw [hends, hfirst, hlast]
  constructor
  · rintro (⟨before, x, after, hxs, hx, hbefore⟩ | ⟨after, x, before, hxs, hx, hafter⟩)
    · exact ⟨before, x, after, hxs, hx, .inl hbefore⟩
    · refine ⟨before.reverse, x, after.reverse, ?_, hx, .inr ?_⟩
      · rw [← List.reverse_reverse xs, hxs]
        simp
      · simpa using hafter
  · rintro ⟨before, x, after, rfl, hx, hbefore | hafter⟩
    · exact .inl ⟨before, x, after, rfl, hx, hbefore⟩
    · exact .inr ⟨after.reverse, x, before.reverse, by simp, hx, by simpa using hafter⟩

end Ends

section Marks

variable {core : List Token}

theorem not_isNot_of_isEndMark {t : Token} (ht : t.isEndMark = true) : (!t.isNot) = true := by
  obtain ⟨hkind, -⟩ : t.kind = .punctuation ∧ t.text ∈ [['.'], ['!'], ['?']] := of_decide_eq_true ht
  simp [Token.isNot, Token.isAnyWord, hkind]

/-- Behind a negation sign, negation words and the sign itself shield an end mark. -/
theorem shieldsMark_iff_of_opensWithSign (h : OpensWithSign core) :
    ShieldsMark core ↔ ¬ EndsWithout Token.isEndMark (core.tail.filter fun t => !t.isNot) := by
  rw [not_endsWithout_filter_iff fun _ => not_isNot_of_isEndMark]
  obtain ⟨sign, next, rest, hkind, rfl⟩ := h
  constructor
  · rintro ⟨before, mark, after, hcore, hmark, hside⟩
    cases before with
    | nil =>
      -- the sign is no mark
      obtain ⟨rfl, -⟩ := List.cons_eq_cons.1 hcore
      simp [Token.isEndMark, hkind] at hmark
    | cons t before =>
      obtain ⟨rfl, hrest⟩ := List.cons_eq_cons.1 hcore
      refine ⟨before, mark, after, hrest, hmark, hside.imp ?_ ?_⟩
      · rintro (hall | ⟨sign', ws, heq, -, hws⟩)
        · exact fun u hu => by simp [hall u (List.mem_cons_of_mem _ hu)]
        · obtain ⟨-, rfl⟩ := List.cons_eq_cons.1 heq
          exact fun u hu => by simp [hws u hu]
      · exact fun hafter u hu => by simp [hafter u hu]
  · rintro ⟨before, mark, after, hrest, hmark, hside⟩
    rw [List.tail_cons] at hrest
    refine ⟨sign :: before, mark, after, by rw [hrest]; rfl, hmark, hside.imp ?_ ?_⟩
    · exact fun hbefore => .inr ⟨sign, before, rfl, hkind, by simpa using hbefore⟩
    · exact fun hafter => by simpa using hafter

/-- Without a negation sign in front, negation words shield an end mark. -/
theorem shieldsMark_iff_of_not_opensWithSign (h : ¬ OpensWithSign core) :
    ShieldsMark core ↔ ¬ EndsWithout Token.isEndMark (core.filter fun t => !t.isNot) := by
  rw [not_endsWithout_filter_iff fun _ => not_isNot_of_isEndMark]
  constructor
  · rintro ⟨before, mark, after, rfl, hmark, hside⟩
    refine ⟨before, mark, after, rfl, hmark, hside.imp ?_ ?_⟩
    · rintro (hall | ⟨sign, ws, rfl, hkind, -⟩)
      · exact fun u hu => by simp [hall u hu]
      · -- a sign in front of the mark would open the clause
        obtain ⟨next, rest, hnext⟩ :=
          List.exists_cons_of_ne_nil (List.append_ne_nil_of_right_ne_nil ws (List.cons_ne_nil mark after))
        exact absurd ⟨sign, next, rest, hkind, by rw [← hnext]; rfl⟩ h
    · exact fun hafter u hu => by simp [hafter u hu]
  · rintro ⟨before, mark, after, rfl, hmark, hside⟩
    refine ⟨before, mark, after, rfl, hmark, hside.imp ?_ ?_⟩
    · exact fun hbefore => .inl (by simpa using hbefore)
    · exact fun hafter => by simpa using hafter

/-- An end mark is left at an end exactly if negation stood between it and the end. -/
theorem shieldsMark_iff {body : List Token} (hbody : LeavesBody core body) :
    ShieldsMark core ↔ ¬ EndsWithout Token.isEndMark body := by
  by_cases hopens : OpensWithSign core
  · rw [hbody.1 hopens, shieldsMark_iff_of_opensWithSign hopens]
  · rw [hbody.2 hopens, shieldsMark_iff_of_not_opensWithSign hopens]

end Marks

/-! ### Clauses -/

/-- The tokens of a clause have punctuation at an end exactly if negation shielded an end mark of its
run. -/
theorem endsWithout_clause_iff {sentence : Text} {sides : Frame (List Token)}
    {side part run core : List Token} (hsides : SplitsInto (tokenize sentence) sides)
    (hside : side ∈ sides.members) (hpart : IsPartOf part side) (hrun : IsRunOf run part)
    (hcore : StripsTo run core) :
    EndsWithout Token.isClausePunctuation (tokenize (literalOf run).clause) ↔ ¬ ShieldsMark core := by
  have hsome := sidesOf?_eq_some_iff.2 hsides
  have hmarks := isClausePunctuation_of_mem_run (isInfix_of_mem_sides hsome hside) hpart hrun
  obtain rfl := (stripsTo_iff hmarks).1 hcore
  have hmem : run ∈ sideRuns side := mem_sideRuns_iff.2 ⟨part, hpart, hrun⟩
  have hbare (ts : List Token) : EndsWithout Token.isClausePunctuation (ts.map Token.bare) ↔
      EndsWithout Token.isClausePunctuation ts := endsWithout_map
  have hkept : ∀ t ∈ clauseTokens run, t.isClausePunctuation = t.isEndMark := fun t ht =>
    hmarks t ((clauseTokens_sublist run).mem ht)
  rw [shieldsMark_iff (leavesBody_iff.2 rfl), not_not, ← hbare,
    map_bare_tokenize_clause hsome hside hmem, hbare, endsWithout_congr hkept]

/-- Each clause of a legend is a clause text: it is neither empty nor surrounded by white space, it holds no
negation word, and punctuation stands at one of its ends exactly if negation stood between an end mark and
an end of the run from which it was read. -/
theorem isClauseText_of_formalize {sentence : Text} {r : Formalization}
    (h : formalize sentence = .ok r) : ∀ e ∈ r.legend.entries, IsClauseText sentence e.clause := by
  obtain ⟨sides, hsides, hread, rfl⟩ := formalize_eq_ok_iff.1 h
  intro e he
  obtain ⟨hne, htrim⟩ := clause_of_mem_legend hsides hread he
  obtain ⟨run, hrun, hclause⟩ : ∃ run ∈ sides.members.flatMap sideRuns,
      e.clause = (literalOf run).clause := by
    obtain ⟨c, hc, heq⟩ := mem_entriesFrom he
    have hmem : c ∈ clausesIn sides := mem_of_mem_firstsBy hc
    rw [heq, (clause_ne_nil_and_trim hsides hread hmem).2]
    rw [clausesIn_eq] at hmem
    obtain ⟨run, hrun, hliteral⟩ := List.mem_map.1 hmem
    exact ⟨run, hrun, hliteral.symm⟩
  obtain ⟨side, hside, hrun⟩ := List.mem_flatMap.1 hrun
  refine ⟨hne, htrim, ?_, ?_, ?_⟩
  · intro t ht
    rw [hclause] at ht
    exact isNot_eq_false_of_mem_tokenize_clause hsides hside hrun ht
  · obtain ⟨part, hpart, hcut⟩ := mem_sideRuns_iff.1 hrun
    have hsplit := sidesOf?_eq_some_iff.1 hsides
    have hmarks := isClausePunctuation_of_mem_run (isInfix_of_mem_sides hsides hside) hpart hcut
    have hcore : StripsTo run (stripPunctuation run) := (stripsTo_iff hmarks).2 rfl
    exact ⟨_, .ofRun hsplit hside hpart hcut hcore (leavesBody_iff.2 rfl) hclause⟩
  · rintro core ⟨hsplit, hside', hpart, hcut, hcore, hbody, hjoin⟩
    have hmarks := isClausePunctuation_of_mem_run
      (isInfix_of_mem_sides (sidesOf?_eq_some_iff.2 hsplit) hside') hpart hcut
    rw [(stripsTo_iff hmarks).1 hcore] at hbody
    rw [hjoin, leavesBody_iff.1 hbody]
    exact endsWithout_clause_iff hsplit hside' hpart hcut hcore

/-- A conditional with marks and negation words at the ends of its clauses. -/
theorem exists_isClauseText_conditional :
    ∃ r, formalize "Se não chove, então a rua seca! não".toList = .ok r ∧ r.legend.size = 2 ∧
      ∀ e ∈ r.legend.entries, IsClauseText "Se não chove, então a rua seca! não".toList e.clause := by
  have hread : formalize "Se não chove, então a rua seca! não".toList =
      .ok ⟨.imp (.neg (.atom (Variable.nth 0))) (.neg (.atom (Variable.nth 1))),
        ⟨[⟨Variable.nth 0, "chove".toList⟩, ⟨Variable.nth 1, "a rua seca!".toList⟩]⟩⟩ := by
    decide +kernel
  exact ⟨_, hread, rfl, isClauseText_of_formalize hread⟩

/-- Not all clauses are free of punctuation at their ends. -/
theorem not_forall_endsWithout_clause :
    ¬ ∀ sentence r, formalize sentence = .ok r →
      ∀ e ∈ r.legend.entries, EndsWithout Token.isClausePunctuation (tokenize e.clause) := by
  intro h
  have hread : formalize "chove! não".toList =
      .ok ⟨.neg (.atom (Variable.nth 0)), ⟨[⟨Variable.nth 0, "chove!".toList⟩]⟩⟩ := by
    decide +kernel
  obtain ⟨-, hlast⟩ := h _ _ hread ⟨Variable.nth 0, "chove!".toList⟩ (List.mem_singleton_self _)
  have hmark := hlast ⟨.punctuation, ['!'], 5⟩ (by decide +kernel)
  revert hmark
  decide

end Sentential
