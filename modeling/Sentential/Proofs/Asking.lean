import Sentential.Proofs.Display
import Sentential.Proofs.Naming
import Sentential.Proofs.Words
import Sentential.Rendering

/-!
# What a source of meanings is asked

A source of meanings may answer differently each time, and asking it may change something elsewhere.
So it matters which variables it is asked for, and in which order.  `MeaningSource.logging` keeps a
record of that beside the state of a source, and `MeaningSource.answers` tells what the source would
answer if it were asked for each of some variables in turn.  The main statement, `render_asks`, says
from these answers alone how rendering a formula ends and what has been asked by then.
-/

namespace Sentential

variable {σ : Type}

/-! ### The variables of a formula -/

section Variables

variable {v w : Variable}

/-- Behind a first member the order of two others is the one that they have in the rest. -/
theorem idxOf_cons_lt_cons_iff {u : Variable} {vs ws : List Variable}
    (h : u ≠ v → u ≠ w → (vs.idxOf v < vs.idxOf w ↔ ws.idxOf v < ws.idxOf w)) :
    (u :: vs).idxOf v < (u :: vs).idxOf w ↔ (u :: ws).idxOf v < (u :: ws).idxOf w := by
  by_cases huw : u = w
  · simp [huw]
  · by_cases huv : u = v
    · simp [huv, List.idxOf_cons_ne _ (huv ▸ huw)]
    · simp [List.idxOf_cons_ne _ huv, List.idxOf_cons_ne _ huw, h huv huw]

/-- Leaving out other members keeps the order of two members. -/
theorem idxOf_filter_lt_iff {p : Variable → Bool} (hv : p v = true) (hw : p w = true)
    (vs : List Variable) :
    (vs.filter p).idxOf v < (vs.filter p).idxOf w ↔ vs.idxOf v < vs.idxOf w := by
  induction vs with
  | nil => simp
  | cons u vs ih =>
    by_cases hu : p u = true
    · rw [List.filter_cons_of_pos hu]
      exact idxOf_cons_lt_cons_iff fun _ _ => ih
    · have huv : u ≠ v := fun h => hu (h ▸ hv)
      have huw : u ≠ w := fun h => hu (h ▸ hw)
      rw [List.filter_cons_of_neg hu, ih]
      simp [List.idxOf_cons_ne _ huv, List.idxOf_cons_ne _ huw]

/-- The distinct members stand in the order of their first appearance. -/
theorem idxOf_distinct_lt_iff (vs : List Variable) :
    (Variable.distinct vs).idxOf v < (Variable.distinct vs).idxOf w ↔ vs.idxOf v < vs.idxOf w := by
  induction vs with
  | nil => simp [Variable.distinct]
  | cons u vs ih =>
    rw [Variable.distinct]
    refine idxOf_cons_lt_cons_iff fun huv huw => ?_
    rw [← ih]
    exact idxOf_filter_lt_iff (decide_eq_true (Ne.symm huv)) (decide_eq_true (Ne.symm huw)) _

theorem nodup_distinct (vs : List Variable) : (Variable.distinct vs).Nodup := by
  simpa [distinct_eq_firstsBy] using nodup_firstsBy (id : Variable → Variable) vs

theorem mem_variablesIn_iff {formula : Text} :
    v ∈ variablesIn formula ↔ .var v ∈ symbolsOf formula := by
  have hvar (s : Symbol) : s.var? = some v ↔ s = .var v := by
    cases s <;> simp [Symbol.var?]
  rw [variablesIn, mem_distinct_iff, List.mem_filterMap]
  simp [hvar]

theorem variablesIn_eq_nil_of_isBlank {formula : Text} (h : formula.isBlank = true) :
    variablesIn formula = [] := by
  cases formula with
  | nil => simp [variablesIn, Variable.distinct]
  | cons c rest =>
    obtain ⟨hc, hrest⟩ := List.all_cons.symm.trans h |> (Bool.and_eq_true_iff.1 ·)
    have hdrop : rest.dropWhile isSpace = [] :=
      List.dropWhile_eq_nil_iff.2 (List.all_eq_true.1 hrest)
    rw [variablesIn, symbolsOf_cons]
    simp only [Symbol.first, hc, if_true, hdrop, symbolsOf_nil]
    rfl

end Variables

/-! ### Putting meanings in -/

theorem exists_bind_eq_ok {ε α β : Type} {x : Except ε α} {f : α → β} (h : ∃ a, x = .ok a) :
    ∃ b, (do let a ← x; return f a) = .ok b := by
  obtain ⟨a, rfl⟩ := h
  exact ⟨f a, rfl⟩

/-- Pieces are missing only where a meaning is missing. -/
theorem exists_piecesOf {isVerb : VerbDetector} {meanings : List Legend.Entry}
    {symbols : List Symbol} (h : ∀ v, .var v ∈ symbols → ∃ c, meaningIn meanings v = .ok c) :
    ∃ ps, piecesOf isVerb meanings symbols = .ok ps := by
  fun_induction piecesOf isVerb meanings symbols with
  | case1 => exact ⟨_, rfl⟩
  | case2 v rest ih =>
    obtain ⟨c, hc⟩ := h v (by simp)
    rw [hc]
    exact exists_bind_eq_ok (ih fun w hw => h w (by simp [hw]))
  | case6 v rest ih =>
    obtain ⟨c, hc⟩ := h v (by simp)
    rw [hc]
    exact exists_bind_eq_ok (ih fun w hw => h w (by simp [hw]))
  | case3 _ _ ih | case4 _ ih | case5 _ _ _ _ _ ih | case7 _ _ ih | case8 _ _ ih =>
    exact exists_bind_eq_ok (ih fun w hw => h w (by simp [hw]))
  | case9 _ ih | case10 _ ih => exact ih fun w hw => h w (by simp [hw])

theorem exists_meaningIn {meanings : List Legend.Entry} {v : Variable}
    (h : v ∈ meanings.map Legend.Entry.var) : ∃ c, meaningIn meanings v = .ok c := by
  obtain ⟨e, he, rfl⟩ := List.mem_map.1 h
  unfold meaningIn
  cases hfind : meanings.find? fun d => d.var = e.var with
  | some d => exact ⟨d.clause, rfl⟩
  | none => exact absurd (List.find?_eq_none.1 hfind e he) (by simp)

/-- A formula with a variable is rendered as soon as each of its variables has a meaning. -/
theorem exists_renderWith (isVerb : VerbDetector) {formula : Text} {meanings : List Legend.Entry}
    (hne : variablesIn formula ≠ [])
    (h : ∀ v ∈ variablesIn formula, v ∈ meanings.map Legend.Entry.var) :
    ∃ sentence, renderWith isVerb formula meanings = .ok sentence := by
  have hblank : ¬ formula.isBlank = true := fun hblank =>
    hne (variablesIn_eq_nil_of_isBlank hblank)
  rw [renderWith, if_neg hblank]
  refine exists_bind_eq_ok (exists_piecesOf fun v hv => exists_meaningIn (h v ?_))
  exact mem_variablesIn_iff.2 (List.mem_of_mem_filter hv)

/-! ### Asking -/

/-- Whether an answer is a meaning: a text that is not blank. -/
def isMeaning (answer : Option Text) : Bool :=
  answer.any fun t => !t.isBlank

/-- The entry that an answer makes for a variable. -/
def entryFrom (v : Variable) (answer : Option Text) : Legend.Entry :=
  ⟨v, (answer.getD []).trim⟩

theorem vars_zipWith_entryFrom {vs : List Variable} {answers : List (Option Text)}
    (h : vs.length ≤ answers.length) :
    (List.zipWith entryFrom vs answers).map Legend.Entry.var = vs := by
  induction vs generalizing answers with
  | nil => rfl
  | cons v vs ih =>
    cases answers with
    | nil => exact absurd h (by simp)
    | cons answer answers =>
      exact congrArg (v :: ·) (ih (by simpa using h))

theorem isEmpty_trim_getD (answer : Option Text) :
    (answer.getD []).trim.isEmpty = !isMeaning answer := by
  cases answer with
  | none => rfl
  | some t => simp [isEmpty_trim, isMeaning]

/-- Whether an answer is a meaning does not depend on white space at its ends. -/
theorem isMeaning_eq_of_trim_eq {answer : Option Text} {t : Text}
    (h : (answer.getD []).trim = t.trim) : isMeaning answer = !t.isBlank := by
  rw [← isEmpty_trim, ← h, isEmpty_trim_getD, Bool.not_not]

namespace MeaningSource

/-- The source that also keeps the variables for which it is asked, in order. -/
def logging (ask : MeaningSource σ) : MeaningSource (σ × List Variable) :=
  fun v s => ((ask v s.1).1, (ask v s.1).2, s.2 ++ [v])

/-- The answers of a source that is asked for each of some variables in turn, whatever it answers,
and its state afterwards. -/
def answers (ask : MeaningSource σ) : List Variable → σ → List (Option Text) × σ
  | [], s => ([], s)
  | v :: rest, s =>
    let r := ask.answers rest (ask v s).2
    ((ask v s).1 :: r.1, r.2)

variable (ask : MeaningSource σ)

theorem length_answers (vs : List Variable) (s : σ) :
    (ask.answers vs s).1.length = vs.length := by
  induction vs generalizing s with
  | nil => rfl
  | cons v vs ih => simp [answers, ih]

theorem answers_ofTable (find? : Variable → Option Text) (vs : List Variable) :
    (ofTable find?).answers vs () = (vs.map find?, ()) := by
  induction vs with
  | nil => rfl
  | cons v vs ih => simp [answers, ofTable, ih]

theorem answers_logging (vs : List Variable) (s : σ) (asked : List Variable) :
    ask.logging.answers vs (s, asked) =
      ((ask.answers vs s).1, (ask.answers vs s).2, asked ++ vs) := by
  induction vs generalizing s asked with
  | nil => simp [answers]
  | cons v vs ih => simp [answers, logging, ih]

end MeaningSource

section Gathering

variable {ask : MeaningSource σ} {s : σ}

/-- If every answer is a meaning, every variable gets an entry. -/
theorem gather_of_forall_isMeaning {vs : List Variable}
    (h : ∀ r ∈ (ask.answers vs s).1, isMeaning r = true) :
    gather ask vs s =
      (.ok (List.zipWith entryFrom vs (ask.answers vs s).1), (ask.answers vs s).2) := by
  induction vs generalizing s with
  | nil => rfl
  | cons v vs ih =>
    obtain ⟨hv, hvs⟩ := List.forall_mem_cons.1 h
    simp [gather, isEmpty_trim_getD, hv, ih hvs, MeaningSource.answers, entryFrom]

/-- The first answer that is no meaning ends the questions. -/
theorem gather_of_not_isMeaning {before after : List Variable} {v : Variable}
    (h : ∀ r ∈ (ask.answers before s).1, isMeaning r = true)
    (hv : isMeaning (ask v (ask.answers before s).2).1 = false) :
    gather ask (before ++ v :: after) s =
      (.error (.missingMeaning v), (ask v (ask.answers before s).2).2) := by
  induction before generalizing s with
  | nil =>
    have hv' : isMeaning (ask v s).1 = false := hv
    simp [gather, isEmpty_trim_getD, hv', MeaningSource.answers]
  | cons u before ih =>
    obtain ⟨hu, hbefore⟩ := List.forall_mem_cons.1 h
    simp [gather, isEmpty_trim_getD, hu, ih hbefore hv, MeaningSource.answers]

end Gathering

/-! ### Rendering -/

section Projection

variable {τ : Type} {ask : MeaningSource σ} {ask' : MeaningSource τ} {project : τ → σ}

/-- Asking does not depend on a part of the state that the answers do not depend on. -/
theorem gather_project
    (h : ∀ v t, ask v (project t) = ((ask' v t).1, project (ask' v t).2)) (vs : List Variable)
    (t : τ) :
    gather ask vs (project t) = ((gather ask' vs t).1, project (gather ask' vs t).2) := by
  induction vs generalizing t with
  | nil => rfl
  | cons v vs ih =>
    by_cases hanswer : ((ask' v t).1.getD []).trim.isEmpty = true
    · simp [gather, h, hanswer]
    · simp only [gather, h, hanswer, ih]
      rcases gather ask' vs (ask' v t).2 with ⟨_ | _, _⟩ <;> simp

variable (project) in
theorem render_project
    (h : ∀ v t, ask v (project t) = ((ask' v t).1, project (ask' v t).2)) (isVerb : VerbDetector)
    (formula : Text) (t : τ) :
    render isVerb formula ask (project t) =
      ((render isVerb formula ask' t).1, project (render isVerb formula ask' t).2) := by
  by_cases hblank : formula.isBlank = true
  · simp [render, hblank]
  · by_cases hvs : (variablesIn formula).isEmpty = true
    · simp [render, hblank, hvs]
    · simp only [render, hblank, hvs, gather_project h]
      rcases gather ask' (variablesIn formula) t with ⟨_ | _, _⟩ <;> simp

end Projection

section Invariant

variable {ask : MeaningSource σ} {p : σ → Prop}

/-- What each answer preserves, all answers preserve. -/
theorem gather_preserves (hask : ∀ v s, p s → p (ask v s).2) (vs : List Variable) {s : σ} (hs : p s) :
    p (gather ask vs s).2 := by
  induction vs generalizing s with
  | nil => exact hs
  | cons v vs ih =>
    have hv := hask v s hs
    by_cases hanswer : ((ask v s).1.getD []).trim.isEmpty = true
    · simpa only [gather, hanswer, if_true] using hv
    · have hrest := ih hv
      simp only [gather, hanswer]
      rcases hgather : gather ask vs (ask v s).2 with ⟨_ | _, s'⟩ <;> simpa [hgather] using hrest

theorem render_preserves (hask : ∀ v s, p s → p (ask v s).2) (isVerb : VerbDetector) (formula : Text)
    {s : σ} (hs : p s) : p (render isVerb formula ask s).2 := by
  have hgather := gather_preserves hask (variablesIn formula) hs
  by_cases hblank : formula.isBlank = true
  · simpa [render, hblank] using hs
  · by_cases hvs : (variablesIn formula).isEmpty = true
    · simpa [render, hblank, hvs] using hs
    · simp only [render, hblank, hvs]
      rcases hanswer : gather ask (variablesIn formula) s with ⟨_ | _, s'⟩ <;>
        simpa [hanswer] using hgather

end Invariant

section Outcome

variable {isVerb : VerbDetector} {formula : Text} {ask : MeaningSource σ} {s s' : σ}

theorem render_of_isBlank (h : formula.isBlank = true) :
    render isVerb formula ask s = (.error .emptyInput, s) := by
  simp [render, h]

theorem render_of_variablesIn_eq_nil (h : formula.isBlank = false)
    (hvs : variablesIn formula = []) :
    render isVerb formula ask s = (.error .noPropositions, s) := by
  simp [render, h, hvs]

theorem isBlank_eq_false_of_variablesIn_ne_nil (hne : variablesIn formula ≠ []) :
    formula.isBlank = false :=
  Bool.eq_false_iff.2 fun h => hne (variablesIn_eq_nil_of_isBlank h)

variable (isVerb ask s)

/-- The first answer that is no meaning makes rendering fail. -/
theorem render_of_not_isMeaning {before after : List Variable} {v : Variable}
    (hvs : variablesIn formula = before ++ v :: after)
    (h : ∀ r ∈ (ask.answers before s).1, isMeaning r = true)
    (hv : isMeaning (ask v (ask.answers before s).2).1 = false) :
    render isVerb formula ask s =
      (.error (.missingMeaning v), (ask v (ask.answers before s).2).2) := by
  have hne : variablesIn formula ≠ [] := by simp [hvs]
  have hempty : ¬ (variablesIn formula).isEmpty = true := by simpa using hne
  simp only [render, isBlank_eq_false_of_variablesIn_ne_nil hne, hempty]
  rw [hvs, gather_of_not_isMeaning h hv]
  rfl

/-- If every answer is a meaning, the formula is rendered. -/
theorem render_of_forall_isMeaning (hne : variablesIn formula ≠ [])
    (h : ∀ r ∈ (ask.answers (variablesIn formula) s).1, isMeaning r = true) :
    let meanings := List.zipWith entryFrom (variablesIn formula)
      (ask.answers (variablesIn formula) s).1
    ∃ sentence, renderWith isVerb formula meanings = .ok sentence ∧
      render isVerb formula ask s =
        (.ok ⟨sentence, meanings⟩, (ask.answers (variablesIn formula) s).2) := by
  intro meanings
  have hempty : ¬ (variablesIn formula).isEmpty = true := by simpa using hne
  have hvars : meanings.map Legend.Entry.var = variablesIn formula :=
    vars_zipWith_entryFrom (ask.length_answers _ s).ge
  obtain ⟨sentence, hsentence⟩ :=
    exists_renderWith isVerb hne fun v hv => show v ∈ meanings.map Legend.Entry.var by rwa [hvars]
  refine ⟨sentence, hsentence, ?_⟩
  have hgather : gather ask (variablesIn formula) s =
      (.ok meanings, (ask.answers (variablesIn formula) s).2) := gather_of_forall_isMeaning h
  simp only [render, isBlank_eq_false_of_variablesIn_ne_nil hne, hempty, hgather, hsentence]
  rfl

/-- A formula is rendered from a table in which each variable has a meaning. -/
theorem render_ofTable (hne : variablesIn formula ≠ []) {clauseOf : Variable → Text}
    (h : ∀ v ∈ variablesIn formula, (clauseOf v).trim = clauseOf v ∧ (clauseOf v).isBlank = false) :
    let meanings := (variablesIn formula).map fun v => ⟨v, clauseOf v⟩
    ∃ sentence, renderWith isVerb formula meanings = .ok sentence ∧
      render isVerb formula (.ofTable fun v => some (clauseOf v)) () =
        (.ok ⟨sentence, meanings⟩, ()) := by
  intro meanings
  have hanswers := MeaningSource.answers_ofTable (fun v => some (clauseOf v)) (variablesIn formula)
  have hentries : List.zipWith entryFrom (variablesIn formula)
      ((variablesIn formula).map fun v => some (clauseOf v)) = meanings := by
    rw [List.zipWith_map_right, List.zipWith_self]
    exact List.map_congr_left fun v hv => by simp [entryFrom, (h v hv).1]
  have hall : ∀ r ∈ ((MeaningSource.ofTable fun v => some (clauseOf v)).answers
      (variablesIn formula) ()).1, isMeaning r = true := by
    rw [hanswers]
    exact List.forall_mem_map.2 fun v hv => by simp [isMeaning, (h v hv).2]
  have hrender := render_of_forall_isMeaning isVerb _ _ hne hall
  simpa only [hanswers, hentries] using hrender

end Outcome

/-- How rendering ends, and what has been asked by then.  The variables of a formula are the distinct
ones among its symbols, in the order of their first appearance, and a blank formula and one without
variables fail without a question.  Otherwise the source is asked for each variable, up to the first
whose answer is no meaning; that one is missing.  If there is none, the formula is rendered, and the
trimmed answers are its meanings. -/
theorem render_asks (isVerb : VerbDetector) (formula : Text) (ask : MeaningSource σ) (s : σ) :
    let vs := variablesIn formula
    let occurrences := (symbolsOf formula).filterMap Symbol.var?
    let outcome := render isVerb formula ask.logging (s, [])
    (vs.Nodup ∧ (∀ v, v ∈ vs ↔ v ∈ occurrences) ∧
      ∀ v w, vs.idxOf v < vs.idxOf w ↔ occurrences.idxOf v < occurrences.idxOf w) ∧
    render isVerb formula ask s = (outcome.1, outcome.2.1) ∧
    (formula.isBlank = true → outcome = (.error .emptyInput, s, [])) ∧
    (formula.isBlank = false → vs = [] → outcome = (.error .noPropositions, s, [])) ∧
    (∀ before v after, vs = before ++ v :: after →
      (∀ r ∈ (ask.answers before s).1, isMeaning r = true) →
      isMeaning (ask v (ask.answers before s).2).1 = false →
      outcome =
        (.error (.missingMeaning v), (ask v (ask.answers before s).2).2, before ++ [v])) ∧
    (vs ≠ [] → (∀ r ∈ (ask.answers vs s).1, isMeaning r = true) →
      ∃ sentence, outcome =
        (.ok ⟨sentence, List.zipWith entryFrom vs (ask.answers vs s).1⟩,
          (ask.answers vs s).2, vs)) := by
  intro vs occurrences outcome
  refine ⟨⟨nodup_distinct _, fun v => mem_distinct_iff, fun v w => idxOf_distinct_lt_iff _⟩,
    render_project Prod.fst (fun _ _ => rfl) isVerb formula (s, []),
    render_of_isBlank, render_of_variablesIn_eq_nil, fun before v after hvs hbefore hv => ?_,
    fun hne hall => ?_⟩
  · have hlog := ask.answers_logging before s []
    have hrender := render_of_not_isMeaning isVerb ask.logging (s, []) hvs
      (by simpa [hlog] using hbefore) (by simpa [hlog, MeaningSource.logging] using hv)
    simpa [hlog, MeaningSource.logging] using hrender
  · have hlog := ask.answers_logging vs s []
    obtain ⟨sentence, -, hrender⟩ := render_of_forall_isMeaning isVerb ask.logging
      (s, []) hne (by simpa [vs, hlog] using hall)
    refine ⟨sentence, ?_⟩
    simpa [vs, hlog] using hrender

/-- A source that has one answer to give leaves the second variable without a meaning. -/
theorem render_asks_twice :
    let ask : MeaningSource Nat := fun _ n => (if n = 0 then some "chove".toList else none, n + 1)
    let formula := (Formula.imp (.atom (.nth 0)) (.atom (.nth 1))).display
    variablesIn formula = [.nth 0, .nth 1] ∧
      render (fun _ => false) formula ask.logging (0, []) =
        (.error (.missingMeaning (.nth 1)), 2, [.nth 0, .nth 1]) := by
  intro ask formula
  have hvs : variablesIn formula = [.nth 0, .nth 1] := by
    rw [Formula.variablesIn_display (.imp (.atom _) (.atom _))]
    decide +kernel
  have hasked := render_asks (fun _ => false) formula ask 0
  exact ⟨hvs, hasked.2.2.2.2.1 [.nth 0] (.nth 1) [] hvs (by decide +kernel) (by decide +kernel)⟩

end Sentential
