import Sentential.Command.Run
import Sentential.Proofs.Arguments
import Sentential.Proofs.InputLines

/-!
# Where the meanings of a command line come from

The command `render` looks for the meaning of a variable on the command line, in a file and in the
settings, and reads a line of the input where none of them has one.  Here these places are taken
together (`MeaningPlaces`), and from them it is told without running anything what each variable
means, which prompts are written, and where the command stops.  The invariant `HasAsked` connects
this with the course of a dialogue: it counts the lines that were read by the variables that were
asked for.  The main statement is `runLine_render`.
-/

namespace Sentential

/-! ### Tables of meanings -/

namespace Meanings

variable {m n : Meanings} {v : Variable} {clause : Text}

/-- Later meanings count before earlier ones. -/
theorem get?_append : Meanings.get? (m ++ n) v = (n.get? v <|> m.get? v) := by
  simp only [Meanings.get?, List.reverse_append, List.find?_append]
  cases n.reverse.find? fun e => e.1 = v <;> rfl

theorem IsProper.of_get? (h : m.IsProper) (hv : m.get? v = some clause) :
    clause.trim = clause ∧ clause.isBlank = false := by
  obtain ⟨e, he, rfl⟩ := Option.map_eq_some_iff.1 hv
  exact h e (List.mem_reverse.1 (List.mem_of_find?_eq_some he))

end Meanings

/-! ### Places -/

/-- The places where meanings come from. -/
structure MeaningPlaces where
  /-- The meanings on the command line. -/
  given : Meanings
  /-- The meanings in the file. -/
  filed : Meanings
  /-- The meanings in the settings. -/
  configured : Meanings
  /-- Whether missing meanings are not asked for. -/
  noPrompt : Bool
  /-- The input. -/
  input : Text

namespace MeaningPlaces

variable (s : MeaningPlaces)

/-- The meaning of a variable in the first of the three tables that has one. -/
def known? (v : Variable) : Option Text :=
  s.given.get? v <|> s.filed.get? v <|> s.configured.get? v

/-- The variables that no table has, in order. -/
def unknown (vs : List Variable) : List Variable :=
  vs.filter fun v => (s.known? v).isNone

/-- The line of the input that the prompt at place `k` reads.  Without prompts there is none. -/
def line (k : Nat) : Text :=
  if s.noPrompt then [] else s.input.lineAt k

/-- The meaning of a variable, if the variables that no table has are `asked`, in this order. -/
def meaning (asked : List Variable) (v : Variable) : Text :=
  (s.known? v).getD (s.line (asked.idxOf v)).trim

/-- The prompts for some variables. -/
def prompts (asked : List Variable) : Text :=
  if s.noPrompt then []
  else asked.flatMap fun v => "Digite o significado de ".toList ++ v.name ++ ": ".toList

/-- The table that counts the meanings on the command line most, and those in the settings least. -/
def table : Meanings :=
  s.configured ++ s.filed ++ s.given

/-- The source that the places make. -/
def source : MeaningSource Dialogue :=
  .interactive s.table s.noPrompt

/-- Whether the meanings in the three tables are proper. -/
structure IsProper : Prop where
  given : s.given.IsProper
  filed : s.filed.IsProper
  configured : s.configured.IsProper

variable {s} {v : Variable} {vs asked : List Variable} {clause : Text}

theorem get?_table : s.table.get? v = s.known? v := by
  simp only [table, Meanings.get?_append, known?]

theorem IsProper.of_known? (h : s.IsProper) (hv : s.known? v = some clause) :
    clause.trim = clause ∧ clause.isBlank = false :=
  Meanings.IsProper.of_get? ((h.configured.append h.filed).append h.given) (get?_table.trans hv)

theorem IsProper.trim_meaning (h : s.IsProper) :
    (s.meaning asked v).trim = s.meaning asked v := by
  unfold meaning
  cases hv : s.known? v with
  | some clause => exact (h.of_known? hv).1
  | none => exact Text.trim_trim _

/-- A variable has a meaning, unless no table has it and its line is blank. -/
theorem IsProper.isBlank_meaning (h : s.IsProper) (hv : v ∈ vs)
    (hlines : ∀ k < (s.unknown vs).length, (s.line k).isBlank = false) :
    (s.meaning (s.unknown vs) v).isBlank = false := by
  unfold meaning
  cases hknown : s.known? v with
  | some clause => exact (h.of_known? hknown).2
  | none =>
    have hmem : v ∈ s.unknown vs := List.mem_filter.2 ⟨hv, by simp [hknown]⟩
    exact (isBlank_trim _).trans (hlines _ (List.idxOf_lt_length_iff.2 hmem))

theorem unknown_cons_of_known (hv : s.known? v = some clause) :
    s.unknown (v :: vs) = s.unknown vs := by
  simp [unknown, hv]

theorem unknown_cons_of_unknown (hv : s.known? v = none) :
    s.unknown (v :: vs) = v :: s.unknown vs := by
  simp [unknown, hv]

theorem prompts_of_noPrompt (h : s.noPrompt = true) : s.prompts asked = [] :=
  if_pos h

theorem prompts_nil : s.prompts [] = [] := by
  unfold prompts
  split <;> rfl

theorem prompts_append_singleton (h : s.noPrompt = false) :
    s.prompts (asked ++ [v]) = s.prompts asked ++ promptFor v := by
  have hnot : ¬ s.noPrompt = true := by simp [h]
  rw [prompts, prompts, if_neg hnot, if_neg hnot, List.flatMap_append, List.flatMap_singleton]
  rfl

/-! ### The course of a dialogue -/

variable (s) in
/-- Where a dialogue is, after the variables `asked` have been asked for. -/
structure HasAsked (asked : List Variable) (d : Dialogue) : Prop where
  /-- One line has been read for each of them. -/
  unread : s.noPrompt = false →
    ∃ t, d.unread = Text.toBytes t ∧ ∀ k, t.lineAt k = s.input.lineAt (asked.length + k)
  /-- One prompt has been written for each of them. -/
  prompts : d.prompts = s.prompts asked
  /-- All lines were well-formed. -/
  intact : d.broken = false

variable {d : Dialogue}

theorem hasAsked_nil : s.HasAsked [] { unread := Text.toBytes s.input } where
  unread _ := ⟨s.input, rfl, fun k => by simp⟩
  prompts := prompts_nil.symm
  intact := rfl

/-- A variable in a table is not asked for. -/
theorem source_of_known (hv : s.known? v = some clause) : s.source v d = (some clause, d) := by
  simp [source, MeaningSource.interactive, get?_table, hv]

/-- Any other variable is asked for, and its meaning is the next line. -/
theorem HasAsked.source_of_unknown (h : s.HasAsked asked d) (hv : s.known? v = none) :
    ((s.source v d).1.getD []).trim = (s.line asked.length).trim ∧
      s.HasAsked (asked ++ [v]) (s.source v d).2 := by
  by_cases hprompt : s.noPrompt = true
  · have hsource : s.source v d = (none, d) := by
      simp [source, MeaningSource.interactive, get?_table, hv, hprompt]
    rw [hsource]
    refine ⟨by simp [line, hprompt], fun hnot => ?_, ?_, h.intact⟩
    · exact absurd (hprompt.symm.trans hnot) (by simp)
    · rw [h.prompts, prompts_of_noPrompt hprompt, prompts_of_noPrompt hprompt]
  · have hnot : s.noPrompt = false := by simpa using hprompt
    have hsource : s.source v d = prompt v d := by
      simp [source, MeaningSource.interactive, get?_table, hv, hnot]
    obtain ⟨t, ht, hlines⟩ := h.unread hnot
    obtain ⟨hanswer, hunread, hprompts, hbroken⟩ := prompt_toBytes v ht
    rw [hsource]
    refine ⟨?_, fun _ => ⟨t.dropLine, hunread, fun k => ?_⟩, ?_, hbroken.trans h.intact⟩
    · rw [hanswer, line, if_neg hprompt, ← Text.lineAt_zero, hlines, Nat.add_zero]
    · rw [← Text.lineAt_succ, hlines, List.length_append, List.length_singleton]
      congr 1
      omega
    · rw [hprompts, h.prompts, prompts_append_singleton hnot]

/-- The variables that are asked for are those that no table has. -/
theorem HasAsked.answers (h : s.HasAsked asked d) (vs : List Variable) :
    s.HasAsked (asked ++ s.unknown vs) (s.source.answers vs d).2 := by
  induction vs generalizing asked d with
  | nil => simpa [unknown, MeaningSource.answers] using h
  | cons v vs ih =>
    cases hv : s.known? v with
    | some clause =>
      simp only [MeaningSource.answers, source_of_known hv, unknown_cons_of_known hv]
      exact ih h
    | none =>
      rw [unknown_cons_of_unknown hv, List.append_cons]
      exact ih (h.source_of_unknown hv).2

/-- All answers are meanings if none of the lines that are read is blank. -/
theorem HasAsked.forall_isMeaning (hs : s.IsProper) (h : s.HasAsked asked d)
    (hlines : ∀ k < (s.unknown vs).length, (s.line (asked.length + k)).isBlank = false) :
    ∀ r ∈ (s.source.answers vs d).1, isMeaning r = true := by
  induction vs generalizing asked d with
  | nil => simp [MeaningSource.answers]
  | cons v vs ih =>
    cases hv : s.known? v with
    | some clause =>
      rw [unknown_cons_of_known hv] at hlines
      simp only [MeaningSource.answers, source_of_known hv]
      exact List.forall_mem_cons.2 ⟨by simp [isMeaning, (hs.of_known? hv).2], ih h hlines⟩
    | none =>
      rw [unknown_cons_of_unknown hv] at hlines
      obtain ⟨hanswer, hasked⟩ := h.source_of_unknown hv
      refine List.forall_mem_cons.2 ⟨?_, ih hasked fun k hk => ?_⟩
      · have hline : (s.line asked.length).isBlank = false := hlines 0 (by simp)
        simp [isMeaning_eq_of_trim_eq hanswer, hline]
      · have hline := hlines (k + 1) (by simpa using hk)
        rwa [List.length_append, List.length_singleton, Nat.add_assoc, Nat.add_comm 1 k]

/-- The entries that the answers make: each variable has its meaning. -/
theorem HasAsked.zipWith_entryFrom (hs : s.IsProper) (h : s.HasAsked asked d) (hvs : vs.Nodup)
    (hdisjoint : ∀ v ∈ vs, v ∉ asked) :
    List.zipWith entryFrom vs (s.source.answers vs d).1 =
      vs.map fun v => ⟨v, s.meaning (asked ++ s.unknown vs) v⟩ := by
  induction vs generalizing asked d with
  | nil => rfl
  | cons v vs ih =>
    obtain ⟨hv', hvs⟩ := List.nodup_cons.1 hvs
    obtain ⟨hv'', hdisjoint⟩ := List.forall_mem_cons.1 hdisjoint
    rw [MeaningSource.answers, List.zipWith_cons_cons, List.map_cons]
    cases hv : s.known? v with
    | some clause =>
      rw [source_of_known hv, unknown_cons_of_known hv, ih h hvs hdisjoint]
      simp [entryFrom, meaning, hv, (hs.of_known? hv).1]
    | none =>
      obtain ⟨hanswer, hasked⟩ := h.source_of_unknown hv
      rw [unknown_cons_of_unknown hv, List.append_cons, ih hasked hvs fun u hu => ?_]
      · -- the variables that were asked for before count the lines that were read before
        have hindex : (asked ++ [v] ++ s.unknown vs).idxOf v = asked.length := by
          simp [List.idxOf_append, hv'']
        simp only [entryFrom, hanswer, meaning, hv, hindex, Option.getD_none]
      · simpa using ⟨hdisjoint u hu, ne_of_mem_of_not_mem hu hv'⟩

/-! ### The end of a dialogue -/

/-- A variable that no table has, and those before it. -/
theorem exists_eq_append_of_unknown {before after : List Variable}
    (h : s.unknown vs = before ++ v :: after) :
    ∃ front back, vs = front ++ v :: back ∧ s.unknown front = before ∧ s.known? v = none := by
  obtain ⟨front, back, rfl, hfront, hback⟩ := List.filter_eq_append_iff.1 h
  obtain ⟨skipped, rest, rfl, hskipped, hv, -⟩ := List.filter_eq_cons_iff.1 hback
  refine ⟨front ++ skipped, rest, by simp, ?_, by simpa using hv⟩
  rw [unknown, List.filter_append, hfront, List.filter_eq_nil_iff.2 hskipped, List.append_nil]

/-- The first blank line ends the dialogue. -/
theorem render_source_of_isBlank (hs : s.IsProper) {isVerb : VerbDetector} {formula : Text}
    {before after : List Variable} (hvs : s.unknown (variablesIn formula) = before ++ v :: after)
    (hbefore : ∀ k < before.length, (s.line k).isBlank = false)
    (hblank : (s.line before.length).isBlank = true) :
    ∃ d, render isVerb formula s.source { unread := Text.toBytes s.input } =
        (.error (.missingMeaning v), d) ∧
      s.HasAsked (before ++ [v]) d := by
  obtain ⟨front, back, hfront, rfl, hv⟩ := exists_eq_append_of_unknown hvs
  have hasked := hasAsked_nil.answers (s := s) front
  obtain ⟨hanswer, hasked'⟩ := hasked.source_of_unknown hv
  have hmeanings : ∀ r ∈ (s.source.answers front { unread := Text.toBytes s.input }).1,
      isMeaning r = true := hasAsked_nil.forall_isMeaning hs (by simpa using hbefore)
  refine ⟨_, render_of_not_isMeaning isVerb s.source _ hfront hmeanings ?_, hasked'⟩
  simpa [isMeaning_eq_of_trim_eq hanswer] using hblank

/-- Without a blank line, the formula is rendered. -/
theorem render_source_of_forall (hs : s.IsProper) (isVerb : VerbDetector) {formula : Text}
    (hne : variablesIn formula ≠ [])
    (hlines : ∀ k < (s.unknown (variablesIn formula)).length, (s.line k).isBlank = false) :
    let asked := s.unknown (variablesIn formula)
    ∃ r d, render isVerb formula s.source { unread := Text.toBytes s.input } = (.ok r, d) ∧
      render isVerb formula (.ofTable fun v => some (s.meaning asked v)) () = (.ok r, ()) ∧
      r.meanings = (variablesIn formula).map (fun v => ⟨v, s.meaning asked v⟩) ∧
      s.HasAsked asked d := by
  intro asked
  have hnodup : (variablesIn formula).Nodup := nodup_distinct _
  have hentries := hasAsked_nil.zipWith_entryFrom hs hnodup fun _ _ => List.not_mem_nil
  obtain ⟨sentence, hsentence, hrender⟩ := render_of_forall_isMeaning isVerb s.source _ hne
    (hasAsked_nil.forall_isMeaning hs (by simpa using hlines))
  obtain ⟨sentence', hsentence', hrender'⟩ := render_ofTable isVerb hne
    fun v hv => ⟨hs.trim_meaning, hs.isBlank_meaning hv hlines⟩
  rw [hentries, List.nil_append] at hsentence hrender
  cases hsentence.symm.trans hsentence'
  exact ⟨_, _, hrender, hrender', rfl, hasAsked_nil.answers _⟩

end MeaningPlaces

/-! ### The command -/

/-- Whether a command line has failed, and what it has written by then. -/
structure Outcome.IsFailure (o : Outcome) (prompts error : Text) (files : FileTree) : Prop where
  code : o.code = 1
  output : o.output = []
  prompts : o.prompts = prompts
  error : o.error = error
  files : o.files = files

/-- Whether a command line has succeeded, and what it has written. -/
structure Outcome.IsSuccess (o : Outcome) (prompts output : Text) (files : FileTree) : Prop where
  code : o.code = 0
  output : o.output = output
  prompts : o.prompts = prompts
  error : o.error = []
  files : o.files = files

section Command

variable {w : Surroundings} {args : List Text} {flags : GlobalFlags} {request : RenderRequest}
  {c : Context} {configured filed : Meanings} {s : MeaningPlaces} {d : Dialogue}

theorem Context.around_eq_of_ofFlags (h : Context.ofFlags w flags = .ok c) : c.around = w := by
  simp only [Context.ofFlags] at h
  split at h
  · cases h
  · cases h
    rfl

theorem Context.knownMeanings_eq (hconfigured : c.settings.meaningTable = .ok configured)
    (hfiled : request.file.elim (.ok []) (loadMeanings c.around.files c.around.cwd) = .ok filed) :
    c.knownMeanings request = .ok (configured ++ filed ++ request.meanings) := by
  unfold Context.knownMeanings
  rw [hconfigured]
  cases hfile : request.file with
  | none =>
    rw [hfile] at hfiled
    cases hfiled
    simp
  | some path =>
    rw [hfile] at hfiled
    have hload : loadMeanings c.around.files c.around.cwd path = .ok filed := hfiled
    simp [hload]

section Outcomes

variable (hargs : Request.ofArguments args = .run flags (.render request))
  (hcontext : Context.ofFlags w flags = .ok c) (hknown : c.knownMeanings request = .ok s.table)
  (hprompt : request.noPrompt = s.noPrompt) (hinput : w.input = Text.toBytes s.input)
  {asked : List Variable} (hasked : s.HasAsked asked d)

include hcontext hknown hprompt hinput hasked

theorem Context.render_eq {answer : Except SentenceError Rendering}
    (hrender : Sentential.render c.verbs.isVerb (Text.unwords request.formula) s.source
      { unread := Text.toBytes s.input } = (answer, d)) :
    c.render request =
      match answer with
      | .error e => .error ⟨.sentence e, d.prompts, d.ended, w.files⟩
      | .ok r =>
        .ok ⟨if c.json then Report.json (Report.renderingJson (Text.unwords request.formula) r)
          else Report.line r.sentence, d.prompts, w.files⟩ := by
  have haround := Context.around_eq_of_ofFlags hcontext
  rw [MeaningPlaces.source, ← hprompt, ← hinput] at hrender
  cases answer <;> simp [Context.render, hknown, haround, hrender, hasked.intact]

include hargs

theorem isFailure_of_render {e : SentenceError}
    (hrender : Sentential.render c.verbs.isVerb (Text.unwords request.formula) s.source
      { unread := Text.toBytes s.input } = (.error e, d)) :
    (runLine w args).IsFailure (s.prompts asked) (errorReport flags.json c.color (.sentence e))
      w.files := by
  have hrun := Context.render_eq hcontext hknown hprompt hinput hasked hrender
  simp only [runLine, hargs, runCommand, hcontext, Context.run, hrun]
  exact ⟨rfl, rfl, hasked.prompts, rfl, rfl⟩

theorem isSuccess_of_render {r : Rendering}
    (hrender : Sentential.render c.verbs.isVerb (Text.unwords request.formula) s.source
      { unread := Text.toBytes s.input } = (.ok r, d)) :
    (runLine w args).IsSuccess (s.prompts asked)
      (if c.json then Report.json (Report.renderingJson (Text.unwords request.formula) r)
        else Report.line r.sentence) w.files := by
  have hrun := Context.render_eq hcontext hknown hprompt hinput hasked hrender
  simp only [runLine, hargs, runCommand, hcontext, Context.run, hrun]
  exact ⟨rfl, rfl, hasked.prompts, rfl, rfl⟩

end Outcomes

/-- The tables of a request are proper, wherever they come from. -/
theorem isProper_of_tables {input : Text}
    (hargs : Request.ofArguments args = .run flags (.render request))
    (hconfigured : c.settings.meaningTable = .ok configured)
    (hfiled : request.file.elim (.ok []) (loadMeanings w.files w.cwd) = .ok filed) :
    (⟨request.meanings, filed, configured, request.noPrompt, input⟩ : MeaningPlaces).IsProper := by
  have hrequest := Request.isProper_ofArguments args
  rw [hargs] at hrequest
  refine ⟨hrequest, ?_, isProper_of_meaningTable hconfigured⟩
  cases hfile : request.file with
  | none =>
    rw [hfile] at hfiled
    cases hfiled
    exact Meanings.isProper_nil
  | some path =>
    rw [hfile] at hfiled
    exact isProper_of_loadMeanings hfiled

/-- What `render` does.  A blank formula and one without variables fail before any prompt.
Otherwise each variable has the meaning that counts most among the three tables, and the variables
that no table has are asked for, in order, and mean the lines of the input.  The first of these lines
that is blank or missing ends the command, after the prompt for it; without such a line, the formula
is rendered with these meanings, and with the verbs of the settings beside the standard ones. -/
theorem runLine_render {input : Text}
    (hargs : Request.ofArguments args = .run flags (.render request))
    (hcontext : Context.ofFlags w flags = .ok c)
    (hconfigured : c.settings.meaningTable = .ok configured)
    (hfiled : request.file.elim (.ok []) (loadMeanings w.files w.cwd) = .ok filed)
    (hinput : w.input = Text.toBytes input) :
    let formula := Text.unwords request.formula
    let vs := variablesIn formula
    let s : MeaningPlaces := ⟨request.meanings, filed, configured, request.noPrompt, input⟩
    let asked := s.unknown vs
    let verbs := VerbLexicon.standard.extend c.settings.extraSuffixes c.settings.extraForms
    let outcome := runLine w args
    let failure (e : SentenceError) := errorReport flags.json c.color (.sentence e)
    (formula.isBlank = true → outcome.IsFailure [] (failure .emptyInput) w.files) ∧
    (formula.isBlank = false → vs = [] → outcome.IsFailure [] (failure .noPropositions) w.files) ∧
    (∀ before v after, asked = before ++ v :: after →
      (∀ k < before.length, (s.line k).isBlank = false) → (s.line before.length).isBlank = true →
      outcome.IsFailure (s.prompts (before ++ [v])) (failure (.missingMeaning v)) w.files) ∧
    (vs ≠ [] → (∀ k < asked.length, (s.line k).isBlank = false) →
      ∃ r : Rendering,
        Sentential.render verbs.isVerb formula (.ofTable fun v => some (s.meaning asked v)) () =
          (.ok r, ()) ∧
        r.meanings = vs.map (fun v => ⟨v, s.meaning asked v⟩) ∧
        outcome.IsSuccess (s.prompts asked)
          (if c.json then Report.json (.object [("formula".toList, .text formula),
              ("sentence".toList, .text r.sentence),
              ("meanings".toList, Report.entriesJson r.meanings)])
            else r.sentence ++ ['\n']) w.files) := by
  intro formula vs s asked verbs outcome failure
  have haround := Context.around_eq_of_ofFlags hcontext
  have hproper : s.IsProper := isProper_of_tables hargs hconfigured hfiled
  have hknown : c.knownMeanings request = .ok s.table :=
    Context.knownMeanings_eq hconfigured (by rwa [haround])
  refine ⟨fun hblank => ?_, fun hblank hvs => ?_, fun before v after hvs hbefore hblank => ?_,
    fun hne hlines => ?_⟩
  · have hfailure := isFailure_of_render hargs hcontext hknown rfl hinput s.hasAsked_nil
      (render_of_isBlank hblank)
    rwa [MeaningPlaces.prompts_nil] at hfailure
  · have hfailure := isFailure_of_render hargs hcontext hknown rfl hinput s.hasAsked_nil
      (render_of_variablesIn_eq_nil hblank hvs)
    rwa [MeaningPlaces.prompts_nil] at hfailure
  · obtain ⟨d, hrender, hasked⟩ := s.render_source_of_isBlank hproper hvs hbefore hblank
    exact isFailure_of_render hargs hcontext hknown rfl hinput hasked hrender
  · obtain ⟨r, d, hrender, htable, hmeanings, hasked⟩ :=
      s.render_source_of_forall hproper c.verbs.isVerb hne hlines
    exact ⟨r, htable, hmeanings,
      isSuccess_of_render hargs hcontext hknown rfl hinput hasked hrender⟩

end Command

/-- Of two meanings for one variable the later one counts, and another variable is asked for: it
means the next line, and it is missing without one. -/
theorem runLine_render_twice :
    let formula := (Formula.imp (.atom (.nth 0)) (.atom (.nth 1))).display
    let given : Meanings := [(.nth 0, "neva".toList), (.nth 0, "chove".toList)]
    let args := "render".toList :: Request.meaningArguments given ++ ["--".toList, formula]
    let around (input : String) : Surroundings :=
      ⟨{}, [], [], Text.toBytes input.toList, false, "linux".toList, "x86_64".toList⟩
    let prompts := "Digite o significado de Q: ".toList
    (∃ r : Rendering,
      r.meanings = [⟨.nth 0, "chove".toList⟩, ⟨.nth 1, "faz frio".toList⟩] ∧
      (runLine (around " faz frio \nneva\n") args).IsSuccess prompts (Report.line r.sentence) {}) ∧
    (runLine (around " ") args).IsFailure prompts
      (errorReport false false (.sentence (.missingMeaning (.nth 1)))) {} := by
  intro formula given args around prompts
  have hprompts : prompts = promptFor (.nth 1) := by decide +kernel
  have hgiven : given.IsProper := by
    simp only [Meanings.IsProper, given, List.forall_mem_cons]
    decide
  have hargs : Request.ofArguments args =
      .run {} (.render { formula := [formula], meanings := given }) :=
    Request.ofArguments_meaningArguments hgiven formula
  have hcontext (input : String) : Context.ofFlags (around input) {} =
      .ok ⟨around input, false, false, false, none, {}⟩ := rfl
  have hconfigured : ({} : Settings).meaningTable = .ok [] := rfl
  have hfiled : (none : Option Text).elim (.ok []) (loadMeanings {} []) = .ok [] := rfl
  have hrun (input : String) := runLine_render hargs (hcontext input) hconfigured hfiled
    (rfl : (around input).input = Text.toBytes input.toList)
  have hformula : Text.unwords [formula] = formula := by simp [Text.unwords, Text.join]
  have hvs : variablesIn formula = [.nth 0, .nth 1] := by
    rw [Formula.variablesIn_display (.imp (.atom _) (.atom _))]
    decide +kernel
  simp only [hformula, hvs] at hrun
  rw [hprompts]
  constructor
  · obtain ⟨-, -, -, hrendered⟩ := hrun " faz frio \nneva\n"
    obtain ⟨r, -, hmeanings, hsuccess⟩ := hrendered (by simp) (by decide +kernel)
    refine ⟨r, ?_, hsuccess⟩
    rw [hmeanings]
    decide +kernel
  · obtain ⟨-, -, hmissing, -⟩ := hrun " "
    exact hmissing [] (.nth 1) [] (by decide +kernel) (by simp) (by decide +kernel)

end Sentential
