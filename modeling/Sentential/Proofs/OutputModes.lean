import Mathlib.Data.List.Basic
import Mathlib.Tactic.Common
import Sentential.Proofs.JsonGrammar
import Sentential.Proofs.Prompting

/-!
# JSON and plain output

A command that translates between sentences and formulas reports its result in JSON or in plain text
(`Outcome.ReportsIn`).  Whether a result is printed in JSON depends on the flag and on the settings, whereas
whether an error is depends on the flag alone.  So a run reports in the mode that the flag and the settings
choose together exactly if it succeeds, or if the flag alone chooses this mode (`runLine_reportsIn`).
-/

namespace Sentential

/-! ### What is reported -/

/-- The command translates between sentences and formulas. -/
def Command.Translates : Command → Prop
  | .parse _ | .render _ | .roundtrip _ => True
  | _ => False

/-- Why a command fails, in words; nothing if it succeeds. -/
def Context.failure? (c : Context) (command : Command) : Option Text :=
  match c.run command with
  | .ok _ => none
  | .error f => some f.error.message

/-- All that is written to the error output. -/
def Outcome.errorOutput (o : Outcome) : Text :=
  o.prompts ++ o.error

/-- The outcome reports a result, or the message of a failure, in JSON or in plain text. -/
def Outcome.ReportsIn (o : Outcome) (json color : Bool) : Option Text → Prop
  | none => o.code = 0 ∧ (json = true → Json.IsDocument o.output)
  | some message =>
    o.code = 1 ∧ o.output = [] ∧
      if json then Json.EndsWithField "error".toList message o.errorOutput
      else ∃ before, o.errorOutput = before ++ Report.line (Style.failure color message)

/-! ### Documents -/

theorem isDocument_json (j : Json) : Json.IsDocument (Report.json j) :=
  ⟨⟨[], j.print, ['\n']⟩, ⟨Json.isBlank_nil, by simp [Json.IsBlank]⟩, Json.isValue_printAt 0 j, rfl⟩

/-- An object in JSON ends the output in which it is printed. -/
theorem endsWithField_object (before key : Text) (value : Text) :
    Json.EndsWithField key value (before ++ Report.json (.object [(key, .text value)])) := by
  refine ⟨before, _, ['\n'], _, (List.append_assoc ..).symm, by simp [Json.IsBlank],
    Json.isObject_printAt 0 [(key, .text value)], _, List.mem_singleton_self _, rfl, ?_⟩
  exact Json.spellsText_quoted value

/-- A message that stands almost at the end of an output is not a field of an object there, if no brace
opens in front of it: the object would be too long. -/
theorem not_endsWithField {key lead message tail : Text} (hlead : '\x7b' ∉ lead)
    (htail : tail.length < key.length + 7) :
    ¬ Json.EndsWithField key message (lead ++ (message ++ tail)) := by
  rintro ⟨before, object, after, fields, hsplit, -, hobject, f, hf, rfl, hvalue⟩
  have hlength := hobject.length_le hf hvalue
  obtain ⟨close, -, -, -, hopen⟩ := hobject
  have htotal := congrArg List.length hsplit
  simp only [List.length_append] at htotal
  rw [List.append_assoc] at hsplit
  rcases List.append_eq_append_iff.1 hsplit with ⟨rest, hbefore, -⟩ | ⟨rest, hrest, hobject⟩
  · have := congrArg List.length hbefore
    simp only [List.length_append] at this
    omega
  · -- the object opens in front of the message
    cases rest with
    | nil =>
      have := congrArg List.length hrest
      simp only [List.length_append, List.length_nil] at this
      omega
    | cons c rest =>
      rw [hopen] at hobject
      have hc : '\x7b' = c := (List.cons_eq_cons.1 hobject).1
      exact hlead (by rw [hrest, hc]; simp)

/-! ### Prompts -/

theorem brace_notMem_promptFor (v : Variable) : '\x7b' ∉ promptFor v := by
  have hname : '\x7b' ∉ v.name := notMem_name (by decide) (by decide) v
  intro hmem
  rcases List.mem_append.1 hmem with hmem | hmem
  · rcases List.mem_append.1 hmem with hmem | hmem
    · exact absurd hmem (by decide +kernel)
    · exact hname hmem
  · exact absurd hmem (by decide +kernel)

/-- No prompt opens a brace. -/
theorem brace_notMem_interactive (known : Meanings) (noPrompt : Bool) (v : Variable) (d : Dialogue)
    (h : '\x7b' ∉ d.prompts) : '\x7b' ∉ (MeaningSource.interactive known noPrompt v d).2.prompts := by
  unfold MeaningSource.interactive
  split
  · exact h
  · split
    · exact h
    · have hprompts : '\x7b' ∉ d.prompts ++ promptFor v := by
        rw [List.mem_append, not_or]
        exact ⟨h, brace_notMem_promptFor v⟩
      unfold prompt
      dsimp only
      split
      · exact hprompts
      · split <;> exact hprompts

/-! ### The three commands -/

namespace Context

variable (c : Context) {command : Command}

/-- In JSON mode a result is a JSON value on lines of its own, and no prompt in front of a failure opens a
brace. -/
def Reportable (c : Context) (answer : Except Failure Success) : Prop :=
  match answer with
  | .ok s => c.json = true → ∃ j, s.output = Report.json j
  | .error f => '\x7b' ∉ f.prompts

theorem reportable_run (htranslates : command.Translates) : c.Reportable (c.run command) := by
  cases command with
  | parse sentence =>
    simp only [run, parse, fail, succeed]
    split
    · exact List.not_mem_nil
    · exact fun hjson => ⟨_, if_pos hjson⟩
  | roundtrip sentence =>
    simp only [run, roundtrip, fail, succeed]
    split
    · exact List.not_mem_nil
    · split
      · exact List.not_mem_nil
      · exact fun hjson => ⟨_, if_pos hjson⟩
  | render request =>
    simp only [run, Context.render, fail]
    split
    · exact List.not_mem_nil
    · next known _ =>
      have hprompts := render_preserves
        (brace_notMem_interactive known request.noPrompt) c.verbs.isVerb
        (Text.unwords request.formula) (s := { unread := c.around.input }) List.not_mem_nil
      split
      · exact hprompts
      · split
        · exact hprompts
        · exact fun hjson => ⟨_, if_pos hjson⟩
  | symbols | configShow | configInit | completion | version | overview => exact htranslates.elim

end Context

/-! ### Command lines -/

section Command

variable {w : Surroundings} {args : List Text} {flags : GlobalFlags} {command : Command} {c : Context}

theorem Context.json_of_ofFlags (h : Context.ofFlags w flags = .ok c) :
    c.json = (flags.json || c.settings.json) := by
  simp only [Context.ofFlags] at h
  split at h
  · cases h
  · cases h
    rfl

/-- What is written in front of a message opens no brace. -/
theorem brace_notMem_failure (color : Bool) :
    '\x7b' ∉ Style.boldColored color Style.alarm "Error:".toList ++ [' '] := by
  cases color <;> decide +kernel

/-- A plain error is no field of an object. -/
theorem not_endsWithField_failure {prompts : Text} (hprompts : '\x7b' ∉ prompts) (color : Bool)
    (message : Text) :
    ¬ Json.EndsWithField "error".toList message
      (prompts ++ Report.line (Style.failure color message)) := by
  have hlead : '\x7b' ∉ prompts ++ (Style.boldColored color Style.alarm "Error:".toList ++ [' ']) :=
    fun hmem => (List.mem_append.1 hmem).elim hprompts (brace_notMem_failure color)
  have htail : ['\n'].length < "error".toList.length + 7 := by decide
  have hends := @not_endsWithField _ _ message _ hlead htail
  simpa [Report.line, Style.failure] using hends

/-- A result is reported in the mode of the context. -/
theorem reportsIn_of_ok (hargs : Request.ofArguments args = .run flags command)
    (htranslates : command.Translates) (hcontext : Context.ofFlags w flags = .ok c) {s : Success}
    (hrun : c.run command = .ok s) : (runLine w args).ReportsIn c.json c.color none := by
  have ho : runLine w args = ⟨0, s.output, s.prompts, [], false, s.files⟩ := by
    simp only [runLine, hargs, runCommand, hcontext, hrun]
  have hanswer := c.reportable_run htranslates
  rw [hrun] at hanswer
  rw [ho]
  refine ⟨rfl, fun hjson => ?_⟩
  obtain ⟨j, hj⟩ := hanswer hjson
  exact hj ▸ isDocument_json j

section Error

variable (hargs : Request.ofArguments args = .run flags command)
  (hcontext : Context.ofFlags w flags = .ok c) {f : Failure} (hrun : c.run command = .error f)

include hargs hcontext hrun

theorem runLine_of_error : runLine w args =
    ⟨1, [], f.prompts, errorReport flags.json c.color f.error, f.inputEnded, f.files⟩ := by
  simp only [runLine, hargs, runCommand, hcontext, hrun]

/-- A failure is reported in the mode of the flag. -/
theorem reportsIn_of_error :
    (runLine w args).ReportsIn flags.json c.color (some f.error.message) := by
  rw [runLine_of_error hargs hcontext hrun]
  refine ⟨rfl, rfl, ?_⟩
  cases flags.json with
  | true => exact endsWithField_object f.prompts "error".toList f.error.message
  | false => exact ⟨f.prompts, rfl⟩

/-- Without the flag no failure is reported in JSON. -/
theorem not_reportsIn_of_error (htranslates : command.Translates) (hflag : flags.json = false) :
    ¬ (runLine w args).ReportsIn true c.color (some f.error.message) := by
  have hanswer := c.reportable_run htranslates
  rw [hrun] at hanswer
  rw [runLine_of_error hargs hcontext hrun, hflag]
  rintro ⟨-, -, hends⟩
  exact not_endsWithField_failure hanswer _ _ hends

end Error

/-- In which mode a translation reports.  Results are in JSON if the flag or the settings ask for it; errors
are in JSON only if the flag asks for it.  So the mode that both choose together is kept exactly if the
command succeeds, or the flag is given, or the settings do not ask for JSON. -/
theorem runLine_reportsIn (hargs : Request.ofArguments args = .run flags command)
    (htranslates : command.Translates) (hcontext : Context.ofFlags w flags = .ok c) :
    let o := runLine w args
    let failure := c.failure? command
    c.json = (flags.json || c.settings.json) ∧
    o.ReportsIn (if failure.isNone then c.json else flags.json) c.color failure ∧
    (o.ReportsIn c.json c.color failure ↔
      failure = none ∨ flags.json = true ∨ c.settings.json = false) := by
  intro o failure
  have hjson := Context.json_of_ofFlags hcontext
  refine ⟨hjson, ?_⟩
  cases hrun : c.run command with
  | ok s =>
    have hfailure : failure = none := by simp only [failure, Context.failure?, hrun]
    have hreports := reportsIn_of_ok hargs htranslates hcontext hrun
    rw [hfailure]
    exact ⟨hreports, fun _ => .inl rfl, fun _ => hreports⟩
  | error f =>
    have hfailure : failure = some f.error.message := by
      simp only [failure, Context.failure?, hrun]
    have hreports := reportsIn_of_error hargs hcontext hrun
    rw [hfailure]
    refine ⟨hreports, fun hmode => ?_, fun hmode => ?_⟩
    · -- otherwise the settings alone ask for JSON, and the error is plain
      by_contra hnone
      obtain ⟨hflag, hsettings⟩ : flags.json = false ∧ c.settings.json = true := by
        simpa [not_or] using hnone
      rw [hjson, hsettings, Bool.or_true] at hmode
      exact not_reportsIn_of_error hargs hcontext hrun htranslates hflag hmode
    · have hsame : c.json = flags.json := by
        rcases hmode with hnone | hflag | hsettings
        · cases hnone
        · rw [hjson, hflag, Bool.true_or]
        · rw [hjson, hsettings, Bool.or_false]
      rwa [hsame]

end Command

/-- Where the settings ask for JSON and the flag is not given, the error for a blank sentence is plain. -/
theorem not_reportsIn_blank :
    let w : Surroundings := ⟨⟨[([Settings.directoryName], .directory),
      ([Settings.directoryName, Settings.fileName], .file (Text.toBytes "json: true\n".toList))]⟩,
      [], [], [], false, [], []⟩
    ∃ c, Context.ofFlags w {} = .ok c ∧ c.json = true ∧
      c.failure? (.parse ["   ".toList]) = some "input is empty".toList ∧
      ¬ (runLine w ["parse".toList, "   ".toList]).ReportsIn c.json c.color
        (c.failure? (.parse ["   ".toList])) := by
  intro w
  have hargs : Request.ofArguments ["parse".toList, "   ".toList] =
      .run {} (.parse ["   ".toList]) := by decide +kernel
  cases hcontext : Context.ofFlags w {} with
  | error e =>
    have hloads : (Context.ofFlags w {}).isOk = true := by decide +kernel
    rw [hcontext] at hloads
    cases hloads
  | ok c =>
    have hsettings : ((Context.ofFlags w {}).toOption.map fun c => c.settings.json) = some true := by
      decide +kernel
    have hsettings : c.settings.json = true := by
      rw [hcontext] at hsettings
      exact Option.some.inj hsettings
    have hfailure : c.failure? (.parse ["   ".toList]) = some "input is empty".toList := rfl
    obtain ⟨hjson, -, hreports⟩ := runLine_reportsIn hargs trivial hcontext
    refine ⟨c, rfl, by rw [hjson, hsettings, Bool.or_true], hfailure, fun h => ?_⟩
    rcases hreports.1 h with hnone | hflag | hsettings'
    · rw [hfailure] at hnone
      cases hnone
    · cases hflag
    · rw [hsettings] at hsettings'
      cases hsettings'

end Sentential
