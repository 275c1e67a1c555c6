import Mathlib.Tactic.Common
import Sentential.Command.Prompt
import Sentential.Proofs.Asking
import Sentential.Proofs.Tables

/-!
# Meanings are read before they count

Meanings come from flags, files and settings, and all three are read by `readMeaning`, which trims a
clause and refuses a blank one.  So the meanings that a command works with are proper
(`Meanings.IsProper`).  For flags this is an invariant of reading the arguments of a command
(`Arguments.IsProper`), and from there it reaches each request that a command line makes
(`isProper_ofArguments`).
-/

namespace Sentential

/-- A result that was made from another one shows that there was another one. -/
theorem exists_eq_ok_of_map_eq_ok {ε α β : Type} {x : Except ε α} {f : α → β} {b : β}
    (h : x.map f = .ok b) : ∃ a, x = .ok a ∧ f a = b := by
  cases x with
  | error e => cases h
  | ok a => exact ⟨a, rfl, Except.ok.inj h⟩

/-- Whether each clause is trimmed and not blank. -/
def Meanings.IsProper (m : Meanings) : Prop :=
  ∀ e ∈ m, e.2.trim = e.2 ∧ e.2.isBlank = false

theorem Meanings.isProper_nil : Meanings.IsProper [] :=
  fun _ he => absurd he List.not_mem_nil

theorem Meanings.IsProper.append {m n : Meanings} (hm : m.IsProper) (hn : n.IsProper) :
    Meanings.IsProper (m ++ n) :=
  fun e he => (List.mem_append.1 he).elim (hm e) (hn e)

/-- A meaning that is read is proper. -/
theorem isProper_of_readMeaning {key clause : Text} {e : Variable × Text}
    (h : readMeaning key clause = .ok e) : Meanings.IsProper [e] := by
  unfold readMeaning at h
  split at h
  · cases h
  · split at h
    · cases h
    · rename_i v _ hne
      cases h
      intro e he
      rw [List.mem_singleton.1 he]
      exact ⟨Text.trim_trim clause, Text.isBlank_eq_false_of_trim_eq_self (by simpa using hne)
        (Text.trim_trim clause)⟩

theorem isProper_of_readMeanings {entries : List (Text × Text)} {m : Meanings}
    (h : readMeanings entries = .ok m) : m.IsProper := by
  induction entries generalizing m with
  | nil =>
    cases h
    exact Meanings.isProper_nil
  | cons entry entries ih =>
    obtain ⟨key, clause⟩ := entry
    unfold readMeanings at h
    cases he : readMeaning key clause with
    | error fault => simp [he] at h
    | ok e =>
      simp only [he] at h
      obtain ⟨rest, hrest, rfl⟩ := exists_eq_ok_of_map_eq_ok h
      exact (isProper_of_readMeaning he).append (ih hrest)

theorem isProper_of_meaningTable {s : Settings} {m : Meanings} (h : s.meaningTable = .ok m) :
    m.IsProper := by
  unfold Settings.meaningTable at h
  cases hread : readMeanings s.meanings.entries with
  | error fault => simp [hread] at h
  | ok m' =>
    simp only [hread, Except.ok.injEq] at h
    exact h ▸ isProper_of_readMeanings hread

theorem isProper_of_loadMeanings {t : FileTree} {cwd : Place} {path : Text} {m : Meanings}
    (h : loadMeanings t cwd path = .ok m) : m.IsProper := by
  unfold loadMeanings at h
  split at h
  · cases h
  · simp only at h
    split at h
    · cases h
    · rename_i table _
      unfold meaningsOfTable at h
      cases hread : readMeanings table.entries with
      | error fault => simp [hread] at h
      | ok m' =>
        simp only [hread, Except.ok.injEq] at h
        exact h ▸ isProper_of_readMeanings hread

/-- Whether the meanings that come with a command are proper. -/
def Command.IsProper : Command → Prop
  | .render request => request.meanings.IsProper
  | _ => True

namespace Request

/-- Whether the meanings that come with the command to be run, if any, are proper. -/
def IsProper : Request → Prop
  | .run _ command => command.IsProper
  | _ => True

/-! ### The arguments of a command -/

/-- Whether the meanings that have been read are proper. -/
def Arguments.IsProper (args : Arguments) : Prop :=
  args.meanings.IsProper

theorem Arguments.isProper_empty : Arguments.IsProper {} :=
  Meanings.isProper_nil

variable {a : Accepts} {args args' : Arguments} {waiting : Option Opt}

theorem Arguments.IsProper.addFlag {f : Flag} (h : args.IsProper)
    (hadd : args.addFlag f = .ok args') : args'.IsProper := by
  unfold Arguments.addFlag at hadd
  split at hadd
  · cases hadd
  · cases hadd
    exact h

theorem Arguments.IsProper.addOption {o : Opt} {value : Text} (h : args.IsProper)
    (hadd : args.addOption o value = .ok args') : args'.IsProper := by
  cases o with
  | meaning =>
    simp only [Arguments.addOption] at hadd
    cases hread : readMeaningOption value with
    | none => simp [hread] at hadd
    | some e =>
      simp only [hread, Except.ok.injEq] at hadd
      subst hadd
      refine h.append ?_
      unfold readMeaningOption at hread
      split at hread
      · cases hread
      · rename_i clause _
        cases hmeaning : readMeaning (value.takeWhile (· ≠ '=')) clause with
        | error fault =>
          rw [hmeaning] at hread
          cases hread
        | ok e' =>
          simp only [hmeaning, Except.toOption, Option.some.injEq] at hread
          exact hread ▸ isProper_of_readMeaning hmeaning
  | meanings =>
    simp only [Arguments.addOption] at hadd
    split at hadd
    · cases hadd
    · cases hadd
      exact h

theorem Arguments.IsProper.addWords {ws : List Text} (h : args.IsProper)
    (hadd : args.addWords a ws = .ok args') : args'.IsProper := by
  unfold Arguments.addWords at hadd
  split at hadd
  · cases hadd
    exact h
  · cases hadd

theorem Arguments.IsProper.readLetters {letters : Text} (h : args.IsProper)
    (hread : readLetters a args letters = .ok (args', waiting)) : args'.IsProper := by
  induction letters generalizing args with
  | nil =>
    cases hread
    exact h
  | cons letter rest ih =>
    unfold Request.readLetters at hread
    split at hread
    · split at hread
      · rename_i hadd
        exact ih (h.addFlag hadd) hread
      · cases hread
    · split at hread
      · cases hread
        exact h
      · obtain ⟨args₁, hadd, hpair⟩ := exists_eq_ok_of_map_eq_ok hread
        cases hpair
        exact h.addOption hadd
    · cases hread
    · cases hread
    · cases hread

theorem Arguments.IsProper.readName {t : Text} (h : args.IsProper)
    (hread : readName a args t = .ok (args', waiting)) : args'.IsProper := by
  unfold Request.readName at hread
  simp only at hread
  split at hread
  · obtain ⟨args₁, hadd, hpair⟩ := exists_eq_ok_of_map_eq_ok hread
    cases hpair
    exact h.addFlag hadd
  · cases hread
    exact h
  · obtain ⟨args₁, hadd, hpair⟩ := exists_eq_ok_of_map_eq_ok hread
    cases hpair
    exact h.addOption hadd
  · cases hread
  · cases hread
  · cases hread

theorem Arguments.IsProper.readSwitch {t : Text} (h : args.IsProper)
    (hread : readSwitch a args t = .ok (args', waiting)) : args'.IsProper := by
  unfold Request.readSwitch at hread
  split at hread
  · exact h.readName hread
  · exact h.readLetters hread

/-- Reading arguments keeps the meanings proper. -/
theorem Arguments.IsProper.readArguments {line : List Text} (h : args.IsProper)
    (hread : readArguments a args waiting line = .ok args') : args'.IsProper := by
  induction line generalizing args waiting with
  | nil =>
    cases waiting with
    | none =>
      cases hread
      exact h
    | some o => cases hread
  | cons arg line ih =>
    cases waiting with
    | some o =>
      simp only [Request.readArguments, Option.isSome_some, if_true] at hread
      split at hread
      · cases hread
      · split at hread
        · rename_i hadd
          exact ih (h.addOption hadd) hread
        · cases hread
    | none =>
      simp only [Request.readArguments, Option.isSome_none, Bool.false_eq_true, if_false] at hread
      split at hread
      · split at hread
        · exact h.addWords hread
        · split at hread
          · rename_i hswitch
            exact ih (h.readSwitch hswitch) hread
          · cases hread
      · split at hread
        · rename_i hadd
          exact ih (h.addWords hadd) hread
        · cases hread

/-! ### The request that a line makes -/

variable {names : List Text}

/-- Whether a command made from proper arguments is proper. -/
def Leaf.IsProper (leaf : Leaf) : Prop :=
  ∀ args, args.IsProper → (leaf.make args).IsProper

theorem isProper_ofLeaf {leaf : Leaf} (hleaf : leaf.IsProper) (outer : List Flag)
    (line : List Text) : (ofLeaf leaf outer line).IsProper := by
  unfold ofLeaf
  split
  · rename_i args hread
    split
    · trivial
    · exact hleaf args (Arguments.isProper_empty.readArguments hread)
  · trivial
  · trivial
  · trivial

theorem isProper_ofGroup {next : Text → List Flag → List Text → Request}
    {bare : List Flag → Request} (hnext : ∀ name flags rest, (next name flags rest).IsProper)
    (hbare : ∀ flags, (bare flags).IsProper) (outer : List Flag) (args : Arguments)
    (line : List Text) : (ofGroup names next bare outer args line).IsProper := by
  induction line generalizing args with
  | nil => exact hbare _
  | cons arg line ih =>
    unfold ofGroup
    split
    · split
      · split
        · exact hbare _
        · trivial
      · split
        · exact ih _
        · trivial
        · trivial
        · trivial
    · exact hnext _ _ _

theorem isProper_ofHelpIn (commands : List (Text × Leaf)) (line : List Text) :
    (ofHelpIn names commands line).IsProper := by
  unfold ofHelpIn
  split
  · trivial
  · split
    · trivial
    · split <;> trivial
  · trivial

theorem isProper_ofHelp (line : List Text) : (ofHelp line).IsProper := by
  unfold ofHelp
  split
  · trivial
  · split
    · exact isProper_ofHelpIn _ _
    · split
      · exact isProper_ofHelpIn _ _
      · trivial

/-- Each command takes its meanings from the arguments. -/
theorem isProper_of_mem_leaves : ∀ e ∈ leaves, e.2.IsProper := by
  simp [leaves, leaf, Leaf.IsProper, Command.IsProper, Arguments.IsProper]

theorem isProper_of_mem_configLeaves : ∀ e ∈ configLeaves, e.2.IsProper := by
  simp [configLeaves, subleaf, Leaf.IsProper, Command.IsProper]

theorem isProper_of_mem_completionLeaves : ∀ e ∈ completionLeaves, e.2.IsProper := by
  simp [completionLeaves, subleaf, Leaf.IsProper, Command.IsProper]

theorem isProper_of_mem_groups : ∀ g ∈ groups, ∀ e ∈ g.2, e.2.IsProper :=
  List.forall_mem_cons.2 ⟨isProper_of_mem_configLeaves,
    List.forall_mem_singleton.2 isProper_of_mem_completionLeaves⟩

theorem isProper_ofGroupName {name : Text} {commands : List (Text × Leaf)}
    (hcommands : ∀ e ∈ commands, e.2.IsProper) (outer : List Flag) (line : List Text) :
    (ofGroupName name commands outer line).IsProper := by
  unfold ofGroupName
  refine isProper_ofGroup (fun sub flags rest => ?_) (fun _ => ?_) outer {} line
  · split
    · exact isProper_ofHelpIn _ _
    · split
      · rename_i hentry
        exact isProper_ofLeaf (hcommands _ (mem_of_entryAt? hentry)) _ _
      · trivial
  · trivial

/-- The meanings on a command line are proper. -/
theorem isProper_ofArguments (line : List Text) : (ofArguments line).IsProper := by
  unfold ofArguments
  refine isProper_ofGroup (fun name flags rest => ?_) (fun _ => ?_) [] {} line
  · split
    · exact isProper_ofHelp _
    · split
      · rename_i hentry
        exact isProper_ofLeaf (isProper_of_mem_leaves _ (mem_of_entryAt? hentry)) _ _
      · split
        · rename_i hentry
          exact isProper_ofGroupName (isProper_of_mem_groups _ (mem_of_entryAt? hentry)) _ _
        · trivial
  · trivial

/-! ### Meanings on a line -/

/-- The arguments that give some meanings. -/
def meaningArguments (m : Meanings) : List Text :=
  m.flatMap fun e => ["-m".toList, e.1.name ++ '=' :: e.2]

theorem ne_equals_of_mem_name {v : Variable} {c : Char} (h : c ∈ v.name) : c ≠ '=' := by
  rintro rfl
  exact notMem_name (by decide) (by decide) v h

theorem trim_name (v : Variable) : v.name.trim = v.name :=
  Text.trim_eq_self_iff.2
    ⟨fun c hc => isSpace_eq_false_of_mem_name v c (List.mem_of_head? hc),
      fun c hc => isSpace_eq_false_of_mem_name v c (List.mem_of_getLast? hc)⟩

/-- A meaning that is written out is read back. -/
theorem readMeaningOption_name {v : Variable} {clause : Text} (htrim : clause.trim = clause)
    (hblank : clause.isBlank = false) :
    readMeaningOption (v.name ++ '=' :: clause) = some (v, clause) := by
  have hname : ∀ c ∈ v.name, (decide (c ≠ '=')) = true :=
    fun c hc => decide_eq_true (ne_equals_of_mem_name hc)
  have hdrop : (v.name ++ '=' :: clause).dropWhile (· ≠ '=') = '=' :: clause :=
    dropWhile_append_of_head hname (by simp)
  have htake : (v.name ++ '=' :: clause).takeWhile (· ≠ '=') = v.name :=
    takeWhile_append_of_head hname (by simp)
  have hempty : clause.isEmpty = false := by
    cases clause with
    | nil => cases hblank
    | cons c rest => rfl
  unfold readMeaningOption
  rw [hdrop, htake]
  simp [readMeaning, trim_name, Variable.parse, htrim, hempty, Except.toOption]

/-- A switch may wait for a value. -/
theorem readArguments_switch {arg : Text} (hswitch : isSwitch arg = true) (hend : arg ≠ ['-', '-'])
    (hread : readSwitch a args (arg.drop 1) = .ok (args', waiting)) (line : List Text) :
    readArguments a args none (arg :: line) = readArguments a args' waiting line := by
  rw [readArguments, if_pos hswitch, if_neg (by simp), if_neg hend, hread]

theorem readArguments_value {o : Opt} {value : Text} (hvalue : isSwitch value = false)
    (hadd : args.addOption o value = .ok args') (line : List Text) :
    readArguments a args (some o) (value :: line) = readArguments a args' none line := by
  simp [readArguments, hvalue, hadd]

theorem readArguments_meaningArguments {m : Meanings} (hm : m.IsProper) (args : Arguments)
    (line : List Text) :
    readArguments renderAccepts args none (meaningArguments m ++ line) =
      readArguments renderAccepts { args with meanings := args.meanings ++ m } none line := by
  induction m generalizing args with
  | nil => simp [meaningArguments]
  | cons e m ih =>
    obtain ⟨he, hm⟩ := List.forall_mem_cons.1 hm
    have hswitch : readSwitch renderAccepts args ("-m".toList.drop 1) =
        .ok (args, some .meaning) := rfl
    have hdash : e.1.letter ≠ '-' := fun h => absurd (h ▸ e.1.letter_isUpper) (by decide)
    have hvalue : isSwitch (e.1.name ++ '=' :: e.2) = false := by
      simp [Variable.name, isSwitch, hdash]
    have hadd : args.addOption .meaning (e.1.name ++ '=' :: e.2) =
        .ok { args with meanings := args.meanings ++ [e] } := by
      rw [Arguments.addOption, readMeaningOption_name he.1 he.2]
    have hcons : meaningArguments (e :: m) ++ line =
        "-m".toList :: (e.1.name ++ '=' :: e.2) :: (meaningArguments m ++ line) := rfl
    rw [hcons, readArguments_switch rfl (by decide) hswitch, readArguments_value hvalue hadd, ih hm,
      List.append_assoc, List.singleton_append]

/-- Any meanings can be given on a line, before any formula. -/
theorem ofArguments_meaningArguments {m : Meanings} (hm : m.IsProper) (formula : Text) :
    ofArguments ("render".toList :: meaningArguments m ++ ["--".toList, formula]) =
      .run {} (.render { formula := [formula], meanings := m }) := by
  have hleaf : ofArguments ("render".toList :: meaningArguments m ++ ["--".toList, formula]) =
      ofLeaf (leaf "render" renderAccepts fun a =>
        .render ⟨a.words, a.meanings, a.file, Flag.noPrompt ∈ a.flags⟩) []
        (meaningArguments m ++ ["--".toList, formula]) := rfl
  have hread : readArguments renderAccepts {} none (meaningArguments m ++ ["--".toList, formula]) =
      .ok { words := [formula], meanings := m } :=
    readArguments_meaningArguments hm {} ["--".toList, formula]
  rw [hleaf, ofLeaf]
  simp only [leaf, hread]
  rfl

end Request

end Sentential
