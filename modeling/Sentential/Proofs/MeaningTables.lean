import Mathlib.Data.List.Forall2
import Mathlib.Tactic.Common
import Sentential.Command.Prompt
import Sentential.Proofs.Tables
import Sentential.Proofs.Words

/-!
# Tables of meanings

A raw table has texts under texts.  The settings and a file with meanings read it in the same way, entry
by entry in the order of the bytes of its keys, and the first entry that gives no variable a meaning ends
the reading.

The main statement, `readsTable_entries`, says what this comes to without the order of reading: which
tables are read, which of several keys counts for one variable, and which entry is blamed
(`ReadsTable`).
-/

namespace Sentential

/-- An entry of a raw table gives a variable a meaning: its key is the name of the variable, apart from
white space around it, and its clause is not blank. -/
def GivesMeaning (key clause : Text) : Prop :=
  (∃ v : Variable, v.name = key.trim) ∧ clause.isBlank = false

/-- Why an entry gives no variable a meaning.  The clause is looked at only where the key is a variable. -/
inductive IsFault (key clause : Text) : MeaningFault → Prop
  | badVariable (h : ∀ v : Variable, v.name ≠ key.trim) : IsFault key clause (.badVariable ⟨key.trim⟩)
  | blank (v : Variable) (hkey : v.name = key.trim) (hclause : clause.isBlank = true) :
    IsFault key clause (.blank v)

/-- What the reading of a raw table has to answer: the meanings, or the key that is to blame and what is
wrong with its entry. -/
structure ReadsTable (raw : Table Text) (answer : Except (Text × MeaningFault) Meanings) : Prop where
  /-- A table is read if each entry gives a variable a meaning, and only then. -/
  succeeds_iff : (∃ m, answer = .ok m) ↔
    ∀ key clause, raw.get? key = some clause → GivesMeaning key clause
  /-- The variables with a meaning are the keys of the table, without the white space around them. -/
  isSome_iff : ∀ m, answer = .ok m → ∀ v,
    ((m.get? v).isSome = true ↔ ∃ key clause, raw.get? key = some clause ∧ key.trim = v.name)
  /-- What a variable means stands under the greatest of its keys, in the order of their bytes. -/
  get?_iff : ∀ m, answer = .ok m → ∀ v text, m.get? v = some text ↔
    ∃ key clause, raw.get? key = some clause ∧ key.trim = v.name ∧ text = clause.trim ∧
      ∀ key' clause', raw.get? key' = some clause' → key'.trim = v.name → key'.toBytes ≤ key.toBytes
  /-- The entry that is blamed is at fault. -/
  isFault : ∀ key fault, answer = .error (key, fault) →
    ∃ clause, raw.get? key = some clause ∧ IsFault key clause fault
  /-- Of the entries that give no meaning, the one with the least key is blamed. -/
  le_of_not_givesMeaning : ∀ key fault, answer = .error (key, fault) →
    ∀ key' clause', raw.get? key' = some clause' → ¬ GivesMeaning key' clause' →
      key.toBytes ≤ key'.toBytes

/-! ### One entry -/

section Entry

variable {key clause : Text}

theorem Variable.ofName?_eq_none_iff {t : Text} : ofName? t = none ↔ ∀ v : Variable, v.name ≠ t := by
  simp only [Option.eq_none_iff_forall_ne_some, ne_eq, ofName?_eq_some_iff]

theorem readMeaning_eq_ok_iff {e : Variable × Text} : readMeaning key clause = .ok e ↔
    e.1.name = key.trim ∧ clause.isBlank = false ∧ e.2 = clause.trim := by
  rw [readMeaning, Variable.parse]
  cases hname : Variable.ofName? key.trim with
  | none =>
    have hne := Variable.ofName?_eq_none_iff.1 hname
    simp [hne]
  | some v =>
    have hv := Variable.ofName?_eq_some_iff.1 hname
    have hfirst : e.1.name = key.trim ↔ v = e.1 := by
      rw [← hv]
      exact ⟨fun h => (Variable.name_injective h).symm, fun h => h ▸ rfl⟩
    rw [hfirst, ← isEmpty_trim]
    cases clause.trim.isEmpty with
    | true => simp
    | false => simp [Prod.ext_iff, eq_comm (a := clause.trim)]

theorem exists_readMeaning_iff : (∃ e, readMeaning key clause = .ok e) ↔ GivesMeaning key clause := by
  simp only [readMeaning_eq_ok_iff]
  constructor
  · rintro ⟨e, hname, hclause, -⟩
    exact ⟨⟨e.1, hname⟩, hclause⟩
  · rintro ⟨⟨v, hname⟩, hclause⟩
    exact ⟨(v, clause.trim), hname, hclause, rfl⟩

theorem isFault_of_readMeaning {fault : MeaningFault} (h : readMeaning key clause = .error fault) :
    IsFault key clause fault := by
  rw [readMeaning, Variable.parse] at h
  cases hname : Variable.ofName? key.trim with
  | none =>
    simp only [hname, Except.error.injEq] at h
    exact h ▸ .badVariable (Variable.ofName?_eq_none_iff.1 hname)
  | some v =>
    simp only [hname] at h
    split at h
    · next hempty =>
      cases h
      exact .blank v (Variable.ofName?_eq_some_iff.1 hname) (isEmpty_trim clause ▸ hempty)
    · cases h

end Entry

/-! ### The entries in turn -/

section Entries

variable {es : List (Text × Text)} {m : Meanings}

/-- Reading succeeds with the meaning of the first entry before those of the others. -/
theorem readMeanings_cons_eq_ok_iff {e : Text × Text} : readMeanings (e :: es) = .ok m ↔
    ∃ r rest, readMeaning e.1 e.2 = .ok r ∧ readMeanings es = .ok rest ∧ m = r :: rest := by
  rw [readMeanings]
  cases readMeaning e.1 e.2 with
  | error fault => simp
  | ok r =>
    cases readMeanings es with
    | error blamed => simp [Except.map]
    | ok rest => simp [Except.map, eq_comm]

theorem givesMeaning_of_readMeanings (h : readMeanings es = .ok m) :
    ∀ e ∈ es, GivesMeaning e.1 e.2 := by
  induction es generalizing m with
  | nil => simp
  | cons e es ih =>
    obtain ⟨r, rest, hfirst, hrest, -⟩ := readMeanings_cons_eq_ok_iff.1 h
    exact List.forall_mem_cons.2 ⟨exists_readMeaning_iff.1 ⟨r, hfirst⟩, ih hrest⟩

/-- Reading fails at the first entry that gives no meaning. -/
theorem exists_split_of_readMeanings {key : Text} {fault : MeaningFault}
    (h : readMeanings es = .error (key, fault)) : ∃ before clause after,
      es = before ++ (key, clause) :: after ∧ IsFault key clause fault ∧
        ∀ e ∈ before, GivesMeaning e.1 e.2 := by
  induction es with
  | nil => cases h
  | cons e es ih =>
    rw [readMeanings] at h
    cases hfirst : readMeaning e.1 e.2 with
    | error fault' =>
      simp only [hfirst, Except.error.injEq, Prod.mk.injEq] at h
      obtain ⟨rfl, rfl⟩ := h
      exact ⟨[], e.2, es, rfl, isFault_of_readMeaning hfirst, by simp⟩
    | ok r =>
      cases hrest : readMeanings es with
      | ok m => simp [hfirst, hrest, Except.map] at h
      | error blamed =>
        simp only [hfirst, hrest, Except.map, Except.error.injEq] at h
        obtain ⟨before, clause, after, rfl, hfault, hbefore⟩ := ih (hrest.trans (congrArg _ h))
        exact ⟨e :: before, clause, after, rfl, hfault,
          List.forall_mem_cons.2 ⟨exists_readMeaning_iff.1 ⟨r, hfirst⟩, hbefore⟩⟩

/-- A variable means what the last of its entries says. -/
theorem get?_of_readMeanings (h : readMeanings es = .ok m) (v : Variable) :
    m.get? v = (es.reverse.find? fun e => e.1.trim = v.name).map fun e => e.2.trim := by
  induction es generalizing m with
  | nil =>
    cases h
    rfl
  | cons e es ih =>
    obtain ⟨r, rest, hfirst, hrest, rfl⟩ := readMeanings_cons_eq_ok_iff.1 h
    obtain ⟨hname, -, htext⟩ := readMeaning_eq_ok_iff.1 hfirst
    have hsame : r.1 = v ↔ e.1.trim = v.name := by
      rw [← hname]
      exact ⟨fun hv => hv ▸ rfl, fun hv => Variable.name_injective hv⟩
    have hrest := ih hrest
    rw [Meanings.get?] at hrest ⊢
    rw [List.reverse_cons, List.reverse_cons, List.find?_append, List.find?_append,
      Option.map_or, Option.map_or, hrest, List.find?_singleton, List.find?_singleton]
    by_cases hv : e.1.trim = v.name <;> simp [hsame, hv, htext]

end Entries

/-! ### A table -/

/-- The entry of a fault gives no meaning. -/
theorem IsFault.not_givesMeaning {key clause : Text} {fault : MeaningFault}
    (h : IsFault key clause fault) : ¬ GivesMeaning key clause := by
  rintro ⟨⟨v, hv⟩, hclause⟩
  cases h with
  | badVariable hnone => exact hnone v hv
  | blank _ _ hblank => simp [hblank] at hclause

section Table

variable {raw : Table Text}

/-- What a variable means stands under the greatest of its keys, which is read last. -/
theorem get?_of_readMeanings_entries {m : Meanings} (hm : readMeanings raw.entries = .ok m)
    {v : Variable} {text : Text} :
    m.get? v = some text ↔ ∃ key clause, raw.get? key = some clause ∧ key.trim = v.name ∧
      text = clause.trim ∧ ∀ key' clause', raw.get? key' = some clause' → key'.trim = v.name →
        key'.toBytes ≤ key.toBytes := by
  simp only [get?_of_readMeanings hm, Option.map_eq_some_iff, Prod.exists, Prod.forall,
    raw.increasing.find?_reverse_eq_some_iff, Table.get?_eq_some_iff, Text.toBytes_le_iff,
    decide_eq_true_eq]
  constructor
  · rintro ⟨key, clause, ⟨hmem, hkey, hgreatest⟩, rfl⟩
    exact ⟨key, clause, hmem, hkey, rfl, hgreatest⟩
  · rintro ⟨key, clause, hmem, hkey, rfl, hgreatest⟩
    exact ⟨key, clause, ⟨hmem, hkey, hgreatest⟩, rfl⟩

/-- The entry that is blamed is at fault, and those with smaller keys are not. -/
theorem isFault_of_readMeanings_entries {key : Text} {fault : MeaningFault}
    (h : readMeanings raw.entries = .error (key, fault)) :
    (∃ clause, raw.get? key = some clause ∧ IsFault key clause fault) ∧
      ∀ key' clause', raw.get? key' = some clause' → ¬ GivesMeaning key' clause' →
        key.toBytes ≤ key'.toBytes := by
  obtain ⟨before, clause, after, hsplit, hfault, hbefore⟩ := exists_split_of_readMeanings h
  refine ⟨⟨clause, Table.get?_eq_some_iff.2 (hsplit ▸ by simp), hfault⟩, ?_⟩
  intro key' clause' hentry hnot
  have hincreasing := hsplit ▸ raw.increasing
  have hmem := hsplit ▸ Table.get?_eq_some_iff.1 hentry
  rw [Text.toBytes_le_iff]
  rcases List.mem_append.1 hmem with hmem | hmem
  · exact absurd (hbefore _ hmem) hnot
  · rcases List.mem_cons.1 hmem with heq | hmem
    · cases heq
      exact le_rfl
    · have hrest := (List.pairwise_append.1 hincreasing).2.1
      exact ((List.pairwise_cons.1 hrest).1 _ hmem).le

end Table

/-- The entries of a table are read as they have to be. -/
theorem readsTable_entries (raw : Table Text) : ReadsTable raw (readMeanings raw.entries) := by
  constructor
  case succeeds_iff =>
    constructor
    · rintro ⟨m, hm⟩ key clause hentry
      exact givesMeaning_of_readMeanings hm (key, clause) (Table.get?_eq_some_iff.1 hentry)
    · intro hall
      cases hread : readMeanings raw.entries with
      | ok m => exact ⟨m, rfl⟩
      | error blamed =>
        obtain ⟨⟨clause, hentry, hfault⟩, -⟩ := isFault_of_readMeanings_entries hread
        exact absurd (hall _ _ hentry) hfault.not_givesMeaning
  case isSome_iff =>
    intro m hm v
    rw [get?_of_readMeanings hm, Option.isSome_map, List.find?_isSome]
    simp [Table.get?_eq_some_iff]
  case get?_iff => exact fun m hm v text => get?_of_readMeanings_entries hm
  case isFault => exact fun key fault h => (isFault_of_readMeanings_entries h).1
  case le_of_not_givesMeaning => exact fun key fault h => (isFault_of_readMeanings_entries h).2

/-- The settings read their table of meanings as it has to be read, and the file at a path is read in the
same way where its document gives the same table. -/
theorem readsTable_meaningTable (s : Settings) :
    let answer := readMeanings s.meanings.entries
    ReadsTable s.meanings answer ∧
      s.meaningTable = answer.mapError (fun blamed => .invalidMeaning blamed.1 blamed.2) ∧
      ∀ (t : FileTree) (cwd : Place) (path document : Text), t.readText cwd path = .ok document →
        (MeaningFormat.ofPath path).read? document = some s.meanings →
          loadMeanings t cwd path = answer.mapError fun blamed => .invalid path blamed.1 blamed.2 := by
  intro answer
  refine ⟨readsTable_entries s.meanings, ?_, fun t cwd path document htext htable => ?_⟩
  · rw [Settings.meaningTable]
    cases hanswer : readMeanings s.meanings.entries <;> simp only [answer, hanswer] <;> rfl
  · simp only [loadMeanings, htext, htable, meaningsOfTable]
    cases hanswer : readMeanings s.meanings.entries <;> simp only [answer, hanswer] <;> rfl

/-- Of three spellings of one key the greatest one counts, in the settings and in a file. -/
theorem readsTable_three_keys :
    let raw : Table Text := .ofList [("P".toList, "chove".toList), ("P ".toList, " neva ".toList),
      (" P".toList, "venta".toList)]
    let document : Text := "P: chove\n'P ': ' neva '\n' P': venta\n".toList
    let files : FileTree := ⟨[(["m".toList], .file document.toBytes)]⟩
    ∃ m, Settings.meaningTable { meanings := raw } = .ok m ∧
      loadMeanings files [] "m".toList = .ok m ∧ m.get? (Variable.nth 0) = some "neva".toList := by
  intro raw document files
  obtain ⟨hreads, hsettings, hfile⟩ := readsTable_meaningTable { meanings := raw }
  have hentries : raw.entries = [(" P".toList, "venta".toList), ("P".toList, "chove".toList),
      ("P ".toList, " neva ".toList)] := by
    decide +kernel
  obtain ⟨m, hm⟩ : ∃ m, readMeanings raw.entries = .ok m := ⟨_, by rw [hentries]; rfl⟩
  refine ⟨m, by rw [hsettings, hm]; rfl, ?_, ?_⟩
  · rw [hfile files [] "m".toList document (by decide +kernel) (by decide +kernel), hm]
    rfl
  · refine (hreads.get?_iff m hm _ _).2
      ⟨"P ".toList, " neva ".toList, by decide +kernel, by decide +kernel, by decide +kernel, ?_⟩
    intro key clause hentry _
    have hmem := hentries ▸ Table.get?_eq_some_iff.1 hentry
    simp only [List.mem_cons, Prod.mk.injEq, List.not_mem_nil, or_false] at hmem
    rcases hmem with ⟨rfl, -⟩ | ⟨rfl, -⟩ | ⟨rfl, -⟩ <;> decide +kernel

end Sentential
