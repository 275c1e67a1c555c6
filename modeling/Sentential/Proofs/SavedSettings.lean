import Mathlib.Data.List.Induction
import Mathlib.Tactic.Common
import Sentential.Proofs.Initializing
import Sentential.Proofs.Layering
import Sentential.Settings.Document

/-!
# Settings that are saved and loaded again

To load settings is to undo that they have been saved, if the document reads back as it was written
(`Settings.ReadsBack`).  The layer of a document that holds all fields hides the defaults, and what is read
of it does not depend on what the file held before.
-/

namespace Sentential

/-! ### Creating directories -/

namespace FileTree

variable {t t' : FileTree} {p q : Place} {cwd : Place} {x : FileEntry}

/-- A path made of names is not found where a directory on its way is missing. -/
theorem follow_missing (hq : ∀ n ∈ q, IsName n)
    (hfree : ∀ r, r <+: q → ∀ content, t.get? (p ++ r) ≠ some (.file content))
    (hmissing : ∃ r, r <+: q ∧ r ≠ q ∧ t.get? (p ++ r) = none) : t.follow p q = .error .notFound := by
  induction q generalizing p with
  | nil =>
    obtain ⟨r, hr, hne, -⟩ := hmissing
    exact absurd (List.prefix_nil.1 hr) hne
  | cons n q ih =>
    obtain ⟨⟨hne, -, hdot, hdots⟩, hq⟩ := List.forall_mem_cons.1 hq
    rw [follow]
    cases hp : t.get? p with
    | none => rfl
    | some x =>
      cases x with
      | file content => exact absurd hp (by simpa using hfree [] List.nil_prefix content)
      | directory =>
        have hrest : t.follow (p ++ [n]) q = .error .notFound := by
          refine ih hq (fun r hr content => ?_) ?_
          · simpa using hfree (n :: r) (List.prefix_cons_inj n |>.2 hr) content
          · obtain ⟨r, hr, hrne, hnone⟩ := hmissing
            cases r with
            | nil => simp [hp] at hnone
            | cons m r =>
              obtain ⟨rfl, hr'⟩ := List.cons_prefix_cons.1 hr
              exact ⟨r, hr', fun heq => hrne (heq ▸ rfl), by simpa using hnone⟩
        simpa [hne, hdot, hdots] using hrest

/-- A directory cannot be created where the one above it is missing. -/
theorem makeDirectory_missing {n : Text} (hp : ∀ m ∈ p ++ [n], IsName m)
    (hfree : ∀ q, q <+: p ++ [n] → ∀ content, t.get? q ≠ some (.file content))
    (hmissing : t.get? p = none) :
    t.makeDirectory [] (Path.ofParts (p ++ [n])) = .error .notFound := by
  have hne : p ++ [n] ≠ [] := by simp
  have hfollow : t.follow [] (p ++ [n]) = .error .notFound :=
    follow_missing hp (by simpa using hfree) ⟨p, List.prefix_append p [n], by simp, hmissing⟩
  rw [makeDirectory, resolve, if_neg (by simpa using Path.ofParts_ne_nil _),
    if_pos (Path.isAbsolute_ofParts _), Path.cutAt_ofParts hne hp, follow, get?_root]
  simp [hfollow]

/-- A directory that is put into another one changes nothing else. -/
theorem put_directory {n : Text} (hn : IsName n) (hdir : t'.isDirectoryAt p = true) (hsound : t'.IsSound)
    (hkeeps : ∀ q, ¬ q <+: p → t'.get? q = t.get? q) :
    (t'.put (p ++ [n]) .directory).IsSound ∧
      (t'.put (p ++ [n]) .directory).isDirectoryAt (p ++ [n]) = true ∧
      ∀ q, ¬ q <+: p ++ [n] → (t'.put (p ++ [n]) .directory).get? q = t.get? q := by
  have hne : p ++ [n] ≠ [] := by simp
  refine ⟨hsound.put hdir hn fun _ => rfl, ?_, fun q hq => ?_⟩
  · rw [isDirectoryAt_iff, get?_put hne, if_pos rfl]
  · have hqne : q ≠ p ++ [n] := fun heq => hq (heq ▸ List.prefix_rfl)
    rw [get?_put hne, if_neg hqne, hkeeps q fun h => hq (h.trans (List.prefix_append p [n]))]

/-- A directory can be created at a place as soon as no file stands in the way. -/
theorem exists_makeDirectories_eq (hsound : t.IsSound) (hp : ∀ n ∈ p, IsName n)
    (hfree : ∀ q, q <+: p → ∀ content, t.get? q ≠ some (.file content)) :
    ∃ t', t.makeDirectories p.reverse = (.ok (), t') ∧ t'.IsSound ∧ t'.isDirectoryAt p = true ∧
      ∀ q, ¬ q <+: p → t'.get? q = t.get? q := by
  induction p using List.reverseRecOn with
  | nil => exact ⟨t, rfl, hsound, rfl, fun _ _ => rfl⟩
  | append_singleton p n ih =>
    have hn : IsName n := hp n (by simp)
    by_cases hdir : t.isDirectoryAt p = true
    · -- the directory above is there
      rw [makeDirectories_reverse (hsound.reaches_append hdir hn) hdir]
      cases hget : t.get? (p ++ [n]) with
      | none => exact ⟨_, rfl, put_directory hn hdir hsound fun _ _ => rfl⟩
      | some x =>
        cases x with
        | file content => exact absurd hget (hfree _ List.prefix_rfl content)
        | directory => exact ⟨t, rfl, hsound, isDirectoryAt_iff.2 hget, fun _ _ => rfl⟩
    · -- the directory above has to be created first
      have hmissing : t.get? p = none := by
        cases hget : t.get? p with
        | none => rfl
        | some x =>
          cases x with
          | file content => exact absurd hget (hfree p (List.prefix_append p [n]) content)
          | directory => exact absurd (isDirectoryAt_iff.2 hget) hdir
      obtain ⟨t₁, hmade, hsound₁, hdir₁, hkeeps⟩ := ih (fun m hm => hp m (by simp [hm]))
        fun q hq => hfree q (hq.trans (List.prefix_append p [n]))
      have hfirst := makeDirectory_missing hp hfree hmissing
      have hnone : t₁.get? (p ++ [n]) = none := by
        rw [hkeeps _ fun h => absurd h.length_le (by simp)]
        refine Option.eq_none_iff_forall_ne_some.2 fun x hx => hdir ?_
        simpa using hsound.isDirectoryAt_dropLast hx
      have hsecond : t₁.makeDirectory [] (Path.ofParts (p ++ [n])) =
          .ok (t₁.put (p ++ [n]) .directory) := by
        rw [makeDirectory_ofParts (hsound₁.reaches_append hdir₁ hn) [] (by simpa using hdir₁), hnone]
        rfl
      refine ⟨_, ?_, put_directory hn hdir₁ hsound₁ hkeeps⟩
      rw [List.reverse_append, List.reverse_singleton, List.singleton_append, makeDirectories]
      simp only [List.reverse_cons, List.reverse_reverse, hfirst, hmade, hsecond]

/-! ### Reading what was written -/

/-- What is put at a place where no directory stands does not change where paths to that place lead. -/
theorem follow_put {ns : List Text} (h : t.follow q ns = .ok p) (hp : t.isDirectoryAt p = false)
    (x : FileEntry) : (t.put p x).follow q ns = .ok p := by
  have hne : p ≠ [] := by
    rintro rfl
    simp at hp
  induction ns generalizing q with
  | nil => exact h
  | cons n ns ih =>
    rw [follow] at h ⊢
    have hq : t.get? q = some .directory := by
      cases hget : t.get? q with
      | none => simp [hget] at h
      | some x => cases x <;> simp [hget] at h ⊢
    have hqp : q ≠ p := by
      rintro rfl
      simp [isDirectoryAt, hq] at hp
    simp only [get?_put hne, if_neg hqp, hq] at h ⊢
    split_ifs at h ⊢
    all_goals exact ih h

/-- A text that has been written is read again, from wherever its path is absolute. -/
theorem readText_of_writeText {path text : Text} (hpath : Path.isAbsolute path = true)
    (h : t.writeText [] path text = .ok t') (cwd : Place) :
    t'.contains cwd path = true ∧ t'.readText cwd path = .ok text := by
  rw [writeText] at h
  cases hresolve : t.resolve [] path with
  | error e => simp [hresolve] at h
  | ok p =>
    simp only [hresolve] at h
    split_ifs at h with hdir
    cases h
    have hne : p ≠ [] := by
      rintro rfl
      simp at hdir
    have hlookup : (t.put p (.file text.toBytes)).lookup cwd path = .ok (p, .file text.toBytes) := by
      rw [resolve, if_pos hpath] at hresolve
      split_ifs at hresolve with hempty
      rw [lookup, resolve, if_pos hpath, if_neg hempty, follow_put hresolve (eq_false_of_ne_true hdir)]
      simp [get?_put hne]
    exact ⟨by rw [contains, hlookup], by rw [readText, hlookup]; simp [Text.ofBytes?_toBytes]⟩

end FileTree

/-! ### The layer of all fields -/

theorem mapM_map_eq_some {α β : Type} {f : α → β} {g : β → Option α} (h : ∀ a, g (f a) = some a)
    (as : List α) : (as.map f).mapM g = some as := by
  induction as with
  | nil => rfl
  | cons a as ih =>
    rw [List.map_cons, List.mapM_cons, h, ih]
    rfl

namespace Datum

/-- A list of texts is read back. -/
theorem texts?_map_text (ts : List Text) : texts? (.list (ts.map text)) = some ts :=
  mapM_map_eq_some (f := text) (g := text?) (fun _ => rfl) ts

/-- To lay entries over none is to take them as they are. -/
theorem mergeEntries_nil_left {es : List (Text × Datum)} (h : KeysIncrease es) :
    mergeEntries [] es = es := by
  refine KeysIncrease.eq_of_entryAt? (keysIncrease_mergeEntries List.Pairwise.nil es) h fun k => ?_
  rw [entryAt?_mergeEntries h]
  cases entryAt? k es <;> rfl

end Datum

namespace Settings

variable {s : Settings} {env : Environment} {t t' : FileTree} {cwd p : Place} {directory : Text}

/-- The settings as a layer. -/
def layer (s : Settings) : List (Text × Datum) :=
  [(colorKey, .text s.color.word), (jsonKey, .bool s.json),
    (meaningsKey, .dict (s.meanings.entries.map fun e => (e.1, .text e.2))),
    (negationKey, .dict [(formsKey, .list (s.extraForms.map .text)),
      (suffixesKey, .list (s.extraSuffixes.map .text))])]

theorem keysIncrease_layer (s : Settings) : KeysIncrease s.layer := by
  have hkeys : [colorKey, jsonKey, meaningsKey, negationKey].Pairwise (· < ·) := by decide
  have hmap : s.layer.map (·.1) = [colorKey, jsonKey, meaningsKey, negationKey] := rfl
  rw [← hmap, List.pairwise_map] at hkeys
  exact hkeys

theorem keysIncrease_meanings (s : Settings) :
    KeysIncrease (s.meanings.entries.map fun e => (e.1, Datum.text e.2)) :=
  List.pairwise_map.2 s.meanings.increasing

/-- A table of texts is read back. -/
theorem readTexts?_map_text (table : Table Text) :
    readTexts? (.dict (table.entries.map fun e => (e.1, .text e.2))) = some table := by
  have hentries := mapM_map_eq_some (f := fun e : Text × Text => (e.1, Datum.text e.2))
    (g := fun e => e.2.text?.map fun t => (e.1, t)) (fun _ => rfl) table.entries
  rw [readTexts?, hentries, Option.map_some, Table.ofList_entries]

/-- The environment overrides nothing. -/
def OverridesNothing (env : Environment) : Prop :=
  ∀ e ∈ env, isOverride e.1 = false

instance (env : Environment) : Decidable (OverridesNothing env) :=
  inferInstanceAs (Decidable (∀ e ∈ env, isOverride e.1 = false))

theorem overrides_eq_nil (h : OverridesNothing env) : overrides env = [] := by
  have hnone : (env.filter fun e => isOverride e.1) = [] :=
    List.filter_eq_nil_iff.2 fun e he => by simp [h e he]
  rw [← overrides_filter, hnone]
  rfl

theorem ofWord?_word (m : ColorMode) : ColorMode.ofWord? m.word = some m := by
  cases m <;> decide

/-- The layer of settings hides the defaults. -/
theorem merge?_layer (s : Settings) (henv : OverridesNothing env) : merge? s.layer env = some s := by
  have hmerged := Datum.entryAt?_mergeEntries (keysIncrease_layer s) defaultLayer
  have hjson : entryAt? jsonKey s.layer = some (.bool s.json) := rfl
  have hcolor : entryAt? colorKey s.layer = some (.text s.color.word) := rfl
  have hmeanings : entryAt? meaningsKey s.layer =
      some (.dict (s.meanings.entries.map fun e => (e.1, .text e.2))) := rfl
  have hnegation : entryAt? negationKey s.layer = some (.dict [(formsKey, .list (s.extraForms.map .text)),
      (suffixesKey, .list (s.extraSuffixes.map .text))]) := rfl
  rw [merge?, overrides_eq_nil henv, Datum.mergeEntries_nil, ofEntries?_eq_some_iff]
  refine ⟨?_, ?_, ?_, ?_⟩
  · rw [hmerged, hjson]
    have hplain : (Datum.bool s.json).isDict = false := rfl
    simp only [Option.elim_some, Datum.onTop_of_isDict hplain, readFlag?]
  · rw [hmerged, hcolor]
    have hplain : (Datum.text s.color.word).isDict = false := rfl
    simp only [Option.elim_some, Datum.onTop_of_isDict hplain, readColor?, ofWord?_word]
  · have hbelow : entryAt? negationKey defaultLayer =
        some (.dict [(formsKey, .list []), (suffixesKey, .list [])]) := rfl
    have hkeys : KeysIncrease [(formsKey, Datum.list (s.extraForms.map .text)),
        (suffixesKey, .list (s.extraSuffixes.map .text))] := by
      simpa [KeysIncrease] using (by decide : formsKey < suffixesKey)
    have hlists (base : List (Text × Datum)) {k : Text} (ts : List Text)
        (h : entryAt? k [(formsKey, Datum.list (s.extraForms.map .text)),
          (suffixesKey, .list (s.extraSuffixes.map .text))] = some (.list (ts.map .text))) :
        (entryAt? k (Datum.mergeEntries base [(formsKey, Datum.list (s.extraForms.map .text)),
          (suffixesKey, .list (s.extraSuffixes.map .text))])).elim (some []) Datum.texts? = some ts := by
      rw [Datum.entryAt?_mergeEntries hkeys, h, Option.elim_some, Datum.onTop_of_isDict rfl,
        Datum.texts?_map_text]
    rw [hmerged, hnegation, hbelow, Option.elim_some, Datum.onTop_dict, readNegation?,
      hlists _ s.extraSuffixes rfl, hlists _ s.extraForms rfl]
    rfl
  · have hbelow : entryAt? meaningsKey defaultLayer = some (.dict []) := rfl
    rw [hmerged, hmeanings, hbelow, Option.elim_some, Datum.onTop_dict,
      Datum.mergeEntries_nil_left (keysIncrease_meanings s), readTexts?_map_text]

/-! ### Saving and loading -/

/-- A directory in which settings can be saved: no file stands in its way, and no directory has the place
of the file. -/
structure CanSave (t : FileTree) (p : Place) : Prop where
  /-- The tree is sound. -/
  sound : t.IsSound
  /-- The directory can be named by a path. -/
  names : ∀ n ∈ p, IsName n
  /-- Neither at the directory nor above it there is a file. -/
  free : ∀ q, q <+: p → ∀ content, t.get? q ≠ some (.file content)
  /-- The file of settings is not a directory. -/
  file : t.get? (p ++ [fileName]) ≠ some .directory

/-- Settings can be saved in a directory that exists. -/
theorem canSave_of_isDirectoryAt (hsound : t.IsSound) (hp : t.isDirectoryAt p = true)
    (hfile : t.get? (p ++ [fileName]) ≠ some .directory) : CanSave t p := by
  have hget := FileTree.isDirectoryAt_iff.1 hp
  refine ⟨hsound, hsound.isName hget, fun q hq content hcontent => ?_, hfile⟩
  have habove : t.isDirectoryAt q = true := by
    rw [List.prefix_iff_eq_take.1 hq]
    exact hsound.isDirectoryAt_take hp q.length
  rw [FileTree.isDirectoryAt_iff.1 habove] at hcontent
  cases hcontent

/-- The document of the settings reads back as the data that were written. -/
def ReadsBack (s : Settings) : Prop :=
  documentLayer? s.document = some s.layer

/-- Settings are saved where nothing stands in the way. -/
theorem exists_save_eq (h : CanSave t p) (s : Settings) :
    ∃ t', save t (Path.ofParts p) s = (.ok (), t') := by
  obtain ⟨t₁, hmade, hsound, hdir, hkeeps⟩ :=
    FileTree.exists_makeDirectories_eq h.sound h.names h.free
  have hreach := hsound.reaches_append hdir isName_fileName
  have hwrite := FileTree.writeText_ofParts hreach [] (by simpa using hdir) s.document
  have hfile : t₁.isDirectoryAt (p ++ [fileName]) = false := by
    have hsame : t₁.get? (p ++ [fileName]) = t.get? (p ++ [fileName]) :=
      hkeeps _ fun hprefix => absurd hprefix.length_le (by simp)
    simpa [FileTree.isDirectoryAt, hsame] using h.file
  rw [hfile, if_neg (by simp)] at hwrite
  rw [save, Path.parts_ofParts h.names, hmade]
  simp only [Path.join_ofParts h.names isName_fileName, hwrite]
  exact ⟨_, rfl⟩

theorem isAbsolute_join (h : Path.isAbsolute directory = true) (name : Text) :
    Path.isAbsolute (Path.join directory name) = true := by
  obtain ⟨rest, rfl⟩ : ∃ rest, directory = '/' :: rest := by
    cases directory with
    | nil => simp [Path.isAbsolute] at h
    | cons c rest =>
      obtain rfl : c = '/' := by simpa [Path.isAbsolute] using h
      exact ⟨rest, rfl⟩
  unfold Path.join
  split_ifs with hname hlast
  · simp at hname
    exact hname
  · rfl
  · rfl

/-- What has been saved is what is loaded, from wherever the path of the directory is absolute. -/
theorem load_of_save (habsolute : Path.isAbsolute directory = true)
    (h : save t directory s = (.ok (), t')) (hread : ReadsBack s) (cwd : Place)
    (henv : OverridesNothing env) : load t' cwd directory env = .ok s := by
  rw [save] at h
  split at h
  · cases h
  · next t₁ _ =>
    split at h
    · next t₂ hwrite =>
      cases h
      have hpath := isAbsolute_join habsolute fileName
      obtain ⟨hcontains, htext⟩ := FileTree.readText_of_writeText hpath hwrite cwd
      have hlayer : fileLayer? t' cwd directory = .ok s.layer := by
        have hdocument : documentLayer? s.document = some s.layer := hread
        rw [fileLayer?, if_pos hcontains, htext]
        simp only [hdocument]
      rw [load_eq, hlayer]
      simp only [Except.bind, merge?_layer s henv]
    · cases h

end Settings

end Sentential
