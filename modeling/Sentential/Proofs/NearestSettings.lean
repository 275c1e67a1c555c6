import Mathlib.Data.List.Induction
import Mathlib.Data.List.Infix
import Mathlib.Tactic.Common
import Sentential.Proofs.Initializing

/-!
# The nearest directory of settings

The walk from a place to the root finds the deepest directory of settings that stands at the place or above
it (`nearest?_reverse_eq_some_iff`).  It depends on the directories of the tree alone, and so agrees with
the creation of such a directory: what has been made sure of at a place is found from everywhere below,
unless something nearer is (`IsEnsuredAt`).

The main statement is `findDirectory?_iff_and_isEnsuredAt`.
-/

namespace Sentential.Settings

variable {t t' : FileTree} {cwd p q a b : Place}

/-! ### The walk -/

/-- Among a place `p` and those above it, `a` is the deepest one that has a directory of settings. -/
structure IsNearest (t : FileTree) (p a : Place) : Prop where
  /-- The place is `p`, or above it. -/
  isPrefix : a <+: p
  /-- It has a directory of settings. -/
  directory : t.isDirectoryAt (a ++ [".cpc".toList]) = true
  /-- No deeper place has one. -/
  deepest : ∀ b, b <+: p → t.isDirectoryAt (b ++ [".cpc".toList]) = true → b <+: a

/-- There is one nearest place at most. -/
theorem IsNearest.unique (ha : IsNearest t p a) (hb : IsNearest t p b) : a = b :=
  (hb.deepest a ha.isPrefix ha.directory).eq_of_length_le
    (ha.deepest b hb.isPrefix hb.directory).length_le

/-- A place that has a directory of settings is the nearest one to itself. -/
theorem isNearest_self (h : t.isDirectoryAt (p ++ [directoryName]) = true) : IsNearest t p p :=
  ⟨List.prefix_rfl, h, fun _ hb _ => hb⟩

/-- Where a place has no directory of settings, what is nearest to it is nearest to the place above. -/
theorem isNearest_append_singleton_iff {n : Text}
    (h : t.isDirectoryAt (p ++ [n] ++ [directoryName]) = false) :
    IsNearest t (p ++ [n]) a ↔ IsNearest t p a := by
  have habove {b : Place} (hb : b <+: p ++ [n]) (hdir : t.isDirectoryAt (b ++ [directoryName]) = true) :
      b <+: p := by
    rcases List.prefix_concat_iff.1 hb with rfl | hb
    · cases h.symm.trans hdir
    · exact hb
  constructor
  · intro ha
    exact ⟨habove ha.isPrefix ha.directory, ha.directory, fun b hb =>
      ha.deepest b (hb.trans (List.prefix_append p [n]))⟩
  · intro ha
    exact ⟨ha.isPrefix.trans (List.prefix_append p [n]), ha.directory, fun b hb hdir =>
      ha.deepest b (habove hb hdir) hdir⟩

/-- The walk ends at the nearest place that has a directory of settings. -/
theorem nearest?_reverse_eq_some_iff {d : Place} :
    nearest? t p.reverse = some d ↔ ∃ a, IsNearest t p a ∧ d = a ++ [directoryName] := by
  have hhere {p : Place} (hdir : t.isDirectoryAt (p ++ [directoryName]) = true) :
      some (p ++ [directoryName]) = some d ↔ ∃ a, IsNearest t p a ∧ d = a ++ [directoryName] := by
    constructor
    · rintro ⟨⟩
      exact ⟨p, isNearest_self hdir, rfl⟩
    · rintro ⟨a, ha, rfl⟩
      rw [ha.unique (isNearest_self hdir)]
  induction p using List.reverseRecOn with
  | nil =>
    rw [List.reverse_nil, nearest?]
    by_cases hdir : t.isDirectoryAt [directoryName] = true
    · rw [if_pos hdir]
      exact hhere (p := []) hdir
    · rw [if_neg hdir]
      refine iff_of_false (by simp) ?_
      rintro ⟨a, ha, -⟩
      obtain rfl := List.prefix_nil.1 ha.isPrefix
      exact hdir ha.directory
  | append_singleton p n ih =>
    rw [List.reverse_append, List.reverse_singleton, List.singleton_append, nearest?]
    simp only [List.reverse_cons, List.reverse_reverse]
    by_cases hdir : t.isDirectoryAt (p ++ [n] ++ [directoryName]) = true
    · rw [if_pos hdir]
      exact hhere hdir
    · rw [if_neg hdir]
      simp only [isNearest_append_singleton_iff (eq_false_of_ne_true hdir)]
      exact ih

/-! ### Finding -/

variable {env : Environment} {start found : Text} {x : FileEntry}

/-- The environment names no directory. -/
def NamesNoDirectory (t : FileTree) (cwd : Place) (env : Environment) : Prop :=
  ∀ path, env.get? "CPC_DIR".toList = some path → t.isDirectory cwd path = false

theorem namedDirectory?_eq_none (h : NamesNoDirectory t cwd env) : namedDirectory? t cwd env = none := by
  rw [namedDirectory?, Option.filter_eq_none_iff]
  exact fun path hpath => by simp [h path hpath]

/-- A directory that the environment names is found from everywhere. -/
theorem findDirectory?_of_named {path : Text} (hpath : env.get? directoryVariable = some path)
    (hdir : t.isDirectory cwd path = true) (start : Text) :
    findDirectory? t cwd env start = some path := by
  have hnamed : namedDirectory? t cwd env = some path := by
    rw [namedDirectory?, hpath]
    simp [hdir]
  rw [findDirectory?, hnamed]

/-- Nothing is found from a path that leads nowhere. -/
theorem findDirectory?_of_not_contains (henv : NamesNoDirectory t cwd env)
    (h : t.contains cwd start = false) : findDirectory? t cwd env start = none := by
  rw [findDirectory?, namedDirectory?_eq_none henv]
  rw [FileTree.contains] at h
  cases hlookup : t.lookup cwd start with
  | error e => rfl
  | ok place => simp [hlookup] at h

/-- From a path that leads to a place, the nearest directory of settings is found. -/
theorem findDirectory?_eq_some_iff (henv : NamesNoDirectory t cwd env)
    (h : t.lookup cwd start = .ok (p, x)) : findDirectory? t cwd env start = some found ↔
      ∃ a, IsNearest t p a ∧ found = Path.ofParts (a ++ [directoryName]) := by
  rw [findDirectory?, namedDirectory?_eq_none henv]
  simp only [h, Option.map_eq_some_iff, nearest?_reverse_eq_some_iff]
  constructor
  · rintro ⟨-, ⟨a, ha, rfl⟩, rfl⟩
    exact ⟨a, ha, rfl⟩
  · rintro ⟨a, ha, rfl⟩
    exact ⟨_, ⟨a, ha, rfl⟩, rfl⟩

/-! ### Finding what has been made sure of -/

/-- In the tree `t`, the directory of settings `d` of the directory at `p` has been made sure of. -/
structure IsEnsuredAt (p : Place) (d : Text) (t : FileTree) : Prop where
  /-- The directory of settings is inside the directory. -/
  path_eq : d = Path.ofParts (p ++ [".cpc".toList])
  /-- From the directory and everything below it, a directory of settings is found that is not above it. -/
  finds : ∀ cwd env start q x, env.get? "CPC_DIR".toList = none →
    t.lookup cwd start = .ok (q, x) → p <+: q → ∃ a, IsNearest t q a ∧ p <+: a ∧
      findDirectory? t cwd env start = some (Path.ofParts (a ++ [".cpc".toList]))
  /-- It is the one of the directory itself, unless there is a nearer one. -/
  finds_self : ∀ cwd env start q x, env.get? "CPC_DIR".toList = none →
    t.lookup cwd start = .ok (q, x) → p <+: q →
    (∀ b, p <+: b → b <+: q → b ≠ p → t.isDirectoryAt (b ++ [".cpc".toList]) = false) →
      findDirectory? t cwd env start = some d
  /-- To make sure of it again changes nothing. -/
  again : ensureDirectory t (Path.ofParts p) = (.ok d, t)

/-- A place at or below one that has a directory of settings has a nearest place, not above it. -/
theorem exists_isNearest (hp : t.isDirectoryAt (p ++ [directoryName]) = true) (hq : p <+: q) :
    ∃ a, IsNearest t q a ∧ p <+: a := by
  induction q using List.reverseRecOn with
  | nil =>
    obtain rfl := List.prefix_nil.1 hq
    exact ⟨[], isNearest_self hp, List.prefix_rfl⟩
  | append_singleton q n ih =>
    by_cases hdir : t.isDirectoryAt (q ++ [n] ++ [directoryName]) = true
    · exact ⟨q ++ [n], isNearest_self hdir, hq⟩
    · rcases List.prefix_concat_iff.1 hq with rfl | hq
      · exact absurd hp hdir
      · obtain ⟨a, ha, hpa⟩ := ih hq
        exact ⟨a, (isNearest_append_singleton_iff (eq_false_of_ne_true hdir)).2 ha, hpa⟩

theorem namesNoDirectory_of_unset (h : env.get? "CPC_DIR".toList = none) :
    NamesNoDirectory t cwd env :=
  fun path hpath => absurd (hpath.symm.trans h) (Option.some_ne_none path)

/-- Where a directory has a directory of settings, that is found from below, and making sure of it changes
nothing. -/
theorem isEnsuredAt_of_isDirectoryAt (hsound : t.IsSound) (hp : t.isDirectoryAt p = true)
    (hname : p.getLast? ≠ some directoryName)
    (hdir : t.isDirectoryAt (p ++ [directoryName]) = true) :
    IsEnsuredAt p (Path.ofParts (p ++ [directoryName])) t := by
  constructor
  case path_eq => rfl
  case finds =>
    intro cwd env start q x henv hstart hq
    obtain ⟨a, ha, hpa⟩ := exists_isNearest hdir hq
    exact ⟨a, ha, hpa, (findDirectory?_eq_some_iff (namesNoDirectory_of_unset henv) hstart).2
      ⟨a, ha, rfl⟩⟩
  case finds_self =>
    intro cwd env start q x henv hstart hq hnearer
    obtain ⟨a, ha, hpa⟩ := exists_isNearest hdir hq
    have heq : a = p := by_contra fun hne =>
      Bool.false_ne_true ((hnearer a hpa ha.isPrefix hne).symm.trans ha.directory)
    exact (findDirectory?_eq_some_iff (namesNoDirectory_of_unset henv) hstart).2
      ⟨a, ha, by rw [heq]⟩
  case again =>
    have hplace : placeFor p = p ++ [directoryName] := if_neg hname
    rw [ensureDirectory_ofParts hsound hp, hplace, FileTree.isDirectoryAt_iff.1 hdir]
    simp only [withDirectory, hdir, if_true]

/-- A directory of which has been made sure is there afterwards, and found from below. -/
theorem isEnsuredAt_of_ensureDirectory (hsound : t.IsSound) (hp : t.isDirectoryAt p = true)
    (hname : p.getLast? ≠ some directoryName) {d : Text}
    (h : ensureDirectory t (Path.ofParts p) = (.ok d, t')) : IsEnsuredAt p d t' := by
  have hplace : placeFor p = p ++ [directoryName] := if_neg hname
  have hne : p ++ [directoryName] ≠ [] := by simp
  rw [ensureDirectory_ofParts hsound hp, hplace] at h
  obtain ⟨rfl, rfl⟩ : Path.ofParts (p ++ [directoryName]) = d ∧
      withDirectory t (p ++ [directoryName]) = t' := by
    split at h
    · cases h
    · simpa using h
  have hget := get?_withDirectory (t := t) hne
  refine isEnsuredAt_of_isDirectoryAt (isSound_withDirectory hsound hp) ?_ hname ?_
  · rw [FileTree.isDirectoryAt_iff, hget, if_neg (by simp)]
    exact FileTree.isDirectoryAt_iff.1 hp
  · rw [FileTree.isDirectoryAt_iff, hget, if_pos rfl]

/-- The directory of settings for a path is the one that the environment names.  Where it names none, it is
the nearest one at or above the place to which the path leads, if there is any, and there is none for a path
that leads nowhere.  What has been made sure of at a directory is found from there and from below, unless
something nearer is. -/
theorem findDirectory?_iff_and_isEnsuredAt (t : FileTree) :
    (∀ cwd env start path, env.get? "CPC_DIR".toList = some path → t.isDirectory cwd path = true →
      findDirectory? t cwd env start = some path) ∧
    (∀ cwd env start, NamesNoDirectory t cwd env →
      (t.contains cwd start = false → findDirectory? t cwd env start = none) ∧
      ∀ p x, t.lookup cwd start = .ok (p, x) → ∀ found,
        (findDirectory? t cwd env start = some found ↔
          ∃ a, IsNearest t p a ∧ found = Path.ofParts (a ++ [".cpc".toList]))) ∧
    (t.IsSound → ∀ p, t.isDirectoryAt p = true → p.getLast? ≠ some ".cpc".toList → ∀ d t',
      ensureDirectory t (Path.ofParts p) = (.ok d, t') → IsEnsuredAt p d t') :=
  ⟨fun _ _ start _ hpath hdir => findDirectory?_of_named hpath hdir start,
    fun _ _ _ henv => ⟨findDirectory?_of_not_contains henv,
      fun _ _ hlookup _ => findDirectory?_eq_some_iff henv hlookup⟩,
    fun hsound _ hp hname _ _ => isEnsuredAt_of_ensureDirectory hsound hp hname⟩

/-- From *notes*, in which a file has the name of the directory, the settings of the root are found until
those of *home* have been made sure of. -/
theorem findDirectory?_home :
    let home : Text := "home".toList
    let t : FileTree := ⟨[([".cpc".toList], .directory), ([home], .directory),
      ([home, "notes".toList], .directory), ([home, "notes".toList, ".cpc".toList], .file [])]⟩
    let r := ensureDirectory t "/home".toList
    findDirectory? t [home] [] "notes".toList = some "/.cpc".toList ∧
      findDirectory? r.2 [home] [] "notes".toList = some "/home/.cpc".toList ∧
      ensureDirectory r.2 "/home".toList = r := by
  intro home t r
  obtain ⟨-, hfind, hensure⟩ := findDirectory?_iff_and_isEnsuredAt t
  have hr : r = (.ok "/home/.cpc".toList, r.2) := by decide +kernel
  have hensured := hensure (by decide +kernel) [home] (by decide +kernel) (by decide +kernel) _ _ hr
  have hnotes : t.lookup [home] "notes".toList = .ok ([home, "notes".toList], .directory) := by
    decide +kernel
  have hnotes' : r.2.lookup [home] "notes".toList = .ok ([home, "notes".toList], .directory) := by
    decide +kernel
  have hplaces {b : Place} (hb : b <+: [home, "notes".toList]) :
      b = [] ∨ b = [home] ∨ b = [home, "notes".toList] := by
    rw [← List.mem_inits] at hb
    simpa [List.inits] using hb
  have hroot : IsNearest t [home, "notes".toList] [] := by
    refine ⟨by decide, by decide +kernel, fun b hb hdir => ?_⟩
    rcases hplaces hb with rfl | rfl | rfl
    · exact List.prefix_rfl
    · exact absurd hdir (by decide +kernel)
    · exact absurd hdir (by decide +kernel)
  refine ⟨?_, ?_, hensured.again.trans hr.symm⟩
  · exact ((hfind [home] [] "notes".toList (namesNoDirectory_of_unset rfl)).2 _ _ hnotes _).2
      ⟨[], hroot, rfl⟩
  · refine hensured.finds_self [home] [] "notes".toList _ _ rfl hnotes' (by decide) fun b hb hb' hne => ?_
    rcases hplaces hb' with rfl | rfl | rfl
    · exact absurd hb (by decide)
    · exact absurd rfl hne
    · decide +kernel

end Sentential.Settings
