import Mathlib.Data.List.Basic
import Mathlib.Tactic.Common
import Sentential.Files.Tree
import Sentential.Proofs.Cuts

/-!
# The places of a file tree

A file tree is sound if the names in it are names of files, and whatever stands in it stands in a
directory (`FileTree.IsSound`).  In a sound tree the absolute path of a place leads to it, as soon as the
directories above the place exist (`FileTree.resolve_ofParts`).  What is put at a place changes what stands
there, and nothing else (`FileTree.get?_put`).
-/

namespace Sentential

/-! ### Paths made of names -/

/-- A text is a name if a path can have it as a part that leads one level down. -/
def IsName (n : Text) : Prop :=
  n ≠ [] ∧ '/' ∉ n ∧ n ≠ ['.'] ∧ n ≠ ['.', '.']

instance (n : Text) : Decidable (IsName n) :=
  inferInstanceAs (Decidable (_ ∧ _))

/-- A text is cut at a character as a list is cut at its separators. -/
theorem cutAt_eq_cuts (separator : Char) (t : Text) :
    Text.cutAt separator t = cuts (fun c => decide (c = separator)) t := by
  induction t with
  | nil => rfl
  | cons c t ih =>
    rw [Text.cutAt, cuts, ih]
    by_cases hc : c = separator
    · simp [hc]
    · simp only [hc, if_false, decide_false]
      cases cuts (fun c => decide (c = separator)) t <;> rfl

section CutAt

variable {separator : Char} {part : Text} (h : separator ∉ part)

include h

theorem cutAt_eq_singleton : Text.cutAt separator part = [part] := by
  rw [cutAt_eq_cuts]
  exact cuts_eq_singleton fun c hc => decide_eq_false fun heq => h (heq ▸ hc)

/-- What stands in front of the first separator is the first part. -/
theorem cutAt_append_cons (rest : Text) :
    Text.cutAt separator (part ++ separator :: rest) = part :: Text.cutAt separator rest := by
  have hpart := cutAt_eq_singleton h
  rw [cutAt_eq_cuts] at hpart ⊢
  rw [cuts_append_cons (by simp), hpart, List.singleton_append, cutAt_eq_cuts]

end CutAt

namespace Path

variable {ps : List Text}

theorem cutAt_slash {n : Text} (hn : '/' ∉ n) (hps : ∀ m ∈ ps, IsName m) :
    Text.cutAt '/' (n ++ ps.flatMap fun part => '/' :: part) = n :: ps := by
  induction ps generalizing n with
  | nil => rw [List.flatMap_nil, List.append_nil, cutAt_eq_singleton hn]
  | cons m ps ih =>
    obtain ⟨hm, hps⟩ := List.forall_mem_cons.1 hps
    rw [List.flatMap_cons, List.cons_append, cutAt_append_cons hn, ih hm.2.1 hps]

/-- Between the slashes of an absolute path stand its parts. -/
theorem cutAt_ofParts (hne : ps ≠ []) (hps : ∀ m ∈ ps, IsName m) :
    Text.cutAt '/' (ofParts ps) = [] :: ps := by
  have hcut := cutAt_slash (n := []) (by simp) hps
  simpa [ofParts, hne] using hcut

theorem parts_ofParts (hps : ∀ m ∈ ps, IsName m) : parts (ofParts ps) = ps := by
  by_cases hne : ps = []
  · rw [hne]
    decide
  · have hkeep : ps.filter (fun part => !part.isEmpty && part ≠ ['.']) = ps :=
      List.filter_eq_self.2 fun m hm => by
        have hname := hps m hm
        simp [hname.1, hname.2.2.1]
    rw [parts, cutAt_ofParts hne hps, List.filter_cons]
    simpa using hkeep

theorem isAbsolute_ofParts (ps : List Text) : isAbsolute (ofParts ps) = true := by
  cases ps with
  | nil => decide
  | cons m ps => simp [isAbsolute, ofParts]

theorem ofParts_ne_nil (ps : List Text) : ofParts ps ≠ [] := by
  cases ps <;> simp [ofParts]

/-- A name behind an absolute path is one more part. -/
theorem join_ofParts {n : Text} (hps : ∀ m ∈ ps, IsName m) (hn : IsName n) :
    join (ofParts ps) n = ofParts (ps ++ [n]) := by
  have habsolute : isAbsolute n = false :=
    decide_eq_false fun hhead => hn.2.1 (List.mem_of_mem_head? hhead)
  obtain rfl | ⟨qs, m, rfl⟩ := List.eq_nil_or_concat ps
  · simp [join, habsolute, ofParts]
  · have hm : IsName m := hps m (by simp)
    have hlast : (ofParts (qs ++ [m])).getLast? = m.getLast? := by
      obtain ⟨c, hc⟩ := Option.ne_none_iff_exists'.1 (mt List.getLast?_eq_none_iff.1 hm.1)
      simp [ofParts, List.flatMap_append, List.getLast?_append, List.getLast?_cons, hc]
    have hslash : m.getLast? ≠ some '/' := fun h => hm.2.1 (List.mem_of_getLast? h)
    rw [List.concat_eq_append, join, hlast]
    simp [habsolute, ofParts_ne_nil, hslash]
    simp [ofParts]

end Path

namespace FileTree

variable {t : FileTree} {p q : Place} {x : FileEntry}

/-! ### What stands at a place -/

@[simp] theorem get?_root (t : FileTree) : t.get? [] = some .directory := rfl

@[simp] theorem isDirectoryAt_root (t : FileTree) : t.isDirectoryAt [] = true := rfl

theorem isDirectoryAt_iff : t.isDirectoryAt p = true ↔ t.get? p = some .directory := by
  simp [isDirectoryAt]

theorem find?_putEntry (p q : Place) (x : FileEntry) (es : List (Place × FileEntry)) :
    ((putEntry p x es).find? fun e => e.1 = q).map (·.2) =
      if q = p then some x else (es.find? fun e => e.1 = q).map (·.2) := by
  induction es with
  | nil =>
    by_cases h : p = q
    · simp [putEntry, h]
    · simp [putEntry, h, Ne.symm h]
  | cons e es ih =>
    obtain ⟨r, y⟩ := e
    unfold putEntry
    by_cases hr : r = p
    · rw [if_pos hr]
      by_cases h : p = q
      · simp [h]
      · simp [h, Ne.symm h, hr]
    · rw [if_neg hr, List.find?_cons, List.find?_cons]
      by_cases h : r = q
      · have hq : q ≠ p := h ▸ hr
        simp [h, hq]
      · simpa [h] using ih

/-- What is put at a place changes what stands there, and nothing else. -/
theorem get?_put (hp : p ≠ []) (x : FileEntry) (q : Place) :
    (t.put p x).get? q = if q = p then some x else t.get? q := by
  by_cases hq : q = []
  · rw [hq, if_neg (Ne.symm hp)]
    rfl
  · have hempty : ¬ (q.isEmpty = true) := by simpa using hq
    rw [get?, if_neg hempty, put, find?_putEntry, get?, if_neg hempty]

/-- What stands below the root is an entry of the tree. -/
theorem mem_entries_of_get? (hp : p ≠ []) (h : t.get? p = some x) : (p, x) ∈ t.entries := by
  have hempty : ¬ (p.isEmpty = true) := by simpa using hp
  rw [get?, if_neg hempty] at h
  obtain ⟨e, hfind, rfl⟩ := Option.map_eq_some_iff.1 h
  have hplace : e.1 = p := by simpa using List.find?_some hfind
  exact hplace ▸ List.mem_of_find?_eq_some hfind

theorem mem_putEntry {e : Place × FileEntry} {es : List (Place × FileEntry)}
    (h : e ∈ putEntry p x es) : e = (p, x) ∨ e ∈ es := by
  induction es with
  | nil => exact .inl (List.mem_singleton.1 h)
  | cons e' es ih =>
    unfold putEntry at h
    split at h
    · exact (List.mem_cons.1 h).imp_right (List.mem_cons_of_mem e')
    · rcases List.mem_cons.1 h with rfl | h
      · exact .inr (List.mem_cons_self ..)
      · exact (ih h).imp_right (List.mem_cons_of_mem e')

/-! ### Sound trees -/

/-- Places are made of names, and whatever stands in the tree stands in a directory. -/
structure IsSound (t : FileTree) : Prop where
  /-- The parts of places are names. -/
  names : ∀ e ∈ t.entries, ∀ n ∈ e.1, IsName n
  /-- Above each place there is a directory. -/
  nested : ∀ e ∈ t.entries, t.isDirectoryAt e.1.dropLast = true

instance (t : FileTree) : Decidable t.IsSound :=
  decidable_of_iff ((∀ e ∈ t.entries, ∀ n ∈ e.1, IsName n) ∧
    ∀ e ∈ t.entries, t.isDirectoryAt e.1.dropLast = true) ⟨fun h => ⟨h.1, h.2⟩, fun h => ⟨h.1, h.2⟩⟩

/-- What leads to something is names. -/
theorem IsSound.isName (h : t.IsSound) (hget : t.get? p = some x) : ∀ n ∈ p, IsName n := by
  by_cases hp : p = []
  · simp [hp]
  · exact h.names _ (mem_entries_of_get? hp hget)

/-- What leads to something is a directory. -/
theorem IsSound.isDirectoryAt_dropLast (h : t.IsSound) (hget : t.get? p = some x) :
    t.isDirectoryAt p.dropLast = true := by
  by_cases hp : p = []
  · simp [hp]
  · exact h.nested _ (mem_entries_of_get? hp hget)

/-- All places above a directory are directories. -/
theorem IsSound.isDirectoryAt_take (h : t.IsSound) (hp : t.isDirectoryAt p = true) (k : Nat) :
    t.isDirectoryAt (p.take k) = true := by
  induction hlen : p.length - k generalizing k with
  | zero => rwa [List.take_of_length_le (by omega)]
  | succ m ih =>
    have hnext := ih (k + 1) (by omega)
    have habove : (p.take (k + 1)).dropLast = p.take k := by
      rw [List.dropLast_eq_take, List.take_take, List.length_take]
      congr 1
      omega
    exact habove ▸ h.isDirectoryAt_dropLast (isDirectoryAt_iff.1 hnext)

/-- Putting something into a directory keeps a tree sound, as long as it does not take the place of a
directory in which something may stand. -/
theorem IsSound.put (h : t.IsSound) {n : Text} (hq : t.isDirectoryAt q = true) (hn : IsName n)
    (hx : t.get? (q ++ [n]) = some .directory → x = .directory) : (t.put (q ++ [n]) x).IsSound := by
  have hne : q ++ [n] ≠ [] := by simp
  have hdirectory {r : Place} (hr : t.isDirectoryAt r = true) :
      (t.put (q ++ [n]) x).isDirectoryAt r = true := by
    rw [isDirectoryAt_iff, get?_put hne]
    split
    · next heq => rw [hx (heq ▸ isDirectoryAt_iff.1 hr)]
    · exact isDirectoryAt_iff.1 hr
  constructor
  · intro e he
    rcases mem_putEntry he with rfl | he
    · simpa [or_imp, forall_and, hn] using h.isName (isDirectoryAt_iff.1 hq)
    · exact h.names e he
  · intro e he
    rcases mem_putEntry he with rfl | he
    · rw [List.dropLast_concat]
      exact hdirectory hq
    · exact hdirectory (h.nested e he)

/-! ### Following paths -/

/-- Names are followed one by one, through directories. -/
theorem follow_names (hq : ∀ n ∈ q, IsName n)
    (hdir : ∀ k < q.length, t.isDirectoryAt (p ++ q.take k) = true) : t.follow p q = .ok (p ++ q) := by
  induction q generalizing p with
  | nil => rw [List.append_nil, follow]
  | cons n q ih =>
    obtain ⟨⟨hne, -, hdot, hdots⟩, hq⟩ := List.forall_mem_cons.1 hq
    have hp : t.get? p = some .directory := by
      simpa [isDirectoryAt_iff] using hdir 0 (by simp)
    have hrest := ih (p := p ++ [n]) hq fun k hk => by
      simpa using hdir (k + 1) (by simpa using hk)
    rw [follow, hp]
    simpa [hne, hdot, hdots] using hrest

/-- The directories above a place exist. -/
def Reaches (t : FileTree) (p : Place) : Prop :=
  (∀ n ∈ p, IsName n) ∧ ∀ k < p.length, t.isDirectoryAt (p.take k) = true

/-- A directory of a sound tree can be reached, and so can any name in it. -/
theorem IsSound.reaches_append (h : t.IsSound) (hp : t.isDirectoryAt p = true) {n : Text}
    (hn : IsName n) : t.Reaches (p ++ [n]) := by
  have hnames := h.isName (isDirectoryAt_iff.1 hp)
  refine ⟨fun m hm => ?_, fun k hk => ?_⟩
  · rcases List.mem_append.1 hm with hm | hm
    · exact hnames m hm
    · exact List.mem_singleton.1 hm ▸ hn
  · rw [List.take_append_of_le_length (by simpa [Nat.lt_succ_iff] using hk)]
    exact h.isDirectoryAt_take hp k

/-- The absolute path of a place leads to it. -/
theorem resolve_ofParts (h : t.Reaches p) (cwd : Place) : t.resolve cwd (Path.ofParts p) = .ok p := by
  rw [resolve, if_neg (by simpa using Path.ofParts_ne_nil p), if_pos (Path.isAbsolute_ofParts p)]
  by_cases hp : p = []
  · rw [hp]
    rfl
  · rw [Path.cutAt_ofParts hp h.1, follow, get?_root]
    simpa using follow_names (p := []) h.1 (by simpa using h.2)

section Reaches

variable (h : t.Reaches p) (cwd : Place)

include h

theorem isDirectory_ofParts : t.isDirectory cwd (Path.ofParts p) = t.isDirectoryAt p := by
  rw [isDirectory, lookup, resolve_ofParts h]
  cases hget : t.get? p with
  | none => simp [hget, isDirectoryAt]
  | some x => cases x <;> simp [hget, isDirectoryAt]

theorem makeDirectory_ofParts (hdir : t.isDirectoryAt p.dropLast = true) :
    t.makeDirectory cwd (Path.ofParts p) =
      if (t.get? p).isSome then .error .alreadyExists else .ok (t.put p .directory) := by
  rw [makeDirectory, resolve_ofParts h]
  simp only [isDirectoryAt_iff.1 hdir]

theorem writeText_ofParts (hdir : t.isDirectoryAt p.dropLast = true) (text : Text) :
    t.writeText cwd (Path.ofParts p) text =
      if t.isDirectoryAt p then .error .isDirectory else .ok (t.put p (.file text.toBytes)) := by
  rw [writeText, resolve_ofParts h]
  simp [hdir]

end Reaches

/-- To create a directory inside another one, with all that is above it, is to create nothing else. -/
theorem makeDirectories_reverse {n : Text} (h : t.Reaches (q ++ [n]))
    (hq : t.isDirectoryAt q = true) :
    t.makeDirectories (q ++ [n]).reverse =
      match t.get? (q ++ [n]) with
      | none => (.ok (), t.put (q ++ [n]) .directory)
      | some .directory => (.ok (), t)
      | some (.file _) => (.error .alreadyExists, t) := by
  have hmake := makeDirectory_ofParts h [] (by rwa [List.dropLast_concat])
  have hdirectory := isDirectory_ofParts h []
  rw [List.reverse_append, List.reverse_singleton, List.singleton_append, makeDirectories]
  simp only [List.reverse_cons, List.reverse_reverse, hmake, hdirectory]
  cases hget : t.get? (q ++ [n]) with
  | none => simp
  | some x => cases x <;> simp [hget, isDirectoryAt]

end FileTree

end Sentential
