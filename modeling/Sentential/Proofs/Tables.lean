import Mathlib.Data.Char
import Mathlib.Data.List.Induction
import Mathlib.Data.List.Lex
import Mathlib.Tactic.Common
import Sentential.Proofs.InputLines
import Sentential.Table

/-!
# Tables and the order of their keys

A table is told by its values: what stands under a key after an entry has been put in
(`entryAt?_insertEntry`), which value counts when entries are written in turn (`Table.get?_ofList`), and
that two tables with the same values are the same (`Table.ext_get?`).

The keys are ordered by their characters.  This is the order of their bytes in UTF-8
(`Text.toBytes_lt_iff`): where two characters differ, so do their bytes at some place, in the same
direction.
-/

namespace Sentential

/-! ### The order of bytes -/

namespace Text

theorem ofNat_cons_lt_iff {m n : Nat} (hm : m < 256) (hn : n < 256) (bs bs' : Bytes) :
    UInt8.ofNat m :: bs < UInt8.ofNat n :: bs' ↔ m < n ∨ m = n ∧ bs < bs' := by
  rw [List.cons_lt_cons_iff, UInt8.lt_iff_toNat_lt, ← UInt8.toNat_inj]
  simp [Nat.mod_eq_of_lt hm, Nat.mod_eq_of_lt hn]

/-- The bytes of two characters are ordered as the characters are, whatever follows. -/
theorem utf8EncodeChar_append_lt {c d : Char} (h : c < d) (bs bs' : Bytes) :
    String.utf8EncodeChar c ++ bs < String.utf8EncodeChar d ++ bs' := by
  have hlt : c.val.toNat < d.val.toNat := h
  have hbound : d.val.toNat < 0x110000 := by
    rcases d.valid with hd | hd <;> omega
  -- the digits of both characters are taken from the same quotients
  have hdigits (k : Nat) : k / 4096 = k / 64 / 64 ∧ k / 262144 = k / 64 / 64 / 64 := by omega
  simp only [String.utf8EncodeChar, hdigits]
  generalize c.val.toNat = m at *
  generalize d.val.toNat = n at *
  split_ifs
  all_goals
    simp (disch := omega) only [List.cons_append, List.nil_append, ofNat_cons_lt_iff]
    omega

theorem toBytes_lt_toBytes {t u : Text} (h : t < u) : toBytes t < toBytes u := by
  induction (List.lt_iff_lex_lt _ _).1 h with
  | @nil c u =>
    obtain ⟨b, bs, hbytes⟩ := List.exists_cons_of_ne_nil (String.utf8EncodeChar_ne_nil (c := c))
    rw [toBytes_cons, hbytes]
    exact List.nil_lt_cons b _
  | rel hlt => exact utf8EncodeChar_append_lt hlt _ _
  | cons hlex ih => exact List.append_left_lt (ih ((List.lt_iff_lex_lt _ _).2 hlex))

/-- Texts are ordered as their bytes are. -/
theorem toBytes_lt_iff {t u : Text} : toBytes t < toBytes u ↔ t < u := by
  refine ⟨fun h => ?_, toBytes_lt_toBytes⟩
  rcases lt_trichotomy t u with hlt | rfl | hgt
  · exact hlt
  · exact absurd h (List.lt_irrefl _)
  · exact absurd h (List.lt_asymm (toBytes_lt_toBytes hgt))

theorem toBytes_le_iff {t u : Text} : toBytes t ≤ toBytes u ↔ t ≤ u :=
  List.not_lt.symm.trans ((not_congr toBytes_lt_iff).trans not_lt)

end Text

/-! ### Entries -/

variable {α : Type} {es : List (Text × α)} {k k' : Text} {x y : α}

@[simp] theorem entryAt?_nil : entryAt? k ([] : List (Text × α)) = none := rfl

theorem entryAt?_cons : entryAt? k ((k', x) :: es) = if k' = k then some x else entryAt? k es := by
  rw [entryAt?, List.find?_cons]
  by_cases h : k' = k
  · simp [h]
  · simp [h, entryAt?]

/-- An entry that is put in stands under its key, and all else stands as before. -/
theorem entryAt?_insertEntry (k' : Text) (x : α) (es : List (Text × α)) (k : Text) :
    entryAt? k (insertEntry k' x es) = if k' = k then some x else entryAt? k es := by
  induction es with
  | nil => rw [insertEntry, entryAt?_cons]
  | cons e es ih =>
    obtain ⟨k₁, y⟩ := e
    unfold insertEntry
    split
    · rw [entryAt?_cons]
    · split
      · next heq =>
        subst heq
        rw [entryAt?_cons, entryAt?_cons]
        split <;> rfl
      · next hne =>
        rw [entryAt?_cons, entryAt?_cons, ih]
        split
        · next h => rw [if_neg fun h' => hne (h'.trans h.symm)]
        · rfl

/-- What stands under a key is an entry with this key. -/
theorem mem_of_entryAt? (h : entryAt? k es = some x) : (k, x) ∈ es := by
  obtain ⟨e, hfind, rfl⟩ := Option.map_eq_some_iff.1 h
  have hkey : e.1 = k := by simpa using List.find?_some hfind
  exact hkey ▸ List.mem_of_find?_eq_some hfind

/-- Where keys increase, each entry stands under its key. -/
theorem entryAt?_eq_some_iff (h : KeysIncrease es) : entryAt? k es = some x ↔ (k, x) ∈ es := by
  refine ⟨mem_of_entryAt?, fun hmem => ?_⟩
  induction es with
  | nil => cases hmem
  | cons e es ih =>
    obtain ⟨hfirst, hrest⟩ := List.pairwise_cons.1 h
    obtain ⟨k₁, y⟩ := e
    rw [entryAt?_cons]
    rcases List.mem_cons.1 hmem with heq | hmem
    · cases heq
      exact if_pos rfl
    · rw [if_neg (hfirst _ hmem).ne]
      exact ih hrest hmem

/-- Entries whose keys increase are told by what stands under the keys. -/
theorem KeysIncrease.eq_of_entryAt? {es' : List (Text × α)} (h : KeysIncrease es)
    (h' : KeysIncrease es') (hentry : ∀ k, entryAt? k es = entryAt? k es') : es = es' := by
  have hnodup {fs : List (Text × α)} (hfs : KeysIncrease fs) : fs.Nodup :=
    hfs.imp fun hlt heq => absurd (heq ▸ hlt) (List.lt_irrefl _)
  have hperm : es.Perm es' := (List.perm_ext_iff_of_nodup (hnodup h) (hnodup h')).2 fun e => by
    rw [← entryAt?_eq_some_iff h, ← entryAt?_eq_some_iff h', hentry]
  exact hperm.eq_of_pairwise (fun _ _ _ _ hlt hgt => absurd hgt (List.lt_asymm hlt)) h h'

/-- Of the entries that pass a test, the last one has the greatest key. -/
theorem KeysIncrease.find?_reverse_eq_some_iff (h : KeysIncrease es) {p : Text × α → Bool}
    {e : Text × α} : es.reverse.find? p = some e ↔
      e ∈ es ∧ p e = true ∧ ∀ e' ∈ es, p e' = true → e'.1 ≤ e.1 := by
  induction es using List.reverseRecOn with
  | nil => simp
  | append_singleton es last ih =>
    obtain ⟨hinit, -, hlast⟩ := List.pairwise_append.1 h
    have hlast {e' : Text × α} (he' : e' ∈ es) : e'.1 < last.1 := hlast e' he' last (by simp)
    rw [List.reverse_append, List.reverse_singleton, List.singleton_append, List.find?_cons]
    cases hp : p last with
    | true =>
      constructor
      · rintro ⟨⟩
        refine ⟨by simp, hp, fun e' he' _ => ?_⟩
        rcases List.mem_append.1 he' with he' | he'
        · exact (hlast he').le
        · exact (List.mem_singleton.1 he') ▸ le_rfl
      · rintro ⟨hmem, -, hgreatest⟩
        rcases List.mem_append.1 hmem with hmem | hmem
        · exact absurd (hlast hmem) (hgreatest last (by simp) hp).not_gt
        · rw [List.mem_singleton.1 hmem]
    | false =>
      rw [ih hinit]
      constructor
      · rintro ⟨hmem, hpe, hgreatest⟩
        refine ⟨List.mem_append_left _ hmem, hpe, fun e' he' hpe' => ?_⟩
        rcases List.mem_append.1 he' with he' | he'
        · exact hgreatest e' he' hpe'
        · rw [List.mem_singleton.1 he', hp] at hpe'
          cases hpe'
      · rintro ⟨hmem, hpe, hgreatest⟩
        rcases List.mem_append.1 hmem with hmem | hmem
        · exact ⟨hmem, hpe, fun e' he' => hgreatest e' (List.mem_append_left _ he')⟩
        · rw [List.mem_singleton.1 hmem, hp] at hpe
          cases hpe

/-! ### Tables -/

namespace Table

theorem get?_eq_some_iff {t : Table α} : t.get? k = some x ↔ (k, x) ∈ t.entries :=
  entryAt?_eq_some_iff t.increasing

/-- Tables with the same values are the same. -/
theorem ext_get? {t u : Table α} (h : ∀ k, t.get? k = u.get? k) : t = u := by
  cases t with
  | mk es hes =>
    cases u with
    | mk es' hes' =>
      obtain rfl : es = es' := hes.eq_of_entryAt? hes' h
      rfl

theorem get?_insert (t : Table α) (k' : Text) (x : α) (k : Text) :
    (t.insert k' x).get? k = if k' = k then some x else t.get? k :=
  entryAt?_insertEntry k' x t.entries k

/-- Of the entries that are written under a key, the last one counts. -/
theorem get?_ofList (es : List (Text × α)) (k : Text) :
    (ofList es).get? k = (es.reverse.find? fun e => e.1 = k).map (·.2) := by
  induction es using List.reverseRecOn with
  | nil => rfl
  | append_singleton es e ih =>
    rw [ofList, List.foldl_append, List.foldl_cons, List.foldl_nil, ← ofList, get?_insert, ih,
      List.reverse_append, List.reverse_singleton, List.singleton_append, List.find?_cons]
    by_cases h : e.1 = k <;> simp [h]

/-- A table is what results from writing its entries. -/
theorem ofList_entries (t : Table α) : ofList t.entries = t := by
  refine ext_get? fun k => ?_
  rw [get?_ofList]
  cases hfind : t.entries.reverse.find? fun e => e.1 = k with
  | none =>
    have hnone : ∀ x, t.get? k ≠ some x := fun x hx => by
      simpa using List.find?_eq_none.1 hfind _ (List.mem_reverse.2 (get?_eq_some_iff.1 hx))
    exact (Option.eq_none_iff_forall_ne_some.2 hnone).symm
  | some e =>
    have hkey : e.1 = k := by simpa using List.find?_some hfind
    have hmem : (k, e.2) ∈ t.entries :=
      hkey ▸ List.mem_reverse.1 (List.mem_of_find?_eq_some hfind)
    exact (get?_eq_some_iff.2 hmem).symm

end Table

end Sentential
