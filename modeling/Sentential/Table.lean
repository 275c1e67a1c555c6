import Sentential.Text.Basic

/-!
# Tables in the order of their keys

A table associates texts with values.  Its entries are kept in increasing order of their keys, where
texts are ordered by the code points of their characters; this agrees with the order of their bytes
in UTF-8.  A key occurs once, and writing to it again replaces its value.
-/

namespace Sentential

variable {α β : Type}

/-- Puts a value under a key into a list of entries that is ordered by keys. -/
def insertEntry (k : Text) (x : α) : List (Text × α) → List (Text × α)
  | [] => [(k, x)]
  | (k', x') :: rest =>
    if k < k' then (k, x) :: (k', x') :: rest
    else if k = k' then (k, x) :: rest
    else (k', x') :: insertEntry k x rest

/-- The value under a key in a list of entries. -/
def entryAt? (k : Text) (entries : List (Text × α)) : Option α :=
  (entries.find? fun e => e.1 = k).map (·.2)

/-- Keys increase strictly. -/
def KeysIncrease (entries : List (Text × α)) : Prop :=
  entries.Pairwise fun a b => a.1 < b.1

theorem mem_insertEntry {k : Text} {x : α} {entries : List (Text × α)} {e : Text × α}
    (h : e ∈ insertEntry k x entries) : e = (k, x) ∨ e ∈ entries := by
  induction entries with
  | nil => simpa [insertEntry] using h
  | cons head rest ih =>
    obtain ⟨k', x'⟩ := head
    unfold insertEntry at h
    split at h
    · simpa using h
    · split at h
      · rcases List.mem_cons.1 h with rfl | h
        · exact .inl rfl
        · exact .inr (List.mem_cons_of_mem _ h)
      · rcases List.mem_cons.1 h with rfl | h
        · exact .inr List.mem_cons_self
        · exact (ih h).imp_right (List.mem_cons_of_mem _)

theorem keysIncrease_insertEntry (k : Text) (x : α) {entries : List (Text × α)}
    (h : KeysIncrease entries) : KeysIncrease (insertEntry k x entries) := by
  unfold KeysIncrease at h ⊢
  induction entries with
  | nil => simp [insertEntry]
  | cons head rest ih =>
    obtain ⟨k', x'⟩ := head
    have hrest := List.pairwise_cons.1 h
    unfold insertEntry
    split
    · rename_i hlt
      refine List.pairwise_cons.2 ⟨fun e he => ?_, h⟩
      rcases List.mem_cons.1 he with rfl | he
      · exact hlt
      · exact List.lt_trans hlt (hrest.1 e he)
    · split
      · rename_i heq
        subst heq
        exact List.pairwise_cons.2 ⟨hrest.1, hrest.2⟩
      · rename_i hnot hne
        refine List.pairwise_cons.2 ⟨fun e he => ?_, ih hrest.2⟩
        rcases mem_insertEntry he with rfl | he
        · exact Decidable.byContradiction fun hge =>
            hne (List.le_antisymm (List.not_lt.1 hge) (List.not_lt.1 hnot))
        · exact hrest.1 e he

/-- Values under texts, in the order of the keys. -/
structure Table (α : Type) where
  /-- The entries, in the order of their keys. -/
  entries : List (Text × α)
  increasing : KeysIncrease entries
deriving DecidableEq

namespace Table

/-- The table without entries. -/
def empty : Table α :=
  ⟨[], .nil⟩

instance : Inhabited (Table α) :=
  ⟨empty⟩

/-- The value under a key. -/
def get? (t : Table α) (k : Text) : Option α :=
  entryAt? k t.entries

/-- Puts a value under a key, in place of the one that may be there. -/
def insert (t : Table α) (k : Text) (x : α) : Table α :=
  ⟨insertEntry k x t.entries, keysIncrease_insertEntry k x t.increasing⟩

/-- The table that results from writing entries in turn. -/
def ofList (entries : List (Text × α)) : Table α :=
  entries.foldl (fun t e => t.insert e.1 e.2) empty

end Table

end Sentential
