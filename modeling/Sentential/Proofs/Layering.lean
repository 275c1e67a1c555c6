import Mathlib.Data.List.Induction
import Mathlib.Tactic.Common
import Sentential.Proofs.DocumentLayers

/-!
# Layers of settings

Layers are merged key by key, so that the value of a setting is told by the values that the layers have
under its key (`Datum.entryAt?_mergeEntries`).
-/

namespace Sentential

/-! ### Merging -/

namespace Datum

variable {es es' base : List (Text × Datum)} {k k' : Text} {value below : Datum}

/-- Whether a value is a dictionary. -/
def isDict : Datum → Bool
  | dict _ => true
  | _ => false

/-- A value laid over what stands below it, if anything does. -/
def onTop (below : Option Datum) (value : Datum) : Datum :=
  below.elim value (merge · value)

/-- Only a dictionary is merged with what stands below it. -/
theorem onTop_of_isDict (h : value.isDict = false) (below : Option Datum) : onTop below value = value := by
  cases below with
  | none => rfl
  | some below =>
    rw [onTop, Option.elim_some, merge.eq_def]
    split
    · cases h
    · rfl

/-- A dictionary is merged with a dictionary. -/
theorem onTop_dict (base es : List (Text × Datum)) :
    onTop (some (dict base)) (dict es) = dict (mergeEntries base es) := by
  rw [onTop, Option.elim_some, merge.eq_def]

theorem onTop_of_isDict_below (h : below.isDict = false) (value : Datum) :
    onTop (some below) value = value := by
  rw [onTop, Option.elim_some, merge.eq_def]
  split
  · cases h
  · rfl

/-- A value does not stand for nothing, and neither do the entries of a dictionary. -/
def IsFull (value : Datum) : Prop :=
  value ≠ null ∧ ∀ es, value = dict es → ∀ e ∈ es, e.2 ≠ null

theorem mergeEntries_nil (base : List (Text × Datum)) : mergeEntries base [] = base := by
  rw [mergeEntries]

theorem mergeEntries_cons (base : List (Text × Datum)) (k : Text) (value : Datum)
    (es : List (Text × Datum)) : mergeEntries base ((k, value) :: es) =
      mergeEntries (insertEntry k (onTop (entryAt? k base) value) base) es := by
  rw [mergeEntries]
  cases entryAt? k base <;> rfl

theorem mergeEntries_append (base es es' : List (Text × Datum)) :
    mergeEntries base (es ++ es') = mergeEntries (mergeEntries base es) es' := by
  induction es generalizing base with
  | nil => rw [List.nil_append, mergeEntries_nil]
  | cons e es ih => rw [List.cons_append, mergeEntries_cons, mergeEntries_cons, ih]

theorem exists_onTop_eq_dict (h : value.isDict = true) (below : Option Datum) :
    ∃ es, onTop below value = dict es := by
  cases value with
  | dict es =>
    cases below with
    | none => exact ⟨es, rfl⟩
    | some below =>
      rw [onTop, Option.elim_some, merge.eq_def]
      split
      · exact ⟨_, rfl⟩
      · exact ⟨es, rfl⟩
  | null | bool | number | text | list => cases h

theorem onTop_ne_null (h : value ≠ null) (below : Option Datum) : onTop below value ≠ null := by
  cases below with
  | none => exact h
  | some below =>
    rw [onTop, Option.elim_some, merge.eq_def]
    split
    · simp
    · exact h

theorem forall_ne_null_mergeEntries (hbase : ∀ e ∈ base, e.2 ≠ null) (hes : ∀ e ∈ es, e.2 ≠ null) :
    ∀ e ∈ mergeEntries base es, e.2 ≠ null := by
  induction es generalizing base with
  | nil => rwa [mergeEntries_nil]
  | cons e es ih =>
    obtain ⟨hfirst, hrest⟩ := List.forall_mem_cons.1 hes
    rw [mergeEntries_cons]
    refine ih (fun e' he' => ?_) hrest
    rcases mem_insertEntry he' with rfl | he'
    · exact onTop_ne_null hfirst _
    · exact hbase e' he'

theorem IsFull.onTop (hvalue : value.IsFull) {below : Option Datum}
    (hbelow : ∀ b, below = some b → b.IsFull) : (onTop below value).IsFull := by
  refine ⟨onTop_ne_null hvalue.1 below, fun es hes => ?_⟩
  cases below with
  | none => exact hvalue.2 es hes
  | some below =>
    rw [Datum.onTop, Option.elim_some, merge.eq_def] at hes
    split at hes
    · next base entries =>
      cases hes
      exact forall_ne_null_mergeEntries ((hbelow _ rfl).2 _ rfl) (hvalue.2 _ rfl)
    · exact hvalue.2 es hes

theorem keysIncrease_mergeEntries (hbase : KeysIncrease base) (es : List (Text × Datum)) :
    KeysIncrease (mergeEntries base es) := by
  induction es generalizing base with
  | nil => rwa [mergeEntries_nil]
  | cons e es ih =>
    rw [mergeEntries_cons]
    exact ih (keysIncrease_insertEntry _ _ hbase)

/-- The value under a key is that of the upper dictionary, laid over that of the lower one. -/
theorem entryAt?_mergeEntries (hes : KeysIncrease es) (base : List (Text × Datum)) (k : Text) :
    entryAt? k (mergeEntries base es) =
      match entryAt? k es with
      | some value => some (onTop (entryAt? k base) value)
      | none => entryAt? k base := by
  induction es generalizing base with
  | nil => rw [mergeEntries_nil, entryAt?_nil]
  | cons e es ih =>
    obtain ⟨k₁, value⟩ := e
    obtain ⟨hfirst, hrest⟩ := List.pairwise_cons.1 hes
    rw [mergeEntries_cons, ih hrest, entryAt?_insertEntry, entryAt?_cons]
    by_cases hk : k₁ = k
    · subst hk
      have hnone : entryAt? k₁ es = none := Option.eq_none_iff_forall_ne_some.2 fun x hx =>
        (hfirst _ (mem_of_entryAt? hx)).ne rfl
      simp [hnone]
    · simp [hk]

/-- What stands for nothing in a merged dictionary stood so in the lower one. -/
theorem mem_of_null_mem_mergeEntries (hes : ∀ e ∈ es, e.2 ≠ null) (h : (k, null) ∈ mergeEntries base es) :
    (k, null) ∈ base := by
  induction es generalizing base with
  | nil => rwa [mergeEntries_nil] at h
  | cons e es ih =>
    obtain ⟨hfirst, hrest⟩ := List.forall_mem_cons.1 hes
    rw [mergeEntries_cons] at h
    rcases mem_insertEntry (ih hrest h) with heq | hmem
    · exact absurd (Prod.mk.inj heq).2.symm (onTop_ne_null hfirst _)
    · exact hmem

/-- Merging keeps the keys of the lower dictionary. -/
theorem isSome_entryAt?_mergeEntries (h : (entryAt? k base).isSome = true) (es : List (Text × Datum)) :
    (entryAt? k (mergeEntries base es)).isSome = true := by
  induction es generalizing base with
  | nil => rwa [mergeEntries_nil]
  | cons e es ih =>
    rw [mergeEntries_cons]
    refine ih ?_
    rw [entryAt?_insertEntry]
    split
    · rfl
    · exact h

end Datum

/-! ### The environment -/

namespace Override

variable {fuel : Nat} {t rest : Text} {x : Datum}

/-- A word never stands for nothing, nor for a dictionary. -/
theorem wordValue_ne (word : Text) : wordValue word ≠ .null ∧ (wordValue word).isDict = false := by
  unfold wordValue
  dsimp only
  split_ifs <;> exact ⟨by simp, rfl⟩

/-- A value never stands for nothing, and neither do the entries of a dictionary. -/
theorem readValue_eq_some (h : readValue (fuel + 1) t = some (x, rest)) :
    x ≠ .null ∧ ∀ es, x = .dict es → ∃ t rest, readEntries fuel [] t = some (es, rest) := by
  rw [readValue] at h
  simp only [Option.map_eq_some_iff] at h
  obtain ⟨r, hr, heq⟩ := h
  obtain ⟨rfl, -⟩ := Prod.mk.inj heq
  have hplain {x : Datum} (hx : x ≠ .null) (hdict : x.isDict = false) :
      x ≠ .null ∧ ∀ es, x = .dict es → ∃ t rest, readEntries fuel [] t = some (es, rest) :=
    ⟨hx, fun es h => by cases h; cases hdict⟩
  split at hr
  case h_1 | h_2 =>
    cases hr
    exact hplain (by simp) rfl
  case h_3 =>
    split at hr
    case h_1 =>
      cases hr
      exact hplain (by simp) rfl
    case h_2 =>
      split_ifs at hr
      · obtain ⟨items, -, rfl⟩ := Option.map_eq_some_iff.1 hr
        exact hplain (by simp) rfl
      · obtain ⟨⟨es, rest'⟩, hes, rfl⟩ := Option.map_eq_some_iff.1 hr
        exact ⟨by simp, fun es' h => by cases h; exact ⟨_, _, hes⟩⟩
      · obtain ⟨text, -, rfl⟩ := Option.map_eq_some_iff.1 hr
        exact hplain (by simp) rfl
      · split at hr
        · split_ifs at hr
          cases hr
          exact hplain (by simp) rfl
        · cases hr
      · cases hr
        exact hplain (wordValue_ne _).1 (wordValue_ne _).2

/-- The entries of a dictionary do not stand for nothing. -/
theorem ne_null_of_readEntries {acc es : List (Text × Datum)}
    (h : readEntries fuel acc t = some (es, rest)) (hacc : ∀ e ∈ acc, e.2 ≠ .null) :
    ∀ e ∈ es, e.2 ≠ .null := by
  induction fuel generalizing acc t with
  | zero =>
    rw [readEntries] at h
    cases h
  | succ fuel ih =>
    rw [readEntries] at h
    split at h
    · cases h
      exact hacc
    · split at h
      case h_2 => cases h
      case h_1 k value _ =>
        split at h
        case h_2 => cases h
        case h_1 x c more hx =>
          have hinsert : ∀ e ∈ insertEntry k x acc, e.2 ≠ .null := fun e he => by
            rcases mem_insertEntry he with rfl | he
            · cases fuel with
              | zero =>
                rw [readValue] at hx
                cases hx
              | succ fuel => exact (readValue_eq_some hx).1
            · exact hacc e he
          split_ifs at h
          · exact ih h hinsert
          · cases h
            exact hinsert

theorem isFull_value (t : Text) : (value t).IsFull := by
  unfold value
  split
  · next x hx =>
    obtain ⟨hne, hdict⟩ := readValue_eq_some hx
    refine ⟨hne, fun es hes => ?_⟩
    obtain ⟨t', rest, hentries⟩ := hdict es hes
    exact ne_null_of_readEntries hentries (by simp)
  · exact ⟨by simp, fun es hes => by cases hes⟩

end Override

namespace Settings

variable {env : Environment} {key : Text}

/-- The variables for a setting have its name behind `CPC_`, in any case, and perhaps white space around
it. -/
def IsFor (key name : Text) : Prop :=
  name.trim.map Char.toLower = "cpc_".toList ++ key

instance (key name : Text) : Decidable (IsFor key name) :=
  inferInstanceAs (Decidable (_ = _))

theorem overridden?_eq_some_iff {name : Text} :
    overridden? name = some key ↔ (key = jsonKey ∨ key = colorKey) ∧ IsFor key name := by
  have hjson : "cpc_".toList ++ jsonKey = "cpc_json".toList := by decide
  have hcolor : "cpc_".toList ++ colorKey = "cpc_color".toList := by decide
  simp only [overridden?, IsFor]
  split_ifs with h h'
  · constructor
    · rintro ⟨⟩
      exact ⟨.inl rfl, h.trans hjson.symm⟩
    · rintro ⟨rfl | rfl, hname⟩
      · rfl
      · exact absurd (h.symm.trans (hname.trans hcolor)) (by decide)
  · constructor
    · rintro ⟨⟩
      exact ⟨.inr rfl, h'.trans hcolor.symm⟩
    · rintro ⟨rfl | rfl, hname⟩
      · exact absurd (hname.trans hjson) h
      · rfl
  · refine iff_of_false (by simp) ?_
    rintro ⟨rfl | rfl, hname⟩
    · exact h (hname.trans hjson)
    · exact h' (hname.trans hcolor)

/-- The value that the environment has for a setting: that of the last variable for it. -/
def setting? (env : Environment) (key : Text) : Option Datum :=
  (env.filter fun e => IsFor key e.1).getLast?.map fun e => Override.value e.2

/-- How the value that the layer of an environment holds for a setting depends on the last variable for
it: it is that of the variable, unless this is a dictionary, which is merged with those before it. -/
structure Holds (held last : Option Datum) : Prop where
  /-- Where there is no variable, nothing is held. -/
  eq_none : last = none → held = none
  /-- What is held is a dictionary only if the last variable has one. -/
  eq_last : ∀ value, last = some value → value.isDict = false → held = some value
  /-- A dictionary among others stays one. -/
  exists_dict : ∀ value, last = some value → value.isDict = true → ∃ es, held = some (.dict es)
  /-- Nothing that is held stands for nothing. -/
  isFull : ∀ value, held = some value → value.IsFull

theorem setting?_append_singleton (env : Environment) (e : Text × Text) (key : Text) :
    setting? (env ++ [e]) key =
      if IsFor key e.1 then some (Override.value e.2) else setting? env key := by
  rw [setting?, List.filter_append, List.filter_singleton]
  by_cases h : IsFor key e.1 <;> simp [h, setting?]

theorem entryAt?_overrides_append_singleton (env : Environment) (e : Text × Text) (key : Text) :
    entryAt? key (overrides (env ++ [e])) =
      if overridden? e.1 = some key then
        some (Datum.onTop (entryAt? key (overrides env)) (Override.value e.2))
      else entryAt? key (overrides env) := by
  rw [overrides, List.filterMap_append, Datum.mergeEntries_append, ← overrides]
  cases hname : overridden? e.1 with
  | none => simp [hname, Datum.mergeEntries_nil]
  | some key' =>
    simp only [List.filterMap_cons, hname, Option.map_some, List.filterMap_nil, Option.some.injEq,
      Datum.mergeEntries_cons, Datum.mergeEntries_nil, entryAt?_insertEntry]
    by_cases hkey : key' = key
    · simp [hkey]
    · simp [hkey]

theorem holds_overrides (env : Environment) (hkey : key = jsonKey ∨ key = colorKey) :
    Holds (entryAt? key (overrides env)) (setting? env key) := by
  induction env using List.reverseRecOn with
  | nil => exact ⟨fun _ => rfl, nofun, nofun, nofun⟩
  | append_singleton env e ih =>
    simp only [setting?_append_singleton, entryAt?_overrides_append_singleton, overridden?_eq_some_iff,
      hkey, true_and]
    split
    case isFalse => exact ih
    case isTrue =>
      constructor
      case eq_none => nofun
      case eq_last =>
        rintro _ ⟨⟩ hdict
        rw [Datum.onTop_of_isDict hdict]
      case exists_dict =>
        rintro _ ⟨⟩ hdict
        obtain ⟨es, hes⟩ := Datum.exists_onTop_eq_dict hdict (entryAt? key (overrides env))
        exact ⟨es, congrArg some hes⟩
      case isFull =>
        rintro _ ⟨⟩
        exact (Override.isFull_value e.2).onTop ih.isFull

/-- The environment has nothing to say about the other settings. -/
theorem entryAt?_overrides_eq_none (env : Environment) (hkey : ¬ (key = jsonKey ∨ key = colorKey)) :
    entryAt? key (overrides env) = none := by
  induction env using List.reverseRecOn with
  | nil => rfl
  | append_singleton env e ih =>
    rw [entryAt?_overrides_append_singleton, if_neg (fun h => hkey (overridden?_eq_some_iff.1 h).1), ih]

theorem keysIncrease_overrides (env : Environment) : KeysIncrease (overrides env) :=
  Datum.keysIncrease_mergeEntries List.Pairwise.nil _

/-- Whether a variable is for one of the settings that the environment may override. -/
def isOverride (name : Text) : Bool :=
  decide (IsFor jsonKey name) || decide (IsFor colorKey name)

/-- The other variables do not matter. -/
theorem overrides_filter (env : Environment) :
    overrides (env.filter fun e => isOverride e.1) = overrides env := by
  have hother {e : Text × Text} (h : isOverride e.1 = false) : overridden? e.1 = none := by
    rw [Option.eq_none_iff_forall_ne_some]
    intro key hkey
    obtain ⟨rfl | rfl, hname⟩ := overridden?_eq_some_iff.1 hkey <;> simp [isOverride, hname] at h
  rw [overrides, overrides, List.filterMap_filter]
  congr 2
  funext e
  split
  · rfl
  · next h => rw [hother (eq_false_of_ne_true h), Option.map_none]

/-! ### The fields -/

section Fields

variable {layer es : List (Text × Datum)} {s : Settings}

/-- The fields of settings are read one by one. -/
theorem ofEntries?_eq_some_iff : ofEntries? es = some s ↔
    (entryAt? jsonKey es).elim (some false) readFlag? = some s.json ∧
    (entryAt? colorKey es).elim (some .auto) readColor? = some s.color ∧
    (entryAt? negationKey es).elim (some ([], [])) readNegation? =
      some (s.extraSuffixes, s.extraForms) ∧
    (entryAt? meaningsKey es).elim (some .empty) readTexts? = some s.meanings := by
  obtain ⟨json, color, suffixes, forms, meanings⟩ := s
  simp only [ofEntries?, Option.bind_eq_bind, Option.bind_eq_some_iff, Option.pure_def,
    Option.some.injEq, Settings.mk.injEq]
  constructor
  · rintro ⟨_, hjson, _, hcolor, negation, hnegation, _, hmeanings, rfl, rfl, rfl, rfl, rfl⟩
    exact ⟨hjson, hcolor, hnegation, hmeanings⟩
  · rintro ⟨hjson, hcolor, hnegation, hmeanings⟩
    exact ⟨_, hjson, _, hcolor, _, hnegation, _, hmeanings, rfl, rfl, rfl, rfl, rfl⟩

/-- The value of a setting, where no dictionary is merged: that of the uppermost layer that has one. -/
def topValue (env layer : Option Datum) (default : Datum) : Datum :=
  (env <|> layer).getD default

/-- How the fields that the environment may override are told by the layers. -/
structure IsLayered (layer : List (Text × Datum)) (env : Environment) (s : Settings) : Prop where
  /-- Whether output is JSON is told by the environment, else by the document, else by the default. -/
  json : readFlag? (topValue (setting? env jsonKey) (entryAt? jsonKey layer) (.bool false)) = some s.json
  /-- So is when output is colored, where a dictionary in the environment does not count. -/
  color : readColor? (topValue ((setting? env colorKey).filter fun value => !value.isDict)
    (entryAt? colorKey layer) (.text ColorMode.auto.word)) = some s.color

/-- A dictionary of the environment does not change the mode that is read, if one can still be read. -/
theorem readColor?_of_onTop {below : Datum} (hbelow : below.IsOrdered) (hes : ∀ e ∈ es, e.2 ≠ .null)
    {mode : ColorMode} (h : readColor? (Datum.onTop (some below) (.dict es)) = some mode) :
    readColor? below = some mode := by
  cases hdict : below.isDict with
  | false =>
    rw [Datum.onTop_of_isDict_below hdict] at h
    match es with
    | [] => cases h
    | (k, .null) :: _ => exact absurd rfl (hes (k, .null) List.mem_cons_self)
    | (_, .bool _) :: _ | (_, .number _) :: _ | (_, .text _) :: _ | (_, .list _) :: _
    | (_, .dict _) :: _ => cases h
  | true =>
    obtain ⟨bs, rfl⟩ : ∃ bs, below = .dict bs := Datum.exists_onTop_eq_dict hdict none
    have hbs := hbelow bs rfl
    rw [Datum.onTop_dict] at h
    have hmerged := Datum.keysIncrease_mergeEntries hbs es
    generalize hm : Datum.mergeEntries bs es = merged at h hmerged
    match merged, h with
    | (k, .null) :: rest, h =>
      -- the first key of the merged dictionary is that of the lower one
      have hnull : (k, .null) ∈ bs :=
        Datum.mem_of_null_mem_mergeEntries hes (hm ▸ List.mem_cons_self)
      match bs, hbs, hnull with
      | (k₀, x₀) :: bs, hbs, hnull =>
        rcases List.mem_cons.1 hnull with heq | hlater
        · cases heq
          exact h
        · have hlt : k₀ < k := (List.pairwise_cons.1 hbs).1 _ hlater
          have hhead : (entryAt? k₀ ((k₀, x₀) :: bs)).isSome = true := by simp [entryAt?_cons]
          have hsome := Datum.isSome_entryAt?_mergeEntries hhead es
          obtain ⟨y, hy⟩ := Option.isSome_iff_exists.1 hsome
          rcases List.mem_cons.1 (hm ▸ mem_of_entryAt? hy) with heq | hmem
          · exact absurd (Prod.mk.inj heq).1 hlt.ne
          · exact absurd ((List.pairwise_cons.1 hmerged).1 _ hmem) (lt_asymm hlt)

/-- The value of a setting in the merged layers, where the default is no dictionary. -/
theorem entryAt?_merged (hlayer : KeysIncrease layer) (env : Environment) {key : Text} {default : Datum}
    (hdefault : entryAt? key defaultLayer = some default) (hplain : default.isDict = false) :
    entryAt? key (Datum.mergeEntries (Datum.mergeEntries defaultLayer layer) (overrides env)) =
      some ((entryAt? key (overrides env)).elim ((entryAt? key layer).getD default)
        (Datum.onTop (some ((entryAt? key layer).getD default)))) := by
  have hbelow : entryAt? key (Datum.mergeEntries defaultLayer layer) =
      some ((entryAt? key layer).getD default) := by
    rw [Datum.entryAt?_mergeEntries hlayer, hdefault]
    cases entryAt? key layer with
    | none => rfl
    | some value => exact congrArg some (Datum.onTop_of_isDict_below hplain value)
  rw [Datum.entryAt?_mergeEntries (keysIncrease_overrides env), hbelow]
  cases entryAt? key (overrides env) <;> rfl

/-- Where the environment sets no dictionary, the merged value is that of the uppermost layer. -/
theorem entryAt?_merged_eq_topValue (hlayer : KeysIncrease layer) {env : Environment} {key : Text}
    (hkey : key = jsonKey ∨ key = colorKey) {default : Datum}
    (hdefault : entryAt? key defaultLayer = some default) (hplain : default.isDict = false)
    (hdict : ∀ value, setting? env key = some value → value.isDict = false) :
    entryAt? key (Datum.mergeEntries (Datum.mergeEntries defaultLayer layer) (overrides env)) =
      some (topValue (setting? env key) (entryAt? key layer) default) := by
  have hholds := holds_overrides env hkey
  rw [entryAt?_merged hlayer env hdefault hplain]
  cases hlast : setting? env key with
  | none =>
    rw [hholds.eq_none hlast]
    rfl
  | some value =>
    rw [hholds.eq_last value hlast (hdict value hlast), Option.elim_some,
      Datum.onTop_of_isDict (hdict value hlast)]
    rfl

/-- A dictionary in the environment is laid over what stands below. -/
theorem exists_entryAt?_merged_eq (hlayer : KeysIncrease layer) {env : Environment} {key : Text}
    (hkey : key = jsonKey ∨ key = colorKey) {default value : Datum}
    (hdefault : entryAt? key defaultLayer = some default) (hplain : default.isDict = false)
    (hlast : setting? env key = some value) (hdict : value.isDict = true) :
    ∃ es, (∀ e ∈ es, e.2 ≠ .null) ∧
      entryAt? key (Datum.mergeEntries (Datum.mergeEntries defaultLayer layer) (overrides env)) =
        some (Datum.onTop (some ((entryAt? key layer).getD default)) (.dict es)) := by
  have hholds := holds_overrides env hkey
  obtain ⟨es, hes⟩ := hholds.exists_dict value hlast hdict
  refine ⟨es, (hholds.isFull _ hes).2 es rfl, ?_⟩
  rw [entryAt?_merged hlayer env hdefault hplain, hes, Option.elim_some]

theorem isLayered_of_merge? (hlayer : KeysIncrease layer) (hordered : ∀ e ∈ layer, e.2.IsOrdered)
    {env : Environment} (h : merge? layer env = some s) : IsLayered layer env s := by
  obtain ⟨hjson, hcolor, -, -⟩ := ofEntries?_eq_some_iff.1 h
  have hjsonDefault : entryAt? jsonKey defaultLayer = some (.bool false) := rfl
  have hcolorDefault : entryAt? colorKey defaultLayer = some (.text ColorMode.auto.word) := rfl
  constructor
  case json =>
    by_cases hdict : ∀ value, setting? env jsonKey = some value → value.isDict = false
    · rwa [entryAt?_merged_eq_topValue hlayer (.inl rfl) hjsonDefault rfl hdict] at hjson
    · -- no dictionary is read as a truth value
      simp only [not_forall, Bool.not_eq_false] at hdict
      obtain ⟨value, hlast, hdict⟩ := hdict
      obtain ⟨es, -, hes⟩ := exists_entryAt?_merged_eq hlayer (.inl rfl) hjsonDefault rfl hlast hdict
      have hupper : (Datum.dict es).isDict = true := rfl
      obtain ⟨es', hes'⟩ := Datum.exists_onTop_eq_dict hupper
        (some ((entryAt? jsonKey layer).getD (.bool false)))
      rw [hes, hes'] at hjson
      cases hjson
  case color =>
    by_cases hdict : ∀ value, setting? env colorKey = some value → value.isDict = false
    · rw [entryAt?_merged_eq_topValue hlayer (.inr rfl) hcolorDefault rfl hdict] at hcolor
      have hfilter : (setting? env colorKey).filter (fun value => !value.isDict) =
          setting? env colorKey := by
        cases hvalue : setting? env colorKey with
        | none => rfl
        | some value => simp [hdict value hvalue]
      rwa [hfilter]
    · simp only [not_forall, Bool.not_eq_false] at hdict
      obtain ⟨value, hlast, hdict⟩ := hdict
      obtain ⟨es, hnull, hes⟩ := exists_entryAt?_merged_eq hlayer (.inr rfl) hcolorDefault rfl hlast hdict
      rw [hes] at hcolor
      rw [hlast, Option.filter_some, if_neg (by simp [hdict])]
      refine readColor?_of_onTop ?_ hnull hcolor
      cases hfile : entryAt? colorKey layer with
      | none => exact fun es h => by cases h
      | some file => exact hordered _ (mem_of_entryAt? hfile)

/-- The other fields do not depend on the environment. -/
theorem eq_of_merge? {env env' : Environment} {s' : Settings} (h : merge? layer env = some s)
    (h' : merge? layer env' = some s') : s.extraSuffixes = s'.extraSuffixes ∧
      s.extraForms = s'.extraForms ∧ s.meanings = s'.meanings := by
  have hbelow (env : Environment) {key : Text} (hkey : ¬ (key = jsonKey ∨ key = colorKey)) :
      entryAt? key (Datum.mergeEntries (Datum.mergeEntries defaultLayer layer) (overrides env)) =
        entryAt? key (Datum.mergeEntries defaultLayer layer) := by
    rw [Datum.entryAt?_mergeEntries (keysIncrease_overrides env), entryAt?_overrides_eq_none env hkey]
  obtain ⟨-, -, hnegation, hmeanings⟩ := ofEntries?_eq_some_iff.1 h
  obtain ⟨-, -, hnegation', hmeanings'⟩ := ofEntries?_eq_some_iff.1 h'
  rw [hbelow env (by decide)] at hnegation hmeanings
  rw [hbelow env' (by decide)] at hnegation' hmeanings'
  have hlists := Option.some.inj (hnegation.symm.trans hnegation')
  exact ⟨(Prod.mk.inj hlists).1, (Prod.mk.inj hlists).2, Option.some.inj (hmeanings.symm.trans hmeanings')⟩

end Fields

/-! ### Files -/

section Files

variable {t : FileTree} {cwd : Place} {directory : Text} {env : Environment} {s : Settings}

/-- The layer of the file of settings in a directory.  A missing file has no entries. -/
def fileLayer? (t : FileTree) (cwd : Place) (directory : Text) :
    Except SettingsError (List (Text × Datum)) :=
  if t.contains cwd (Path.join directory fileName) then
    match t.readText cwd (Path.join directory fileName) with
    | .ok document =>
      match documentLayer? document with
      | some layer => .ok layer
      | none => .error .malformed
    | .error e => .error (.unusable e)
  else .ok []

/-- Settings are loaded by merging the layer of the file. -/
theorem load_eq (t : FileTree) (cwd : Place) (directory : Text) (env : Environment) :
    load t cwd directory env = (fileLayer? t cwd directory).bind fun layer =>
      match merge? layer env with
      | some s => .ok s
      | none => .error .malformed := by
  have hempty : documentLayer? [] = some [] := rfl
  simp only [load, fileLayer?]
  split
  · cases t.readText cwd (Path.join directory fileName) with
    | error e => rfl
    | ok document =>
      simp only [ofDocument]
      cases documentLayer? document <;> rfl
  · rw [ofDocument, hempty]
    rfl

/-- Settings that are loaded are merged from the layer of the file. -/
theorem exists_fileLayer?_of_load (h : load t cwd directory env = .ok s) :
    ∃ layer, fileLayer? t cwd directory = .ok layer ∧ merge? layer env = some s := by
  rw [load_eq] at h
  cases hlayer : fileLayer? t cwd directory with
  | error e =>
    rw [hlayer] at h
    cases h
  | ok layer =>
    refine ⟨layer, rfl, ?_⟩
    rw [hlayer] at h
    simp only [Except.bind] at h
    cases hmerge : merge? layer env with
    | none => simp [hmerge] at h
    | some s' =>
      simp only [hmerge, Except.ok.injEq] at h
      rw [h]

theorem keysIncrease_of_fileLayer? {layer : List (Text × Datum)}
    (h : fileLayer? t cwd directory = .ok layer) :
    KeysIncrease layer ∧ ∀ e ∈ layer, e.2.IsOrdered := by
  unfold fileLayer? at h
  split at h
  · split at h
    · split at h
      · next hdocument =>
        cases h
        exact keysIncrease_of_documentLayer? hdocument
      · cases h
    · cases h
  · cases h
    exact ⟨List.Pairwise.nil, by simp⟩

/-- There is no file of settings, or nothing but white space in it. -/
def HasBlankFile (t : FileTree) (cwd : Place) (directory : Text) : Prop :=
  t.contains cwd (Path.join directory fileName) = false ∨
    ∃ document, t.readText cwd (Path.join directory fileName) = .ok document ∧ document.isBlank = true

theorem load_of_hasBlankFile (h : HasBlankFile t cwd directory) (env : Environment) :
    load t cwd directory env = ofDocument "\x7b\x7d".toList env := by
  have hlayer : fileLayer? t cwd directory = .ok [] := by
    rcases h with hmissing | ⟨document, hdocument, hblank⟩
    · simp [fileLayer?, hmissing]
    · simp [fileLayer?, hdocument, documentLayer?, hblank]
  have hmapping : documentLayer? "\x7b\x7d".toList = some [] := by
    have hempty : (documentLayer? "\x7b\x7d".toList).map List.isEmpty = some true := by decide +kernel
    obtain ⟨layer, hlayer, hnil⟩ := Option.map_eq_some_iff.1 hempty
    rw [hlayer, List.isEmpty_iff.1 hnil]
  rw [load_eq, hlayer, ofDocument, hmapping]
  rfl

/-- Settings are layered, and the layers do not interfere. -/
theorem load_isLayered (t : FileTree) (cwd : Place) (directory : Text) :
    (∀ env env' s s', load t cwd directory env = .ok s → load t cwd directory env' = .ok s' →
      s.extraSuffixes = s'.extraSuffixes ∧ s.extraForms = s'.extraForms ∧ s.meanings = s'.meanings) ∧
    (∀ env env', (env.filter fun e => isOverride e.1) = (env'.filter fun e => isOverride e.1) →
      load t cwd directory env = load t cwd directory env') ∧
    (∀ env s, load t cwd directory env = .ok s →
      ∃ layer, fileLayer? t cwd directory = .ok layer ∧ IsLayered layer env s) ∧
    (HasBlankFile t cwd directory → ∀ env,
      load t cwd directory env = ofDocument "\x7b\x7d".toList env) := by
  refine ⟨fun env env' s s' h h' => ?_, fun env env' h => ?_, fun env s h => ?_, load_of_hasBlankFile⟩
  · obtain ⟨layer, hlayer, hmerge⟩ := exists_fileLayer?_of_load h
    obtain ⟨layer', hlayer', hmerge'⟩ := exists_fileLayer?_of_load h'
    cases hlayer.symm.trans hlayer'
    exact eq_of_merge? hmerge hmerge'
  · have hoverrides : overrides env = overrides env' := by
      rw [← overrides_filter env, h, overrides_filter]
    simp only [load_eq, merge?, hoverrides]
  · obtain ⟨layer, hlayer, hmerge⟩ := exists_fileLayer?_of_load h
    obtain ⟨hincrease, hordered⟩ := keysIncrease_of_fileLayer? hlayer
    exact ⟨layer, hlayer, isLayered_of_merge? hincrease hordered hmerge⟩

/-- With and without the output overridden, and another variable set.  The file of a tree without any is
blank. -/
theorem load_isLayered_json :
    let env : Environment := [("CPC_MEANINGS".toList, "x".toList), ("cpc_json".toList, "true".toList)]
    let t : FileTree := ⟨[(["config.yaml".toList],
      .file (Text.toBytes "color: never\nmeanings: \x7bP: chove\x7d\n".toList))]⟩
    ∃ s s', load t [] "/".toList env = .ok s ∧ load t [] "/".toList [] = .ok s' ∧
      s.json = true ∧ s'.json = false ∧ s.meanings = s'.meanings ∧
      load t [] "/".toList env.tail = .ok s ∧ (∃ layer, IsLayered layer env s) ∧
      load ⟨[]⟩ [] "/".toList env = ofDocument "\x7b\x7d".toList env := by
  intro env t
  obtain ⟨hsame, hothers, hlayered, -⟩ := load_isLayered t [] "/".toList
  obtain ⟨-, -, -, hblank⟩ := load_isLayered ⟨[]⟩ [] "/".toList
  let s : Settings := { color := .never, meanings := .ofList [("P".toList, "chove".toList)] }
  have hload : load t [] "/".toList env = .ok { s with json := true } := by decide +kernel
  have hload' : load t [] "/".toList [] = .ok s := by decide +kernel
  have htail : load t [] "/".toList env.tail = .ok { s with json := true } :=
    hothers env env.tail (by decide +kernel) ▸ hload
  obtain ⟨layer, -, hfields⟩ := hlayered env _ hload
  exact ⟨_, _, hload, hload', rfl, rfl, (hsame env [] _ _ hload hload').2.2, htail, ⟨layer, hfields⟩,
    hblank (.inl (by decide +kernel)) env⟩

/-- A dictionary in the environment does not count as the mode, and a variable is also read where its name
has white space around it. -/
theorem not_forall_load :
    (¬ ∀ t cwd directory env s layer, load t cwd directory env = .ok s →
      fileLayer? t cwd directory = .ok layer →
      readColor? (topValue (setting? env colorKey) (entryAt? colorKey layer)
        (.text ColorMode.auto.word)) = some s.color) ∧
    ¬ ∀ t cwd directory (env env' : Environment),
      (env.filter fun e => e.1.map Char.toLower ∈ ["cpc_json".toList, "cpc_color".toList]) =
        (env'.filter fun e => e.1.map Char.toLower ∈ ["cpc_json".toList, "cpc_color".toList]) →
      load t cwd directory env = load t cwd directory env' := by
  constructor
  · intro h
    let env : Environment := [("CPC_COLOR".toList, "\x7bnever=1\x7d".toList)]
    let t : FileTree := ⟨[(["config.yaml".toList], .file (Text.toBytes "color: !always\n".toList))]⟩
    have hload : load t [] "/".toList env = .ok { color := .always } := by decide +kernel
    obtain ⟨layer, hlayer, -⟩ := exists_fileLayer?_of_load hload
    have hset : (setting? env colorKey).map readColor? = some none := by decide +kernel
    obtain ⟨value, hvalue, hnone⟩ := Option.map_eq_some_iff.1 hset
    have hread := h t [] "/".toList env _ layer hload hlayer
    simp only [hvalue, topValue, Option.orElse_eq_orElse, Option.orElse_some, Option.getD_some,
      hnone] at hread
    cases hread
  · intro h
    have hload := h ⟨[]⟩ [] "/".toList [("CPC_JSON ".toList, "true".toList)] [] (by decide)
    exact absurd hload (by decide +kernel)

end Files

end Settings

end Sentential
