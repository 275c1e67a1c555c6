import Mathlib.Tactic.Common
import Sentential.Proofs.Indicators
import Sentential.Settings.Document

/-!
# The tokens of saved settings

The tokens of the document in which settings are saved (`tokensOf_document`).  Each text is one scalar token,
in whatever style it is written, so that nothing in the texts can change the structure of the document.
-/

namespace Sentential.Yaml

variable {c : Char} {key t u line : Text} {n indent : Nat} {ts : List Text} {entries : List (Text × Text)}

/-! ### Lists and tables of texts -/

/-- The tokens of a list of texts. -/
def listTokens (ts : List Text) : List Token :=
  if ts.isEmpty then [.flowSequenceStart, .flowSequenceEnd]
  else ts.flatMap fun t => [.blockEntry, scalarToken t]

/-- The tokens of an entry of texts. -/
def entryTokens (e : Text × Text) : List Token :=
  [.key, scalarToken e.1, .value, scalarToken e.2]

/-- The tokens of a table of texts. -/
def tableTokens (entries : List (Text × Text)) : List Token :=
  if entries.isEmpty then [.flowMappingStart, .flowMappingEnd]
  else .blockMappingStart :: (entries.flatMap entryTokens ++ [.blockEnd])

/-- A field whose key is written as it is. -/
def field (indent : Nat) (key value : Text) : Text :=
  spaces indent ++ (key ++ ':' :: value)

namespace Progress

variable {tokens : List Token} {b : Blocks}

@[simp] theorem Blocks.add_add (b : Blocks) (ts us : List Token) : (b.add ts).add us = b.add (ts ++ us) := by
  simp [Blocks.add]

@[simp] theorem Blocks.add_nil (b : Blocks) : b.add [] = b := by
  simp [Blocks.add]

theorem Blocks.openMapping_eq_self (h : b.indent = n) : b.openMapping n = b := by
  rw [Blocks.openMapping, if_neg (by omega)]

theorem startsLine_spaces (h : StartsToken u) : StartsLine n (spaces n ++ u) :=
  ⟨n, Nat.le_refl n, u, rfl, h⟩

/-- A member of a list is read. -/
theorem LineYields.textItem (h : LineYields (b.add [.blockEntry, scalarToken t]) line tokens)
    (hindent : b.indent = n) (hpos : 0 < n) (hline : StartsLine n line) :
    LineYields b (textItem n t ++ line) tokens := by
  have hscalar : RestYields (b.add [.blockEntry])
      (' ' :: (Yaml.scalar (n + 2) t ++ (endLine t ++ line))) true tokens :=
    LineYields.scalar (by simpa using h) hindent hline
  simpa [Yaml.textItem] using hscalar.dash hindent hpos

theorem startsLine_textItems (hline : StartsLine n line) (ts : List Text) :
    StartsLine n (ts.flatMap (Yaml.textItem n) ++ line) := by
  cases ts with
  | nil => exact hline
  | cons t ts =>
    rw [List.flatMap_cons, Yaml.textItem]
    simpa using startsLine_spaces (u := '-' :: _) (startsToken_cons.2 (by decide))

/-- The members of a list are read one by one. -/
theorem LineYields.textItems
    (h : LineYields (b.add (ts.flatMap fun t => [.blockEntry, scalarToken t])) line tokens)
    (hindent : b.indent = n) (hpos : 0 < n) (hline : StartsLine n line) :
    LineYields b (ts.flatMap (Yaml.textItem n) ++ line) tokens := by
  induction ts generalizing b with
  | nil => simpa using h
  | cons t ts ih =>
    rw [List.flatMap_cons, List.append_assoc]
    refine LineYields.textItem (ih ?_ hindent) hindent hpos (startsLine_textItems hline ts)
    simpa using h

/-- A list of texts is read behind its key. -/
theorem LineYields.textList (h : LineYields (b.add (listTokens ts)) line tokens)
    (hindent : b.indent = n) (hpos : 0 < n) (hline : StartsLine n line) :
    RestYields b (textList n ts ++ line) false tokens := by
  unfold listTokens at h
  unfold Yaml.textList
  split at h
  · next hempty =>
    rw [if_pos hempty]
    simpa using h.emptyList hline (by omega)
  · next hne =>
    rw [if_neg hne]
    exact (h.textItems hindent hpos hline).feed (startsLine_textItems hline ts)

/-- An entry of a table is read, with a question mark or without. -/
theorem LineYields.textEntry {e : Text × Text}
    (h : LineYields ((b.openMapping n).add (entryTokens e)) line tokens) (hn : b.indent ≤ n)
    (hpos : 0 < n) (hline : StartsLine n line) :
    LineYields b (textEntry n e.1 e.2 ++ line) tokens := by
  obtain ⟨key, value⟩ := e
  have hopen : (b.openMapping n).indent = n := Blocks.indent_openMapping hn
  have hafter (b' : Blocks) (allowed : Bool) (text line : Text) (hindent : b'.indent = n)
      (h' : LineYields (b'.add [scalarToken text]) line tokens) (hline : StartsLine n line) :
      RestYields b' (' ' :: (Yaml.scalar (n + 2) text ++ (endLine text ++ line))) allowed tokens :=
    LineYields.scalar h' hindent hline
  have hvalue (allowed : Bool) : RestYields ((b.openMapping n).add [.key, scalarToken key, .value])
      (' ' :: (Yaml.scalar (n + 2) value ++ (endLine value ++ line))) allowed tokens :=
    hafter _ _ _ _ hopen (by simpa [entryTokens] using h) hline
  by_cases hsimple : isSimpleKey key = true
  · have hkey := (hvalue false).simpleKey hsimple (Nat.succ_pos (n + 1)) hn rfl
    simpa [Yaml.textEntry, hsimple] using hkey
  · -- the colon stands on a line of its own
    have hcolon : LineYields ((b.openMapping n).add [.key, scalarToken key]) (spaces n ++ ':' :: ' ' ::
        (Yaml.scalar (n + 2) value ++ (endLine value ++ line))) tokens :=
      RestYields.colon (by simpa using hvalue true) hopen hpos
    have hkey := (hafter ((b.openMapping n).add [.key]) true key _ hopen (by simpa using hcolon)
      (startsLine_spaces (startsToken_cons.2 (by decide)))).questionMark hn hpos
    simpa [Yaml.textEntry, hsimple] using hkey

theorem startsLine_textEntries (hline : StartsLine n line) (entries : List (Text × Text)) :
    StartsLine n (entries.flatMap (fun e => Yaml.textEntry n e.1 e.2) ++ line) := by
  cases entries with
  | nil => exact hline
  | cons e entries =>
    rw [List.flatMap_cons, Yaml.textEntry]
    split
    · simpa using startsLine_spaces (startsToken_scalar (n + 2) e.1 _)
    · simpa using startsLine_spaces (u := '?' :: _) (startsToken_cons.2 (by decide))

/-- The entries of a table are read one by one.  The first one opens the mapping. -/
theorem LineYields.textEntries (hne : entries ≠ [])
    (h : LineYields ((b.openMapping n).add (entries.flatMap entryTokens)) line tokens)
    (hn : b.indent ≤ n) (hpos : 0 < n) (hline : StartsLine n line) :
    LineYields b (entries.flatMap (fun e => Yaml.textEntry n e.1 e.2) ++ line) tokens := by
  induction entries generalizing b with
  | nil => exact absurd rfl hne
  | cons e entries ih =>
    rw [List.flatMap_cons, List.append_assoc]
    have hopen : (b.openMapping n).indent = n := Blocks.indent_openMapping hn
    refine LineYields.textEntry ?_ hn hpos (startsLine_textEntries hline entries)
    by_cases hrest : entries = []
    · subst hrest
      simpa using h
    · refine ih hrest ?_ (Int.le_of_eq hopen)
      rw [Blocks.openMapping_eq_self (b := (b.openMapping n).add (entryTokens e)) hopen, Blocks.add_add,
        ← List.flatMap_cons]
      exact h

/-- A table of texts is read behind its key. -/
theorem LineYields.textTable {m : Nat}
    (h : LineYields (b.add (tableTokens entries)) (spaces m ++ u) tokens) (hu : StartsToken u)
    (hindent : 0 ≤ b.indent) (hm : b.indent ≤ m) (hn : m < n) :
    RestYields b (textTable n entries ++ (spaces m ++ u)) false tokens := by
  have hline : StartsLine n (spaces m ++ u) := ⟨m, Nat.le_of_lt hn, u, rfl, hu⟩
  unfold tableTokens at h
  unfold Yaml.textTable
  split at h
  · next hempty =>
    rw [if_pos hempty]
    simpa using h.emptyTable hline hindent
  · next hne =>
    rw [if_neg hne]
    have hopens : b.openMapping n = ⟨b.tokens ++ [.blockMappingStart], n, b.indent :: b.outer⟩ :=
      if_pos (by omega)
    have hend : LineYields ⟨b.tokens ++ [.blockMappingStart] ++ entries.flatMap entryTokens, n,
        b.indent :: b.outer⟩ (spaces m ++ u) tokens :=
      LineYields.blockEnd (by simpa [Blocks.add] using h) hu (by omega) hm
    refine (LineYields.textEntries (by simpa using hne) ?_ (by omega) (by omega) hline).feed
      (startsLine_textEntries hline entries)
    rw [hopens]
    simpa [Blocks.add] using hend

/-- A field of a mapping is read: a key that is written as it is, with its colon. -/
theorem RestYields.field
    (h : RestYields ((b.openMapping n).add [.key, .scalar true key, .value]) u false tokens)
    (hstyle : styleOf key = .plain) (hkey : isSimpleKey key = true) (hn : b.indent ≤ n)
    (hu : isGap u.head? = true) : LineYields b (field n key u) tokens := by
  have hscalar : Yaml.scalar 1 key = key := by rw [Yaml.scalar, hstyle]
  have htoken : scalarToken key = .scalar true key := by
    rw [scalarToken, hstyle]
    rfl
  rw [Yaml.field, ← hscalar]
  exact RestYields.simpleKey (htoken ▸ h) hkey Nat.one_pos hn hu

/-- A further field of a mapping is read. -/
theorem RestYields.nextField (h : RestYields (b.add [.key, .scalar true key, .value]) u false tokens)
    (hstyle : styleOf key = .plain) (hkey : isSimpleKey key = true) (hn : b.indent = n)
    (hu : isGap u.head? = true) : LineYields b (Yaml.field n key u) tokens := by
  refine RestYields.field ?_ hstyle hkey (Int.le_of_eq hn) hu
  rw [Blocks.openMapping_eq_self hn]
  exact h

theorem startsToken_key (hstyle : styleOf key = .plain) (u : Text) : StartsToken (key ++ u) := by
  have hfits := fits_styleOf key
  rw [hstyle] at hfits
  exact startsToken_of_plainAllowed hfits.2.1 hfits.1.ne_nil u

theorem startsLine_field (hstyle : styleOf key = .plain) (h : n ≤ indent) (u : Text) :
    StartsLine indent (field n key u) :=
  ⟨n, h, key ++ ':' :: u, rfl, startsToken_key hstyle _⟩

end Progress

/-! ### What is shown -/

theorem all_scalar (n : Nat) (t : Text) : (scalar n t).all isPrintable = true :=
  List.all_eq_true.2 fun _ hc => isPrintable_of_mem_scalar hc

theorem all_spaces (n : Nat) : (spaces n).all isPrintable = true := by
  refine List.all_eq_true.2 fun c hc => ?_
  rw [List.eq_of_mem_replicate hc]
  decide

theorem all_endLine (t : Text) : (endLine t).all isPrintable = true := by
  unfold endLine
  split <;> decide

theorem all_textList (n : Nat) (ts : List Text) : (textList n ts).all isPrintable = true := by
  have hitem (t : Text) : (textItem n t).all isPrintable = true := by
    have hdash : "- ".toList.all isPrintable = true := by decide
    simp only [textItem, List.all_append, all_spaces, hdash, all_scalar, all_endLine, Bool.and_self]
  unfold textList
  split
  · decide
  · have hfeed : isPrintable '\n' = true := by decide
    rw [List.all_cons, hfeed, Bool.true_and, List.all_flatMap, List.all_eq_true]
    exact fun t _ => hitem t

theorem all_textTable (n : Nat) (entries : List (Text × Text)) :
    (textTable n entries).all isPrintable = true := by
  have hcolon : isPrintable ':' = true ∧ isPrintable ' ' = true := by decide
  have hmark : "? ".toList.all isPrintable = true := by decide
  have hentry (e : Text × Text) : (textEntry n e.1 e.2).all isPrintable = true := by
    unfold textEntry
    split
    all_goals
      simp only [List.all_append, List.all_cons, all_spaces, hcolon, hmark, all_scalar, all_endLine,
        Bool.and_self]
  unfold textTable
  split
  · decide
  · have hfeed : isPrintable '\n' = true := by decide
    rw [List.all_cons, hfeed, Bool.true_and, List.all_flatMap, List.all_eq_true]
    exact fun e _ => hentry e

end Sentential.Yaml

namespace Sentential.Settings

open Yaml Yaml.Progress

variable {s : Settings}

/-- How the truth value is written. -/
def flagWord (b : Bool) : Text :=
  if b then "true".toList else "false".toList

/-- The tokens of the document. -/
def documentTokens (s : Settings) : List Yaml.Token :=
  [.blockMappingStart, .key, .scalar true jsonKey, .value, .scalar true (flagWord s.json),
    .key, .scalar true colorKey, .value, .scalar true s.color.word,
    .key, .scalar true negationKey, .value, .blockMappingStart,
    .key, .scalar true suffixesKey, .value] ++ listTokens s.extraSuffixes ++
  [.key, .scalar true formsKey, .value] ++ listTokens s.extraForms ++
  [.blockEnd, .key, .scalar true meaningsKey, .value] ++ tableTokens s.meanings.entries ++ [.blockEnd]

theorem document_eq (s : Settings) : s.document =
    field 0 jsonKey (' ' :: (flagWord s.json ++ '\n' ::
      field 0 colorKey (' ' :: (s.color.word ++ '\n' ::
        field 0 negationKey ('\n' ::
          field 2 suffixesKey (textList 2 s.extraSuffixes ++
            field 2 formsKey (textList 2 s.extraForms ++
              field 0 meaningsKey (textTable 2 s.meanings.entries)))))))) := by
  have hcolon : ": ".toList = [':', ' '] := rfl
  have hfeed : "\n".toList = ['\n'] := rfl
  have hcolonFeed : ":\n".toList = [':', '\n'] := rfl
  have hspaces : "  ".toList = spaces 2 := rfl
  have hcolonOnly : ":".toList = [':'] := rfl
  have hnone : spaces 0 = [] := rfl
  unfold document
  simp only [flagWord, field, hcolon, hfeed, hcolonFeed, hspaces, hcolonOnly, hnone,
    List.append_assoc, List.nil_append, List.cons_append]

theorem styleOf_keys : ∀ key ∈ [jsonKey, colorKey, negationKey, suffixesKey, formsKey, meaningsKey],
    styleOf key = .plain ∧ isSimpleKey key = true := by
  decide +kernel

theorem plainAllowed_words : ∀ word ∈ [flagWord true, flagWord false, ColorMode.auto.word,
    ColorMode.always.word, ColorMode.never.word], plainAllowed word = true ∧ word ≠ [] := by
  decide +kernel

theorem isGap_textList (ts : List Text) (u : Text) : isGap (textList 2 ts ++ u).head? = true := by
  unfold textList
  split <;> rfl

theorem isGap_textTable (entries : List (Text × Text)) : isGap (textTable 2 entries).head? = true := by
  unfold textTable
  split <;> rfl

/-- The document is read line by line. -/
theorem lineYields_document (s : Settings) :
    LineYields ⟨[], -1, []⟩ s.document (documentTokens s) := by
  have hkeys : (styleOf jsonKey = .plain ∧ isSimpleKey jsonKey = true) ∧
      (styleOf colorKey = .plain ∧ isSimpleKey colorKey = true) ∧
      (styleOf negationKey = .plain ∧ isSimpleKey negationKey = true) ∧
      (styleOf suffixesKey = .plain ∧ isSimpleKey suffixesKey = true) ∧
      (styleOf formsKey = .plain ∧ isSimpleKey formsKey = true) ∧
      (styleOf meaningsKey = .plain ∧ isSimpleKey meaningsKey = true) := by
    simpa using styleOf_keys
  obtain ⟨⟨hjson, hjson'⟩, ⟨hcolor, hcolor'⟩, ⟨hnegation, hnegation'⟩, ⟨hsuffixes, hsuffixes'⟩,
    ⟨hforms, hforms'⟩, ⟨hmeanings, hmeanings'⟩⟩ := hkeys
  have hflag : plainAllowed (flagWord s.json) = true ∧ flagWord s.json ≠ [] := by
    cases s.json <;> exact plainAllowed_words _ (by simp)
  have hword : plainAllowed s.color.word = true ∧ s.color.word ≠ [] := by
    cases s.color <;> exact plainAllowed_words _ (by simp)
  rw [document_eq]
  -- the flag opens the outer mapping
  refine RestYields.field ?_ hjson hjson' (by decide) rfl
  change RestYields (Blocks.add ⟨[.blockMappingStart], 0, [-1]⟩ _) _ _ _
  refine RestYields.space (LineYields.plain ?_ (Int.natCast_zero).symm hflag.1 hflag.2
    (startsLine_field hcolor (Nat.le_refl 0) _)) (startsToken_of_plainAllowed hflag.1 hflag.2 _)
  refine RestYields.nextField ?_ hcolor hcolor' rfl rfl
  refine RestYields.space (LineYields.plain ?_ (Int.natCast_zero).symm hword.1 hword.2
    (startsLine_field hnegation (Nat.le_refl 0) _)) (startsToken_of_plainAllowed hword.1 hword.2 _)
  refine RestYields.nextField ?_ hnegation hnegation' rfl rfl
  -- the first list opens the inner mapping
  refine LineYields.feed ?_ (startsLine_field hsuffixes (Nat.le_refl 2) _)
  refine RestYields.field ?_ hsuffixes hsuffixes' (show (0 : Int) ≤ 2 by decide)
    (isGap_textList s.extraSuffixes _)
  change RestYields (Blocks.add ⟨_, 2, [0, -1]⟩ _) _ _ _
  refine LineYields.textList ?_ rfl Nat.two_pos (startsLine_field hforms (Nat.le_refl 2) _)
  refine RestYields.nextField ?_ hforms hforms' rfl (isGap_textList s.extraForms _)
  refine LineYields.textList ?_ rfl Nat.two_pos (startsLine_field hmeanings (Nat.zero_le 2) _)
  refine LineYields.blockEnd (n := 0) ?_ (startsToken_key hmeanings _) (show (0 : Int) < 2 by decide)
    (Int.le_refl 0)
  refine RestYields.nextField ?_ hmeanings hmeanings' rfl (isGap_textTable s.meanings.entries)
  rw [← List.append_nil (textTable 2 s.meanings.entries)]
  refine LineYields.textTable (m := 0) (u := []) ?_ nofun (Int.le_refl 0) (Int.le_refl 0) Nat.two_pos
  refine LineYields.nil rfl rfl ?_
  simp [documentTokens, Blocks.add]

/-- The document is shown as it is. -/
theorem all_document (s : Settings) : s.document.all isPrintable = true := by
  have hkeys : ∀ key ∈ [jsonKey, colorKey, negationKey, suffixesKey, formsKey, meaningsKey],
      key.all isPrintable = true := by
    decide +kernel
  have hflag : (flagWord s.json).all isPrintable = true := by
    cases s.json <;> decide
  have hword : s.color.word.all isPrintable = true := by
    cases s.color <;> decide
  have hcolon : isPrintable ':' = true ∧ isPrintable ' ' = true ∧ isPrintable '\n' = true := by decide
  simp only [List.forall_mem_cons] at hkeys
  rw [document_eq]
  simp only [field, List.all_append, List.all_cons, all_spaces, all_textList, all_textTable, hkeys, hflag,
    hword, hcolon, Bool.and_self]

/-- Saved settings are tokens. -/
theorem tokensOf_document (s : Settings) : tokensOf s.document = some (documentTokens s) := by
  have hshown := List.all_eq_true.1 (all_document s)
  refine (lineYields_document s).tokensOf_eq ?_ fun c hc => isAllowed_of_isPrintable (hshown c hc)
  rw [document_eq]
  exact startsToken_key (styleOf_keys jsonKey (by simp)).1 _

end Sentential.Settings
