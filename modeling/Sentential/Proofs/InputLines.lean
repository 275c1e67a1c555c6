import Mathlib.Tactic.Common
import Sentential.Command.Prompt
import Sentential.Proofs.Asking

/-!
# Lines of the input

The input is bytes, and a prompt takes bytes up to a line feed.  Where the bytes spell a text, they
are taken line by line of that text: in UTF-8 the byte of a line feed occurs in no other character,
and so the bytes of a line spell the line (`takeLine_toBytes`).  The main statement, `prompt_toBytes`,
says what a prompt answers and leaves in terms of the text.
-/

namespace Sentential

namespace Text

/-- Bytes that were made from a text spell it. -/
theorem ofBytes?_toBytes (t : Text) : ofBytes? (toBytes t) = some t := by
  have hvalid : (toBytes t).toByteArray.IsValidUTF8 := ⟨t, rfl⟩
  rw [ofBytes?, String.fromUTF8?, dif_pos hvalid]
  exact congrArg some (String.toList_ofList (l := t))

@[simp] theorem toBytes_nil : toBytes [] = [] := rfl

theorem toBytes_injective : Function.Injective toBytes := by
  intro t u h
  have hsame := congrArg ofBytes? h
  rwa [ofBytes?_toBytes, ofBytes?_toBytes, Option.some.injEq] at hsame

theorem toBytes_cons (c : Char) (t : Text) :
    toBytes (c :: t) = String.utf8EncodeChar c ++ toBytes t :=
  rfl

/-- The byte of a line feed belongs to no other character. -/
theorem lineFeed_notMem_utf8EncodeChar {c : Char} (hc : c ≠ '\n') :
    (10 : UInt8) ∉ String.utf8EncodeChar c := by
  have hne : c.val.toNat ≠ 10 := fun h => hc (Char.ext (UInt32.toNat_inj.1 h))
  have hbyte {n : Nat} (hn : n < 256) (h : n ≠ 10) : (10 : UInt8) ≠ UInt8.ofNat n := fun h' =>
    h (by simpa [Nat.mod_eq_of_lt hn] using (congrArg UInt8.toNat h').symm)
  unfold String.utf8EncodeChar
  simp only
  split
  · simpa using hbyte (by omega) hne
  · split
    · simp only [List.mem_cons, List.not_mem_nil, or_false, not_or]
      exact ⟨hbyte (by omega) (by omega), hbyte (by omega) (by omega)⟩
    · split
      · simp only [List.mem_cons, List.not_mem_nil, or_false, not_or]
        exact ⟨hbyte (by omega) (by omega), hbyte (by omega) (by omega),
          hbyte (by omega) (by omega)⟩
      · simp only [List.mem_cons, List.not_mem_nil, or_false, not_or]
        exact ⟨hbyte (by omega) (by omega), hbyte (by omega) (by omega),
          hbyte (by omega) (by omega), hbyte (by omega) (by omega)⟩

/-- White space at the end of a text is trimmed. -/
theorem trim_append_of_all_space (t : Text) {ws : Text} (h : ∀ c ∈ ws, isSpace c = true) :
    (t ++ ws).trim = t.trim := by
  obtain ⟨before, after, ht, hbefore, hafter⟩ := exists_append_dropEnds isSpace t
  refine dropEnds_eq_iff.2 ⟨⟨before, after ++ ws, ?_, hbefore, fun c hc => ?_⟩,
    endsWithout_dropEnds isSpace t⟩
  · conv_lhs => rw [ht]
    simp [trim_eq_dropEnds]
  · exact (List.mem_append.1 hc).elim (hafter c) (h c)

/-- The first line of a text, without its line feed. -/
def firstLine (t : Text) : Text :=
  t.takeWhile (· ≠ '\n')

/-- What stands behind the first line feed of a text. -/
def dropLine (t : Text) : Text :=
  (t.dropWhile (· ≠ '\n')).drop 1

/-- The line of a text at place `k`; it is empty when there are fewer lines. -/
def lineAt (t : Text) (k : Nat) : Text :=
  (cutAt '\n' t)[k]?.getD []

theorem cutAt_eq (t : Text) :
    cutAt '\n' t = firstLine t :: if '\n' ∈ t then cutAt '\n' (dropLine t) else [] := by
  induction t with
  | nil => rfl
  | cons c t ih =>
    by_cases hc : c = '\n'
    · simp [cutAt, firstLine, dropLine, hc]
    · have hc' : '\n' ≠ c := Ne.symm hc
      simp [cutAt, hc, hc', ih, firstLine, dropLine]

theorem dropLine_eq_nil {t : Text} (h : '\n' ∉ t) : dropLine t = [] := by
  have hdrop : t.dropWhile (· ≠ '\n') = [] :=
    List.dropWhile_eq_nil_iff.2 fun c hc => by
      have hne : c ≠ '\n' := ne_of_mem_of_not_mem hc h
      simpa using hne
  rw [dropLine, hdrop, List.drop_nil]

@[simp] theorem lineAt_zero (t : Text) : lineAt t 0 = firstLine t := by
  rw [lineAt, cutAt_eq]
  rfl

@[simp] theorem lineAt_succ (t : Text) (k : Nat) : lineAt t (k + 1) = lineAt (dropLine t) k := by
  rw [lineAt, cutAt_eq, List.getElem?_cons_succ]
  split
  · rfl
  · rename_i h
    rw [dropLine_eq_nil h]
    cases k <;> rfl

end Text

/-- Bytes without a line feed are taken together with what follows. -/
theorem takeLine_append {bs : Bytes} (h : (10 : UInt8) ∉ bs) (more : Bytes) :
    takeLine (bs ++ more) = (bs ++ (takeLine more).1, (takeLine more).2) := by
  induction bs with
  | nil => rfl
  | cons b bs ih =>
    obtain ⟨hb, hbs⟩ := not_or.1 (mt List.mem_cons.2 h)
    simp [takeLine, Ne.symm hb, ih hbs]

/-- The first line of the bytes of a text, with its line feed if it has one. -/
theorem takeLine_toBytes (t : Text) :
    takeLine (Text.toBytes t) =
      (Text.toBytes (t.firstLine ++ if '\n' ∈ t then ['\n'] else []), Text.toBytes t.dropLine) := by
  induction t with
  | nil => rfl
  | cons c t ih =>
    by_cases hc : c = '\n'
    · subst hc
      have hbytes : String.utf8EncodeChar '\n' = [10] := by decide
      simp [Text.toBytes, Text.firstLine, Text.dropLine, takeLine, hbytes]
    · have hc' : '\n' ≠ c := Ne.symm hc
      rw [Text.toBytes_cons, takeLine_append (Text.lineFeed_notMem_utf8EncodeChar hc), ih]
      simp [Text.firstLine, Text.dropLine, hc, hc', Text.toBytes_cons]

/-- A prompt takes one line of the input, and answers it without white space at its ends. -/
theorem prompt_toBytes (v : Variable) {d : Dialogue} {t : Text} (hd : d.unread = Text.toBytes t) :
    ((prompt v d).1.getD []).trim = t.firstLine.trim ∧
      (prompt v d).2.unread = Text.toBytes t.dropLine ∧
      (prompt v d).2.prompts = d.prompts ++ promptFor v ∧ (prompt v d).2.broken = d.broken := by
  have hfeed : ∀ c ∈ if '\n' ∈ t then ['\n'] else [], isSpace c = true := by
    intro c hc
    split at hc
    · rw [List.mem_singleton.1 hc]
      decide
    · exact absurd hc List.not_mem_nil
  have htrim := Text.trim_append_of_all_space t.firstLine hfeed
  have htake := takeLine_toBytes t
  generalize t.firstLine ++ (if '\n' ∈ t then ['\n'] else []) = line at htrim htake
  by_cases hempty : (Text.toBytes line).isEmpty = true
  · have hline : line = [] := Text.toBytes_injective (List.isEmpty_iff.1 hempty)
    subst hline
    simp [prompt, hd, htake, htrim]
  · simp [prompt, hd, htake, hempty, Text.ofBytes?_toBytes, htrim]

end Sentential
