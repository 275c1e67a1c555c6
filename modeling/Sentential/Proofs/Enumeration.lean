import Mathlib.Logic.ExistsUnique
import Mathlib.Tactic.Common
import Sentential.Proofs.Discovery
import Sentential.Proofs.Display

/-!
# Variables are enumerated

Variables are drawn in rounds through the alphabet, which begin at *P*, and the number of the round is
the suffix, which the first round goes without.  So a variable tells how many have been drawn before it:
its place (`Variable.place`) undoes `Variable.nth` (`Variable.place_nth`), and is undone by it for the
variables whose suffix has no leading zero (`Variable.nth_place`).  With a counter of 64 bits, exactly
those of them are drawn whose place fits into the counter, each at one value of the counter.  An
`Allocator` counts without a bound, and the two counts part only behind the last value of 64 bits
(`Allocator.next_eq_add_one_iff`).
-/

namespace Sentential

/-! ### Decimal numbers -/

/-- The value of a digit is written as this digit. -/
theorem toDigits_value {d : Char} (hd : d.isDigit = true) :
    d.toNat - '0'.toNat < 10 ∧ Nat.toDigits 10 (d.toNat - '0'.toNat) = [d] := by
  have hrange : 48 ≤ d.toNat ∧ d.toNat ≤ 57 := Char.isDigit_iff_toNat.1 hd
  have hvalue : d.toNat - '0'.toNat < 10 := by
    have hzero : '0'.toNat = 48 := rfl
    omega
  refine ⟨hvalue, ?_⟩
  rw [Nat.toDigits_of_lt_base hvalue, List.singleton_inj, ← Char.toNat_inj,
    Nat.toNat_digitChar_of_lt_ten hvalue]
  exact Nat.add_sub_cancel' hrange.1

/-- A number that is read on top of a positive one is written with the digits of both. -/
theorem toDigits_ofDigitChars {n : Nat} (hn : 0 < n) {ds : Text}
    (hds : ∀ d ∈ ds, d.isDigit = true) :
    Nat.toDigits 10 (Nat.ofDigitChars 10 ds n) = Nat.toDigits 10 n ++ ds := by
  induction ds generalizing n with
  | nil => simp
  | cons d ds ih =>
    obtain ⟨hd, hds⟩ := List.forall_mem_cons.1 hds
    obtain ⟨hvalue, hwritten⟩ := toDigits_value hd
    rw [Nat.ofDigitChars_cons, ih (by omega) hds,
      ← Nat.toDigits_append_toDigits (by decide) hn hvalue, hwritten, List.append_assoc,
      List.singleton_append]

/-- A number that is read from digits, the first of which is no zero, is positive and is written with
these digits. -/
theorem toDigits_ofDigitChars_zero {d : Char} {ds : Text} (hds : ∀ c ∈ d :: ds, c.isDigit = true)
    (hd : d ≠ '0') :
    0 < Nat.ofDigitChars 10 (d :: ds) 0 ∧
      Nat.toDigits 10 (Nat.ofDigitChars 10 (d :: ds) 0) = d :: ds := by
  obtain ⟨hdigit, hds⟩ := List.forall_mem_cons.1 hds
  obtain ⟨-, hwritten⟩ := toDigits_value hdigit
  have hrange : 48 ≤ d.toNat ∧ d.toNat ≤ 57 := Char.isDigit_iff_toNat.1 hdigit
  have hvalue : 0 < d.toNat - '0'.toNat := by
    have hne : d.toNat ≠ '0'.toNat := fun h => hd (Char.toNat_inj.1 h)
    have hzero : '0'.toNat = 48 := rfl
    omega
  rw [Nat.ofDigitChars_cons, Nat.mul_zero, Nat.zero_add]
  refine ⟨?_, by rw [toDigits_ofDigitChars hvalue hds, hwritten, List.singleton_append]⟩
  rw [Nat.ofDigitChars_eq_ofDigitChars_zero]
  exact Nat.add_pos_left (Nat.mul_pos (Nat.pow_pos (by decide)) hvalue) _

/-- A positive number is written without a leading zero. -/
theorem head?_toDigits_ne {n : Nat} (hn : 0 < n) : (Nat.toDigits 10 n).head? ≠ some '0' := by
  induction n using Nat.strong_induction_on with
  | _ n ih =>
    by_cases hlt : n < 10
    · rw [Nat.toDigits_of_lt_base hlt, List.head?_singleton, ne_eq, Option.some_inj,
        Nat.digitChar_eq_zero]
      exact hn.ne'
    · rw [Nat.toDigits_of_base_le (by decide) (Nat.not_lt.1 hlt),
        List.head?_append_of_ne_nil _ Nat.toDigits_ne_nil]
      exact ih (n / 10) (by omega) (by omega)

/-! ### Places -/

namespace Variable

/-- A variable whose suffix is empty or a number without a leading zero. -/
def IsCanonical (v : Variable) : Prop :=
  v.digits.head? ≠ some '0'

/-- How many letters stand between *P* and a letter, where *A* follows *Z*. -/
def letterPlace (c : Char) : Nat :=
  (c.toNat + 26 - 'P'.toNat) % 26

/-- How many variables are drawn before a canonical one: those of the rounds before its own, the number
of which is its suffix, and those before it in this round. -/
def place (v : Variable) : Nat :=
  26 * Nat.ofDigitChars 10 v.digits 0 + letterPlace v.letter

theorem ofDigitChars_suffix (round : Nat) : Nat.ofDigitChars 10 (suffix round) 0 = round := by
  unfold suffix
  split
  · next h => rw [h, Nat.ofDigitChars_nil]
  · exact Nat.ofDigitChars_ten_toDigits

/-- No number is written with a leading zero, and the first round has no suffix. -/
theorem isCanonical_nth (n : Nat) : (nth n).IsCanonical := by
  change (suffix (n / 26)).head? ≠ some '0'
  unfold suffix
  split
  · simp
  · next hround => exact head?_toDigits_ne (Nat.pos_of_ne_zero hround)

/-- The letters follow each other from *P* on. -/
theorem letter_nth (n : Nat) : (nth n).letter = Char.ofNat ('A'.toNat + (n + 15) % 26) := by
  have hall : ∀ i (h : i < alphabet.length),
      alphabet[i] = Char.ofNat ('A'.toNat + (i + 15) % 26) := by decide
  have hletter := hall (n % 26) (by rw [length_alphabet]; omega)
  rw [Nat.mod_add_mod] at hletter
  exact hletter

theorem letterPlace_letter_nth (n : Nat) : letterPlace (nth n).letter = n % 26 := by
  have hall : ∀ i < 26, letterPlace (Char.ofNat ('A'.toNat + (i + 15) % 26)) = i := by decide
  rw [letter_nth, ← Nat.mod_add_mod, hall _ (Nat.mod_lt n (by decide))]

/-- The place of a variable that is drawn is the number of those before it. -/
@[simp] theorem place_nth (n : Nat) : (nth n).place = n := by
  have hdigits : Nat.ofDigitChars 10 (nth n).digits 0 = n / 26 := ofDigitChars_suffix (n / 26)
  rw [place, hdigits, letterPlace_letter_nth, Nat.div_add_mod]

/-- A canonical variable is drawn at its place. -/
theorem nth_place {v : Variable} (hv : v.IsCanonical) : nth v.place = v := by
  have hlt : letterPlace v.letter < 26 := Nat.mod_lt _ (by decide)
  have hround : v.place / 26 = Nat.ofDigitChars 10 v.digits 0 := by
    rw [place]
    omega
  have hletter : (nth v.place).letter = v.letter := by
    have hupper := toNat_of_isUpper v.letter_isUpper
    have hcode : 'A'.toNat + (v.place + 15) % 26 = v.letter.toNat := by
      have hfirst : 'A'.toNat = 65 := rfl
      have hp : 'P'.toNat = 80 := rfl
      rw [place, letterPlace, hp, hfirst]
      omega
    rw [letter_nth, hcode, Char.ofNat_toNat]
  have hdigits : (nth v.place).digits = v.digits := by
    change suffix (v.place / 26) = v.digits
    rw [hround]
    have hall : ∀ c ∈ v.digits, c.isDigit = true := List.all_eq_true.1 v.digits_isDigit
    cases hcases : v.digits with
    | nil => rfl
    | cons d ds =>
      have hd : d ≠ '0' := fun h => hv (by rw [hcases, h, List.head?_cons])
      obtain ⟨hpos, hwritten⟩ := toDigits_ofDigitChars_zero (hcases ▸ hall) hd
      rw [suffix, if_neg hpos.ne', hwritten]
  exact name_injective (by rw [name, name, hletter, hdigits])

theorem parse_eq_ok_iff {t : Text} {v : Variable} : parse t = .ok v ↔ v.name = t := by
  rw [← ofName?_eq_some_iff, parse]
  cases ofName? t <;> simp

end Variable

/-- Drawing changes the counter as an addition in 64 bits does, except at the last value, behind which 64 bits
begin again. -/
theorem Allocator.next_eq_add_one_iff (n : UInt64) :
    (Allocator.next ⟨n.toNat⟩).2 = ⟨(n + 1).toNat⟩ ↔ n.toNat ≠ UInt64.size - 1 := by
  have hlt : n.toNat < UInt64.size := n.toNat_lt_size
  have hadd : (n + 1).toNat = (n.toNat + 1) % UInt64.size := UInt64.toNat_add n 1
  rw [Allocator.next, Allocator.mk.injEq, hadd]
  constructor
  · intro heq hlast
    rw [hlast] at heq
    exact absurd heq (by decide)
  · intro hne
    rw [Nat.mod_eq_of_lt (by omega)]

/-- Whatever the counter of 64 bits says, drawing gives a variable, whose letter is found by counting
from *P* through the alphabet and whose suffix is the number of the round in decimal, unless that is the
first one.  The counter says how many have been drawn, and drawing changes it as an addition in 64 bits
does, except at its last value.  Different values of the counter give different names, and each name of a
variable without a leading zero, if its place fits into the counter, is given at one value; no other name is
given. -/
theorem Allocator.next_enumerates :
    (∀ n < UInt64.size, Allocator.after n = ⟨n⟩) ∧
    (∀ n : UInt64, (Allocator.next ⟨n.toNat⟩).2 = ⟨(n + 1).toNat⟩ ↔ n.toNat ≠ UInt64.size - 1) ∧
    (∀ n < UInt64.size, ∃ v, (Allocator.next ⟨n⟩).1 = v ∧ Variable.parse v.name = .ok v ∧
      v.name = Char.ofNat ('A'.toNat + (n + 15) % 26) ::
        if n / 26 = 0 then [] else Nat.toDigits 10 (n / 26)) ∧
    (∀ m < UInt64.size, ∀ n < UInt64.size, m ≠ n →
      (Allocator.next ⟨m⟩).1.name ≠ (Allocator.next ⟨n⟩).1.name) ∧
    ∀ t, (∃ v, Variable.parse t = .ok v ∧ v.IsCanonical ∧ v.place < UInt64.size) ↔
      ∃! n, n < UInt64.size ∧ (Allocator.next ⟨n⟩).1.name = t := by
  refine ⟨fun n _ => Allocator.after_eq n, Allocator.next_eq_add_one_iff,
    fun n _ => ⟨_, rfl, Variable.parse_eq_ok_iff.2 rfl, ?_⟩,
    fun m _ n _ hne h => hne (nth_injective (Variable.name_injective h)), fun t => ⟨?_, ?_⟩⟩
  · change (Variable.nth n).letter :: (Variable.nth n).digits = _
    rw [Variable.letter_nth]
    rfl
  · rintro ⟨v, hparse, hcanonical, hplace⟩
    refine ⟨v.place, ⟨hplace, ?_⟩, fun n hn => ?_⟩
    · change (Variable.nth v.place).name = t
      rw [Variable.nth_place hcanonical, Variable.parse_eq_ok_iff.1 hparse]
    · have hname : (Variable.nth n).name = v.name :=
        hn.2.trans (Variable.parse_eq_ok_iff.1 hparse).symm
      rw [← Variable.name_injective hname, Variable.place_nth]
  · rintro ⟨n, ⟨hn, hname⟩, -⟩
    exact ⟨Variable.nth n, Variable.parse_eq_ok_iff.2 hname, Variable.isCanonical_nth n,
      by rwa [Variable.place_nth]⟩

/-- The last variable before the counter is used up. -/
theorem Allocator.next_enumerates_last :
    let last := "E709490156681136600".toList
    (∃ v, Variable.parse last = .ok v ∧ v.IsCanonical ∧ v.place < UInt64.size) ∧
      (∃! n, n < UInt64.size ∧ (Allocator.next ⟨n⟩).1.name = last) ∧
      (Allocator.next ⟨UInt64.size - 1⟩).1.name = last := by
  intro last
  have hname : (Allocator.next ⟨UInt64.size - 1⟩).1.name = last := by decide +kernel
  have hplace : (Variable.nth (UInt64.size - 1)).place < UInt64.size := by
    rw [Variable.place_nth]
    decide
  obtain ⟨-, -, hparse, -, honce⟩ := Allocator.next_enumerates
  obtain ⟨v, rfl, hv, -⟩ := hparse (UInt64.size - 1) (by decide)
  have hlast : ∃ v, Variable.parse last = .ok v ∧ v.IsCanonical ∧ v.place < UInt64.size :=
    ⟨_, hname ▸ hv, Variable.isCanonical_nth _, hplace⟩
  exact ⟨hlast, (honce last).1 hlast, hname⟩

end Sentential
