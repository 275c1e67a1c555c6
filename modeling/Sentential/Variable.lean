import Sentential.Text.Basic

/-!
# Propositional variables

A propositional variable is one of the letters `A` to `Z`, followed by any number of decimal digits:
`P`, `Q`, `P1`.  Variables are ordered by the characters of their names.

Fresh variables come in a fixed order: `P, Q, …, Z, A, …, O`, then `P1, Q1, …, O1`, then `P2` and
so on.  `Variable.nth n` is the variable at place `n` of this order, and an `Allocator` remembers
how far it has been used up.
-/

namespace Sentential

/-- A propositional variable: an upper-case letter with a numeric suffix, which may be empty. -/
structure Variable where
  /-- The upper-case letter. -/
  letter : Char
  /-- The digits behind the letter. -/
  digits : Text
  letter_isUpper : letter.isUpper = true
  digits_isDigit : digits.all Char.isDigit = true
deriving DecidableEq

/-- A text that is no variable. -/
structure InvalidVariable where
  /-- The text that was read. -/
  name : Text
deriving DecidableEq

/-- What is said about a text that is no variable. -/
def InvalidVariable.message (e : InvalidVariable) : Text :=
  "invalid propositional variable '".toList ++ e.name ++
    "': expected an uppercase letter with an optional numeric suffix".toList

namespace Variable

/-- The text of a variable. -/
def name (v : Variable) : Text :=
  v.letter :: v.digits

/-- Reads a variable. -/
def ofName? : Text → Option Variable
  | [] => none
  | c :: rest =>
    if h : c.isUpper = true ∧ rest.all Char.isDigit = true then some ⟨c, rest, h.1, h.2⟩ else none

/-- Reads a variable, or says that the text is none. -/
def parse (t : Text) : Except InvalidVariable Variable :=
  match ofName? t with
  | some v => .ok v
  | none => .error ⟨t⟩

/-- Variables are ordered by their names. -/
def before (v w : Variable) : Bool :=
  decide (v.name < w.name)

/-- Puts a variable into an ordered list, unless it is there. -/
def insertSorted (v : Variable) : List Variable → List Variable
  | [] => [v]
  | w :: rest =>
    if v = w then w :: rest else if v.before w then v :: w :: rest else w :: insertSorted v rest

/-- The distinct variables of a list in increasing order. -/
def sort (vs : List Variable) : List Variable :=
  vs.foldr insertSorted []

@[simp] theorem ofName?_name (v : Variable) : ofName? v.name = some v := by
  simp [ofName?, name, v.letter_isUpper, v.digits_isDigit]

theorem name_of_ofName? {t : Text} {v : Variable} (h : ofName? t = some v) : v.name = t := by
  cases t with
  | nil => simp [ofName?] at h
  | cons c rest =>
    simp only [ofName?] at h
    split at h
    · cases h; rfl
    · cases h

theorem ofName?_eq_some_iff {t : Text} {v : Variable} : ofName? t = some v ↔ v.name = t :=
  ⟨name_of_ofName?, fun h => h ▸ ofName?_name v⟩

/-- Different variables have different names. -/
theorem name_injective {v w : Variable} (h : v.name = w.name) : v = w := by
  have := congrArg ofName? h
  simpa using this

/-- The letters in the order in which they are handed out. -/
def alphabet : List Char :=
  "PQRSTUVWXYZABCDEFGHIJKLMNO".toList

theorem length_alphabet : alphabet.length = 26 := rfl

theorem isUpper_of_mem_alphabet {c : Char} (h : c ∈ alphabet) : c.isUpper = true :=
  List.all_eq_true.mp (rfl : alphabet.all Char.isUpper = true) c h

/-- The suffix of the variables in round `round`: none in the first round, then `1`, `2`, … -/
def suffix (round : Nat) : Text :=
  if round = 0 then [] else Nat.toDigits 10 round

theorem suffix_isDigit (round : Nat) : (suffix round).all Char.isDigit = true := by
  unfold suffix
  split
  · rfl
  · exact List.all_eq_true.2 fun _ hc => Nat.isDigit_of_mem_toDigits (by decide) (by decide) hc

/-- The variable at place `n` of the order in which variables are handed out. -/
def nth (n : Nat) : Variable where
  letter := alphabet.get ⟨n % 26, by rw [length_alphabet]; omega⟩
  digits := suffix (n / 26)
  letter_isUpper := isUpper_of_mem_alphabet (List.get_mem _ _)
  digits_isDigit := suffix_isDigit _

end Variable

/-- The state of handing out fresh variables. -/
structure Allocator where
  /-- How many variables have been handed out. -/
  taken : Nat := 0
deriving DecidableEq, Inhabited

namespace Allocator

/-- Hands out the next fresh variable. -/
def next (a : Allocator) : Variable × Allocator :=
  (Variable.nth a.taken, ⟨a.taken + 1⟩)

/-- Hands out the next `n` fresh variables. -/
def take (a : Allocator) (n : Nat) : List Variable × Allocator :=
  ((List.range n).map fun i => Variable.nth (a.taken + i), ⟨a.taken + n⟩)

end Allocator

end Sentential
