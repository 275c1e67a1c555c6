/-!
# Cutting a list at separators

`cuts` cuts a list at every separator.  `innerCuts` spares a separator that is the first or the last
member of the list; such a separator stays in its part.  Both return at least one part, and parts
may be empty.
-/

namespace Sentential

variable {α : Type}

/-- Puts a member in front of the first part. -/
def consFirst (x : α) : List (List α) → List (List α)
  | [] => [[x]]
  | part :: parts => (x :: part) :: parts

theorem consFirst_ne_nil (x : α) (parts : List (List α)) : consFirst x parts ≠ [] := by
  cases parts <;> simp [consFirst]

/-- The parts of a list between its separators. -/
def cuts (separates : α → Bool) : List α → List (List α)
  | [] => [[]]
  | x :: rest =>
    if separates x then [] :: cuts separates rest else consFirst x (cuts separates rest)

/-- There is at least one part. -/
theorem cuts_ne_nil (separates : α → Bool) (xs : List α) : cuts separates xs ≠ [] := by
  cases xs with
  | nil => simp [cuts]
  | cons x rest =>
    unfold cuts
    split
    · simp
    · exact consFirst_ne_nil x _

/-- The parts of a list between its separators, where the last member counts as no separator. -/
def cutsBeforeLast (separates : α → Bool) : List α → List (List α)
  | [] => [[]]
  | [x] => [[x]]
  | x :: y :: rest =>
    if separates x then [] :: cutsBeforeLast separates (y :: rest)
    else consFirst x (cutsBeforeLast separates (y :: rest))

/-- The parts of a list between its separators, where neither the first nor the last member counts
as a separator. -/
def innerCuts (separates : α → Bool) : List α → List (List α)
  | [] => [[]]
  | x :: rest => consFirst x (cutsBeforeLast separates rest)

/-- There is at least one part. -/
theorem innerCuts_ne_nil (separates : α → Bool) (xs : List α) : innerCuts separates xs ≠ [] := by
  cases xs with
  | nil => simp [innerCuts]
  | cons x rest => exact consFirst_ne_nil x _

end Sentential
