/-!
# Sets of code points

The properties of characters on which the language of sentences depends are sets of code points, and
each is written down as an increasing list of closed intervals.  A membership test walks the list
and stops at the first interval that begins beyond the code point.
-/

namespace Sentential

/-- Closed intervals of code points, in increasing order and pairwise disjoint. -/
abbrev CodePoints := List (Nat × Nat)

namespace CodePoints

/-- Whether a code point lies in one of the intervals. -/
def has : CodePoints → Nat → Bool
  | [], _ => false
  | (first, last) :: rest, n =>
    if n < first then false else if n ≤ last then true else has rest n

/-- The intervals increase and do not meet, so that `has` may stop early. -/
def Ordered : CodePoints → Bool
  | [] => true
  | [(first, last)] => first ≤ last
  | (first, last) :: (first', last') :: rest =>
    first ≤ last && last < first' && Ordered ((first', last') :: rest)

end CodePoints

end Sentential
