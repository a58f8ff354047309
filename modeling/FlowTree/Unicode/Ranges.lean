/-!
# Sets of characters

A set of characters is given by the ranges of their code points, in ascending order.
**`Ranges.contains`** searches them by halving.
-/

namespace FlowTree.Unicode

/-- Ranges of code points in ascending order, both ends included. -/
abbrev Ranges := Array (Nat × Nat)

namespace Ranges

/-- Searches the `width` ranges from `first` on. -/
def search (ranges : Ranges) (code first width : Nat) : Bool :=
  if width = 0 then false
  else
    let half := width / 2
    match ranges[first + half]? with
    | none => false
    | some (low, high) =>
      if code < low then search ranges code first half
      else if code ≤ high then true
      else search ranges code (first + half + 1) (width - half - 1)
termination_by width

/-- The character lies in one of the ranges. -/
def contains (ranges : Ranges) (c : Char) : Bool := search ranges c.toNat 0 ranges.size

end Ranges

end FlowTree.Unicode
