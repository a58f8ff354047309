/-!
# Comparing two lists of keys

**`KeyDiff.of`** splits two lists of keys into those that come, those that stay and those that go,
each in the order of the list it is taken from.
-/

namespace FlowTree

/-- Keys by their presence in an old and a new list. -/
structure KeyDiff (κ : Type) where
  /-- In the new list only, in its order. -/
  entering : List κ
  /-- In both lists, in the order of the new one. -/
  updating : List κ
  /-- In the old list only, in its order. -/
  exiting : List κ

/-- The difference of two lists of keys. -/
def KeyDiff.of {κ : Type} [BEq κ] (old new : List κ) : KeyDiff κ where
  entering := new.filter fun k => !old.contains k
  updating := new.filter fun k => old.contains k
  exiting := old.filter fun k => !new.contains k

end FlowTree
