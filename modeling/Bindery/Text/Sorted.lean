/-!
# Sorted names

Names are ordered by the code points of their characters, which is also the order of
their bytes as they are stored.
-/

namespace Bindery.Text

/-- The names in ascending order. -/
def sorted (names : List String) : List String := names.mergeSort fun a b => decide (a ≤ b)

end Bindery.Text
