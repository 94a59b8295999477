import StatesLanguage.Error

/-!
# Editing one item of a list

An edit may fail. `editAt` makes it at a position, `editLast` at the last item;
where there is no such item, nothing changes.
-/

namespace StatesLanguage

/-- Edits the item at a position. -/
def editAt {α : Type} (f : α → Except Error α) : Nat → List α → Except Error (List α)
  | _, [] => .ok []
  | 0, x :: xs => (f x).map fun y => y :: xs
  | i + 1, x :: xs => (editAt f i xs).map fun ys => x :: ys

/-- Edits the last item. -/
def editLast {α : Type} (f : α → Except Error α) : List α → Except Error (List α)
  | [] => .ok []
  | [x] => (f x).map fun y => [y]
  | x :: y :: xs => (editLast f (y :: xs)).map fun ys => x :: ys

end StatesLanguage
