import ByNeed.Heap.Basic

set_option autoImplicit false

-- Two cells are the same if they are one cell or both are settled with the same outcome. Nothing is forced.
namespace ByNeed.Heap

variable {τ : Type}

def sameParts? (heap : Heap τ) : Pair → Option (List Pair)
  | .values left right =>
    if left.typeName = right.typeName then left.parts? right else none
  | .cells left right =>
    if left = right then some []
    else
      match heap.settled? left, heap.settled? right with
      | some (.ok left), some (.ok right) => some [.values left right]
      | some (.error fault), some (.error fault') => if fault = fault' then some [] else none
      | _, _ => none

def sameFrom (heap : Heap τ) : Nat → List Pair → Option Bool
  | 0, _ => none
  | _ + 1, [] => some true
  | fuel + 1, pair :: rest =>
    match heap.sameParts? pair with
    | some parts => sameFrom heap fuel (parts ++ rest)
    | none => some false

def sameValues (heap : Heap τ) (fuel : Nat) (left right : Value) : Option Bool :=
  heap.sameFrom fuel [.values left right]

def sameCells (heap : Heap τ) (fuel : Nat) (left right : Ref) : Option Bool :=
  heap.sameFrom fuel [.cells left right]

end ByNeed.Heap
