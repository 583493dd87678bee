/-! A stable sort. Items that stand equal keep their order. -/

namespace Graft

variable {α : Type}

/-- Put an item before the first that it does not have to come after. -/
def insertBy (le : α → α → Bool) (item : α) : List α → List α
  | [] => [item]
  | other :: others => if le item other then item :: other :: others else other :: insertBy le item others

def sortBy (le : α → α → Bool) : List α → List α
  | [] => []
  | item :: items => insertBy le item (sortBy le items)

end Graft
