import Graft.Order
import Graft.Text.Lowercase

/-! Names in the order of lists of imports: by lower case first, then byte by byte. -/

namespace Graft.Names

def compare (name other : Text) : Ordering :=
  (Text.compare name.lowercase other.lowercase).then (Text.compare name other)

def le (name other : Text) : Bool := (compare name other).isLE

def sort (names : List Text) : List Text := sortBy le names

/-- Names without repetitions; the first of each stays. -/
def unique (names : List Text) : List Text :=
  go [] names
where
  go (seen : List Text) : List Text → List Text
    | [] => []
    | name :: names => if seen.contains name then go seen names else name :: go (name :: seen) names

end Graft.Names
