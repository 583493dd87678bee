import Graft.Syntax.Node

/-! Walking over the nodes of a tree with a cursor that knows three moves: to the first child, to the
next sibling and to the parent. The walk shows every named node to a visitor, parents before their
children, and ends early when the visitor has found what it wanted. -/

namespace Graft

mutual

def Tree.size : Tree → Nat
  | .leaf _ _ _ => 1
  | .node _ _ children => Forest.size children + 1

def Forest.size : List Tree → Nat
  | [] => 0
  | tree :: trees => tree.size + Forest.size trees

end

/-- A node, the siblings to its right, and the same for each of its ancestors. -/
structure Zipper where
  focus : Node
  after : List Node
  trail : List (Node × List Node)

namespace Zipper

/-- A cursor that cannot leave the given node. -/
def top (node : Node) : Zipper := ⟨node, [], []⟩

def firstChild? (zipper : Zipper) : Option Zipper :=
  match zipper.focus.children with
  | [] => none
  | child :: siblings => some ⟨child, siblings, (zipper.focus, zipper.after) :: zipper.trail⟩

def nextSibling? (zipper : Zipper) : Option Zipper :=
  match zipper.after with
  | [] => none
  | sibling :: siblings => some ⟨sibling, siblings, zipper.trail⟩

def parent? (zipper : Zipper) : Option Zipper :=
  match zipper.trail with
  | [] => none
  | (node, after) :: trail => some ⟨node, after, trail⟩

/-- The next sibling of the node or of its nearest ancestor that has one. -/
def climbFrom : List Node → List (Node × List Node) → Option Zipper
  | sibling :: siblings, trail => some ⟨sibling, siblings, trail⟩
  | [], [] => none
  | [], (_, after) :: trail => climbFrom after trail

def climb? (zipper : Zipper) : Option Zipper := climbFrom zipper.after zipper.trail

/-- The next node in document order. -/
def next? (zipper : Zipper) : Option Zipper := zipper.firstChild?.or zipper.climb?

end Zipper

section
variable {σ β : Type} (visit : σ → Node → σ × Option β)

def visitNamed (state : σ) (node : Node) : σ × Option β :=
  if node.isNamed then visit state node else (state, none)

/-- Walk on from a cursor for a number of nodes. -/
def walkFrom : Nat → Zipper → σ → σ × Option β
  | 0, _, state => (state, none)
  | steps + 1, zipper, state =>
    match visitNamed visit state zipper.focus with
    | (state, some found) => (state, some found)
    | (state, none) =>
      match zipper.next? with
      | none => (state, none)
      | some zipper => walkFrom steps zipper state

/-- Walk over a node and all below it. The visitor keeps a state and stops the walk by finding
something. -/
def walk (root : Node) (state : σ) : σ × Option β :=
  walkFrom visit root.tree.size (.top root) state

end

namespace Node

def findFirst? {β : Type} (find : Node → Option β) (root : Node) : Option β :=
  (walk (fun (_ : Unit) node => ((), find node)) root ()).2

def findAll {β : Type} (find : Node → Option β) (root : Node) : List β :=
  (walk (β := Unit) (fun found node => ((find node).toList ++ found, none)) root []).1.reverse

end Node
end Graft
