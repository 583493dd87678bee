import Graft.Syntax.Tree

/-! Trees at their place in a source text. -/

namespace Graft

/-- A stretch of a text from one byte offset up to another. -/
structure Span where
  start : Nat
  stop : Nat
  deriving DecidableEq

/-- A tree and the offset at which it starts. -/
structure Node where
  start : Nat
  tree : Tree

namespace Node

def kind (node : Node) : Kind := node.tree.kind

def stop (node : Node) : Nat := node.start + node.tree.bytes

def span (node : Node) : Span := ⟨node.start, node.stop⟩

def text (node : Node) : Text := node.tree.text

def isNamed (node : Node) : Bool := node.kind.isNamed

/-- The name a node's kind is reported under; keywords and marks are reported as they are written. -/
def kindName (node : Node) : Text :=
  if node.kind = .symbol then node.text else node.kind.name.toList

/-- Neighbouring trees, the first of which starts at an offset. -/
def place : Nat → List Tree → List Node
  | _, [] => []
  | start, tree :: trees => ⟨start, tree⟩ :: place (start + tree.bytes) trees

/-- The children of a node, spacing left out. -/
def children (node : Node) : List Node :=
  (place node.start node.tree.children).filter fun child => child.kind ≠ .spacing

def namedChildren (node : Node) : List Node := node.children.filter isNamed

def child? (role : Role) (node : Node) : Option Node :=
  node.children.find? fun child => child.tree.role = some role

def childOfKind? (kind : Kind) (node : Node) : Option Node :=
  node.children.find? fun child => child.kind = kind

end Node
end Graft
