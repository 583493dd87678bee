import Graft.Text.Blank
import Graft.Syntax.Kind

/-! Syntax trees that keep every character of their text. A tree has no offsets of its own: the text of
a node is the text of its leaves in order, so nodes are nested and ordered by construction, and every
node starts and ends between two characters. -/

namespace Graft

/-- A syntax tree. The role says what the tree is to its parent. -/
inductive Tree where
  | leaf (role : Option Role) (kind : Kind) (text : Text)
  | node (role : Option Role) (kind : Kind) (children : List Tree)

namespace Tree

def kind : Tree → Kind
  | leaf _ kind _ => kind
  | node _ kind _ => kind

def role : Tree → Option Role
  | leaf role _ _ => role
  | node role _ _ => role

def children : Tree → List Tree
  | leaf _ _ _ => []
  | node _ _ children => children

def withRole (role : Role) : Tree → Tree
  | leaf _ kind text => leaf (some role) kind text
  | node _ kind children => node (some role) kind children

def isTrivia (tree : Tree) : Bool := tree.kind.isTrivia

def isSymbol (symbol : Text) : Tree → Bool
  | leaf _ .symbol text => text = symbol
  | _ => false

end Tree

mutual

def Tree.text : Tree → Text
  | .leaf _ _ text => text
  | .node _ _ children => Forest.text children

def Forest.text : List Tree → Text
  | [] => []
  | tree :: trees => tree.text ++ Forest.text trees

end

mutual

def Tree.bytes : Tree → Nat
  | .leaf _ _ text => Text.bytes text
  | .node _ _ children => Forest.bytes children

def Forest.bytes : List Tree → Nat
  | [] => 0
  | tree :: trees => tree.bytes + Forest.bytes trees

end

/-! Some kinds promise more about their text or their children than the grammar's reader could see at a
glance, and later stages rely on it. -/

/-- What the text of a leaf must look like. -/
def Kind.admitsText (kind : Kind) (text : Text) : Bool :=
  match kind with
  | .spacing => text.all isSpacing
  | .hashBangLine => text.all (· ≠ '\n')
  -- a list of names is made of its braces and entries
  | .namedImports => false
  | _ => true

/-- The last of the children is the given symbol, and no other child is a symbol that ends a tag. -/
def closesTag (symbol : Text) : List Tree → Bool
  | [] => false
  | [last] => last.isSymbol symbol
  | child :: children =>
    !(child.isSymbol ['/'] || child.isSymbol ['/', '>'] || child.isSymbol ['>']) &&
      closesTag symbol children

/-- What the children of a node must look like. -/
def Kind.admits (kind : Kind) (children : List Tree) : Bool :=
  match kind with
  | .namedImports =>
    (children.head?.any (Tree.isSymbol ['\x7b'])) && (children.getLast?.any (Tree.isSymbol ['\x7d']))
  | .jsxOpeningElement => closesTag ['>'] children
  | .jsxSelfClosingElement => closesTag ['/', '>'] children
  | .jsxElement =>
    match children with
    | [] => false
    | opening :: rest =>
      opening.kind = .jsxOpeningElement && rest.all fun child => child.kind ≠ .jsxOpeningElement
  | _ => true

mutual

/-- Every leaf and node of the tree is admitted by its kind. -/
def Tree.sound : Tree → Bool
  | .leaf _ kind text => kind.admitsText text
  | .node _ kind children => kind.admits children && Forest.sound children

def Forest.sound : List Tree → Bool
  | [] => true
  | tree :: trees => tree.sound && Forest.sound trees

end

namespace Forest

@[simp] theorem text_append (first second : List Tree) :
    text (first ++ second) = text first ++ text second := by
  induction first with
  | nil => simp [text]
  | cons tree trees ih => simp [text, ih]

end Forest

namespace Text

@[simp] theorem bytes_append (first second : Text) : bytes (first ++ second) = bytes first + bytes second := by
  induction first with
  | nil => simp [bytes]
  | cons c rest ih => simp [bytes, ih, Nat.add_assoc]

end Text

mutual

theorem Tree.bytes_eq (tree : Tree) : tree.bytes = Text.bytes tree.text := by
  cases tree with
  | leaf role kind text => simp [Tree.bytes, Tree.text]
  | node role kind children => simpa [Tree.bytes, Tree.text] using Forest.bytes_eq children

theorem Forest.bytes_eq (trees : List Tree) : Forest.bytes trees = Text.bytes (Forest.text trees) := by
  cases trees with
  | nil => simp [Forest.bytes, Forest.text, Text.bytes]
  | cons tree rest => simp [Forest.bytes, Forest.text, Tree.bytes_eq tree, Forest.bytes_eq rest]

end

end Graft
