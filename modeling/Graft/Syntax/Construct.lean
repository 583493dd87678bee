import Graft.Syntax.Walk

/-! Views of the constructs that edits are about. Each view is a node known to be of the right kind. -/

namespace Graft

/-- The text of a string literal without its quotes, if it has two of one kind. -/
def unquote (text : Text) : Text :=
  match text with
  | first :: rest =>
    if (first = '\'' || first = '"') && rest.getLast? = some first then rest.dropLast else text
  | [] => text

/-- The expression inside any number of parentheses. -/
def Node.bare (node : Node) : Node :=
  go node.tree.size node
where
  go : Nat → Node → Node
    | 0, node => node
    | steps + 1, node =>
      if node.kind = .parenthesizedExpression then
        match node.namedChildren.find? fun child => child.kind ≠ .comment with
        | some inner => go steps inner
        | none => node
      else node

/-- `import ... from '...'`, `import '...'`, or `import x = require('...')`. -/
structure Import where
  node : Node

structure ImportSpecifier where
  node : Node

structure FunctionDeclaration where
  node : Node

/-- A `const`, `let` or `var` statement. -/
structure VariableDeclaration where
  node : Node

/-- One variable of a declaration. -/
structure Declarator where
  node : Node

structure ArrowFunction where
  node : Node

structure ExportDefault where
  node : Node

/-- A markup element with a name. -/
structure Element where
  node : Node

/-- A markup element without a name. -/
structure Fragment where
  node : Node

/-- The tag that opens an element, which is the element itself if it closes itself. -/
structure OpeningTag where
  node : Node

/-- An attribute of a tag, or a spread in its place. -/
structure Attribute where
  node : Node

/-- The constructs that edits tell apart. -/
inductive Construct where
  | importDeclaration (it : Import)
  | functionDeclaration (it : FunctionDeclaration)
  | variableDeclaration (it : VariableDeclaration)
  | declarator (it : Declarator)
  | arrowFunction (it : ArrowFunction)
  | exportDefault (it : ExportDefault)
  | element (it : Element)
  | fragment (it : Fragment)
  | openingTag (it : OpeningTag)
  | tagAttribute (it : Attribute)
  | other (node : Node)

def Node.isNamedTag (node : Node) : Bool := (node.child? .name).isSome

def Node.construct (node : Node) : Construct :=
  match node.kind with
  | .importStatement => .importDeclaration ⟨node⟩
  | .functionDeclaration => .functionDeclaration ⟨node⟩
  | .generatorFunctionDeclaration => .functionDeclaration ⟨node⟩
  | .lexicalDeclaration => .variableDeclaration ⟨node⟩
  | .variableDeclaration => .variableDeclaration ⟨node⟩
  | .variableDeclarator => .declarator ⟨node⟩
  | .arrowFunction => .arrowFunction ⟨node⟩
  | .exportStatement =>
    if node.children.any fun child => child.tree.isSymbol "default".toList then .exportDefault ⟨node⟩
    else .other node
  | .jsxElement =>
    if (node.childOfKind? .jsxOpeningElement).any Node.isNamedTag then .element ⟨node⟩ else .fragment ⟨node⟩
  | .jsxSelfClosingElement => .element ⟨node⟩
  | .jsxOpeningElement => if node.isNamedTag then .openingTag ⟨node⟩ else .other node
  | .jsxAttribute => .tagAttribute ⟨node⟩
  | _ => .other node

namespace Import

def sourceNode? (it : Import) : Option Node := it.node.child? .source

/-- The module that is imported. -/
def source? (it : Import) : Option Text := it.sourceNode?.map fun node => unquote node.text

/-- What is imported, which an import for its effects leaves out. -/
def clause? (it : Import) : Option Node := it.node.childOfKind? .importClause

def namedList? (it : Import) : Option Node := it.clause?.bind (Node.childOfKind? .namedImports)

def specifiers (it : Import) : List ImportSpecifier :=
  match it.namedList? with
  | none => []
  | some list => (list.namedChildren.filter fun child => child.kind = .importSpecifier).map ImportSpecifier.mk

end Import

namespace ImportSpecifier

def text (it : ImportSpecifier) : Text := it.node.text

/-- The name that the module exports. -/
def imported (it : ImportSpecifier) : Text :=
  match it.node.child? .name with
  | some name => unquote name.text
  | none => it.text

/-- The name that it has here. -/
def bound (it : ImportSpecifier) : Text :=
  match it.node.child? .rename with
  | some other => other.text
  | none => it.imported

end ImportSpecifier

namespace FunctionDeclaration

def name? (it : FunctionDeclaration) : Option Text := (it.node.child? .name).map Node.text

def body? (it : FunctionDeclaration) : Option Node := it.node.child? .body

end FunctionDeclaration

namespace Declarator

/-- The variable's name, unless several are bound at once. -/
def name? (it : Declarator) : Option Text :=
  match it.node.child? .name with
  | some name => if name.kind = .identifier then some name.text else none
  | none => none

def value? (it : Declarator) : Option Node := it.node.child? .value

/-- The arrow function that is the variable's value, perhaps in parentheses. -/
def arrow? (it : Declarator) : Option ArrowFunction :=
  match it.value?.map Node.bare with
  | some value => if value.kind = .arrowFunction then some ⟨value⟩ else none
  | none => none

end Declarator

namespace VariableDeclaration

def declarators (it : VariableDeclaration) : List Declarator :=
  (it.node.namedChildren.filter fun child => child.kind = .variableDeclarator).map Declarator.mk

end VariableDeclaration

namespace ArrowFunction

def body? (it : ArrowFunction) : Option Node := it.node.child? .body

def hasBlock (it : ArrowFunction) : Bool := it.body?.any fun body => body.kind = .statementBlock

end ArrowFunction

namespace ExportDefault

def function? (it : ExportDefault) : Option FunctionDeclaration :=
  match it.node.child? .declaration with
  | some declaration =>
    if declaration.kind = .functionDeclaration || declaration.kind = .generatorFunctionDeclaration then
      some ⟨declaration⟩
    else none
  | none => none

end ExportDefault

namespace OpeningTag

def closesItself (it : OpeningTag) : Bool := it.node.kind = .jsxSelfClosingElement

def name? (it : OpeningTag) : Option Text := (it.node.child? .name).map Node.text

/-- Attributes and spreads in order. -/
def attributes (it : OpeningTag) : List Attribute :=
  (it.node.namedChildren.filter fun child =>
    child.kind = .jsxAttribute || child.kind = .jsxExpression).map Attribute.mk

/-- The place of the attributes: from the end of the tag's name and type arguments to the mark that
ends the tag. -/
def attributesSpan? (it : OpeningTag) : Option Span :=
  match it.node.child? .name with
  | none => none
  | some name => go name.stop (it.node.children.filter fun child => name.stop ≤ child.start)
where
  go (start : Nat) : List Node → Option Span
    | [] => none
    | child :: children =>
      if child.kind = .typeArguments then go child.stop children
      else if child.tree.isSymbol ['/'] || child.tree.isSymbol ['/', '>'] || child.tree.isSymbol ['>'] then
        some ⟨start, child.start⟩
      else go start children

end OpeningTag

namespace Element

def closesItself (it : Element) : Bool := it.node.kind = .jsxSelfClosingElement

def opening? (it : Element) : Option OpeningTag :=
  if it.closesItself then some ⟨it.node⟩ else (it.node.childOfKind? .jsxOpeningElement).map OpeningTag.mk

def name? (it : Element) : Option Text := it.opening?.bind OpeningTag.name?

end Element

namespace Attribute

def isSpread (it : Attribute) : Bool := it.node.kind = .jsxExpression

def name? (it : Attribute) : Option Text :=
  if it.isSpread then none else it.node.namedChildren.head?.map Node.text

end Attribute
end Graft
