import Graft.Shell

/-! Finding what an edit is to change. The first match in the order of the text is taken. -/

namespace Graft

/-- The body of a function, and the shell that a new body is read in. -/
structure FunctionTarget where
  body : Node
  shell : FunctionShell

structure AttributeSlot where
  span : Span
  closesItself : Bool
  deriving DecidableEq

/-- The body of a declaration, if it has the name that is looked for. -/
def FunctionDeclaration.target? (it : FunctionDeclaration) (name : Text) : Option FunctionTarget :=
  if it.name? = some name then it.body?.map fun body => ⟨body, .declaration⟩ else none

def Declarator.target? (it : Declarator) (name : Text) : Option FunctionTarget :=
  if it.name? = some name then (it.arrow?.bind ArrowFunction.body?).map fun body => ⟨body, .arrow⟩ else none

def Node.functionTarget? (statement : Node) (name : Text) : Option FunctionTarget :=
  match statement.construct with
  | .functionDeclaration it => it.target? name
  | .variableDeclaration it => it.declarators.findSome? fun declarator => declarator.target? name
  | .exportDefault it => it.function?.bind fun function => function.target? name
  | _ => none

def Node.elementTarget? (node : Node) (tag : Text) : Option Span :=
  match node.construct with
  | .element it => if it.name? = some tag then some it.node.span else none
  | _ => none

def Node.openingTag? (node : Node) : Option OpeningTag :=
  match node.construct with
  | .openingTag it => some it
  | .element it => if it.closesItself then it.opening? else none
  | _ => none

def OpeningTag.slot? (it : OpeningTag) (tag : Text) : Option AttributeSlot :=
  if it.name? = some tag then it.attributesSpan?.map fun span => ⟨span, it.closesItself⟩ else none

namespace Program

/-- The first function at the top level with a name. -/
def functionNamed? (program : Program) (name : Text) : Option FunctionTarget :=
  program.statements.findSome? fun statement => statement.functionTarget? name

def elementNamed? (program : Program) (tag : Text) : Option Span :=
  program.root.findFirst? fun node => node.elementTarget? tag

/-- The place of the attributes of the first tag with a name. -/
def attributesOf? (program : Program) (tag : Text) : Option AttributeSlot :=
  program.root.findFirst? fun node => node.openingTag?.bind fun it => it.slot? tag

end Program
end Graft
