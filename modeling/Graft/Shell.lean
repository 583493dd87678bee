import Graft.Snippet

/-! Pieces of code that are no programs by themselves are read inside a shell: a function around the body
of a function, a declaration around an expression. The piece stands on lines of its own, so that a
comment at its end cannot swallow the rest of the shell. -/

namespace Graft

/-- The function that a body is read in. -/
inductive FunctionShell where
  | declaration
  | arrow
  deriving DecidableEq

inductive ExpressionKind where
  | element
  | fragment
  | other (kind : Text)
  deriving DecidableEq

structure ParsedExpression where
  kind : ExpressionKind
  snippet : Snippet
  deriving DecidableEq

namespace ParsedExpression

def isMarkup (expression : ParsedExpression) : Bool :=
  match expression.kind with
  | .element => true
  | .fragment => true
  | .other _ => false

end ParsedExpression

/-- The statement of a program that has only one. -/
def Program.single? (program : Program) : Option Node :=
  match program.statements with
  | [statement] => some statement
  | _ => none

/-- The value of the first variable of a `const` or `let` statement. -/
def Node.firstValue? (statement : Node) : Option Node :=
  if statement.kind = .lexicalDeclaration then
    (statement.namedChildren.find? fun child => child.kind = .variableDeclarator).bind (Node.child? .value)
  else none

/-- The lines from the first of some nodes to the last. -/
def Snippet.ofNodes (source : Text) (root : Node) (nodes : List Node) : Snippet :=
  match nodes.head?, nodes.getLast? with
  | some first, some last => .ofRegion source root ⟨first.start, last.stop⟩
  | _, _ => .empty

namespace FunctionShell

def wrap (shell : FunctionShell) (body : Text) : Text :=
  match shell with
  | declaration => "function temp() \x7b\n".toList ++ body ++ "\n\x7d".toList
  | arrow => "const temp = () => \x7b\n".toList ++ body ++ "\n\x7d;".toList

/-- The block of the function that a statement is. -/
def block? (shell : FunctionShell) (statement : Node) : Option Node :=
  let body? : Option Node :=
    match shell with
    | declaration => if statement.kind = .functionDeclaration then statement.child? .body else none
    | arrow =>
      match statement.firstValue? with
      | some value => if value.kind = .arrowFunction then value.child? .body else none
      | none => none
  body?.bind fun body => if body.kind = .statementBlock then some body else none

def bodyOf (shell : FunctionShell) : Except ParseError Program → Except ParseError Snippet
  | .error error => .error (error.shiftLines 1)
  | .ok program =>
    match program.single?.bind shell.block? with
    | none => .error (.escapedShell "function body".toList)
    | some block => .ok (.ofNodes program.source program.root block.namedChildren)

def parseBody (shell : FunctionShell) (body : Text) : Except ParseError Snippet :=
  shell.bodyOf (Program.parse (shell.wrap body))

end FunctionShell

namespace ParsedExpression

def wrap (expression : Text) : Text :=
  "const __t = (\n".toList ++ expression ++ "\n);".toList

/-- The expression in the parentheses of the declaration that a statement is. -/
def inside? (statement : Node) : Option Node :=
  match statement.firstValue? with
  | none => none
  | some value =>
    if value.kind = .parenthesizedExpression then
      match value.namedChildren.filter fun child => child.kind ≠ .comment with
      | [inner] => some inner.bare
      | _ => none
    else none

def classify (node : Node) : ExpressionKind :=
  match node.construct with
  | .element _ => .element
  | .fragment _ => .fragment
  | _ => .other node.kindName

def ofShell : Except ParseError Program → Except ParseError ParsedExpression
  | .error error => .error (error.shiftLines 1)
  | .ok program =>
    match program.single?.bind inside? with
    | none => .error (.escapedShell "expression".toList)
    | some node => .ok ⟨classify node, .ofRegion program.source program.root node.span⟩

def parse (expression : Text) : Except ParseError ParsedExpression := ofShell (Program.parse (wrap expression))

end ParsedExpression

/-- The statements and comments of a program. -/
def Snippet.ofProgram (program : Program) : Snippet :=
  .ofNodes program.source program.root (program.topLevel.filter fun node => node.kind ≠ .hashBangLine)

/-- Read statements of a program, imports included. -/
def parseStatements (text : Text) : Except ParseError Snippet := (Program.parse text).map Snippet.ofProgram

end Graft
