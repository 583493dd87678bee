import Graft.Grammar.Rule

/-! Pieces of rules that many phrases share. -/

namespace Graft.Rule

/-- A semicolon or a place where none is needed. -/
def semicolon : Rule := oneOf [.token .lineEnd, .mark .semicolon]

def expressions : Rule := oneOf [.group .expression, .node .sequenceExpression]

/-- Words that are names wherever they do not mean something else. -/
def softWord : Rule :=
  words [.declare_, .namespace_, .type_, .public_, .private_, .protected_, .override_, .readonly_,
    .module_, .any_, .number_, .boolean_, .string_, .symbol_, .export_, .object_, .new_, .get_, .set_,
    .async_, .static_, .let_]

def softName : Rule := .rename .identifier softWord

/-- A name that is reported as a node of some kind. -/
def nameAs (kind : Kind) : Rule := .rename kind (oneOf [.token .identifier, softWord])

/-- A name in an expression. -/
def name : Rule := oneOf [.word .undefined_, .token .identifier]

def typeName : Rule := .rename .typeIdentifier (.token .identifier)

/-- The name of a member behind a point. -/
def memberName : Rule :=
  oneOf [.token .privateName, .rename .propertyIdentifier (.token .identifier)]

/-- What can be assigned to. -/
def target : Rule :=
  oneOf [.node .memberExpression, .node .subscriptExpression, name, softName,
    .group .destructuringPattern, .node .nonNullExpression]

/-- A name or names in brackets. -/
def binding : Rule := oneOf [.token .identifier, .group .destructuringPattern]

/-- An item and more of them, each behind a comma. -/
def list (item : Rule) (more : Group) : Rule := seq [item, opt (.group more)]

def next (item : Rule) : Rule := seq [.mark .comma, item]

/-- A rule between two marks. -/
def between (before : Mark) (rule : Rule) (after : Mark) : Rule := seq [.mark before, rule, .mark after]

def inBraces (rule : Rule) : Rule := between .openBrace rule .closeBrace
def inParens (rule : Rule) : Rule := between .openParen rule .closeParen
def inBrackets (rule : Rule) : Rule := between .openBracket rule .closeBracket

end Graft.Rule
