import Graft.Grammar.Piece

/-! Classes and functions. -/

namespace Graft.Grammar
open Rule

def classRest : Rule :=
  seq [opt (.node .typeParameters), opt (.node .classHeritage), .role .body (.node .classBody)]

def functionRest : Rule := seq [.group .signature, .role .body (.node .statementBlock)]

def functionStart : Rule := seq [opt (.word .async_), .word .function_]

def functionName : Rule := .role .name (.token .identifier)

def functionPhrases : List Production := [
  .node .classExpression
    (prec .literal (seq [opt (.group .decorators), .word .class_, opt (.role .name typeName),
      classRest])),
  .node .classDeclaration
    (precLeft .declaration (seq [opt (.group .decorators), .word .class_, .role .name typeName,
      classRest, opt (.token .lineEnd)])),
  .node .classHeritage <| oneOf [
    seq [.node .extendsClause, opt (.node .implementsClause)],
    .node .implementsClause],
  .node .functionExpression
    (prec .literal (seq [functionStart, opt functionName, functionRest])),
  .node .functionDeclaration
    (precRight .declaration (seq [functionStart, functionName, functionRest, opt (.token .lineEnd)])),
  .node .generatorFunction
    (prec .literal (seq [functionStart, .mark .star, opt functionName, functionRest])),
  .node .generatorFunctionDeclaration
    (precRight .declaration (seq [functionStart, .mark .star, functionName, functionRest,
      opt (.token .lineEnd)])),
  .node .arrowFunction
    (seq [opt (.word .async_), oneOf [softName, .token .identifier, .group .signature],
      .mark .arrow, .role .body (oneOf [.group .expression, .node .statementBlock])]),
  .group .signature
    (seq [opt (.node .typeParameters), .node .formalParameters,
      opt (nodes [.typeClause, .assertsClause, .predicateClause])]),
  .group .parameter (nodes [.requiredParameter, .optionalParameter]),
  .node .optionalChain (.mark .optionalChain)]

end Graft.Grammar
