import Graft.Grammar.Piece

/-! Expressions, and the patterns that look like them. -/

namespace Graft.Grammar
open Rule

def objectEntry : Rule :=
  opt (oneOf [nodes [.pair, .spreadElement, .methodDefinition], nameAs .shorthandPropertyIdentifier])

def patternEntry : Rule :=
  opt (oneOf [nodes [.pairPattern, .restPattern, .objectAssignmentPattern],
    nameAs .shorthandPropertyIdentifierPattern])

/-- One item of an array or of a list of arguments. -/
def arrayItem : Rule := opt (oneOf [.group .expression, .node .spreadElement])

def patternItem : Rule := opt (oneOf [.group .pattern, .node .assignmentPattern])

def expressionPhrases : List Production := [
  .node .parenthesizedExpression
    (inParens (oneOf [seq [.group .expression, opt (.node .typeClause)], .node .sequenceExpression])),
  .group .expression <| oneOf [
    nodes [.asExpression, .satisfiesExpression, .instantiationExpression, .internalModule],
    .group .primaryExpression,
    nodes [.jsxElement, .jsxSelfClosingElement, .assignmentExpression,
      .augmentedAssignmentExpression, .awaitExpression, .unaryExpression, .binaryExpression,
      .ternaryExpression, .updateExpression, .newExpression, .yieldExpression]],
  .group .primaryExpression <| oneOf [
    nodes [.subscriptExpression, .memberExpression, .parenthesizedExpression],
    name, softName,
    words [.this_, .super_],
    .token .number,
    nodes [.string, .templateString, .regex],
    words [.true_, .false_, .null_],
    nodes [.object, .array, .functionExpression, .arrowFunction, .generatorFunction,
      .classExpression, .metaProperty, .callExpression, .nonNullExpression]],
  .node .yieldExpression
    (toRight (seq [.word .yield_,
      oneOf [seq [.mark .star, .group .expression], opt (.group .expression)]])),
  .node .object (prec .object (inBraces (opt (list objectEntry .objectEntries)))),
  .node .objectPattern (prec .object (inBraces (opt (list patternEntry .patternEntries)))),
  .node .assignmentPattern (seq [.group .pattern, .mark .assign, .group .expression]),
  .node .objectAssignmentPattern
    (seq [oneOf [nameAs .shorthandPropertyIdentifierPattern, .group .destructuringPattern],
      .mark .assign, .group .expression]),
  .node .array (inBrackets (opt (list arrayItem .arrayItems))),
  .node .arrayPattern (inBrackets (opt (list patternItem .patternItems)))]

end Graft.Grammar
