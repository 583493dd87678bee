import Graft.Grammar.Piece

/-! Calls, members, assignments and operators. -/

namespace Graft.Grammar
open Rule

def binary (degree : Degree) (side : Side) (operators : List Rule) : List Rule :=
  operators.map fun operator =>
    strong (.degree degree) (some side) (seq [.group .expression, operator, .group .expression])

/-- All operations with two operands. A private name can only be looked for in an object. -/
def binaryOperations : Rule :=
  oneOf <|
    binary .logicalAnd .left [.mark .both] ++
    binary .logicalOr .left [.mark .either] ++
    binary .shift .left [.mark .shiftRight, .mark .shiftRightZero, .mark .shiftLeft] ++
    binary .bitwiseAnd .left [.mark .and_] ++
    binary .bitwiseXor .left [.mark .xor_] ++
    binary .bitwiseOr .left [.mark .or_] ++
    binary .plus .left [.mark .plus, .mark .minus] ++
    binary .times .left [.mark .star, .mark .slash, .mark .percent] ++
    binary .power .right [.mark .power] ++
    binary .relation .left [.mark .less, .mark .lessEqual] ++
    binary .equality .left [.mark .equal, .mark .strictEqual, .mark .notEqual, .mark .strictNotEqual] ++
    binary .relation .left [.mark .greaterEqual, .mark .greater] ++
    binary .ternary .left [.mark .coalesce] ++
    binary .relation .left [.word .instanceof_] ++
    [precLeft .relation (seq [oneOf [.group .expression, .token .privateName], .word .in_,
      .group .expression])]

/-- The operators that assign and compute at once. -/
def augmentedOperator : Rule :=
  oneOf ([.addAssign, .subtractAssign, .multiplyAssign, .divideAssign, .remainderAssign, .xorAssign,
    .andAssign, .orAssign, .shiftRightAssign, .shiftRightZeroAssign, .shiftLeftAssign, .powerAssign,
    .bothAssign, .eitherAssign, .defaultAssign].map Rule.mark)

def stepOperator : Rule := oneOf [.mark .increment, .mark .decrement]

def operationPhrases : List Production := [
  .node .callExpression <| oneOf [
    prec .call (seq [oneOf [.group .expression, .node .importKeyword], opt (.node .typeArguments),
      .node .arguments]),
    prec .templateCall (seq [oneOf [.group .primaryExpression, .node .newExpression],
      .node .templateString]),
    prec .member (seq [.group .primaryExpression, .mark .optionalChain, opt (.node .typeArguments),
      .node .arguments])],
  .node .newExpression
    (precRight .new_ (seq [.word .new_, .group .primaryExpression, opt (.node .typeArguments),
      opt (.node .arguments)])),
  .node .awaitExpression (prec .unaryVoid (seq [.word .await_, .group .expression])),
  .node .memberExpression
    (prec .member (seq [
      oneOf [.group .expression, .group .primaryExpression, .node .importKeyword],
      oneOf [.mark .dot, .node .optionalChain], memberName])),
  .node .subscriptExpression
    (precRight .member (seq [oneOf [.group .expression, .group .primaryExpression],
      opt (.node .optionalChain), .mark .openBracket, expressions, .mark .closeBracket])),
  .node .assignmentExpression
    (precRight .assign (seq [opt (.word .using_), oneOf [.node .parenthesizedExpression, target],
      .mark .assign, .group .expression])),
  .group .augmentedTarget <| oneOf [
    nodes [.memberExpression, .subscriptExpression], softName, .token .identifier,
    nodes [.parenthesizedExpression, .nonNullExpression]],
  .node .augmentedAssignmentExpression
    (precRight .assign (seq [.group .augmentedTarget, augmentedOperator, .group .expression])),
  .group .initializer (seq [.mark .assign, .role .value (.group .expression)]),
  .group .destructuringPattern (nodes [.objectPattern, .arrayPattern]),
  .node .spreadElement (seq [.mark .ellipsis, .group .expression]),
  .node .ternaryExpression
    (precRight .ternary (seq [.group .expression, .token .condition, .group .expression,
      .mark .colon, .group .expression])),
  .node .binaryExpression binaryOperations,
  .node .unaryExpression
    (precLeft .unaryVoid (seq [
      oneOf [.mark .bang, .mark .tilde, .mark .minus, .mark .plus, .word .typeof_, .word .void_,
        .word .delete_],
      .group .expression])),
  .node .updateExpression
    (toLeft (oneOf [seq [.group .expression, stepOperator], seq [stepOperator, .group .expression]])),
  .node .sequenceExpression (toRight (list (.group .expression) .expressions))]

end Graft.Grammar
