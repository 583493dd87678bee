import Graft.Grammar.Piece

/-! Statements. -/

namespace Graft.Grammar
open Rule

def condition : Rule := .node .parenthesizedExpression

def body : Rule := .role .body (.group .statement)

def blockBody : Rule := .role .body (.node .statementBlock)

def jumpTarget : Rule := opt (.rename .statementIdentifier (.token .identifier))

def statementPhrases : List Production := [
  .group .statement <| oneOf [
    nodes [.exportStatement, .importStatement, .debuggerStatement, .expressionStatement],
    .group .declaration,
    nodes [.statementBlock, .ifStatement, .switchStatement, .forStatement, .forInStatement,
      .whileStatement, .doStatement, .tryStatement, .withStatement, .breakStatement,
      .continueStatement, .returnStatement, .throwStatement, .emptyStatement, .labeledStatement]],
  .node .expressionStatement (seq [expressions, semicolon]),
  .node .variableDeclaration
    (seq [.word .var_, list (.node .variableDeclarator) .declarators, semicolon]),
  .node .lexicalDeclaration
    (seq [words [.let_, .const_], list (.node .variableDeclarator) .declarators, semicolon]),
  .node .variableDeclarator <| oneOf [
    seq [.role .name binding, opt (.node .typeClause), opt (.group .initializer)],
    prec .declaration (seq [.role .name (.token .identifier), .mark .bang, .node .typeClause])],
  .node .statementBlock
    (toRight (seq [inBraces (opt (.group .statements)), opt (.token .lineEnd)])),
  .node .elseClause (seq [.word .else_, .group .statement]),
  .node .ifStatement
    (toRight (seq [.word .if_, condition, .group .statement, opt (.node .elseClause)])),
  .node .switchStatement (seq [.word .switch_, condition, .role .body (.node .switchBody)]),
  .node .forStatement
    (seq [.word .for_, .mark .openParen,
      oneOf [nodes [.lexicalDeclaration, .variableDeclaration], seq [expressions, .mark .semicolon],
        .node .emptyStatement],
      oneOf [seq [expressions, .mark .semicolon], .node .emptyStatement],
      opt expressions, .mark .closeParen, body]),
  .node .forInStatement (seq [.word .for_, opt (.word .await_), .group .forHeader, body]),
  .group .forHeader
    (seq [.mark .openParen,
      oneOf [
        oneOf [target, .node .parenthesizedExpression],
        seq [.word .var_, binding, opt (.group .initializer)],
        seq [words [.let_, .const_], binding, opt (.token .lineEnd)]],
      words [.in_, .of_], expressions, .mark .closeParen]),
  .node .whileStatement (seq [.word .while_, condition, body]),
  .node .doStatement (toRight (seq [.word .do_, body, .word .while_, condition, opt semicolon])),
  .node .tryStatement
    (seq [.word .try_, blockBody, opt (.node .catchClause), opt (.node .finallyClause)]),
  .node .withStatement (seq [.word .with_, condition, body]),
  .node .breakStatement (seq [.word .break_, jumpTarget, semicolon]),
  .node .continueStatement (seq [.word .continue_, jumpTarget, semicolon]),
  .node .debuggerStatement (seq [.word .debugger_, semicolon]),
  .node .returnStatement (seq [.word .return_, opt expressions, semicolon]),
  .node .throwStatement (seq [.word .throw_, expressions, semicolon]),
  .node .emptyStatement (.mark .semicolon),
  { phrase := .node .labeledStatement, weight := -1
    rule := seq [nameAs .statementIdentifier, .mark .colon, body] },
  .node .switchBody (inBraces (opt (.group .switchParts))),
  .node .switchCase
    (seq [.word .case_, .role .value expressions, .mark .colon, opt (.group .statements)]),
  .node .switchDefault (seq [.word .default_, .mark .colon, opt (.group .statements)]),
  .node .catchClause
    (seq [.word .catch_, opt (inParens (seq [binding, opt (.node .typeClause)])), blockBody]),
  .node .finallyClause (seq [.word .finally_, blockBody])]

end Graft.Grammar
