import Graft.Grammar.Module
import Graft.Grammar.Statement
import Graft.Grammar.Expression
import Graft.Grammar.Markup
import Graft.Grammar.Operation
import Graft.Grammar.Declaration
import Graft.Grammar.Types

/-! The grammar as a whole: all phrases in order, and which of two strengths is the greater. -/

namespace Graft.Grammar
open Rule

/-- One or more parts of a text with substitutions or escapes. -/
def parts (group : Group) (rules : List Rule) : Production := .repetition group (oneOf rules)

def items (group : Group) (item : Rule) : Production := .repetition group (next item)

/-- The members of a class. A head of a method without a body must not be followed by a block, and so
has an end of its own. -/
def classMember : Rule := oneOf [
  seq [opt (.group .decorators), .node .methodDefinition, opt semicolon],
  seq [.node .methodSignature, oneOf [.token .headEnd, semicolon, .mark .comma]],
  .node .classStaticBlock,
  seq [nodes [.abstractMethodSignature, .indexSignature, .publicFieldDefinition], oneOf [semicolon, .mark .comma]],
  .mark .semicolon]

def repetitions : List Production := [
  .repetition .statements (.group .statement),
  .repetition .decorators (.node .decorator),
  items .exportSpecifiers exportSpecifier,
  items .importSpecifiers importSpecifier,
  items .declarators (.node .variableDeclarator),
  .repetition .switchParts (nodes [.switchCase, .switchDefault]),
  items .objectEntries objectEntry,
  items .patternEntries patternEntry,
  items .arrayItems arrayItem,
  items .patternItems patternItem,
  items .expressions (.group .expression),
  parts .doubleStringParts [.token .doubleChars, .token .escape],
  parts .singleStringParts [.token .singleChars, .token .escape],
  parts .templateParts [.token .templateChars, .token .escape, .node .templateSubstitution],
  parts .templateTypeParts [.token .templateChars, .node .templateType],
  items .parameters (.group .parameter),
  .repetition .classMembers classMember,
  .repetition .markupChildren
    (oneOf [.token .markupText, .token .characterReference, element, .node .jsxExpression]),
  .repetition .tagAttributes (nodes [.jsxAttribute, .jsxExpression]),
  parts .doubleAttributeParts [.token .doubleAttributeChars, .token .characterReference],
  parts .singleAttributeParts [.token .singleAttributeChars, .token .characterReference],
  items .baseClasses (.group .baseClass),
  items .types (.group .type),
  items .baseTypes baseType,
  items .enumMembers enumMember,
  .repetition .memberTypes (seq [memberSeparator, memberType]),
  items .typeParameters (.node .typeParameter),
  items .tupleMembers (.group .tupleMember)]

/-- All phrases. Where two readings of a text weigh the same, this order decides. -/
def productions : List Production :=
  modulePhrases ++ statementPhrases ++ expressionPhrases ++ markupPhrases ++ functionPhrases ++
    operationPhrases ++ literalPhrases ++ memberPhrases ++ declarationPhrases ++ typePhrases ++
    repetitions

/-- What has a rank: a degree, or a phrase whose strength has no name. -/
inductive Ranked where
  | degree (degree : Degree)
  | phrase (phrase : Phrase)
  deriving DecidableEq

/-- Rankings, each from the strongest on. The first in which both sides occur decides. -/
def rankings : List (List Ranked) :=
  let degrees := List.map Ranked.degree
  let node (kind : Kind) := Ranked.phrase (.node kind)
  let group (group : Group) := Ranked.phrase (.group group)
  let primary := group .primaryExpression
  [degrees [.member, .templateCall, .call] ++ [node .updateExpression] ++
      degrees [.unaryVoid, .power, .times, .plus, .shift, .relation, .equality, .bitwiseAnd,
        .bitwiseXor, .bitwiseOr, .logicalAnd, .logicalOr, .ternary] ++
      [node .sequenceExpression, node .arrowFunction],
    [.degree .assign, primary],
    degrees [.member, .templateCall, .new_, .call] ++ [group .expression],
    degrees [.declaration, .literal],
    [primary, node .statementBlock, .degree .object],
    [node .metaProperty, node .importKeyword],
    [node .importStatement, node .importKeyword],
    [node .exportStatement, primary],
    [node .lexicalDeclaration, primary],
    degrees [.call, .instantiation, .unary, .binary] ++ [node .awaitExpression, node .arrowFunction],
    degrees [.extends_, .instantiation],
    [node .intersectionType, node .unionType, node .conditionalType, node .functionType,
      .degree .binary, node .typePredicate, node .readonlyType],
    [node .mappedTypeClause, primary],
    [node .accessibilityModifier, primary],
    [.degree .unaryVoid, group .expression],
    [node .extendsClause, primary],
    degrees [.unary, .assign],
    [.degree .declaration, group .expression],
    [node .predefinedType, node .unaryExpression],
    [group .type, node .flowMaybeType],
    [node .tupleType, node .arrayType, group .pattern, group .type],
    [node .readonlyType, group .pattern],
    [node .readonlyType, primary],
    [node .typeQuery, node .subscriptExpression, group .expression],
    [node .typeQuery, group .querySubscript],
    [node .nestedTypeIdentifier, node .genericType, group .primaryType, node .lookupType,
      node .indexTypeQuery, group .type],
    [node .asExpression, node .satisfiesExpression, group .primaryType],
    [group .queryMember, node .memberExpression],
    [node .memberExpression, group .importMember],
    [group .queryMember, primary],
    [group .querySubscript, node .subscriptExpression],
    [group .querySubscript, primary],
    [group .queryCall, primary],
    [group .queryInstantiation, primary],
    [node .typeQuery, primary],
    [node .overrideModifier, primary],
    [group .decoratorCall, node .decorator],
    [node .literalType, group .pattern],
    [node .predefinedType, group .pattern],
    [node .callExpression, group .queryCall],
    [node .callExpression, group .importCall],
    [node .newExpression, primary],
    [node .metaProperty, primary],
    [node .constructSignature, group .propertyName]]

end Graft.Grammar
