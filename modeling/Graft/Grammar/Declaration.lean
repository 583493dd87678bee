import Graft.Grammar.Member
import Graft.Grammar.Function
import Graft.Grammar.Literal

/-! Declarations of types, modules and fields, and the operators on types of values. -/

namespace Graft.Grammar
open Rule

/-- A type that another one can extend. -/
def baseType : Rule := oneOf [typeName, .node .nestedTypeIdentifier, .node .genericType]

def enumMember : Rule := oneOf [.role .name (.group .propertyName), .node .enumAssignment]

/-- The type and the first value of a parameter. -/
def parameterRest : Rule := seq [opt (.node .typeClause), opt (.group .initializer)]

def declarationPhrases : List Production := [
  .node .publicFieldDefinition
    (seq [opt (.group .decorators),
      opt (oneOf [
        seq [.word .declare_, opt (.node .accessibilityModifier)],
        seq [.node .accessibilityModifier, opt (.word .declare_)]]),
      oneOf [
        seq [opt (.word .static_), opt (.node .overrideModifier), opt (.word .readonly_)],
        seq [opt (.word .abstract_), opt (.word .readonly_)],
        seq [opt (.word .readonly_), opt (.word .abstract_)],
        opt (.word .accessor_)],
      .role .name (.group .propertyName), opt (oneOf [.mark .question, .mark .bang]),
      opt (.node .typeClause), opt (.group .initializer)]),
  .group .importedName (oneOf [.token .identifier, .rename .identifier (.word .type_)]),
  .node .nonNullExpression (precLeft .unary (seq [.group .expression, .mark .bang])),
  .node .methodSignature (seq [methodStart, methodHead]),
  .node .abstractMethodSignature
    (seq [opt (.node .accessibilityModifier), .word .abstract_, opt (.node .overrideModifier),
      opt (oneOf [.word .get_, .word .set_, .mark .star]), methodHead]),
  .node .functionSignature
    (seq [functionStart, functionName, .group .signature, oneOf [semicolon, .token .headEnd]]),
  .group .decoratorParentheses (inParens decoratorTarget),
  .node .asExpression
    (precLeft .binary (seq [.group .expression, .word .as_, oneOf [.word .const_, .group .type]])),
  .node .satisfiesExpression
    (precLeft .binary (seq [.group .expression, .word .satisfies_, .group .type])),
  .node .instantiationExpression
    (prec .instantiation (seq [.group .expression, .node .typeArguments])),
  .node .importRequireClause
    (seq [.token .identifier, .mark .assign, .word .require_,
      inParens (.role .source (.node .string))]),
  .node .extendsClause (seq [.word .extends_, list (.group .baseClass) .baseClasses]),
  .group .baseClass
    (prec .extends_ (seq [.role .value (.group .expression), opt (.node .typeArguments)])),
  .node .implementsClause (seq [.word .implements_, list (.group .type) .types]),
  .node .ambientDeclaration
    (seq [.word .declare_,
      oneOf [
        .group .declaration,
        seq [.word .global_, .node .statementBlock],
        seq [.word .module_, .mark .dot, .rename .propertyIdentifier (.token .identifier),
          .mark .colon, .group .type, semicolon]]]),
  .node .abstractClassDeclaration
    (prec .declaration (seq [opt (.group .decorators), .word .abstract_, .word .class_,
      .role .name typeName, classRest])),
  .node .moduleDeclaration (seq [.word .module_, .group .moduleRest]),
  .node .internalModule (seq [.word .namespace_, .group .moduleRest]),
  .group .moduleRest
    (toRight (seq [
      .role .name (oneOf [.node .string, .token .identifier, .node .nestedIdentifier]),
      opt (.role .body (.node .statementBlock))])),
  .node .importAlias
    (seq [.word .import_, .token .identifier, .mark .assign,
      oneOf [.token .identifier, .node .nestedIdentifier], semicolon]),
  .node .nestedTypeIdentifier
    (prec .member (seq [oneOf [.token .identifier, .node .nestedIdentifier], .mark .dot,
      .role .name typeName])),
  .node .interfaceDeclaration
    (seq [.word .interface_, .role .name typeName, opt (.node .typeParameters),
      opt (.node .extendsTypeClause), .role .body (.rename .interfaceBody (.node .objectType))]),
  .node .extendsTypeClause (seq [.word .extends_, list baseType .baseTypes]),
  .node .enumDeclaration
    (seq [opt (.word .const_), .word .enum_, .role .name (.token .identifier),
      .role .body (.node .enumBody)]),
  .node .enumBody
    (inBraces (opt (seq [list enumMember .enumMembers, opt (.mark .comma)]))),
  .node .enumAssignment (seq [.role .name (.group .propertyName), .group .initializer]),
  .node .typeAliasDeclaration
    (seq [.word .type_, .role .name typeName, opt (.node .typeParameters), .mark .assign,
      .role .value (.group .type), semicolon]),
  .node .accessibilityModifier (words [.public_, .private_, .protected_]),
  .node .overrideModifier (.word .override_),
  .node .requiredParameter (seq [.group .parameterName, parameterRest]),
  .node .optionalParameter (seq [.group .parameterName, .mark .question, parameterRest]),
  .group .parameterName
    (seq [opt (.group .decorators), opt (.node .accessibilityModifier),
      opt (.node .overrideModifier), opt (.word .readonly_), oneOf [.group .pattern, .word .this_]])]

end Graft.Grammar
