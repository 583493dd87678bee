import Graft.Grammar.Member

/-! Types. -/

namespace Graft.Grammar
open Rule

/-- What an import in a type can be followed by. -/
def importMember : Rule := .rename .memberExpression (.group .importMember)

def importCall : Rule := .rename .callExpression (.group .importCall)

def querySubscript : Rule := .rename .subscriptExpression (.group .querySubscript)
def queryMember : Rule := .rename .memberExpression (.group .queryMember)
def queryCall : Rule := .rename .callExpression (.group .queryCall)

/-- What a member or subscript in a type query can be taken of. -/
def queryObject : Rule :=
  oneOf [.token .identifier, .word .this_, querySubscript, queryMember, queryCall]

/-- What can be called or instantiated in a type query. -/
def queryFunction : Rule :=
  oneOf [.node .importKeyword, .token .identifier, queryMember, querySubscript]

/-- The words before a member of an object type. -/
def signatureStart : Rule :=
  seq [opt (.node .accessibilityModifier), opt (.word .static_), opt (.node .overrideModifier),
    opt (.word .readonly_)]

def memberType : Rule :=
  nodes [.exportStatement, .propertySignature, .callSignature, .constructSignature,
    .indexSignature, .methodSignature]

def memberSeparator : Rule := oneOf [.mark .comma, semicolon]

/-- Two types joined by a mark, of which the first may be left out. -/
def joined (mark : Mark) : Rule :=
  toLeft (seq [opt (.group .type), .mark mark, .group .type])

def typePhrases : List Production := [
  .node .omittingClause (seq [.mark .omittingColon, .group .type]),
  .node .addingClause (seq [.mark .addingColon, .group .type]),
  .node .optingClause (seq [.mark .optingColon, .group .type]),
  .node .typeClause (seq [.mark .colon, oneOf [.group .type, importMember, importCall]]),
  .group .importMember
    (seq [oneOf [.node .importKeyword, importMember, importCall], .mark .dot, memberName]),
  .group .importCall (seq [oneOf [.node .importKeyword, importMember], .node .arguments]),
  .node .asserts
    (seq [.word .asserts_, oneOf [.node .typePredicate, .token .identifier, .word .this_]]),
  .node .assertsClause (seq [.mark .colon, .node .asserts]),
  .group .type <| oneOf [
    .group .primaryType,
    nodes [.functionType, .readonlyType, .constructorType, .inferType],
    strong (.number (-1)) none importMember,
    strong (.number (-1)) none importCall],
  .group .tupleParameter
    (seq [.role .name (oneOf [.token .identifier, .node .restPattern]), .node .typeClause]),
  .group .optionalTupleParameter
    (seq [.role .name (.token .identifier), .mark .question, .node .typeClause]),
  .node .optionalType (seq [.group .type, .mark .question]),
  .node .restType (seq [.mark .ellipsis, .group .type]),
  .group .tupleMember <| oneOf [
    .rename .requiredParameter (.group .tupleParameter),
    .rename .optionalParameter (.group .optionalTupleParameter),
    nodes [.optionalType, .restType],
    .group .type],
  .node .constructorType
    (toLeft (seq [opt (.word .abstract_), .word .new_, opt (.node .typeParameters),
      .node .formalParameters, .mark .arrow, .group .type])),
  .group .primaryType <| oneOf [
    nodes [.parenthesizedType, .predefinedType],
    typeName,
    nodes [.nestedTypeIdentifier, .genericType, .objectType, .arrayType, .tupleType,
      .flowMaybeType, .typeQuery, .indexTypeQuery],
    .rename .thisType (.word .this_),
    nodes [.existentialType, .literalType, .lookupType, .conditionalType, .templateLiteralType,
      .intersectionType, .unionType],
    .word .const_],
  .node .templateType
    (between .openSubstitution (oneOf [.group .primaryType, .node .inferType]) .closeBrace),
  .node .templateLiteralType (between .backquote (opt (.group .templateTypeParts)) .backquote),
  .node .inferType
    (toRight (seq [.word .infer_, typeName, opt (seq [.word .extends_, .group .type])])),
  .node .conditionalType
    (toRight (seq [.group .type, .word .extends_, .group .type, .mark .question, .group .type,
      .mark .colon, .group .type])),
  .node .genericType
    (prec .call (seq [oneOf [typeName, .node .nestedTypeIdentifier], .node .typeArguments])),
  .node .typePredicate
    (seq [
      .role .name (oneOf [.token .identifier, .word .this_, .rename .identifier (.node .predefinedType)]),
      .word .is_, .group .type]),
  .node .predicateClause (seq [.mark .colon, .node .typePredicate]),
  .group .queryMember (seq [queryObject, oneOf [.mark .dot, .mark .optionalChain], memberName]),
  .group .querySubscript
    (seq [queryObject, opt (.mark .optionalChain),
      inBrackets (oneOf [.node .predefinedType, .node .string, .token .number])]),
  .group .queryCall (seq [queryFunction, .node .arguments]),
  .group .queryInstantiation (seq [queryFunction, .node .typeArguments]),
  .node .typeQuery
    (toRight (seq [.word .typeof_,
      oneOf [querySubscript, queryMember, queryCall,
        .rename .instantiationExpression (.group .queryInstantiation), .token .identifier,
        .word .this_]])),
  .node .indexTypeQuery (seq [.word .keyof_, .group .primaryType]),
  .node .lookupType (seq [.group .primaryType, inBrackets (.group .type)]),
  .node .mappedTypeClause
    (seq [.role .name typeName, .word .in_, .group .type,
      opt (seq [.word .as_, .role .rename (.group .type)])]),
  .node .literalType <| oneOf [
    .rename .unaryExpression (.group .signedNumber),
    .token .number,
    .node .string,
    words [.true_, .false_, .null_, .undefined_]],
  .group .signedNumber
    (strong (.number 1) (some .left) (seq [oneOf [.mark .minus, .mark .plus], .token .number])),
  .node .existentialType (.mark .star),
  .node .flowMaybeType (toRight (seq [.mark .question, .group .primaryType])),
  .node .parenthesizedType (inParens (.group .type)),
  .node .predefinedType <| oneOf [
    words [.any_, .number_, .boolean_, .string_, .symbol_],
    seq [.word .unique_, .word .symbol_],
    words [.void_, .unknown_, .never_, .object_]],
  .node .typeArguments
    (seq [.mark .less, list (.group .type) .types, opt (.mark .comma), .mark .greater]),
  .node .objectType
    (seq [oneOf [.mark .openBrace, .mark .openExactBrace],
      opt (seq [opt (oneOf [.mark .comma, .mark .semicolon]), memberType,
        opt (.group .memberTypes), opt memberSeparator]),
      oneOf [.mark .closeBrace, .mark .closeExactBrace]]),
  .node .callSignature (.group .signature),
  .node .propertySignature
    (seq [signatureStart, .role .name (.group .propertyName), opt (.mark .question),
      opt (.node .typeClause)]),
  .node .typeParameters
    (seq [.mark .less, list (.node .typeParameter) .typeParameters, opt (.mark .comma),
      .mark .greater]),
  .node .typeParameter
    (seq [opt (.word .const_), .role .name typeName, opt (.node .constraint),
      opt (.node .defaultType)]),
  .node .defaultType (seq [.mark .assign, .group .type]),
  .node .constraint (seq [oneOf [.word .extends_, .mark .colon], .group .type]),
  .node .constructSignature
    (seq [opt (.word .abstract_), .word .new_, opt (.node .typeParameters),
      .node .formalParameters, opt (.node .typeClause)]),
  .node .indexSignature
    (seq [opt (seq [opt (oneOf [.mark .minus, .mark .plus]), .word .readonly_]),
      inBrackets (oneOf [
        seq [.role .name (oneOf [.token .identifier, softName]), .mark .colon, .group .type],
        .node .mappedTypeClause]),
      nodes [.typeClause, .omittingClause, .addingClause, .optingClause]]),
  .node .arrayType (seq [.group .primaryType, .mark .openBracket, .mark .closeBracket]),
  .node .tupleType
    (inBrackets (seq [opt (list (.group .tupleMember) .tupleMembers), opt (.mark .comma)])),
  .node .readonlyType (seq [.word .readonly_, .group .type]),
  .node .unionType (joined .or_),
  .node .intersectionType (joined .and_),
  .node .functionType
    (toLeft (seq [opt (.node .typeParameters), .node .formalParameters, .mark .arrow,
      oneOf [.group .type, .node .asserts, .node .typePredicate]]))]

end Graft.Grammar
