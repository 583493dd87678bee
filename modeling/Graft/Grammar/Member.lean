import Graft.Grammar.Piece

/-! Members of classes and objects, and the patterns of parameters. -/

namespace Graft.Grammar
open Rule

def methodStart : Rule :=
  seq [opt (.node .accessibilityModifier), opt (.word .static_), opt (.node .overrideModifier),
    opt (.word .readonly_), opt (.word .async_),
    opt (oneOf [.word .get_, .word .set_, .mark .star])]

def methodHead : Rule :=
  seq [.role .name (.group .propertyName), opt (.mark .question), .group .signature]

def memberPhrases : List Production := [
  .node .classBody (inBraces (opt (.group .classMembers))),
  .node .formalParameters
    (inParens (opt (seq [list (.group .parameter) .parameters, opt (.mark .comma)]))),
  .node .classStaticBlock
    (seq [.word .static_, opt (.token .lineEnd), .role .body (.node .statementBlock)]),
  { phrase := .group .pattern, weight := -1, rule := oneOf [target, .node .restPattern] },
  .node .restPattern (toRight (seq [.mark .ellipsis, target])),
  .node .methodDefinition
    (toLeft (seq [methodStart, methodHead, .role .body (.node .statementBlock)])),
  .node .pair (seq [.group .propertyName, .mark .colon, .role .value (.group .expression)]),
  .node .pairPattern
    (seq [.group .propertyName, .mark .colon,
      .role .value (oneOf [.group .pattern, .node .assignmentPattern])]),
  .group .propertyName <| oneOf [
    nameAs .propertyIdentifier, .token .privateName, .node .string, .token .number,
    .node .computedPropertyName],
  .node .computedPropertyName (inBrackets (.group .expression))]

end Graft.Grammar
