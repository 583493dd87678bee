import Graft.Grammar.Piece

/-! Strings, templates and regular expressions; arguments and decorators. -/

namespace Graft.Grammar
open Rule

def decoratorPath : Rule :=
  oneOf [.token .identifier, .rename .memberExpression (.group .decoratorMember)]

def decoratorTarget : Rule :=
  oneOf [decoratorPath, .rename .callExpression (.group .decoratorCall)]

def literalPhrases : List Production := [
  .node .string <| oneOf [
    between .doubleQuote (opt (.group .doubleStringParts)) .doubleQuote,
    between .singleQuote (opt (.group .singleStringParts)) .singleQuote],
  .node .templateString (between .backquote (opt (.group .templateParts)) .backquote),
  .node .templateSubstitution (between .openSubstitution expressions .closeBrace),
  .node .regex
    (seq [.mark .slash, .token .regexPattern, .token .regexEnd, opt (.token .regexFlags)]),
  .node .metaProperty <| oneOf [
    seq [.word .new_, .mark .dot, .word .target_],
    seq [.word .import_, .mark .dot, .word .meta_]],
  .node .arguments
    (inParens (opt (list (opt (oneOf [.group .expression, .node .spreadElement])) .arrayItems))),
  .node .decorator
    (seq [.mark .at_,
      oneOf [decoratorTarget, .rename .parenthesizedExpression (.group .decoratorParentheses)]]),
  .group .decoratorMember
    (prec .member (seq [decoratorPath, .mark .dot, .rename .propertyIdentifier (.token .identifier)])),
  .group .decoratorCall
    (prec .call (seq [decoratorPath, opt (.node .typeArguments), .node .arguments]))]

end Graft.Grammar
