import Graft.Grammar.Piece

/-! Markup inside expressions: elements, attributes and what stands between tags. -/

namespace Graft.Grammar
open Rule

def markupName : Rule := oneOf [.rename .identifier (.token .dashedName), .token .identifier]

def markupPath : Rule := .rename .memberExpression (.node .nestedIdentifier)

/-- An element or one that closes itself. -/
def element : Rule := nodes [.jsxElement, .jsxSelfClosingElement]

/-- A tag up to its end: unless it starts a fragment, it has a name and attributes. -/
def tagStart : Rule :=
  seq [.mark .less,
    opt (seq [
      oneOf [
        .role .name (oneOf [markupName, .node .jsxNamespaceName]),
        seq [.role .name (oneOf [.token .identifier, markupPath]), opt (.node .typeArguments)]],
      opt (.group .tagAttributes)])]

def markupPhrases : List Production := [
  .node .jsxElement
    (seq [.node .jsxOpeningElement, opt (.group .markupChildren), .node .jsxClosingElement]),
  .node .jsxExpression
    (inBraces (opt (oneOf [.group .expression, .node .sequenceExpression, .node .spreadElement]))),
  { phrase := .node .jsxOpeningElement, weight := -1, rule := seq [tagStart, .mark .greater] },
  .node .nestedIdentifier
    (prec .member (seq [oneOf [.token .identifier, markupPath], .mark .dot,
      .rename .propertyIdentifier (.token .identifier)])),
  .node .jsxNamespaceName (seq [markupName, .mark .colon, markupName]),
  .node .jsxClosingElement
    (seq [.mark .closeTag, opt (oneOf [markupName, markupPath, .node .jsxNamespaceName]),
      .mark .greater]),
  { phrase := .node .jsxSelfClosingElement, weight := -1, rule := seq [tagStart, .mark .selfCloseTag] },
  .node .jsxAttribute
    (seq [oneOf [.rename .propertyIdentifier (oneOf [.token .dashedName, .token .identifier]),
        .node .jsxNamespaceName],
      opt (seq [.mark .assign,
        oneOf [.rename .string (.group .attributeString), .node .jsxExpression, element]])]),
  .group .attributeString <| oneOf [
    between .doubleQuote (opt (.group .doubleAttributeParts)) .doubleQuote,
    between .singleQuote (opt (.group .singleAttributeParts)) .singleQuote]]

end Graft.Grammar
