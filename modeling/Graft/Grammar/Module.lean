import Graft.Grammar.Piece

/-! Programs, and what they export and import. -/

namespace Graft.Grammar
open Rule

def exportSpecifier : Rule := .node .exportSpecifier

def importSpecifier : Rule := .node .importSpecifier

def typeMark : Rule := opt (words [.type_, .typeof_])

/-- What an export statement exports from another place or under other names. -/
def exportedNames : Rule :=
  oneOf [seq [.mark .star, .group .fromClause], seq [.node .namespaceExport, .group .fromClause],
    seq [.node .exportClause, .group .fromClause], .node .exportClause]

def modulePhrases : List Production := [
  .node .program (seq [opt (.token .hashBang), opt (.group .statements)]),
  .node .exportStatement <| oneOf [
    seq [.word .export_, exportedNames, semicolon],
    seq [opt (.group .decorators), .word .export_,
      oneOf [
        .role .declaration (.group .declaration),
        seq [.word .default_,
          oneOf [
            .role .declaration (.group .declaration),
            seq [.role .value (.group .expression), semicolon]]]]],
    seq [.word .export_, .word .type_, .node .exportClause, opt (.group .fromClause), semicolon],
    seq [.word .export_, .word .import_, .node .importAlias],
    seq [.word .export_, .mark .assign, .group .expression, semicolon],
    seq [.word .export_, .word .as_, .word .namespace_, .token .identifier, semicolon]],
  .node .namespaceExport (seq [.mark .star, .word .as_, .group .exportedName]),
  .node .exportClause
    (inBraces (seq [opt (list exportSpecifier .exportSpecifiers), opt (.mark .comma)])),
  .node .exportSpecifier
    (seq [typeMark, .role .name (.group .exportedName),
      opt (seq [.word .as_, .role .rename (.group .exportedName)])]),
  .group .exportedName (oneOf [.token .identifier, .node .string]),
  .group .declaration <| oneOf [
    nodes [.functionDeclaration, .generatorFunctionDeclaration, .classDeclaration,
      .lexicalDeclaration, .variableDeclaration, .functionSignature, .abstractClassDeclaration,
      .moduleDeclaration],
    prec .declaration (.node .internalModule),
    nodes [.typeAliasDeclaration, .enumDeclaration, .interfaceDeclaration, .importAlias,
      .ambientDeclaration]],
  .node .importKeyword (.word .import_),
  .node .importStatement
    (seq [.word .import_, typeMark,
      oneOf [seq [.node .importClause, .group .fromClause], .node .importRequireClause,
        .role .source (.node .string)],
      opt (.node .importAttribute), semicolon]),
  .node .importClause <| oneOf [
    .node .namespaceImport,
    .node .namedImports,
    seq [.group .importedName,
      opt (seq [.mark .comma, oneOf [.node .namespaceImport, .node .namedImports]])]],
  .group .fromClause (seq [.word .from_, .role .source (.node .string)]),
  .node .namespaceImport (seq [.mark .star, .word .as_, .token .identifier]),
  .node .namedImports
    (inBraces (seq [opt (list importSpecifier .importSpecifiers), opt (.mark .comma)])),
  .node .importSpecifier
    (seq [typeMark,
      oneOf [
        .role .name (.group .importedName),
        seq [.role .name (oneOf [.group .exportedName, .rename .identifier (.word .type_)]),
          .word .as_, .role .rename (.group .importedName)]]]),
  .node .importAttribute (seq [words [.with_, .assert_], .node .object])]

end Graft.Grammar
