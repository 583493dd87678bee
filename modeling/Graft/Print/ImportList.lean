import Graft.Print.Literal

/-! Lists of imported names, and import declarations. -/

namespace Graft

inductive ListLayout where
  | inline
  /-- One name a line, perhaps with a comma behind the last. -/
  | lines (itemIndent closeIndent : Text) (trailingComma : Bool)
  deriving DecidableEq

def namedImports (names : List Text) (layout : ListLayout) : Text :=
  if names.isEmpty then ['\x7b', '\x7d']
  else
    match layout with
    | .inline => "\x7b ".toList ++ Text.join ", ".toList names ++ " \x7d".toList
    | .lines itemIndent closeIndent trailingComma =>
      "\x7b\n".toList ++ Text.join ",\n".toList (names.map (itemIndent ++ ·)) ++
        (if trailingComma then [','] else []) ++ '\n' :: closeIndent ++ ['\x7d']

/-- An import declaration. Without names the module is imported for its effects. -/
def Quote.importDeclaration (quote : Quote) (module : Text) (names : List Text) : Text :=
  if names.isEmpty then "import ".toList ++ quote.literal module ++ ";".toList
  else
    "import ".toList ++ namedImports names .inline ++ " from ".toList ++ quote.literal module ++ ";".toList

end Graft
