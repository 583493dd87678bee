import Graft.Edit.Anchor
import Graft.Edit.Change
import Graft.Edit.Names
import Graft.Print.ImportList
import Graft.Print.Style

/-! Bringing imported names into a program. A module that is imported already gets the names that it
lacks; any other gets a declaration of its own behind the imports that the program starts with. -/

namespace Graft

/-- An entry of a list of imports: the name that the module exports, and how it is written. -/
structure Entry where
  name : Text
  text : Text
  deriving DecidableEq

namespace Entry

def ofSpecifier (specifier : ImportSpecifier) : Entry := ⟨specifier.imported, specifier.text⟩

def ofName (name : Text) : Entry := ⟨name, name⟩

/-- The requested names that no entry has, each once and in order. -/
def additions (present : List Entry) (requested : List Text) : List Text :=
  Names.sort ((Names.unique requested).filter fun name => !present.any fun entry => entry.name = name)

/-- Entries with the requested names among them. Those that were there keep their text. -/
def merge (present : List Entry) (requested : List Text) : List Entry :=
  sortBy (fun entry other => Names.le entry.name other.name)
    (present ++ (additions present requested).map ofName)

end Entry

namespace Import

/-- How a list of imports is laid out. One that spans several lines has one name a line. -/
def layout (source : Text) (list : Node) (present : List ImportSpecifier) : ListLayout :=
  if list.text.contains '\n' then
    let close := list.stop - 1
    let closeIndent := lineIndent source close
    let itemIndent := match present.head? with
      | some first => lineIndent source first.node.start
      | none => closeIndent ++ "  ".toList
    let tail := match present.getLast? with
      | some last => (Text.slice? last.node.stop close source).getD []
      | none => []
    .lines itemIndent closeIndent (tail.contains ',')
  else .inline

/-- Whether a clause binds the module as a whole, which leaves no room for a list. -/
def bindsModule (clause : Node) : Bool :=
  clause.namedChildren.any fun child => child.kind = .namespaceImport

def extend (it : Import) (style : Style) (program : Program) (requested : List Text) : Change :=
  let present := it.specifiers.map Entry.ofSpecifier
  let additions := Entry.additions present requested
  let patch : Option Patch :=
    match it.namedList? with
    | some list =>
      let merged := Entry.merge present requested
      if merged = present then none
      else some ⟨list.span, namedImports (merged.map Entry.text) (layout program.source list it.specifiers)⟩
    | none =>
      if additions.isEmpty then none
      else
        match it.clause? with
        | some clause =>
          if bindsModule clause then
            some ((Anchor.after it.node).insertion program
              (style.quote.importDeclaration (it.source?.getD []) additions))
          else some (.insertion clause.stop (", ".toList ++ namedImports additions .inline))
        | none =>
          it.sourceNode?.map fun module =>
            .insertion module.start (namedImports additions .inline ++ " from ".toList)
  ⟨!additions.isEmpty, patch⟩

end Import

namespace Program

def importOf? (node : Node) : Option Import :=
  match node.construct with
  | .importDeclaration it => some it
  | _ => none

def importOfModule? (program : Program) (module : Text) : Option Import :=
  program.statements.findSome? fun statement =>
    (importOf? statement).bind fun it => if it.source? = some module then some it else none

/-- The imports that a program starts with. -/
def leadingImports (program : Program) : List Node :=
  program.statements.takeWhile fun statement => (importOf? statement).isSome

def lastImport? (program : Program) : Option Node :=
  program.statements.reverse.find? fun statement => (importOf? statement).isSome

def upsertImport (program : Program) (style : Style) (module : Text) (requested : List Text) : Change :=
  match program.importOfModule? module with
  | some it => it.extend style program requested
  | none =>
    let text := style.quote.importDeclaration module (Names.sort (Names.unique requested))
    let anchor := match program.leadingImports.getLast? with
      | some statement => Anchor.after statement
      | none => .top
    ⟨true, some (anchor.insertion program text)⟩

end Program
end Graft
