import Graft.Edit.Error
import Graft.Edit.Import
import Graft.Edit.Target
import Graft.Print.Attribute

/-! Operations are requests that have all they require. Running one on a program gives a change. -/

namespace Graft

inductive Operation where
  | upsertImport (module : Text) (specifiers : List Text)
  | updateFunctionBody (name body : Text)
  | replaceElement (tag replacement : Text)
  | replaceAttributes (tag : Text) (attributes : Json.Members)
  | insertAfterLastImport (text : Text)
  | insertAtTop (text : Text)

namespace Operation

def required {α : Type} (action : Action) (requirement : Requirement) : Option α → Except EditError α
  | some value => .ok value
  | none => .error (.invalid (.lacks action requirement))

/-- A text that a request must have. An empty one counts as missing. -/
def requiredText (action : Action) (requirement : Requirement) (text : Option Text) : Except EditError Text :=
  required action requirement (text.filter fun text => !text.isEmpty)

def ofRequest (request : Request) : Except EditError Operation :=
  let action := request.action
  let selector := request.selector.getD {}
  let payload := request.payload.getD {}
  match action with
  | .upsertImport => do
    let imports ← required action .imports payload.imports
    let module ← requiredText action .module (some imports.module)
    return .upsertImport module imports.specifiers
  | .updateFunctionBody => do
    let name ← requiredText action .functionName selector.functionName
    let body ← requiredText action .functionBody payload.functionBody
    return .updateFunctionBody name body
  | .replaceElement => do
    let tag ← requiredText action .tag selector.tag
    let replacement ← requiredText action .replacement payload.replacement
    return .replaceElement tag replacement
  | .replaceAttributes => do
    let tag ← requiredText action .tag selector.tag
    let attributes ← required action .attributes payload.attributes
    return .replaceAttributes tag attributes
  | .insertAfterLastImport => do
    return .insertAfterLastImport (← requiredText action .insertText payload.insertText)
  | .insertAtTop => do
    return .insertAtTop (← requiredText action .insertText payload.insertText)

/-- Name the piece of code that could not be read. -/
def readPiece {α : Type} (piece : Piece) : Except ParseError α → Except EditError α
  | .ok value => .ok value
  | .error error => .error (.piece piece error)

theorem readPiece_eq_error {α : Type} {piece : Piece} {read : Except ParseError α} {error : EditError} :
    readPiece piece read = .error error ↔ ∃ cause, read = .error cause ∧ error = .piece piece cause := by
  cases read with
  | error cause => simp [readPiece, eq_comm]
  | ok value => simp [readPiece]

theorem readPiece_eq_ok {α : Type} {piece : Piece} {read : Except ParseError α} {value : α} :
    readPiece piece read = .ok value ↔ read = .ok value := by
  cases read with
  | error cause => simp [readPiece]
  | ok other => simp [readPiece]

end Operation

namespace Program

/-- Put a new body in the place of a function's. Without such a function the body is not even read. -/
def updateFunctionBody (program : Program) (style : Style) (name body : Text) : Except EditError Change :=
  match program.functionNamed? name with
  | none => .ok .miss
  | some target => do
    let snippet ← Operation.readPiece .functionBody (target.shell.parseBody body)
    return .done ⟨target.body.span, style.block snippet (lineIndent program.source target.body.start)⟩

/-- Put new markup in the place of an element. The markup is read whether there is such an element or
not. -/
def replaceElement (program : Program) (tag replacement : Text) : Except EditError Change := do
  let expression ← Operation.readPiece .replacement (ParsedExpression.parse replacement)
  if expression.isMarkup then
    match program.elementNamed? tag with
    | none => return .miss
    | some span => return .done ⟨span, expression.snippet.indented (lineIndent program.source span.start) false⟩
  else .error (.invalid .notMarkup)

/-- The attributes of a tag as they are written, behind a space if there are any. -/
def attributeText (style : Style) (attributes : Json.Members) : Text :=
  if attributes.isEmpty then []
  else ' ' :: Text.join [' '] (attributes.map fun (name, value) => style.quote.tagAttribute name value)

def endsBlank (text : Text) : Bool := text.getLast?.any isBlank

/-- Put new attributes in the place of a tag's. A space before the mark that ends the tag is kept. -/
def replaceAttributes (program : Program) (style : Style) (tag : Text) (attributes : Json.Members) : Change :=
  match program.attributesOf? tag with
  | none => .miss
  | some slot =>
    let old := (Text.slice? slot.span.start slot.span.stop program.source).getD []
    .done ⟨slot.span, attributeText style attributes ++ if slot.closesItself && endsBlank old then [' '] else []⟩

/-- Bring statements in. A text that holds none counts as done. -/
def insertStatements (program : Program) (anchor : Anchor) (text : Text) : Except EditError Change := do
  let snippet ← Operation.readPiece .insertText (parseStatements text)
  return ⟨true, if snippet.isEmpty then none else some (anchor.insertion program snippet.text)⟩

end Program

namespace Operation

def run (operation : Operation) (style : Style) (program : Program) : Except EditError Change :=
  match operation with
  | upsertImport module specifiers => .ok (program.upsertImport style module specifiers)
  | updateFunctionBody name body => program.updateFunctionBody style name body
  | replaceElement tag replacement => program.replaceElement tag replacement
  | replaceAttributes tag attributes => .ok (program.replaceAttributes style tag attributes)
  | insertAfterLastImport text =>
    let anchor := match program.lastImport? with
      | some statement => Anchor.after statement
      | none => .top
    program.insertStatements anchor text
  | insertAtTop text => program.insertStatements .top text

end Operation
end Graft
