import Graft.Edit.Error
import Graft.Json.Record

/-! Requests as JSON. -/

namespace Graft

open Json (Field Record Reader Value)

def Wire.text : Reader Text := fun _ => Json.text

def Wire.textOrNull : Reader (Option Text) := fun _ => Json.optional Json.text

def Wire.orNull {α : Type} (reader : Reader α) : Reader (Option α) := fun depth => Json.optional (reader depth)

/-- A member of an object, left out if there is none. -/
def Wire.optionalMember (name : String) (value : Option Value) : Json.Members :=
  value.toList.map fun value => (name.toList, value)

/-! ### Reading -/

structure Selector.Draft where
  functionName : Option (Option Text) := none
  tag : Option (Option Text) := none

def Selector.record : Record Selector.Draft Selector where
  name := "Selector".toList
  blank := {}
  fields := [
    .of "functionName" false (·.functionName) (fun draft value => { draft with functionName := some value })
      Wire.textOrNull,
    .of "jsxTag" false (·.tag) (fun draft value => { draft with tag := some value }) Wire.textOrNull]
  finish draft := .ok ⟨draft.functionName.getD none, draft.tag.getD none⟩

structure ImportPayload.Draft where
  module : Option Text := none
  specifiers : Option (List Text) := none

def ImportPayload.record : Record ImportPayload.Draft ImportPayload where
  name := "ImportPayload".toList
  blank := {}
  fields := [
    .of "module" true (·.module) (fun draft value => { draft with module := some value }) Wire.text,
    .of "specifiers" false (·.specifiers) (fun draft value => { draft with specifiers := some value })
      (Json.list Wire.text)]
  finish draft := do return ⟨← Json.need "module" draft.module, draft.specifiers.getD []⟩

structure Payload.Draft where
  imports : Option (Option ImportPayload) := none
  functionBody : Option (Option Text) := none
  replacement : Option (Option Text) := none
  attributes : Option (Option Json.Members) := none
  insertText : Option (Option Text) := none

def Payload.record : Record Payload.Draft Payload where
  name := "Payload".toList
  blank := {}
  fields := [
    .of "import" false (·.imports) (fun draft value => { draft with imports := some value })
      (Wire.orNull ImportPayload.record.read),
    .of "functionBody" false (·.functionBody) (fun draft value => { draft with functionBody := some value })
      Wire.textOrNull,
    .of "jsxReplaceWith" false (·.replacement) (fun draft value => { draft with replacement := some value })
      Wire.textOrNull,
    .of "jsxAttributes" false (·.attributes) (fun draft value => { draft with attributes := some value })
      (Wire.orNull Json.object),
    .of "insertText" false (·.insertText) (fun draft value => { draft with insertText := some value })
      Wire.textOrNull]
  finish draft := .ok ⟨draft.imports.getD none, draft.functionBody.getD none, draft.replacement.getD none,
    draft.attributes.getD none, draft.insertText.getD none⟩

/-- Fields of a request that have been read. How its action is read is left open. -/
structure Request.Draft (α : Type) where
  action : Option α := none
  selector : Option (Option Selector) := none
  payload : Option (Option Payload) := none
  content : Option Text := none

/-- A request whose action may not have been looked up yet. -/
structure RequestOf (α : Type) where
  action : α
  selector : Option Selector
  payload : Option Payload
  content : Text

/-- A request, given how its action is read. -/
def RequestOf.record {α : Type} (name : String) (action : Reader α) : Record (Request.Draft α) (RequestOf α) where
  name := name.toList
  blank := {}
  fields := [
    .of "action" true (·.action) (fun draft value => { draft with action := some value }) action,
    .of "selector" false (·.selector) (fun draft value => { draft with selector := some value })
      (Wire.orNull Selector.record.read),
    .of "payload" false (·.payload) (fun draft value => { draft with payload := some value })
      (Wire.orNull Payload.record.read),
    .of "content" false (·.content) (fun draft value => { draft with content := some value }) Wire.text]
  finish draft := do
    return ⟨← Json.need "action" draft.action, draft.selector.getD none, draft.payload.getD none, draft.content.getD []⟩

namespace Request

/-- A request whose action is known. -/
def ofWire (wire : RequestOf Action) : Request :=
  ⟨wire.action, wire.selector, wire.payload, wire.content⟩

def readAction : Reader Action := fun _ text => do
  let (tag, rest) ← Json.text text
  match Action.ofTag? tag with
  | some action => return (action, rest)
  | none => .error (.rejected (EditError.unknownAction tag).message)

/-- Read a request. The whole text is read before its action is looked up. -/
def ofJson (text : Text) : Except EditError Request :=
  match Json.decode (RequestOf.record "WireRequest" Wire.text).read text with
  | .error fault => .error (.request fault)
  | .ok wire =>
    match Action.ofTag? wire.action with
    | none => .error (.unknownAction wire.action)
    | some action => .ok (ofWire ⟨action, wire.selector, wire.payload, wire.content⟩)

/-- Read a request whose action is looked up at once. -/
def ofJsonDirect (text : Text) : Except Json.Fault Request :=
  (Json.decode (RequestOf.record "EditRequest" readAction).read text).map ofWire

end Request

/-! ### Writing -/

def Selector.toJson (selector : Selector) : Value :=
  .object (Wire.optionalMember "functionName" (selector.functionName.map .string) ++
    Wire.optionalMember "jsxTag" (selector.tag.map .string))

def ImportPayload.toJson (payload : ImportPayload) : Value :=
  .object [("module".toList, .string payload.module), ("specifiers".toList, .array (payload.specifiers.map .string))]

def Payload.toJson (payload : Payload) : Value :=
  .object (Wire.optionalMember "import" (payload.imports.map ImportPayload.toJson) ++
    Wire.optionalMember "functionBody" (payload.functionBody.map .string) ++
    Wire.optionalMember "jsxReplaceWith" (payload.replacement.map .string) ++
    Wire.optionalMember "jsxAttributes" (payload.attributes.map .object) ++
    Wire.optionalMember "insertText" (payload.insertText.map .string))

def Request.toJson (request : Request) : Value :=
  .object ([("action".toList, .string request.action.tag)] ++
    Wire.optionalMember "selector" (request.selector.map Selector.toJson) ++
    Wire.optionalMember "payload" (request.payload.map Payload.toJson) ++
    [("content".toList, .string request.content)])

end Graft
