import Graft.Json.Value

/-! Requests for edits. -/

namespace Graft

inductive Action where
  | upsertImport
  | updateFunctionBody
  | replaceElement
  | replaceAttributes
  | insertAfterLastImport
  | insertAtTop
  deriving DecidableEq

namespace Action

def all : List Action :=
  [upsertImport, updateFunctionBody, replaceElement, replaceAttributes, insertAfterLastImport, insertAtTop]

/-- The name an action is asked for by. -/
def tag : Action → Text
  | upsertImport => "upsertImport".toList
  | updateFunctionBody => "updateFunctionBody".toList
  | replaceElement => "replaceJsxElement".toList
  | replaceAttributes => "replaceJsxAttributes".toList
  | insertAfterLastImport => "insertAfterLastImport".toList
  | insertAtTop => "insertAtTop".toList

def ofTag? (tag : Text) : Option Action := all.find? fun action => action.tag = tag

def index (action : Action) : Nat := all.idxOf action

end Action

/-- What an edit is to change. -/
structure Selector where
  functionName : Option Text := none
  tag : Option Text := none

structure ImportPayload where
  module : Text
  specifiers : List Text

/-- What an edit is to bring in. -/
structure Payload where
  imports : Option ImportPayload := none
  functionBody : Option Text := none
  replacement : Option Text := none
  attributes : Option Json.Members := none
  insertText : Option Text := none

structure Request where
  action : Action
  selector : Option Selector := none
  payload : Option Payload := none
  content : Text := []

end Graft
