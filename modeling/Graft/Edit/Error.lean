import Graft.Edit.Request
import Graft.Json.Fault
import Graft.Syntax.Failure

/-! Why an edit fails. That there is nothing to change is no failure. -/

namespace Graft

inductive Requirement where
  | imports
  | module
  | functionName
  | functionBody
  | tag
  | replacement
  | attributes
  | insertText
  deriving DecidableEq

/-- Where a request says what is required. -/
def Requirement.path : Requirement → Text
  | imports => "payload.import".toList
  | module => "payload.import.module".toList
  | functionName => "selector.functionName".toList
  | functionBody => "payload.functionBody".toList
  | tag => "selector.jsxTag".toList
  | replacement => "payload.jsxReplaceWith".toList
  | attributes => "payload.jsxAttributes".toList
  | insertText => "payload.insertText".toList

/-- What is wrong with a request that can be read. -/
inductive Invalid where
  | lacks (action : Action) (requirement : Requirement)
  | notMarkup
  deriving DecidableEq

def Invalid.message : Invalid → Text
  | lacks action requirement => action.tag ++ " requires ".toList ++ requirement.path
  | notMarkup => "jsxReplaceWith must be a JSX element or fragment".toList

inductive Piece where
  | functionBody
  | replacement
  | insertText
  deriving DecidableEq

def Piece.name : Piece → Text
  | functionBody => "functionBody".toList
  | replacement => "jsxReplaceWith".toList
  | insertText => "insertText".toList

inductive FileFailure where
  | missing
  | notDirectory
  | isDirectory
  | longName
  | notText
  /-- The system refuses something, for a reason that has a number. -/
  | refused (reason : Text) (number : Nat)
  deriving DecidableEq

def FileFailure.message : FileFailure → Text
  | missing => "No such file or directory (os error 2)".toList
  | notDirectory => "Not a directory (os error 20)".toList
  | isDirectory => "Is a directory (os error 21)".toList
  | longName => "File name too long (os error 36)".toList
  | notText => "stream did not contain valid UTF-8".toList
  | refused reason number => reason ++ " (os error ".toList ++ Text.ofNat number ++ ")".toList

inductive EditError where
  /-- The text is larger than is allowed. -/
  | tooLarge (size limit : Nat)
  /-- The text is no program. -/
  | content (error : ParseError)
  /-- A piece of code is not what it should be. -/
  | piece (it : Piece) (error : ParseError)
  | invalid (reason : Invalid)
  | unknownAction (tag : Text)
  /-- The request cannot be read. -/
  | request (fault : Json.Fault)
  | file (failure : FileFailure)

namespace EditError

def message : EditError → Text
  | tooLarge size limit =>
    "Content too large: ".toList ++ Text.ofNat size ++ " bytes (limit: ".toList ++ Text.ofNat limit ++ ")".toList
  | content error => "Parse error: ".toList ++ error.message
  | piece it error => "Parse error in ".toList ++ it.name ++ ": ".toList ++ error.message
  | invalid reason => "Validation error: ".toList ++ reason.message
  | unknownAction tag => "Unknown action: ".toList ++ tag
  | request fault => "Invalid request: ".toList ++ fault.message
  | file failure => "IO error: ".toList ++ failure.message

end EditError
end Graft
