import Graft.Edit.Run
import Graft.File.Basic

/-! Edits of files. The text of the file takes the place of the request's own. -/

namespace Graft

/-- The text that was read and what came of it. -/
structure FileEdit where
  before : Text
  outcome : Outcome
  deriving DecidableEq

def EditError.ofFile {α : Type} : Except FileFailure α → Except EditError α
  | .ok value => .ok value
  | .error failure => .error (.file failure)

namespace Config

/-- Read the text of a file. Its size is checked before it is read. -/
def readSource (config : Config) (files : Files) (path : Text) (rights : Rights) : Except EditError Text := do
  let entry ← EditError.ofFile (files.look path rights)
  config.checkSize entry.size
  EditError.ofFile (files.readText path rights)

/-- Run a request on the text of a file, without writing anything. -/
def previewFile (config : Config) (files : Files) (path : Text) (request : Request) (rights : Rights) :
    Except EditError FileEdit := do
  let before ← config.readSource files path rights
  let outcome ← config.edit { request with content := before }
  return ⟨before, outcome⟩

/-- Run a request on a file. The new text is written only where that is asked for and the edit was
applied. If it cannot be written, that is the answer. -/
def editFile (config : Config) (path : Text) (request : Request) (write : Bool) (files : Files)
    (rights : Rights := .full) : Except EditError FileEdit × Files :=
  match config.previewFile files path request rights with
  | .error error => (.error error, files)
  | .ok edit =>
    if write && edit.outcome.applied then
      match files.writeText path edit.outcome.code rights with
      | .error failure => (.error (.file failure), files)
      | .ok written => (.ok edit, written)
    else (.ok edit, files)

end Config
end Graft
