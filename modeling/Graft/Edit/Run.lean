import Graft.Edit.Config
import Graft.Edit.Operation
import Graft.Edit.Outcome

/-! Running a request: the size is checked first, then the text is read, then the request is checked,
and only then is anything changed. -/

namespace Graft

/-- The text of a program after a change. The patch of a change always lies on characters of the text. -/
def Change.code (change : Change) (program : Program) : Text :=
  (Document.print ⟨program, ⟨change.patch.toList⟩⟩).getD program.source

def Outcome.ofChange (config : Config) (program : Program) (change : Change) : Outcome :=
  let code := change.code program
  let report := Diff.report program.source code config.maxPreviewLines
  { applied := change.applied, code, edits := report.edits, preview := report.preview }

namespace Config

def checkSize (config : Config) (size : Nat) : Except EditError Unit :=
  if config.maxBytes < size then .error (.tooLarge size config.maxBytes) else .ok ()

/-- Run a request on its text. -/
def edit (config : Config) (request : Request) : Except EditError Outcome := do
  config.checkSize (Text.bytes request.content)
  match Program.parse request.content with
  | .error error => .error (.content error)
  | .ok program =>
    let operation ← Operation.ofRequest request
    let change ← operation.run config.style program
    return .ofChange config program change

end Config
end Graft
