import Graft.Command.Run

/-! The program. It reads the files that the arguments name, runs, and writes what has changed. -/

namespace Graft.Main

def usage : String :=
  "Usage: graft --file <FILE> --request <REQUEST> [--write] [--json] [--config <CONFIG>]\n" ++
  "             [--max-bytes <BYTES>] [--max-preview-lines <LINES>] [--quote <single|double>] [-v]"

/-- What comes of an action on disk, or how it is refused. -/
def attempt {α : Type} (action : IO α) : IO (Except FileFailure α) := do
  try
    return .ok (← action)
  catch
    | .permissionDenied _ number reason => return .error (.refused reason.toList number.toNat)
    | error => throw error

/-- What a path leads to on disk, and what of it is refused. -/
structure Found where
  path : Text
  entry : FileEntry
  looked : Except FileFailure Unit := .ok ()
  opened : Except FileFailure Unit := .ok ()

/-- What there is of an entry that must not be read: its size, if it can be looked at. -/
def lookAt (path : Text) (refused : FileFailure) : IO Found := do
  let looked ← attempt do
    let place ← IO.FS.realPath (String.ofList path)
    place.metadata
  match looked with
  | .error unseen => return { path, entry := .file .empty, looked := .error unseen, opened := .error refused }
  | .ok seen =>
    match seen.type with
    | .dir => return { path, entry := .directory, opened := .error refused }
    | _ => return { path, entry := .file ⟨.replicate seen.byteSize.toNat 0⟩, opened := .error refused }

/-- Open a path, where it is known that its directory is there. -/
def find? (path : Text) : IO (Option Found) := do
  try
    match ← attempt (IO.FS.readBinFile (String.ofList path)) with
    | .ok bytes => return some { path, entry := .file bytes }
    | .error refused => return some (← lookAt path refused)
  catch
    | .noFileOrDirectory .. => return none
    | .invalidArgument .. => return none
    | .inappropriateType .. => return some { path, entry := .directory }
    | error => throw error

/-- The paths that a path passes through, itself the last. -/
def passed (path : Text) : List Text :=
  (List.range path.length).filterMap fun n =>
    if path[n + 1]? = some '/' || n + 1 = path.length then some (path.take (n + 1)) else none

/-- The entries at paths of which each leads on from the one before, as far as they are directories. -/
def findAll : List Text → IO (List Found)
  | [] => return []
  | path :: paths => do
    match ← find? path with
    | none => return []
    | some found =>
      match found.entry with
      | .directory => return found :: (← findAll paths)
      | .file _ => return [found]

def findNamed (arguments : Arguments) : IO (List Found) := do
  let request := if arguments.request = ['-'] then [] else [arguments.request]
  let found ← (arguments.file :: arguments.config.toList ++ request).mapM fun path => findAll (passed path)
  return found.flatten

/-- Whether the file that arguments name can be written, if there is one and it is to be written. It is opened, but left
as it is. -/
def tryWrite (arguments : Arguments) (found : List Found) : IO (Except FileFailure Unit) := do
  let there := found.any fun it => it.path = arguments.file && it.entry.isFile && it.opened.isOk
  if arguments.write && there then
    attempt do
      let _ ← IO.FS.Handle.mk (String.ofList arguments.file) .readWrite
  else return .ok ()

def rightsOf (found : List Found) (written : Except FileFailure Unit) : Rights where
  look place := ((found.find? fun it => Place.ofPath it.path = place).map Found.looked).getD (.ok ())
  read place := ((found.find? fun it => Place.ofPath it.path = place).map Found.opened).getD (.ok ())
  write _ _ := written

def loadInput (arguments : Arguments) : IO (Option Text) := do
  if arguments.request = ['-'] then
    let bytes ← (← IO.getStdin).readBinToEnd
    return (String.fromUTF8? bytes).map String.toList
  else return none

/-- Write the file that arguments name if a run has changed it. -/
def store (arguments : Arguments) (rights : Rights) (before after : Files) : IO Unit := do
  if let .ok text := after.readText arguments.file rights then
    if (before.readText arguments.file rights).toOption ≠ some text then
      IO.FS.writeFile (String.ofList arguments.file) (String.ofList text)

def start (arguments : Arguments) : IO CommandResult := do
  let found ← findNamed arguments
  let files : Files := ⟨found.map fun it => (it.path, it.entry)⟩
  let rights := rightsOf found (← tryWrite arguments found)
  let input ← loadInput arguments
  let began ← IO.monoMsNow
  let (outcome, after) := arguments.execute files input rights
  store arguments rights files after
  let elapsed := (← IO.monoMsNow) - began
  let result := arguments.report elapsed outcome
  if let .failed error := result then
    IO.eprintln ("Error: " ++ String.ofList (error.timedMessage elapsed))
  return result

end Graft.Main

def main (arguments : List String) : IO UInt32 := do
  let result ← match Graft.Arguments.ofList (arguments.map String.toList) with
    | .error refusal => do
      let out ← if refusal = .help then IO.getStdout else IO.getStderr
      out.putStrLn Graft.Main.usage
      pure (.refused refusal)
    | .ok arguments => Graft.Main.start arguments
  if let .printed text := result then IO.print (String.ofList text)
  return result.exitCode.toUInt32
