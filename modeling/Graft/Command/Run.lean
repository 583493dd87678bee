import Graft.Command.Arguments
import Graft.File.Edit
import Graft.Wire.Config
import Graft.Wire.Outcome
import Graft.Wire.Request

/-! The command line: one request, one file. -/

namespace Graft

inductive CommandError where
  | unreadableConfig (path : Text)
  | invalidConfig (path : Text)
  | unreadableRequest (source : Text)
  | unreadableInput
  | invalidRequest
  | edit (error : EditError)

/-- What a run leaves behind: what it prints, or why it failed, or that it was not even begun. -/
inductive CommandResult where
  | printed (text : Text)
  | failed (error : CommandError)
  | refused (refusal : Refusal)

namespace CommandError

def message : CommandError → Text
  | unreadableConfig path => "failed to read config ".toList ++ path
  | invalidConfig path => "invalid config ".toList ++ path
  | unreadableRequest source => "failed to read request ".toList ++ source
  | unreadableInput => "failed to read request from stdin".toList
  | invalidRequest => "invalid edit request".toList
  | edit error => "AST edit failed: ".toList ++ error.message

/-- The message with the milliseconds that an edit took until it failed. -/
def timedMessage (error : CommandError) (elapsed : Nat) : Text :=
  match error with
  | edit _ => error.message ++ " (".toList ++ Text.ofNat elapsed ++ "ms)".toList
  | _ => error.message

end CommandError

namespace CommandResult

def exitCode : CommandResult → Nat
  | printed _ => 0
  | refused .help => 0
  | failed _ => 1
  | refused .usage => 2

end CommandResult

namespace Arguments

/-- The configuration: a file's, or else the default, with single values from the arguments. -/
def loadConfig (arguments : Arguments) (files : Files) (rights : Rights) : Except CommandError Config := do
  let base ← match arguments.config with
    | none => pure {}
    | some path =>
      match files.readText path rights with
      | .error _ => throw (.unreadableConfig path)
      | .ok text =>
        match Config.ofJson text with
        | .error _ => throw (.invalidConfig path)
        | .ok config => pure config
  return {
    maxBytes := arguments.maxBytes.getD base.maxBytes
    maxPreviewLines := arguments.maxPreviewLines.getD base.maxPreviewLines
    style := { base.style with quote := arguments.quote.getD base.style.quote } }

/-- The text of the request, from a file or from the input. An input that is no text is none. -/
def loadRequest (arguments : Arguments) (files : Files) (input : Option Text) (rights : Rights) :
    Except CommandError Text :=
  if arguments.request = ['-'] then
    match input with
    | some text => .ok text
    | none => .error .unreadableInput
  else
    match files.readText arguments.request rights with
    | .ok text => .ok text
    | .error _ => .error (.unreadableRequest arguments.request)

/-- Read all that a run needs before it touches its file. -/
def prepare (arguments : Arguments) (files : Files) (input : Option Text) (rights : Rights) :
    Except CommandError (Config × Request) := do
  let config ← arguments.loadConfig files rights
  let text ← arguments.loadRequest files input rights
  match Request.ofJson text with
  | .error _ => throw .invalidRequest
  | .ok request => return (config, request)

def print (arguments : Arguments) (edit : FileEdit) (elapsed : Nat) : Text :=
  if arguments.json then
    (TimedOutcome.toJson { edit.outcome with elapsed }).pretty 0 ++ ['\n']
  else edit.outcome.summary edit.before (some arguments.file)

def execute (arguments : Arguments) (files : Files) (input : Option Text) (rights : Rights) :
    Except CommandError FileEdit × Files :=
  match arguments.prepare files input rights with
  | .error error => (.error error, files)
  | .ok (config, request) =>
    match config.editFile arguments.file request arguments.write files rights with
    | (.error error, files) => (.error (.edit error), files)
    | (.ok edit, files) => (.ok edit, files)

/-- What a run that took some milliseconds leaves behind. -/
def report (arguments : Arguments) (elapsed : Nat) : Except CommandError FileEdit → CommandResult
  | .ok edit => .printed (arguments.print edit elapsed)
  | .error error => .failed error

end Arguments

def runCommand (arguments : List Text) (files : Files) (input : Option Text) (elapsed : Nat)
    (rights : Rights := .full) : CommandResult × Files :=
  match Arguments.ofList arguments with
  | .error refusal => (.refused refusal, files)
  | .ok arguments =>
    let (result, files) := arguments.execute files input rights
    (arguments.report elapsed result, files)

end Graft
