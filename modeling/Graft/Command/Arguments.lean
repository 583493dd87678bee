import Graft.Number.Double
import Graft.Print.Literal
import Graft.Text.Digits

/-! The arguments of the command line. -/

namespace Graft

inductive Flag where
  | write
  | json
  | verbose
  | help
  deriving DecidableEq

inductive Setting where
  | file
  | request
  | config
  | maxBytes
  | maxPreviewLines
  | quote
  deriving DecidableEq

/-- Why arguments do not lead to a run. -/
inductive Refusal where
  /-- Help was asked for. -/
  | help
  /-- They are not as they should be. -/
  | usage
  deriving DecidableEq

structure Arguments where
  file : Text
  request : Text
  write : Bool
  json : Bool
  config : Option Text
  maxBytes : Option Nat
  maxPreviewLines : Option Nat
  quote : Option Quote
  verbose : Bool
  deriving DecidableEq

/-- The options that have been given so far. -/
structure Options where
  flags : List Flag := []
  settings : List (Setting × Text) := []

namespace Flag

def ofName? (name : Text) : Option Flag :=
  [("write", Flag.write), ("json", .json), ("verbose", .verbose), ("help", .help)].findSome? fun (other, flag) =>
    if other.toList = name then some flag else none

def ofLetter? (letter : Char) : Option Flag :=
  if letter = 'v' then some .verbose else if letter = 'h' then some .help else none

end Flag

namespace Setting

def ofName? (name : Text) : Option Setting :=
  [("file", Setting.file), ("request", .request), ("config", .config), ("max-bytes", .maxBytes),
    ("max-preview-lines", .maxPreviewLines), ("quote", .quote)].findSome? fun (other, setting) =>
    if other.toList = name then some setting else none

end Setting

/-- A size: digits, perhaps behind a plus sign, that fit into 64 bits. -/
def sizeArgument? (text : Text) : Option Nat :=
  let digits := match text with
    | '+' :: digits => digits
    | digits => digits
  if digits.isEmpty || !digits.all isDigit then none
  else if Text.value digits ≤ maxInteger then some (Text.value digits)
  else none

def quoteArgument? (text : Text) : Option Quote := [Quote.single, .double].find? fun quote => quote.name = text

namespace Options

/-- Whether a setting can have a value. Paths are not empty. -/
def accepts : Setting → Text → Bool
  | .file, value => !value.isEmpty
  | .config, value => !value.isEmpty
  | .request, _ => true
  | .maxBytes, value => (sizeArgument? value).isSome
  | .maxPreviewLines, value => (sizeArgument? value).isSome
  | .quote, value => (quoteArgument? value).isSome

/-- Note a flag. None may be given twice. -/
def raise (options : Options) (flag : Flag) : Except Refusal Options :=
  if flag = .help then .error .help
  else if options.flags.contains flag then .error .usage
  else .ok { options with flags := flag :: options.flags }

def value? (options : Options) (setting : Setting) : Option Text := options.settings.lookup setting

def assign (options : Options) (setting : Setting) (value : Text) : Except Refusal Options :=
  if (options.value? setting).isSome || !accepts setting value then .error .usage
  else .ok { options with settings := (setting, value) :: options.settings }

def raiseAll (options : Options) : Text → Except Refusal Options
  | [] => .ok options
  | letter :: letters =>
    match Flag.ofLetter? letter with
    | none => .error .usage
    | some flag => do (← options.raise flag).raiseAll letters

/-- Whether an argument cannot be the value of the option before it. A hyphen alone can. -/
def isOption (argument : Text) : Bool := argument.head? = some '-' && argument ≠ ['-']

/-- A name and the value behind an equals sign. -/
def splitValue (text : Text) : Text × Option Text :=
  match text.dropWhile (· ≠ '=') with
  | [] => (text, none)
  | _ :: value => (text.takeWhile (· ≠ '='), some value)

def read (options : Options) : List Text → Except Refusal Options
  | [] => .ok options
  | ['-', '-'] :: rest => if rest.isEmpty then .ok options else .error .usage
  | ('-' :: '-' :: long) :: rest =>
    let (name, value) := splitValue long
    match Flag.ofName? name, Setting.ofName? name, value, rest with
    | some flag, _, none, rest => do (← options.raise flag).read rest
    | none, some setting, some value, rest => do (← options.assign setting value).read rest
    | none, some setting, none, value :: rest =>
      if isOption value then .error .usage else do (← options.assign setting value).read rest
    | _, _, _, _ => .error .usage
  | ('-' :: letter :: letters) :: rest => do (← options.raiseAll (letter :: letters)).read rest
  | _ :: _ => .error .usage

/-- What options ask for. A file and a request must be given. -/
def finish (options : Options) : Except Refusal Arguments :=
  match options.value? .file, options.value? .request with
  | some file, some request =>
    .ok {
      file
      request
      write := options.flags.contains .write
      json := options.flags.contains .json
      config := options.value? .config
      maxBytes := (options.value? .maxBytes).bind sizeArgument?
      maxPreviewLines := (options.value? .maxPreviewLines).bind sizeArgument?
      quote := (options.value? .quote).bind quoteArgument?
      verbose := options.flags.contains .verbose }
  | _, _ => .error .usage

end Options

def Arguments.ofList (arguments : List Text) : Except Refusal Arguments := do
  (← Options.read {} arguments).finish

end Graft
