import Graft.Json.Lexeme

/-! Passing over values that nobody asks for. They must be well formed, but numbers may be of any size,
nesting of any depth, and half of a two-unit character is not looked into. -/

namespace Graft.Json.Skip

/-- A container that is not closed yet. -/
inductive Frame where
  | array
  | object
  deriving DecidableEq

def word (expected : Text) (text : Text) : Option Text :=
  if expected.isPrefixOf text then some (text.drop expected.length) else none

def escape : Text → Option Text
  | [] => none
  | c :: rest => if c = 'u' then (hexUnit? rest).map Prod.snd else (shortEscape? c).map fun _ => rest

def stringWithin : Nat → Text → Option Text
  | 0, _ => none
  | _ + 1, [] => none
  | steps + 1, c :: rest =>
    if c = '"' then some rest
    else if c = '\\' then (escape rest).bind (stringWithin steps)
    else if isControl c then none
    else stringWithin steps rest

def string (text : Text) : Option Text := stringWithin text.length text

def scalar (text : Text) : Option Text :=
  match text with
  | [] => none
  | c :: rest =>
    if c = 'n' then word "null".toList text
    else if c = 't' then word "true".toList text
    else if c = 'f' then word "false".toList text
    else if c = '"' then string rest
    else (numeral? text).map Prod.snd

def key (text : Text) : Option Text := do
  match skipGap text with
  | '"' :: rest =>
    match skipGap (← string rest) with
    | ':' :: rest => some rest
    | _ => none
  | _ => none

/-- What comes next. -/
inductive Stage where
  /-- A value. -/
  | value
  /-- The first item of a container, or its end. -/
  | first
  /-- A comma, or the end of a container. -/
  | next
  deriving DecidableEq

/-- Pass over an item's key if the innermost container has keys. -/
def item (frames : List Frame) (text : Text) : Option Text :=
  match frames with
  | .object :: _ => key text
  | _ => some text

def closing : Frame → Char
  | .array => ']'
  | .object => '\x7d'

/-- Pass over the rest of the given containers, in a number of steps at most. -/
def run : Nat → Stage → List Frame → Text → Option Text
  | 0, _, _, _ => none
  | steps + 1, .value, frames, text =>
    match skipGap text with
    | '[' :: rest => run steps .first (.array :: frames) rest
    | '\x7b' :: rest => run steps .first (.object :: frames) rest
    | text => (scalar text).bind (run steps .next frames)
  | _ + 1, _, [], text => some text
  | steps + 1, stage, frame :: frames, text =>
    match skipGap text with
    | [] => none
    | c :: rest =>
      if c = closing frame then run steps .next frames rest
      else if stage = .first then (item (frame :: frames) (c :: rest)).bind (run steps .value (frame :: frames))
      else if c = ',' then (item (frame :: frames) rest).bind (run steps .value (frame :: frames))
      else none

/-- Pass over a value. Every step but one passes over a character, or follows one that does. -/
def value (text : Text) : Option Text := run (2 * text.length + 2) .value [] text

end Graft.Json.Skip
