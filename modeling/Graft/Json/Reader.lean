import Graft.Json.Fault
import Graft.Json.Lexeme
import Graft.Json.Skip

/-! Reading a JSON text for a certain type. A reader is told how many more containers may be opened; it
takes what it needs from the front of the text and stops at the first fault. -/

namespace Graft.Json

abbrev Parser (α : Type) := Text → Except Fault (α × Text)

/-- A parser, given how deep nesting may still go. -/
abbrev Reader (α : Type) := Nat → Parser α

variable {α : Type}

/-- A text on which a lexeme is missing is malformed. -/
def orMalformed : Option α → Except Fault α
  | some value => .ok value
  | none => .error .malformed

/-- How deep containers may be nested. -/
def depthLimit : Nat := 128

/-- The depth inside a container that is opened. The last level is never reached. -/
def deeper : Nat → Except Fault Nat
  | depth + 2 => .ok (depth + 1)
  | _ => .error .malformed

/-! ### Scalars -/

/-- What a text starts with. Containers are not looked into. -/
def found? (text : Text) : Option Found :=
  match text with
  | [] => none
  | c :: rest =>
    if c = 'n' then (Skip.word "null".toList text).map fun _ => .null
    else if c = 't' then (Skip.word "true".toList text).map fun _ => .bool true
    else if c = 'f' then (Skip.word "false".toList text).map fun _ => .bool false
    else if c = '"' then (string? rest).map fun (value, _) => .string value
    else if c = '[' then some .sequence
    else if c = '\x7b' then some .map
    else (number? text).map fun (value, _) => .number value

/-- The fault of a text that starts with something else than is wanted. -/
def mismatch (wanted : Text) (text : Text) : Fault :=
  match found? text with
  | some found => .wrongType found wanted
  | none => .malformed

/-- A string. What it is wanted for is said if there is none. -/
def textFor (wanted : Text) : Parser Text := fun text =>
  match skipGap text with
  | '"' :: rest => orMalformed (string? rest)
  | text => .error (mismatch wanted text)

def text : Parser Text := textFor "a string".toList

def bool : Parser Bool := fun text =>
  match skipGap text with
  | 't' :: rest => orMalformed ((Skip.word "rue".toList rest).map fun rest => (true, rest))
  | 'f' :: rest => orMalformed ((Skip.word "alse".toList rest).map fun rest => (false, rest))
  | text => .error (mismatch "a boolean".toList text)

def integerWithin (low high : Int) (wanted : Text) : Parser Int := fun text =>
  match number? (skipGap text) with
  | some (.integer value, rest) =>
    if low ≤ value && value ≤ high then .ok (value, rest) else .error (.wrongValue value wanted)
  | _ => .error (mismatch wanted (skipGap text))

/-- An integer without sign, of 64 bits. -/
def natural (wanted : Text) : Parser Nat := fun text => do
  let (value, rest) ← integerWithin 0 maxInteger wanted text
  return (value.toNat, rest)

def size : Parser Nat := natural "usize".toList

def duration : Parser Nat := natural "u64".toList

def signed : Parser Int := integerWithin (-(twoTo 63 : Int)) (twoTo 63 - 1) "i64".toList

/-- Something, or null in its place. -/
def optional (reader : Parser α) : Parser (Option α) := fun text =>
  match skipGap text with
  | 'n' :: rest => orMalformed ((Skip.word "ull".toList rest).map fun rest => (none, rest))
  | text => do
    let (value, rest) ← reader text
    return (some value, rest)

/-! ### Containers -/

/-- Go to the next item of an array: there is one behind the opening bracket unless it closes at once,
and behind a comma. The answer is where the item starts. -/
def nextItem? (first : Bool) (text : Text) : Except Fault (Option Text) :=
  match skipGap text with
  | [] => .error .malformed
  | c :: rest =>
    if c = ']' then .ok none
    else if first then .ok (some (c :: rest))
    else if c = ',' then
      match skipGap rest with
      | [] => .error .malformed
      | ']' :: _ => .error .malformed
      | text => .ok (some text)
    else .error .malformed

def endArray (text : Text) : Except Fault Text :=
  match skipGap text with
  | ']' :: rest => .ok rest
  | _ => .error .malformed

/-- The items of an array up to its closing bracket, a number of them at most. -/
def itemsWithin (item : Parser α) : Nat → Bool → Parser (List α)
  | 0, _, _ => .error .malformed
  | steps + 1, first, text => do
    match ← nextItem? first text with
    | none => return ([], ← endArray text)
    | some text => do
      let (value, text) ← item text
      let (values, text) ← itemsWithin item steps false text
      return (value :: values, text)

/-- The items of an array behind its opening bracket. -/
def items (item : Parser α) : Parser (List α) := fun text => itemsWithin item (text.length + 1) true text

def list (item : Reader α) : Reader (List α) := fun depth text =>
  match skipGap text with
  | '[' :: rest => do items (item (← deeper depth)) rest
  | text => .error (mismatch "a sequence".toList text)

def memberKey : Parser Text := fun text => do
  match skipGap text with
  | '"' :: rest => do
    let (key, rest) ← orMalformed (string? rest)
    match skipGap rest with
    | ':' :: rest => return (key, rest)
    | _ => .error .malformed
  | _ => .error .malformed

/-- Read the members of an object up to its closing brace, a number of them at most. Each changes a
state. -/
def membersWithin (member : Text → α → Parser α) : Nat → Bool → α → Parser α
  | 0, _, _, _ => .error .malformed
  | steps + 1, first, state, text =>
    match skipGap text with
    | [] => .error .malformed
    | c :: rest =>
      if c = '\x7d' then .ok (state, rest)
      else if first || c = ',' then do
        let (key, rest) ← memberKey (if first then c :: rest else rest)
        let (state, rest) ← member key state rest
        membersWithin member steps false state rest
      else .error .malformed

def members (member : Text → α → Parser α) (state : α) : Parser α := fun text =>
  membersWithin member (text.length + 1) true state text

/-! ### Values -/

/-- A value that is no container. -/
def scalar : Parser Value := fun text =>
  match text with
  | [] => .error .malformed
  | c :: rest =>
    if c = 'n' then orMalformed ((Skip.word "null".toList text).map fun rest => (.null, rest))
    else if c = 't' then orMalformed ((Skip.word "true".toList text).map fun rest => (.bool true, rest))
    else if c = 'f' then orMalformed ((Skip.word "false".toList text).map fun rest => (.bool false, rest))
    else if c = '"' then orMalformed ((string? rest).map fun (value, rest) => (.string value, rest))
    else orMalformed ((number? text).map fun (value, rest) => (.number value, rest))

def valueMember (value : Parser Value) (key : Text) (members : Members) : Parser Members := fun text => do
  let (value, rest) ← value text
  return (Members.put key value members, rest)

def value : Reader Value
  | 0, _ => .error .malformed
  | depth + 1, text =>
    match skipGap text with
    | '[' :: rest => do
      let _ ← deeper (depth + 1)
      let (values, rest) ← items (value depth) rest
      return (.array values, rest)
    | '\x7b' :: rest => do
      let _ ← deeper (depth + 1)
      let (found, rest) ← members (valueMember (value depth)) [] rest
      return (.object found, rest)
    | text => scalar text

def object : Reader Members := fun depth text =>
  match skipGap text with
  | '\x7b' :: rest => do members (valueMember (value (← deeper depth))) [] rest
  | text => .error (mismatch "a map".toList text)

/-! ### Whole texts -/

/-- Read a whole text. Nothing but gaps may follow. -/
def decode (reader : Reader α) (text : Text) : Except Fault α := do
  let (value, rest) ← reader depthLimit text
  if (skipGap rest).isEmpty then return value else .error .malformed

end Graft.Json
