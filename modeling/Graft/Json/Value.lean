import Graft.Number.Shortest

/-! Values of JSON. Members of an object keep their order. -/

namespace Graft.Json

/-- A number: an integer of 64 bits with or without sign, or a floating-point number. -/
inductive Number where
  | integer (value : Int)
  | double (value : Double)
  deriving DecidableEq

inductive Value where
  | null
  | bool (value : Bool)
  | number (value : Number)
  | string (value : Text)
  | array (items : List Value)
  | object (members : List (Text × Value))

abbrev Members := List (Text × Value)

namespace Number

def text : Number → Text
  | integer value => Text.ofInt value
  | double value => value.text

end Number

/-- Set a member. A key that is there keeps its place and takes the new value. -/
def Members.put (key : Text) (value : Value) : Members → Members
  | [] => [(key, value)]
  | (other, old) :: members =>
    if other = key then (key, value) :: members else (other, old) :: put key value members

namespace Value

def word (flag : Bool) : Text := if flag then "true".toList else "false".toList

def hexDigit (n : Nat) : Char := Nat.digitChar n

/-- A character of a string: quotes, backslashes and control characters are escaped. -/
def escape (c : Char) : Text :=
  match c with
  | '"' => ['\\', '"']
  | '\\' => ['\\', '\\']
  | '\x08' => ['\\', 'b']
  | '\t' => ['\\', 't']
  | '\n' => ['\\', 'n']
  | '\x0c' => ['\\', 'f']
  | '\r' => ['\\', 'r']
  | c => if c.toNat < 0x20 then ['\\', 'u', '0', '0', hexDigit (c.toNat / 16), hexDigit (c.toNat % 16)] else [c]

def quote (text : Text) : Text := '"' :: text.flatMap escape ++ ['"']

mutual

def compact : Value → Text
  | null => "null".toList
  | bool value => word value
  | number value => value.text
  | string value => quote value
  | array items => '[' :: compactItems items ++ [']']
  | object members => '\x7b' :: compactMembers members ++ ['\x7d']

def compactItems : List Value → Text
  | [] => []
  | [item] => item.compact
  | item :: items => item.compact ++ ',' :: compactItems items

def compactMembers : List (Text × Value) → Text
  | [] => []
  | [(key, value)] => quote key ++ ':' :: value.compact
  | (key, value) :: members => quote key ++ ':' :: value.compact ++ ',' :: compactMembers members

end

/-- A line break and the indentation of a level, two spaces for each. -/
def newline (level : Nat) : Text := '\n' :: List.replicate (2 * level) ' '

mutual

/-- A value over several lines, at a level of indentation. -/
def pretty (level : Nat) : Value → Text
  | array [] => "[]".toList
  | object [] => "\x7b\x7d".toList
  | array items => '[' :: prettyItems (level + 1) items ++ newline level ++ [']']
  | object members => '\x7b' :: prettyMembers (level + 1) members ++ newline level ++ ['\x7d']
  | null => "null".toList
  | bool value => word value
  | number value => value.text
  | string value => quote value

def prettyItems (level : Nat) : List Value → Text
  | [] => []
  | [item] => newline level ++ item.pretty level
  | item :: items => newline level ++ item.pretty level ++ ',' :: prettyItems level items

def prettyMembers (level : Nat) : List (Text × Value) → Text
  | [] => []
  | [(key, value)] => newline level ++ quote key ++ ": ".toList ++ value.pretty level
  | (key, value) :: members =>
    newline level ++ quote key ++ ": ".toList ++ value.pretty level ++ ',' :: prettyMembers level members

end

end Value
end Graft.Json
