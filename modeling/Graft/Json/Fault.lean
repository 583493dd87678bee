import Graft.Json.Value
import Graft.Text.Quoted

/-! What can be wrong with a JSON text that is read for a certain type. The first thing that is wrong
in the order of the text is reported. -/

namespace Graft.Json

/-- What a text holds where something else is wanted. -/
inductive Found where
  | null
  | bool (value : Bool)
  | number (value : Number)
  | string (value : Text)
  | sequence
  | map

inductive Fault where
  /-- The text is not JSON, or a number or the nesting is beyond all limits. -/
  | malformed
  | wrongType (found : Found) (wanted : Text)
  | wrongValue (found : Int) (wanted : Text)
  | wrongLength (found : Nat) (wanted : Text)
  | missingField (name : Text)
  | repeatedField (name : Text)
  | unknownVariant (found : Text) (variants : List Text)
  /-- A text of the right type that stands for nothing. -/
  | rejected (reason : Text)

/-- A text between backticks. -/
def ticked (text : Text) : Text := '\x60' :: text ++ ['\x60']

namespace Found

def text : Found → Text
  | null => "null".toList
  | bool value => "boolean ".toList ++ ticked (Value.word value)
  | number (.integer value) => "integer ".toList ++ ticked (Text.ofInt value)
  | number (.double value) => "floating point ".toList ++ ticked value.text
  | string value => "string ".toList ++ value.quoted
  | sequence => "sequence".toList
  | map => "map".toList

end Found

namespace Fault

def choice (variants : List Text) : Text :=
  match variants with
  | [one] => ticked one
  | [one, other] => ticked one ++ " or ".toList ++ ticked other
  | _ => "one of ".toList ++ Text.join ", ".toList (variants.map ticked)

def message : Fault → Text
  | malformed => "malformed JSON".toList
  | wrongType found wanted => "invalid type: ".toList ++ found.text ++ ", expected ".toList ++ wanted
  | wrongValue found wanted =>
    "invalid value: integer ".toList ++ ticked (Text.ofInt found) ++ ", expected ".toList ++ wanted
  | wrongLength found wanted => "invalid length ".toList ++ Text.ofNat found ++ ", expected ".toList ++ wanted
  | missingField name => "missing field ".toList ++ ticked name
  | repeatedField name => "duplicate field ".toList ++ ticked name
  | unknownVariant found variants =>
    "unknown variant ".toList ++ ticked found ++ ", expected ".toList ++ choice variants
  | rejected reason => reason

end Fault
end Graft.Json
