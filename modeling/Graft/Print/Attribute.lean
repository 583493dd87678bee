import Graft.Json.Value
import Graft.Print.Literal

/-! Attributes of markup from JSON values. -/

namespace Graft

mutual

/-- What a value is as a string, where null is the given text: items are joined with commas, null among
them is empty, and an object tells nothing of its members. -/
def Json.Value.spokenWith (null : Text) : Json.Value → Text
  | .null => null
  | .bool value => Json.Value.word value
  | .number value => value.text
  | .string value => value
  | .array items => Json.Value.spokenItems items
  | .object _ => "[object Object]".toList

def Json.Value.spokenItems : List Json.Value → Text
  | [] => []
  | [item] => Json.Value.spokenWith [] item
  | item :: items => Json.Value.spokenWith [] item ++ ',' :: Json.Value.spokenItems items

end

def Json.Value.spoken (value : Json.Value) : Text := value.spokenWith "null".toList

namespace Quote

/-- A text as the value of an attribute. Nothing is escaped there, so a text that holds one quote stands
in the other, and a text that holds both is a literal in braces. -/
def attributeString (quote : Quote) (text : Text) : Text :=
  if !text.contains quote.char then quote.char :: text ++ [quote.char]
  else if !text.contains quote.alternate then quote.alternate :: text ++ [quote.alternate]
  else '\x7b' :: quote.literal text ++ ['\x7d']

/-- An attribute. A name alone stands for true. -/
def tagAttribute (quote : Quote) (name : Text) (value : Json.Value) : Text :=
  match value with
  | .bool true => name
  | .bool false => name ++ "=\x7bfalse\x7d".toList
  | .number value => name ++ "=\x7b".toList ++ value.text ++ ['\x7d']
  | value => name ++ '=' :: quote.attributeString value.spoken

end Quote
end Graft
