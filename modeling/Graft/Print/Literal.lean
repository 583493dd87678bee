import Graft.Text.Basic

/-! String literals in a chosen quote. -/

namespace Graft

inductive Quote where
  | single
  | double
  deriving DecidableEq

namespace Quote

def char : Quote → Char
  | single => '\''
  | double => '"'

def alternate : Quote → Char
  | single => '"'
  | double => '\''

def name : Quote → Text
  | single => "single".toList
  | double => "double".toList

/-- A character inside a literal. The quote, backslashes, line breaks and tabs are escaped. -/
def escape (quote : Quote) (c : Char) : Text :=
  if c = '\\' then ['\\', '\\']
  else if c = '\n' then ['\\', 'n']
  else if c = '\r' then ['\\', 'r']
  else if c = '\t' then ['\\', 't']
  else if c = quote.char then ['\\', c]
  else [c]

def literal (quote : Quote) (text : Text) : Text :=
  quote.char :: text.flatMap quote.escape ++ [quote.char]

end Quote
end Graft
