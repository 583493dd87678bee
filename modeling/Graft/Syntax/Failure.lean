import Graft.Text.Basic

/-! Why a text is no program. Lines are counted from one, columns are bytes from zero. -/

namespace Graft

/-- The causes for which reading a text as a program fails. -/
inductive ParseError where
  /-- No grammar could be had. -/
  | noGrammar (reason : Text)
  /-- Reading was given up. -/
  | noTree
  /-- A token stands where it cannot. -/
  | unexpectedToken (line column : Nat)
  /-- A token is missing. -/
  | missing (expected : Text) (line column : Nat)
  /-- A piece of code closed what it was put into. -/
  | escapedShell (piece : Text)
  deriving DecidableEq

namespace ParseError

/-- The place in brackets behind a message. -/
def placed (line column : Nat) : Text :=
  " (".toList ++ Text.ofNat line ++ ":".toList ++ Text.ofNat column ++ ")".toList

def message : ParseError → Text
  | noGrammar reason => "Failed to load grammar: ".toList ++ reason
  | noTree => "Parser produced no syntax tree".toList
  | unexpectedToken line column => "Unexpected token".toList ++ placed line column
  | missing expected line column =>
    "Unexpected token, expected \"".toList ++ expected ++ "\"".toList ++ placed line column
  | escapedShell piece => piece ++ " must not close its enclosing shell".toList

/-- The same error in a text that starts some lines later; no line comes before the first. -/
def shiftLines (lines : Nat) : ParseError → ParseError
  | unexpectedToken line column => unexpectedToken (max (line - lines) 1) column
  | missing expected line column => missing expected (max (line - lines) 1) column
  | error => error

end ParseError
end Graft
