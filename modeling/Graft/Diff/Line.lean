import Graft.Text.Basic

/-! Lines with their terminators. A line ends after a line feed, after a carriage return, or after the
two together. -/

namespace Graft.Line

/-- The lines of a text, each with its terminator; only the last may have none. -/
def split : Text → List Text
  | [] => []
  | '\r' :: '\n' :: rest => ['\r', '\n'] :: split rest
  | c :: rest =>
    if c = '\n' || c = '\r' then [c] :: split rest
    else
      match split rest with
      | [] => [[c]]
      | line :: lines => (c :: line) :: lines

def isTerminated (line : Text) : Bool :=
  line.getLast? = some '\n' || line.getLast? = some '\r'

def dropLastChar (last : Char) (line : Text) : Text :=
  if line.getLast? = some last then line.dropLast else line

/-- A line without its terminator. -/
def content (line : Text) : Text := dropLastChar '\r' (dropLastChar '\n' line)

end Graft.Line
