import Graft.Print.Literal
import Graft.Snippet

/-! The style of code that edits bring in, and how it fits in with the lines around it. -/

namespace Graft

structure Style where
  /-- The number of spaces of one level. -/
  indentWidth : Nat := 2
  quote : Quote := .single
  deriving DecidableEq

namespace Style

def indentUnit (style : Style) : Text := List.replicate style.indentWidth ' '

/-- A body in braces, the first of which stands on a line with the given indentation. -/
def block (style : Style) (body : Snippet) (indent : Text) : Text :=
  if body.isEmpty then ['\x7b', '\x7d']
  else "\x7b\n".toList ++ body.indented (indent ++ style.indentUnit) true ++ '\n' :: indent ++ ['\x7d']

end Style

/-- The indentation of the line on which an offset lies. -/
def lineIndent (source : Text) (offset : Nat) : Text :=
  match Text.splitAt? offset source with
  | none => []
  | some (before, after) => (before.lastLine ++ after).indentation

end Graft
