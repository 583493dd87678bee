import Graft.Syntax.Parse

/-! Pieces of code without the indentation that their lines share, ready to be indented anew. Lines that
go on with a template literal belong to the literal and keep their indentation. -/

namespace Graft

structure SnippetLine where
  text : Text
  verbatim : Bool
  deriving DecidableEq

structure Snippet where
  lines : List SnippetLine
  deriving DecidableEq

/-- The row on which an offset of a text lies. -/
def rowAt (source : Text) (offset : Nat) : Nat := Text.rows ((Text.take? offset source).getD [])

/-- The rows after the first that each template literal of a program covers, as ranges. -/
def templateRows (source : Text) (root : Node) : List Span :=
  root.findAll fun node =>
    if node.kind = .templateString then
      let first := rowAt source node.start
      let last := rowAt source node.stop
      if first < last then some ⟨first + 1, last + 1⟩ else none
    else none

namespace SnippetLine

def isBlank (line : SnippetLine) : Bool := line.text.isBlank

/-- Whether a line takes part in indentation. -/
def counts (line : SnippetLine) : Bool := !line.verbatim && !line.isBlank

/-- Remove a width of indentation; a blank line becomes empty. -/
def dedent (width : Nat) (line : SnippetLine) : SnippetLine :=
  if line.verbatim then line
  else if line.isBlank then { line with text := [] }
  else { line with text := line.text.drop width }

end SnippetLine

namespace Snippet

def empty : Snippet := ⟨[]⟩

/-- The indentation that all lines share which take part in it. -/
def commonIndent (lines : List SnippetLine) : Nat :=
  ((lines.filter SnippetLine.counts).map fun line => line.text.indentation.length).min?.getD 0

def dedent (lines : List SnippetLine) : Snippet := ⟨lines.map (SnippetLine.dedent (commonIndent lines))⟩

/-- Flag the lines of a text that lie on verbatim rows, counted from a first row on. -/
def flag (verbatim : List Span) : Nat → List Text → List SnippetLine
  | _, [] => []
  | row, text :: texts =>
    ⟨text, verbatim.any fun rows => rows.start ≤ row && row < rows.stop⟩ :: flag verbatim (row + 1) texts

/-- Cut a region out of a program, from the start of its first line on. -/
def ofRegion (source : Text) (root : Node) (region : Span) : Snippet :=
  let before := ((Text.take? region.start source).getD []).beforeLastLine
  let text := (Text.slice? (Text.bytes before) region.stop source).getD []
  dedent (flag (templateRows source root) (Text.rows before) (Text.splitOn '\n' text))

def isEmpty (snippet : Snippet) : Bool := snippet.lines.all SnippetLine.isBlank

/-- A line behind an indentation, unless it is empty or must stay as it is. -/
def indentLine (indent : Text) (line : SnippetLine) : Text :=
  if line.verbatim || line.text.isEmpty then line.text else indent ++ line.text

/-- The lines behind an indentation; the first only if told so. -/
def indentedLines (snippet : Snippet) (indent : Text) (first : Bool) : List Text :=
  match snippet.lines with
  | [] => []
  | line :: lines => (if first then indentLine indent line else line.text) :: lines.map (indentLine indent)

def indented (snippet : Snippet) (indent : Text) (first : Bool) : Text :=
  Text.join ['\n'] (snippet.indentedLines indent first)

def text (snippet : Snippet) : Text := snippet.indented [] true

end Snippet
end Graft
