import Graft.Diff.Compact
import Graft.Diff.Line
import Graft.Text.Basic

/-! Reports on the difference of two texts, line by line: the changed places, a preview that shows every
line up to a limit, and the changes alone with some lines around them. -/

namespace Graft.Diff

def blocks (old new : Text) : List (Block Text) :=
  Script.blocks (Script.settle (Myers.script (Line.split old) (Line.split new)))

/-- Neighbouring lines with one tag, without their terminators. -/
structure Chunk where
  tag : Tag
  lines : List Text
  deriving DecidableEq

def cons (tag : Tag) (line : Text) : List Chunk → List Chunk
  | [] => [⟨tag, [line]⟩]
  | chunk :: chunks =>
    if chunk.tag = tag then ⟨tag, line :: chunk.lines⟩ :: chunks else ⟨tag, [line]⟩ :: chunk :: chunks

def gather : List (Tag × Text) → List Chunk
  | [] => []
  | (tag, line) :: rest => cons tag line (gather rest)

def chunks (old new : Text) : List Chunk :=
  gather (((blocks old new).flatMap Block.tagged).map fun (tag, line) => (tag, Line.content line))

/-! ### Changed places -/

/-- A changed place: the number of common lines before it, and where it ends. -/
structure EditRange where
  start : Int
  stop : Int
  deriving DecidableEq

/-- A run of changes that may go on. -/
structure OpenRun where
  start : Nat
  added : Bool
  removed : Bool

namespace OpenRun

/-- A run that both removes and adds ends where it starts, any other one before. -/
def close (run : OpenRun) (counter : Nat) : EditRange :=
  ⟨run.start, if run.added && run.removed then counter else (counter : Int) - 1⟩

end OpenRun

/-- The changed places of chunks, after some common lines and perhaps in the middle of a run. -/
def rangesFrom (counter : Nat) (run : Option OpenRun) : List Chunk → List EditRange
  | [] => (run.map fun run => run.close counter).toList
  | chunk :: chunks =>
    match chunk.tag with
    | .context =>
      (run.map fun run => run.close counter).toList ++ rangesFrom (counter + chunk.lines.length) none chunks
    | tag =>
      let run := run.getD ⟨counter, false, false⟩
      rangesFrom counter
        (some { run with added := run.added || tag = .added, removed := run.removed || tag = .removed }) chunks

def ranges (chunks : List Chunk) : List EditRange := rangesFrom 0 none chunks

/-! ### Previews -/

def signOf (tag : Tag) : Char :=
  match tag with
  | .context => ' '
  | .added => '+'
  | .removed => '-'

/-- What a preview ends with if lines are left out. -/
def truncationMarker : Text := "... (diff truncated)".toList

def signed (chunks : List Chunk) : List Text :=
  chunks.flatMap fun chunk => chunk.lines.map (signOf chunk.tag :: ·)

/-- All lines behind their signs, but no more than a limit. -/
def preview (chunks : List Chunk) (limit : Nat) : Text :=
  let lines := signed chunks
  Text.join ['\n'] (if lines.length ≤ limit then lines else lines.take limit ++ [truncationMarker])

structure Report where
  edits : List EditRange
  preview : Text
  deriving DecidableEq

def report (old new : Text) (limit : Nat) : Report :=
  let chunks := chunks old new
  ⟨ranges chunks, preview chunks limit⟩

/-! ### Changes alone -/

/-- A line behind its sign, with a line break even where it had none. -/
def unifiedLine (tag : Tag) (line : Text) : Text :=
  signOf tag :: line ++ if Line.isTerminated line then [] else ['\n']

/-- The changes with three common lines around them; groups are separated. -/
def unified (old new : Text) : Text :=
  Text.join "...\n".toList
    ((Block.groups 3 (blocks old new)).map fun group =>
      (group.flatMap Block.tagged).flatMap fun (tag, line) => unifiedLine tag line)

end Graft.Diff
