import Graft.Patch
import Graft.Snippet

/-! Where new statements go at the top level of a program. -/

namespace Graft

inductive Anchor where
  /-- On a line of its own after a statement and the comments that share its last line. -/
  | after (statement : Node)
  /-- On a line of its own before everything but a first line for an interpreter. -/
  | top

def lineStart (source : Text) (offset : Nat) : Nat :=
  Text.bytes ((Text.take? offset source).getD []).beforeLastLine

namespace Anchor

/-- The comments after a statement that start on the row on which it ends. -/
def tailComments (program : Program) (statement : Node) : List Node :=
  let row := rowAt program.source statement.stop
  (program.topLevel.filter fun node => statement.stop ≤ node.start).takeWhile fun node =>
    node.kind = .comment && rowAt program.source node.start = row

/-- The end of a statement and of the comments that share its last line. -/
def endOf (program : Program) (statement : Node) : Nat :=
  ((tailComments program statement).getLast?.getD statement).stop

def insertion (anchor : Anchor) (program : Program) (text : Text) : Patch :=
  match anchor with
  | after statement => .insertion (endOf program statement) ('\n' :: text)
  | top =>
    match program.topLevel.find? fun node => node.kind ≠ .hashBangLine with
    | some node => .insertion (lineStart program.source node.start) (text ++ ['\n'])
    | none =>
      match program.topLevel.find? fun node => node.kind = .hashBangLine with
      | some line => .insertion line.stop ('\n' :: text)
      | none => .insertion 0 (if program.source.isEmpty then text else text ++ ['\n'])

end Anchor
end Graft
