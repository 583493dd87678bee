import Graft.Grammar.Machine
import Graft.Syntax.Construct
import Graft.Syntax.Failure

/-! Reading a text as a program. -/

namespace Graft

structure Program where
  source : Text
  tree : Tree
  whole : tree.text = source
  sound : tree.sound = true

namespace Program

/-- Why a text is no program, by the way of reading it that came furthest. If the text is one without
the token that could not stand there, that token is to blame; inside a block it is rather an operator
before it. Otherwise a closing bracket may be missing. -/
def explain (source : Text) (machine : Machine) : ParseError :=
  match machine.furthest? with
  | none => .noTree
  | some stack =>
    let placed (error : Nat → Nat → ParseError) (rest : Text) : ParseError :=
      let before := source.take (source.length - rest.length)
      error (Text.rows before + 1) (Text.bytes (Text.lastLine before))
    let blamed := stack.rest.drop (Lexeme.spacing stack.rest)
    match stack.obstacle? with
    | none => placed .unexpectedToken blamed
    | some reading =>
      let before := source.take (source.length - blamed.length)
      if (Machine.read (before ++ blamed.drop reading.length)).finished.isSome then
        match stack.danglingOperator? with
        | some length => placed .unexpectedToken (source.drop (source.length - stack.rest.length - length))
        | none => placed .unexpectedToken blamed
      else
        match stack.missing? reading with
        | some mark => placed (.missing mark.text.toList) stack.rest
        | none => placed .unexpectedToken blamed

/-- The program that a machine found in a text. The tree is checked to hold exactly the text. -/
def accept (source : Text) (machine : Machine) : Except ParseError Program :=
  match machine.forest? with
  | none => .error (explain source machine)
  | some forest =>
    let tree := Tree.node none .program forest
    if fits : tree.text = source ∧ tree.sound = true then
      .ok { source, tree, whole := fits.1, sound := fits.2 }
    else .error .noTree

def parse (source : Text) : Except ParseError Program := accept source (Machine.read source)

def root (program : Program) : Node := ⟨0, program.tree⟩

/-- Everything at the top level, comments and a first line for an interpreter included. -/
def topLevel (program : Program) : List Node := program.root.namedChildren

def statements (program : Program) : List Node :=
  program.topLevel.filter fun node => node.kind ≠ .comment && node.kind ≠ .hashBangLine

end Program
end Graft
