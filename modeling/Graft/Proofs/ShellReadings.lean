import Graft.Proofs.NodePlaces

/-! What reading a text in a shell comes to, if it succeeds. Only the parts of the statement that is read are looked
at, so a text that closes its shell too early may go on with more. -/

namespace Graft

namespace FunctionShell

theorem bodyOf_ok {shell : FunctionShell} {parsed : Except ParseError Program} {snippet : Snippet}
    (read : shell.bodyOf parsed = .ok snippet) :
    ∃ program statement block, parsed = .ok program ∧ program.single? = some statement ∧
      shell.block? statement = some block ∧ snippet = .ofNodes program.source program.root block.namedChildren := by
  cases parsed with
  | error error => cases read
  | ok program =>
    unfold bodyOf at read
    dsimp only at read
    split at read
    next => cases read
    next block found =>
      cases read
      obtain ⟨statement, single, found⟩ := Option.bind_eq_some_iff.mp found
      exact ⟨program, statement, block, rfl, single, found, rfl⟩

/-- A body that closes its block and declares another variable. -/
def escapingBody : Text := "a();\n\x7d, b = \x7b".toList

end FunctionShell

namespace ParsedExpression

theorem ofShell_ok {parsed : Except ParseError Program} {expression : ParsedExpression}
    (read : ofShell parsed = .ok expression) :
    ∃ program statement node, parsed = .ok program ∧ program.single? = some statement ∧ inside? statement = some node ∧
      expression = ⟨classify node, .ofRegion program.source program.root node.span⟩ := by
  cases parsed with
  | error error => cases read
  | ok program =>
    unfold ofShell at read
    dsimp only at read
    split at read
    next => cases read
    next node found =>
      cases read
      obtain ⟨statement, single, found⟩ := Option.bind_eq_some_iff.mp found
      exact ⟨program, statement, node, rfl, single, found, rfl⟩

/-- Markup behind which the declaration of the shell goes on. -/
def escapingMarkup : Text := "<A/>), b = (c".toList

end ParsedExpression

open FunctionShell (escapingBody) in
open ParsedExpression (escapingMarkup) in
set_option maxRecDepth 100000 in
/-- What closes its shell early is read as what stands before that, though the shell then declares two variables. -/
theorem parse_escaping :
    (Program.parse (FunctionShell.arrow.wrap escapingBody)).toOption.map (fun program =>
      ((FunctionShell.arrow.bodyOf (.ok program)).toOption, program.single?.map fun statement =>
        (VariableDeclaration.mk statement).declarators.length)) = some (some ⟨[⟨"a();".toList, false⟩]⟩, some 2) ∧
    (Program.parse (ParsedExpression.wrap escapingMarkup)).toOption.map (fun program =>
      ((ParsedExpression.ofShell (.ok program)).toOption, program.single?.map fun statement =>
        (VariableDeclaration.mk statement).declarators.length)) =
      some (some ⟨.element, ⟨[⟨"<A/>".toList, false⟩]⟩⟩, some 2) := by
  decide +kernel

end Graft
