import Graft.Proofs.Parentheses
import Graft.Proofs.ShellReadings
import Graft.Proofs.ShellValues
import Graft.Proofs.SnippetLines

/-! The shell of an expression keeps markup that is put into it and what is around it: gaps and pairs of parentheses.
Two things can be lost. A type behind the markup in parentheses of its own is taken off with them, and if the text goes
on with further variables of the declaration that the shell is, everything from the parenthesis on is left out that
closes the first. The piece of code starts with all that is on the line of the markup. -/

namespace Graft

/-- Behind a mark that closes a shell too early, a comma and what follows it is lost. -/
theorem lost_behind_closer {text inside ending more : Text} {closer : Char}
    (whole : inside ++ closer :: more = '\n' :: (text ++ '\n' :: closer :: ending)) (short : ',' ∉ closer :: ending)
    (comma : ',' ∈ more) : ∃ lost, '\n' :: (text ++ ['\n']) = inside ++ lost ∧ ',' ∈ lost := by
  have whole : inside ++ closer :: more = ('\n' :: (text ++ ['\n'])) ++ closer :: ending := by simpa using whole
  have listed : ',' ∈ closer :: more := List.mem_cons_of_mem _ comma
  rcases List.append_eq_append_iff.mp whole with ⟨lost, split, tail⟩ | ⟨excess, -, tail⟩
  · rw [tail] at listed
    rcases List.mem_append.mp listed with listed | listed
    · exact ⟨lost, split, listed⟩
    · exact absurd listed short
  · rw [tail] at short
    exact absurd (List.mem_append_right _ listed) short

namespace ParsedExpression

set_option maxRecDepth 10000 in
theorem hidden_apart : Text.IsApart ['_', '_', 't'] := ⟨by decide, List.all_eq_true.mp rfl, rfl⟩

def opening : Text := "const __t = (".toList

theorem wrap_eq (text : Text) : wrap text =
    ['c', 'o', 'n', 's', 't', ' '] ++ (['_', '_', 't'] ++
      ' ' :: '=' :: ' ' :: '(' :: '\n' :: (text ++ ['\n', ')', ';'])) := by
  have same : wrap text = ['c', 'o', 'n', 's', 't', ' ', '_', '_', 't', ' ', '=', ' ', '(', '\n'] ++ text ++
      ['\n', ')', ';'] := rfl
  rw [same, List.append_assoc]
  rfl

/-- The types that stand in parentheses with the expression that a statement gives as a value. -/
def typesOf (statement : Node) : List Text :=
  match statement.firstValue? with
  | none => []
  | some value => (value.namedChildren.filter fun child => child.kind ≠ .comment).flatMap Node.bareTypes

theorem isCore_of_isMarkup {node : Node} {snippet : Snippet}
    (markup : (ParsedExpression.mk (classify node) snippet).isMarkup = true) : node.tree.isCore = true := by
  cases core : node.tree.isCore with
  | true => rfl
  | false =>
    have other : node.construct = .other node := by
      simp only [Tree.isCore, Tree.isTrivia, Kind.isTrivia, Bool.and_eq_false_iff, Bool.not_eq_false', Bool.or_eq_true,
        decide_eq_true_eq, decide_eq_false_iff_not, Decidable.not_not] at core
      rcases core with (((same | same) | same) | same) | same <;>
        rw [Node.construct, show node.kind = _ from same]
    rw [isMarkup, classify, other] at markup
    cases markup

/-- What a text is read as in the shell of an expression, and what stands around the expression in it. Behind the
expression, what is lost is there only if there are further variables. -/
structure Reading (text : Text) (program : Program) (statement node : Node) (front back lost : Text) : Prop where
  read : Program.parse (wrap text) = .ok program
  single : program.single? = some statement
  inside : inside? statement = some node
  start : node.start = Text.bytes (opening ++ front)
  whole : '\n' :: (text ++ ['\n']) = front ++ (node.text ++ (back ++ lost))
  around : Around (typesOf statement) front back
  alone : lost = [] ↔ (VariableDeclaration.mk statement).declarators.length = 1
  comma : lost ≠ [] → ',' ∈ lost

theorem inside?_cases {statement node : Node} (found : inside? statement = some node) :
    ∃ value inner, statement.firstValue? = some value ∧ value.kind = .parenthesizedExpression ∧
      (value.namedChildren.filter fun child => child.kind ≠ .comment) = [inner] ∧ node = inner.bare ∧
      typesOf statement = inner.bareTypes := by
  unfold inside? at found
  split at found
  next => cases found
  next value valued =>
    split at found
    next same =>
      split at found
      next inner only =>
        cases found
        exact ⟨value, inner, valued, same, only, rfl, by rw [typesOf, valued]; simp only [only, List.flatMap_singleton]⟩
      next => cases found
    next => cases found

/-- The expression of a shell stands in its parentheses, with no type beside it. -/
theorem value_encloses {value inner : Node} (made : value.tree.IsSpelled) (same : value.kind = .parenthesizedExpression)
    (only : (value.namedChildren.filter fun child => child.kind ≠ .comment) = [inner]) (core : inner.tree.isCore = true) :
    ∃ left right, Encloses inner.tree left right ∧ Forest.types right = [] ∧
      value.text = Forest.text left ++ (inner.text ++ Forest.text right) ∧
      inner.start = value.start + Text.bytes (Forest.text left) := by
  have listed : inner ∈ value.namedChildren.filter fun child => child.kind ≠ .comment := by
    rw [only]
    exact List.mem_singleton_self inner
  obtain ⟨left, right, split, encloses, text, start⟩ := value.encloses made same (List.mem_filter.mp listed).1 core
  refine ⟨left, right, encloses, Forest.types_eq_nil fun tree member clause => ?_, text, start⟩
  -- a type would be another child beside the expression
  have listed : tree ∈ value.tree.children := by rw [split]; simp [member]
  obtain ⟨child, placed, rfl⟩ := Node.exists_mem_place value.start listed
  have second : child ∈ value.namedChildren.filter fun child => child.kind ≠ .comment := by
    rw [Node.namedChildren_eq, List.filter_filter]
    exact List.mem_filter.mpr ⟨placed, by simp [Node.kind, Node.isNamed, clause, Kind.isNamed]⟩
  rw [only, List.mem_singleton] at second
  rw [← second, Tree.isCore, clause] at core
  simp at core

theorem node_stands {text : Text} {program : Program} {statement node : Node}
    (read : Program.parse (wrap text) = .ok program) (single : program.single? = some statement)
    (found : inside? statement = some node) (core : node.tree.isCore = true) :
    ∃ front back closed after, node.start = Text.bytes (opening ++ front) ∧ Around (typesOf statement) front back ∧
      (front ++ (node.text ++ back)) ++ ')' :: (Forest.text closed ++ Forest.text after) =
        '\n' :: (text ++ ['\n', ')', ';']) ∧ (∀ tree ∈ closed, tree.IsGap) ∧
      ((VariableDeclaration.mk statement).declarators.length = 1 ∧ (∀ tree ∈ after, tree.IsLoose ∨ tree.text = [';']) ∨
        2 ≤ (VariableDeclaration.mk statement).declarators.length ∧ ∃ tree ∈ after, tree.text = [',']) := by
  obtain ⟨value, inner, valued, same, only, rfl, types⟩ := inside?_cases found
  have solid : value.tree.isTrivia = false := by
    rw [Tree.isTrivia, show value.tree.kind = .parenthesizedExpression from same]
    rfl
  obtain ⟨after, ⟨head, whole, start⟩, ⟨-, made⟩, next, behind⟩ :=
    Program.firstValue?_opened hidden_apart read single valued solid (wrap_eq text) rfl
  obtain ⟨left, right, encloses, untyped, spells, place⟩ := value_encloses made same only (Node.isCore_of_bare_go core)
  obtain ⟨front, back, spells', place', around⟩ := Node.bare_go_around encloses.made core
  obtain ⟨before, opened, rest, closed, rfl, rfl, gaps, gaps', around⟩ := encloses.within around
  rw [untyped, List.append_nil] at around
  -- the parenthesis of the value is the one of the shell
  have split : value.text ++ Forest.text after = Forest.text before ++ '(' ::
      (((Forest.text opened ++ front) ++ (inner.bare.text ++ (back ++ Forest.text rest))) ++
        ')' :: (Forest.text closed ++ Forest.text after)) := by
    rw [spells, spells']
    simp [Forest.text, Tree.text, Node.bare]
  rw [split] at next whole
  have inside := (Forest.ahead_gap gaps next rfl).2.2
  rw [Text.ahead_cons rfl] at inside
  have filled := (List.cons.inj inside).2
  have opens : head ++ Forest.text before = ['c', 'o', 'n', 's', 't', ' ', '_', '_', 't', ' ', '=', ' '] := by
    rw [filled, ← List.append_assoc, wrap_eq] at whole
    exact (List.append_cancel_right (show _ ++ '(' :: '\n' :: (text ++ ['\n', ')', ';']) = _ from whole)).symm
  refine ⟨Forest.text opened ++ front, back ++ Forest.text rest, closed, after, ?_, types ▸ around, filled, gaps', behind⟩
  have size := congrArg Text.bytes opens
  rw [Node.bare, place', place, ← start, show opening =
    ['c', 'o', 'n', 's', 't', ' ', '_', '_', 't', ' ', '=', ' '] ++ ['('] from rfl, ← opens]
  simp only [Forest.text, Tree.text, Forest.text_append, Text.bytes_append, List.append_assoc]
  omega

/-- Markup in the shell of an expression, and all that is around it. -/
theorem read_markup {text : Text} {program : Program} {statement node : Node}
    (read : Program.parse (wrap text) = .ok program) (single : program.single? = some statement)
    (found : inside? statement = some node) (core : node.tree.isCore = true) :
    ∃ front back lost, Reading text program statement node front back lost := by
  obtain ⟨front, back, closed, after, start, around, whole, gaps, behind⟩ := node_stands read single found core
  rcases behind with ⟨alone, loose⟩ | ⟨more, mark, member, comma⟩
  · obtain ⟨filled, -⟩ := closed_of_loose rfl whole (.inr rfl) gaps loose
    exact ⟨front, back, [], read, single, found, start, by simpa using filled.symm, around, by simp [alone], by simp⟩
  · obtain ⟨lost, split, listed⟩ := lost_behind_closer whole (by decide) (by
      obtain ⟨left, right, rfl⟩ := List.append_of_mem member
      simp [Forest.text, comma])
    have some : lost ≠ [] := List.ne_nil_of_mem listed
    refine ⟨front, back, lost, read, single, found, start, by simpa using split, around, ?_, fun _ => listed⟩
    exact ⟨fun none => absurd none some, fun alone => by omega⟩

namespace Reading
variable {text front back lost : Text} {program : Program} {statement node : Node}

theorem ofRegion_eq (reading : Reading text program statement node front back lost) :
    Snippet.ofRegion program.source program.root node.span = Snippet.dedent (Snippet.flag
      (templateRows program.source program.root) (Text.rows (opening ++ front)) (Text.splitOn '\n' ((opening ++ front).lastLine ++ node.text))) := by
  have whole : program.source = (opening ++ front) ++ (node.text ++ (back ++ lost ++ [')', ';'])) := by
    have split : wrap text = opening ++ ('\n' :: (text ++ ['\n']) ++ [')', ';']) := by
      rw [wrap_eq, show opening = ['c', 'o', 'n', 's', 't', ' ', '_', '_', 't', ' ', '=', ' ', '('] from rfl]
      simp
    rw [(Program.parse_ok reading.read).1, split, reading.whole]
    simp
  rw [Node.span, Node.stop_eq, reading.start]
  exact Snippet.ofRegion_eq program.root whole

end Reading

/-- A text that is read as markup is the markup with gaps and parentheses around it, exactly if no type stands in one of
these parentheses and the statement that is read declares nothing else; the rest is lost. The piece of code is cut from
the line that the markup starts on, so it starts with the markup exactly if nothing but blanks is in front of it there. -/
theorem parse_markup_around {text : Text} {expression : ParsedExpression} (read : parse text = .ok expression)
    (markup : expression.isMarkup = true) :
    ∃ program statement node front back lost, Reading text program statement node front back lost ∧
      expression.kind = classify node ∧
      expression.snippet = Snippet.dedent (Snippet.flag (templateRows program.source program.root)
        (Text.rows (opening ++ front)) (Text.splitOn '\n' ((opening ++ front).lastLine ++ node.text))) ∧
      ∃ first others, expression.snippet.lines = first :: others ∧
        (first.text.dropWhile isBlank = node.text.firstLine.dropWhile isBlank ↔
          (opening ++ front).lastLine.isBlank = true) := by
  obtain ⟨program, statement, node, parsed, single, found, rfl⟩ := ofShell_ok read
  obtain ⟨front, back, lost, reading⟩ := read_markup parsed single found (isCore_of_isMarkup markup)
  refine ⟨program, statement, node, front, back, lost, reading, rfl, reading.ofRegion_eq, ?_⟩
  dsimp only
  rw [reading.ofRegion_eq]
  obtain ⟨first, others, lines, same⟩ := Snippet.dedent_flag_first (templateRows program.source program.root)
    (Text.rows (opening ++ front)) ((opening ++ front).lastLine ++ node.text)
  refine ⟨first, others, lines, ?_⟩
  rw [same, Text.firstLine_append (Text.newline_not_mem_lastLine _)]
  exact Text.dropWhile_isBlank_append_iff _ _

theorem parse_markup_around_escaping : ∃ expression, parse escapingMarkup = .ok expression ∧
    expression.isMarkup = true ∧ expression.snippet.text = "<A/>".toList ∧
    ∃ program statement node front back lost, Reading escapingMarkup program statement node front back lost ∧
      ',' ∈ lost := by
  obtain ⟨program, found, results⟩ := Option.map_eq_some_iff.mp parse_escaping.2
  have parsed := Except.ok_of_toOption found
  obtain ⟨body, declared⟩ := Prod.mk.inj results
  have read : parse escapingMarkup = .ok ⟨.element, ⟨[⟨"<A/>".toList, false⟩]⟩⟩ := by
    rw [parse, parsed]
    exact Except.ok_of_toOption body
  obtain ⟨program', statement, node, front, back, lost, reading, -⟩ := parse_markup_around read rfl
  refine ⟨_, read, rfl, rfl, program', statement, node, front, back, lost, reading, reading.comma fun none => ?_⟩
  cases parsed.symm.trans reading.read
  have alone := reading.alone.mp none
  rw [reading.single] at declared
  have two : (VariableDeclaration.mk statement).declarators.length = 2 := Option.some.inj declared
  omega

end ParsedExpression
end Graft
