import Graft.Proofs.FirmTexts
import Graft.Proofs.ImportWrites
import Graft.Proofs.StatementSplice

/-! The top level of a program. What has a name there takes up some text and what has none is spacing, and a line for
an interpreter is the only one and stands before all statements. -/

namespace Graft

set_option maxRecDepth 10000 in
theorem statement_kinds_some :
    (Grammar.nodesOf Grammar.statementGroups).all (fun kind => !(Phrase.node kind).isFree) = true := by rfl

theorem Tree.IsPlainNode.firm {tree : Tree} (plain : tree.IsPlainNode) : tree.IsFirm := by
  obtain ⟨kind, inner, listed, derived, rfl⟩ := plain
  exact derived.node_firm (by simpa using List.all_eq_true.mp statement_kinds_some kind listed) none

theorem Tree.IsLoose.text_ne_nil {tree : Tree} (loose : tree.IsLoose) (named : tree.kind.isNamed = true) :
    tree.text ≠ [] := by
  rcases loose with gap | ⟨text, rfl, body, rfl, -⟩
  · intro empty
    rw [gap.unnamed empty] at named
    cases named
  · simp [Tree.text]

namespace Node

theorem place_split {start : Nat} {trees : List Tree} {front back : List Node}
    (split : place start trees = front ++ back) :
    ∃ left right, trees = left ++ right ∧ front = place start left ∧ back = place (start + Forest.bytes left) right := by
  induction front generalizing start trees with
  | nil => exact ⟨[], trees, rfl, rfl, by simpa [Forest.bytes] using split.symm⟩
  | cons node front ih =>
    cases trees with
    | nil => cases split
    | cons tree trees =>
      rw [place, List.cons_append] at split
      obtain ⟨rfl, later⟩ := List.cons.inj split
      obtain ⟨left, right, rfl, rfl, rfl⟩ := ih later
      exact ⟨tree :: left, right, rfl, rfl, by simp [Forest.bytes, Nat.add_assoc]⟩

theorem place_concat {start : Nat} {trees : List Tree} {front : List Node} {last : Node}
    (split : place start trees = front ++ [last]) : last.stop = start + Forest.bytes trees := by
  obtain ⟨left, right, rfl, -, same⟩ := place_split split
  match right with
  | [tree] =>
    cases same
    simp [stop, Forest.bytes_append, Forest.bytes, Nat.add_assoc]
  | _ :: _ :: _ => simp [place] at same

end Node

namespace Program
variable {source : Text} {program : Program}

theorem topLevel_eq (program : Program) : program.topLevel = (Node.place 0 program.tree.children).filter Node.isNamed :=
  Node.namedChildren_eq program.root

theorem mem_topLevel {node : Node} :
    node ∈ program.topLevel ↔ node ∈ Node.place 0 program.tree.children ∧ node.isNamed = true := by
  rw [topLevel_eq, List.mem_filter]

theorem place_cases (read : Program.parse source = .ok program) {node : Node}
    (member : node ∈ Node.place 0 program.tree.children) : node.tree.IsLoose ∨ node.tree.IsPlainNode := by
  obtain ⟨left, right, split, -⟩ := Node.mem_place member
  exact parse_trees read node.tree (by rw [split]; simp)

theorem place_blank (read : Program.parse source = .ok program) {node : Node}
    (member : node ∈ Node.place 0 program.tree.children) (unnamed : node.isNamed = false) :
    ∀ c ∈ node.text, isSpacing c = true := by
  have blank : node.tree.IsGap ∨ node.tree.IsPlainNode → ∀ c ∈ node.text, isSpacing c = true := by
    intro inside
    rcases Tree.named_or_blank inside with ⟨-, blank, -⟩ | ⟨-, named⟩
    · exact blank
    · rw [show node.tree.kind.isNamed = false from unnamed] at named
      cases named
  rcases place_cases read member with (gap | ⟨text, same, -⟩) | plain
  · exact blank (.inl gap)
  · rw [Node.isNamed, Node.kind, same] at unnamed
    cases unnamed
  · exact blank (.inr plain)

theorem topLevel_some (read : Program.parse source = .ok program) {node : Node} (member : node ∈ program.topLevel) :
    node.start < node.stop := by
  obtain ⟨placed, named⟩ := mem_topLevel.mp member
  have some : node.text ≠ [] := by
    rcases place_cases read placed with loose | plain
    · exact loose.text_ne_nil named
    · obtain ⟨c, rest, text, -⟩ := plain.firm
      rw [Node.text, text]
      simp
  obtain ⟨c, rest, text⟩ := List.exists_cons_of_ne_nil some
  have wide := c.utf8Size_pos
  rw [Node.stop_eq, text, Text.bytes]
  omega

/-- A line for an interpreter stands behind nothing but comments, and before all statements. -/
theorem place_line (read : Program.parse source = .ok program) {line : Node}
    (member : line ∈ Node.place 0 program.tree.children) (kind : line.kind = .hashBangLine) :
    ∀ node ∈ Node.place 0 program.tree.children,
      (node.kind = .hashBangLine → node = line) ∧ (node.tree.IsPlainNode → line.stop ≤ node.start) := by
  obtain ⟨gap, lines, right, split, few, gaps, -, nodes⟩ := parse_split read
  have never : ∀ {node : Node} {start : Nat} {trees : List Tree}, (∀ tree ∈ trees, tree.IsGap ∨ tree.IsPlainNode) →
      node ∈ Node.place start trees → node.kind ≠ .hashBangLine := by
    intro node start trees plain inside same
    obtain ⟨left, right, rfl, -⟩ := Node.mem_place inside
    rcases plain node.tree (by simp) with gap | plain
    · exact gap.kind_ne rfl same
    · exact plain.ne_hashBang same
  have only : ∀ {node : Node}, node ∈ Node.place 0 program.tree.children → node.kind = .hashBangLine →
      node ∈ Node.place (Forest.bytes gap) lines := by
    intro node inside same
    rw [split, List.append_assoc, Node.place_append, Node.place_append, Nat.zero_add] at inside
    rcases List.mem_append.mp inside with inside | inside
    · exact absurd same (never (fun tree member => .inl (gaps tree member)) inside)
    · rcases List.mem_append.mp inside with inside | inside
      · exact inside
      · exact absurd same (never nodes inside)
  have here := only member kind
  obtain ⟨tree, rfl⟩ : ∃ tree, lines = [tree] := by
    match lines, few with
    | [tree], _ => exact ⟨tree, rfl⟩
  have same : line = ⟨Forest.bytes gap, tree⟩ := List.mem_singleton.mp here
  intro node inside
  refine ⟨fun again => (List.mem_singleton.mp (only inside again)).trans same.symm, fun plain => ?_⟩
  rw [split, Node.place_append] at inside
  rcases List.mem_append.mp inside with early | late
  · -- before the line there are only gaps
    obtain ⟨left, others, whole, -⟩ := Node.mem_place early
    have listed : node.tree ∈ gap ++ [tree] := by rw [whole]; simp
    rcases List.mem_append.mp listed with listed | listed
    · have other := plain.notTrivia
      rw [← Tree.isTrivia, (gaps node.tree listed).trivia] at other
      cases other
    · rw [same, Node.kind, ← List.mem_singleton.mp listed] at kind
      exact absurd kind plain.ne_hashBang
  · have behind := Node.place_le late
    rw [Forest.bytes_append] at behind
    simp only [same, Node.stop, Forest.bytes] at behind ⊢
    omega

/-- What stands at the top level behind a statement: all trees behind it that have a name. -/
theorem topLevel_behind (read : Program.parse source = .ok program) {left right : List Tree} {statement : Node}
    (split : program.tree.children = left ++ statement.tree :: right) (start : statement.start = Forest.bytes left)
    (member : statement ∈ program.topLevel) :
    (program.topLevel.filter fun node => statement.stop ≤ node.start) =
      (Node.place statement.stop right).filter Node.isNamed := by
  have wide := topLevel_some read member
  have whole : Node.place 0 program.tree.children =
      Node.place 0 left ++ statement :: Node.place statement.stop right := by
    rw [split, Node.place_append, Nat.zero_add, ← start, Node.place]
    rfl
  have early : ∀ node ∈ Node.place 0 left, node.isNamed = true → ¬ statement.stop ≤ node.start := by
    intro node inside named
    have some := topLevel_some read (mem_topLevel.mpr ⟨by rw [whole]; exact List.mem_append_left _ inside, named⟩)
    have ordered := Node.place_ordered 0 program.tree.children
    rw [whole, List.pairwise_append] at ordered
    have before := ordered.2.2 node inside statement (List.mem_cons_self ..)
    omega
  have none : ((Node.place 0 left).filter Node.isNamed).filter (fun node => statement.stop ≤ node.start) = [] := by
    refine List.filter_eq_nil_iff.mpr fun node inside => ?_
    obtain ⟨inside, named⟩ := List.mem_filter.mp inside
    simpa using early node inside named
  have all : ((Node.place statement.stop right).filter Node.isNamed).filter (fun node => statement.stop ≤ node.start) =
      (Node.place statement.stop right).filter Node.isNamed := by
    refine List.filter_eq_self.mpr fun node inside => ?_
    simpa using Node.place_le (List.mem_filter.mp inside).1
  rw [topLevel_eq, whole, List.filter_append, List.filter_cons, if_pos (mem_topLevel.mp member).2, List.filter_append,
    none, List.nil_append, List.filter_cons, if_neg (by simpa using wide), all]

end Program

end Graft
