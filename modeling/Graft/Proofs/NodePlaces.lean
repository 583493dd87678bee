import Graft.Edit.Run
import Graft.Proofs.Results
import Graft.Proofs.TextCuts

/-! Nodes at their places. A node of a program spells a stretch of the source that starts where the node
says, and its children stand inside it, one after the other. Both pass from the root to every node that
can be reached from it. -/

namespace Graft

theorem Forest.bytes_append (first second : List Tree) :
    Forest.bytes (first ++ second) = Forest.bytes first + Forest.bytes second := by
  simp [Forest.bytes_eq]

namespace Node

/-- A node spells the source where it stands, and its tree is admitted. -/
structure Stands (source : Text) (node : Node) : Prop where
  place : ∃ before after, source = before ++ (node.text ++ after) ∧ Text.bytes before = node.start
  sound : node.tree.sound = true

theorem stop_eq (node : Node) : node.stop = node.start + Text.bytes node.text := by
  rw [stop, text, Tree.bytes_eq]

theorem mem_place {start : Nat} {trees : List Tree} {node : Node} (member : node ∈ place start trees) :
    ∃ left right, trees = left ++ node.tree :: right ∧ node.start = start + Forest.bytes left := by
  induction trees generalizing start with
  | nil => simp [place] at member
  | cons tree trees ih =>
    rw [place, List.mem_cons] at member
    rcases member with rfl | member
    · exact ⟨[], trees, rfl, by simp [Forest.bytes]⟩
    · obtain ⟨left, right, rfl, same⟩ := ih member
      exact ⟨tree :: left, right, rfl, by simp only [same, Forest.bytes]; omega⟩

theorem place_le {start : Nat} {trees : List Tree} {node : Node} (member : node ∈ place start trees) :
    start ≤ node.start := by
  obtain ⟨left, right, _, same⟩ := mem_place member
  omega

theorem place_ordered (start : Nat) (trees : List Tree) :
    (place start trees).Pairwise fun first second => first.stop ≤ second.start := by
  induction trees generalizing start with
  | nil => simp [place]
  | cons tree trees ih =>
    rw [place, List.pairwise_cons]
    exact ⟨fun node member => place_le member, ih _⟩

theorem children_ordered (node : Node) :
    node.children.Pairwise fun first second => first.stop ≤ second.start :=
  (place_ordered _ _).filter _

theorem namedChildren_ordered (node : Node) :
    node.namedChildren.Pairwise fun first second => first.stop ≤ second.start :=
  node.children_ordered.filter _

theorem mem_children {node child : Node} (member : child ∈ node.children) :
    child ∈ place node.start node.tree.children :=
  (List.mem_filter.mp member).1

theorem tree_mem {node child : Node} (member : child ∈ node.children) : child.tree ∈ node.tree.children := by
  obtain ⟨left, right, split, -⟩ := mem_place (mem_children member)
  simp [split]

theorem mem_namedChildren {node child : Node} (member : child ∈ node.namedChildren) :
    child ∈ node.children ∧ child.isNamed = true :=
  List.mem_filter.mp member

theorem child?_mem {role : Role} {node child : Node} (found : node.child? role = some child) :
    child ∈ node.children ∧ child.tree.role = some role :=
  ⟨List.mem_of_find?_eq_some found, by simpa using List.find?_some found⟩

theorem childOfKind?_mem {kind : Kind} {node child : Node} (found : node.childOfKind? kind = some child) :
    child ∈ node.children ∧ child.kind = kind :=
  ⟨List.mem_of_find?_eq_some found, by simpa using List.find?_some found⟩

end Node

namespace Forest

theorem sound_of_mem {trees : List Tree} (sound : Forest.sound trees = true) {tree : Tree}
    (member : tree ∈ trees) : tree.sound = true := by
  induction trees with
  | nil => simp at member
  | cons head rest ih =>
    simp only [Forest.sound, Bool.and_eq_true] at sound
    rcases List.mem_cons.mp member with rfl | member
    · exact sound.1
    · exact ih sound.2 member

end Forest

namespace Node.Stands
variable {source : Text} {node inner : Node}

/-- A child stands in the source inside of its parent. -/
theorem child (stands : node.Stands source) (member : inner ∈ node.children) :
    inner.Stands source ∧ node.start ≤ inner.start ∧ inner.stop ≤ node.stop := by
  obtain ⟨before, after, whole, start⟩ := stands.place
  obtain ⟨left, right, split, shifted⟩ := mem_place (mem_children member)
  obtain ⟨role, kind, shape⟩ : ∃ role kind, node.tree = .node role kind (left ++ inner.tree :: right) := by
    cases same : node.tree with
    | leaf role kind text => simp [same, Tree.children] at split
    | node role kind children => exact ⟨role, kind, by simpa [same, Tree.children] using split⟩
  have spelled : node.text = Forest.text left ++ (inner.text ++ Forest.text right) := by
    simp [Node.text, shape, Tree.text, Forest.text]
  refine ⟨⟨⟨before ++ Forest.text left, Forest.text right ++ after, ?_, ?_⟩, ?_⟩, by omega, ?_⟩
  · simp [whole, spelled]
  · simp [shifted, start, Forest.bytes_eq]
  · have sound := stands.sound
    simp only [shape, Tree.sound, Bool.and_eq_true] at sound
    exact Forest.sound_of_mem sound.2 (by simp)
  · have wide : node.tree.bytes = Forest.bytes (left ++ inner.tree :: right) := by simp [shape, Tree.bytes]
    simp only [stop, wide, shifted, Forest.bytes_append, Forest.bytes]
    omega

theorem named (stands : node.Stands source) (member : inner ∈ node.namedChildren) :
    inner.Stands source ∧ node.start ≤ inner.start ∧ inner.stop ≤ node.stop :=
  stands.child (mem_namedChildren member).1

theorem start_boundary (stands : node.Stands source) : Text.Boundary source node.start := by
  obtain ⟨before, after, whole, start⟩ := stands.place
  exact ⟨before, node.text ++ after, whole, start⟩

theorem stop_boundary (stands : node.Stands source) : Text.Boundary source node.stop := by
  obtain ⟨before, after, whole, start⟩ := stands.place
  exact ⟨before ++ node.text, after, by simp [whole], by simp [start, stop_eq]⟩

theorem start_le_stop (node : Node) : node.start ≤ node.stop := by
  rw [stop]
  omega

theorem slice (stands : node.Stands source) : Text.slice? node.start node.stop source = some node.text := by
  obtain ⟨before, after, rfl, start⟩ := stands.place
  rw [stop_eq, ← start]
  exact Text.slice?_append before node.text after

theorem between {front middle back : Text} (stands : node.Stands source) (whole : source = front ++ (middle ++ back))
    (start : Text.bytes front ≤ node.start) (stop : node.stop ≤ Text.bytes (front ++ middle)) :
    ∃ inner outer, middle = inner ++ (node.text ++ outer) ∧ node.start = Text.bytes (front ++ inner) := by
  obtain ⟨before, after, spelled, place⟩ := stands.place
  obtain ⟨inner, rfl, rest⟩ := Text.append_inj_of_bytes_le (whole.symm.trans spelled) (place ▸ start)
  obtain ⟨outer, rfl, -⟩ : ∃ outer, middle = inner ++ node.text ++ outer ∧ after = outer ++ back := by
    refine Text.append_inj_of_bytes_le ((List.append_assoc ..).trans rest.symm) ?_
    rw [stop_eq, ← place] at stop
    simp only [Text.bytes_append] at stop ⊢
    omega
  exact ⟨inner, outer, List.append_assoc .., place.symm⟩

end Node.Stands

theorem rowAt_append (before after : Text) : rowAt (before ++ after) (Text.bytes before) = Text.rows before := by
  rw [rowAt, Text.take?_append, Option.getD_some]

namespace Program

theorem root_stands (program : Program) : program.root.Stands program.source := by
  refine ⟨⟨[], [], ?_, rfl⟩, program.sound⟩
  simp [root, Node.text, program.whole]

theorem topLevel_stands (program : Program) {node : Node} (member : node ∈ program.topLevel) :
    node.Stands program.source :=
  (program.root_stands.named member).1

theorem statement_stands (program : Program) {node : Node} (member : node ∈ program.statements) :
    node.Stands program.source :=
  program.topLevel_stands (List.mem_filter.mp member).1

theorem accept_ok {source : Text} {machine : Machine} {program : Program}
    (read : accept source machine = .ok program) : program.source = source ∧ ∃ forest, machine.forest? = some forest ∧
      program.tree = .node none .program forest := by
  unfold accept at read
  split at read
  next => cases read
  next forest found =>
    dsimp only at read
    split at read
    next =>
      cases read
      exact ⟨rfl, forest, found, rfl⟩
    next => cases read

/-- What is read as a program is the whole text, and its tree is what the machine found. -/
theorem parse_ok {source : Text} {program : Program} (read : Program.parse source = .ok program) :
    program.source = source ∧ ∃ forest, (Machine.read source).forest? = some forest ∧
      program.tree = .node none .program forest :=
  accept_ok read

end Program

/-- A line for an interpreter reaches to the end of its line: what is behind it starts on a later row. -/
def Program.LineAlone (program : Program) : Prop :=
  ∀ line ∈ program.topLevel, line.kind = .hashBangLine → ∀ node ∈ program.topLevel, line.stop ≤ node.start →
    rowAt program.source line.stop < rowAt program.source node.start

instance (program : Program) : Decidable program.LineAlone :=
  inferInstanceAs (Decidable (∀ line ∈ program.topLevel, line.kind = .hashBangLine → ∀ node ∈ program.topLevel, _ → _))

end Graft
