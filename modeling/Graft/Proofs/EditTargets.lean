import Graft.Proofs.PatchSplice
import Graft.Proofs.WalkReach
import Graft.Edit.Operation

/-! Where edits find what they change. Every node that a search comes up with stands in the source, so the
spans that edits replace and the offsets that they insert at lie between two characters. -/

namespace Graft

def Construct.node : Construct → Node
  | importDeclaration it => it.node
  | functionDeclaration it => it.node
  | variableDeclaration it => it.node
  | declarator it => it.node
  | arrowFunction it => it.node
  | exportDefault it => it.node
  | element it => it.node
  | fragment it => it.node
  | openingTag it => it.node
  | tagAttribute it => it.node
  | other node => node

theorem Node.construct_node (node : Node) : node.construct.node = node := by
  unfold construct
  split
  all_goals first | rfl | (split <;> rfl)

namespace Node.Stands
variable {source : Text} {node inner : Node}

theorem child? {role : Role} (stands : node.Stands source) (found : node.child? role = some inner) :
    inner.Stands source :=
  (stands.child (child?_mem found).1).1

theorem childOfKind? {kind : Kind} (stands : node.Stands source) (found : node.childOfKind? kind = some inner) :
    inner.Stands source :=
  (stands.child (childOfKind?_mem found).1).1

theorem construct {view : Construct} (stands : node.Stands source) (same : node.construct = view) :
    view.node.Stands source := by
  rw [← same, node.construct_node]
  exact stands

end Node.Stands

/-! ### Functions -/

section
variable {holds : Node → Prop} (closed : ∀ node, holds node → ∀ child ∈ node.children, holds child)
include closed

/-- Parentheses are left one by one, each time to a child. -/
theorem Node.bare_holds {node : Node} (first : holds node) : holds node.bare := by
  unfold Node.bare
  generalize node.tree.size = steps
  induction steps generalizing node with
  | zero => exact first
  | succ steps ih =>
    rw [Node.bare.go]
    split
    next =>
      split
      next inner found => exact ih (closed node first inner (mem_namedChildren (List.mem_of_find?_eq_some found)).1)
      next => exact first
    next => exact first

omit closed in
/-- What passes from parents to their children holds of the function that a body is of. -/
theorem FunctionDeclaration.target?_body {it : FunctionDeclaration} {name : Text} {target : FunctionTarget}
    (first : holds it.node) (found : it.target? name = some target) :
    ∃ parent, holds parent ∧ parent.child? .body = some target.body := by
  unfold target? at found
  split at found
  next =>
    obtain ⟨body, child, rfl⟩ := Option.map_eq_some_iff.mp found
    exact ⟨it.node, first, child⟩
  next => cases found

theorem Declarator.target?_body {it : Declarator} {name : Text} {target : FunctionTarget}
    (first : holds it.node) (found : it.target? name = some target) :
    ∃ parent, holds parent ∧ parent.child? .body = some target.body := by
  unfold target? at found
  split at found
  next =>
    obtain ⟨body, reached, rfl⟩ := Option.map_eq_some_iff.mp found
    obtain ⟨arrow, valued, child⟩ := Option.bind_eq_some_iff.mp reached
    unfold arrow? at valued
    split at valued
    next value bared =>
      obtain ⟨whole, initial, rfl⟩ := Option.map_eq_some_iff.mp bared
      split at valued
      next =>
        cases valued
        exact ⟨whole.bare, Node.bare_holds closed (closed _ first whole (Node.child?_mem initial).1), child⟩
      next => cases valued
    next => cases valued
  next => cases found

theorem Node.functionTarget?_body {statement : Node} {name : Text} {target : FunctionTarget} (first : holds statement)
    (found : statement.functionTarget? name = some target) :
    ∃ parent, holds parent ∧ parent.child? .body = some target.body := by
  have view := statement.construct_node
  unfold functionTarget? at found
  split at found
  next it same =>
    rw [same] at view
    subst view
    exact FunctionDeclaration.target?_body first found
  next it same =>
    rw [same] at view
    subst view
    obtain ⟨declarator, member, reached⟩ := List.exists_of_findSome?_eq_some found
    obtain ⟨child, inside, rfl⟩ := List.mem_map.mp member
    have listed := (mem_namedChildren (List.mem_filter.mp inside).1).1
    exact Declarator.target?_body closed (closed (Construct.variableDeclaration it).node first child listed) reached
  next it same =>
    rw [same] at view
    subst view
    obtain ⟨function, declared, reached⟩ := Option.bind_eq_some_iff.mp found
    unfold ExportDefault.function? at declared
    split at declared
    next declaration child =>
      split at declared
      next =>
        cases declared
        exact FunctionDeclaration.target?_body
          (closed (Construct.exportDefault it).node first declaration (child?_mem child).1) reached
      next => cases declared
    next => cases declared
  next => cases found

theorem Program.functionNamed?_body {program : Program} {name : Text} {target : FunctionTarget}
    (first : holds program.root) (found : program.functionNamed? name = some target) :
    ∃ parent, holds parent ∧ parent.child? .body = some target.body := by
  obtain ⟨statement, member, reached⟩ := List.exists_of_findSome?_eq_some found
  have listed := (Node.mem_namedChildren (List.mem_filter.mp member).1).1
  exact Node.functionTarget?_body closed (closed _ first statement listed) reached

end

theorem Node.Stands.bare {source : Text} {node : Node} (stands : node.Stands source) : node.bare.Stands source :=
  Node.bare_holds (fun _ stands _ member => (Node.Stands.child stands member).1) stands

theorem Program.functionNamed?_stands {program : Program} {name : Text} {target : FunctionTarget}
    (found : program.functionNamed? name = some target) : target.body.Stands program.source := by
  obtain ⟨parent, stands, child⟩ :=
    functionNamed?_body (fun _ stands _ member => (Node.Stands.child stands member).1) program.root_stands found
  exact stands.child? child

/-! ### Markup -/

theorem Program.elementNamed?_fits {program : Program} {tag : Text} {span : Span}
    (found : program.elementNamed? tag = some span) : span.Fits program.source := by
  obtain ⟨node, stands, _, reached⟩ := program.findFirst?_stands found
  unfold Node.elementTarget? at reached
  split at reached
  next it same =>
    have viewed : it.node.Stands program.source := stands.construct same
    split at reached
    next =>
      cases reached
      exact viewed.span_fits
    next => cases reached
  next => cases reached

/-- The place of attributes starts behind the name or behind type arguments, and it ends before a mark that
comes later. -/
private theorem attributesSpan_go {source : Text} {start : Nat} {children : List Node} {span : Span}
    (edge : Text.Boundary source start) (stand : ∀ child ∈ children, child.Stands source)
    (later : ∀ child ∈ children, start ≤ child.start)
    (ordered : children.Pairwise fun first second => first.stop ≤ second.start)
    (found : OpeningTag.attributesSpan?.go start children = some span) : span.Fits source := by
  induction children generalizing start with
  | nil => simp [OpeningTag.attributesSpan?.go] at found
  | cons child children ih =>
    have first := stand child (by simp)
    have rest : ∀ other ∈ children, other.Stands source := fun other member => stand other (by simp [member])
    obtain ⟨before, ordered⟩ := List.pairwise_cons.mp ordered
    rw [OpeningTag.attributesSpan?.go] at found
    split at found
    next => exact ih first.stop_boundary rest before ordered found
    next =>
      split at found
      next =>
        cases found
        exact ⟨edge, first.start_boundary, later child (by simp)⟩
      next => exact ih edge rest (fun other member => later other (by simp [member])) ordered found

theorem OpeningTag.attributesSpan?_fits {source : Text} {it : OpeningTag} {span : Span}
    (stands : it.node.Stands source) (found : it.attributesSpan? = some span) : span.Fits source := by
  unfold attributesSpan? at found
  split at found
  next => cases found
  next name named =>
    apply attributesSpan_go (stands.child? named).stop_boundary ?_ ?_ (it.node.children_ordered.filter _) found
    · intro child member
      exact (stands.child (List.mem_filter.mp member).1).1
    · intro child member
      simpa using (List.mem_filter.mp member).2

theorem Node.openingTag?_node {node : Node} {it : OpeningTag} (found : node.openingTag? = some it) :
    it.node = node := by
  have view := node.construct_node
  unfold openingTag? at found
  split at found
  next tag same =>
    rw [same] at view
    cases found
    exact view
  next element same =>
    rw [same] at view
    split at found
    next closes =>
      rw [Element.opening?, if_pos closes] at found
      cases found
      exact view
    next => cases found
  next => cases found

theorem Program.attributesOf?_fits {program : Program} {tag : Text} {slot : AttributeSlot}
    (found : program.attributesOf? tag = some slot) : slot.span.Fits program.source := by
  obtain ⟨node, stands, _, reached⟩ := program.findFirst?_stands found
  obtain ⟨it, opened, placed⟩ := Option.bind_eq_some_iff.mp reached
  unfold OpeningTag.slot? at placed
  split at placed
  next =>
    obtain ⟨span, located, rfl⟩ := Option.map_eq_some_iff.mp placed
    exact OpeningTag.attributesSpan?_fits (Node.openingTag?_node opened ▸ stands) located
  next => cases placed

/-! ### Imports -/

theorem Program.importOf?_node {node : Node} {it : Import} (found : importOf? node = some it) : it.node = node := by
  have view := node.construct_node
  unfold importOf? at found
  split at found
  next other same =>
    rw [same] at view
    cases found
    exact view
  next => cases found

theorem Program.importOfModule?_stands {program : Program} {module : Text} {it : Import}
    (found : program.importOfModule? module = some it) : it.node.Stands program.source := by
  obtain ⟨statement, member, reached⟩ := List.exists_of_findSome?_eq_some found
  obtain ⟨other, viewed, same⟩ := Option.bind_eq_some_iff.mp reached
  split at same
  next =>
    cases same
    exact importOf?_node viewed ▸ program.statement_stands member
  next => cases same

theorem Import.namedList?_stands {source : Text} {it : Import} {list : Node} (stands : it.node.Stands source)
    (found : it.namedList? = some list) : list.Stands source ∧ list.kind = .namedImports := by
  obtain ⟨clause, child, listed⟩ := Option.bind_eq_some_iff.mp found
  exact ⟨(stands.childOfKind? child).childOfKind? listed, (Node.childOfKind?_mem listed).2⟩

theorem Import.specifiers_stand {source : Text} {it : Import} {list : Node} (stands : it.node.Stands source)
    (found : it.namedList? = some list) {specifier : ImportSpecifier} (member : specifier ∈ it.specifiers) :
    specifier.node.Stands source ∧ specifier.node ∈ list.children ∧ specifier.node.kind = .importSpecifier := by
  simp only [specifiers, found, List.mem_map, List.mem_filter, decide_eq_true_eq] at member
  obtain ⟨node, ⟨inside, kind⟩, rfl⟩ := member
  have child := (Node.mem_namedChildren inside).1
  exact ⟨((namedList?_stands stands found).1.child child).1, child, kind⟩

theorem Tree.eq_leaf_of_isSymbol {tree : Tree} {symbol : Text} (same : tree.isSymbol symbol = true) :
    ∃ role, tree = .leaf role .symbol symbol := by
  unfold isSymbol at same
  split at same
  next role text => exact ⟨role, by rw [of_decide_eq_true same]⟩
  next => cases same

/-- A list of imports ends with its brace, and its entries end before it. -/
theorem Node.Stands.close_boundary {source : Text} {list : Node} (stands : list.Stands source)
    (kind : list.kind = .namedImports) : Text.Boundary source (list.stop - 1) ∧
      ∀ child ∈ list.children, child.kind ≠ .symbol → child.stop ≤ list.stop - 1 := by
  obtain ⟨role, children, shape⟩ : ∃ role children, list.tree = .node role .namedImports children := by
    have sound := stands.sound
    cases same : list.tree with
    | leaf role other text =>
      rw [Node.kind, same, Tree.kind] at kind
      simp [same, kind, Tree.sound, Kind.admitsText] at sound
    | node role other children =>
      rw [Node.kind, same, Tree.kind] at kind
      exact ⟨role, children, by rw [kind]⟩
  obtain ⟨front, last, split, closes⟩ : ∃ front last, children = front ++ [last] ∧
      last.isSymbol ['\x7d'] = true := by
    have sound := stands.sound
    simp only [shape, Tree.sound, Kind.admits, Bool.and_eq_true] at sound
    obtain ⟨last, seen, closes⟩ := (Option.any_eq_true _ _).mp sound.1.2
    obtain ⟨front, rfl⟩ := List.getLast?_eq_some_iff.mp seen
    exact ⟨front, last, rfl, closes⟩
  obtain ⟨mark, rfl⟩ := Tree.eq_leaf_of_isSymbol closes
  have stop : list.stop - 1 = list.start + Forest.bytes front := by
    simp [Node.stop, shape, split, Tree.bytes, Forest.bytes_append, Forest.bytes, Text.bytes, Char.utf8Size]
  refine ⟨?_, ?_⟩
  · obtain ⟨before, after, whole, start⟩ := stands.place
    refine ⟨before ++ Forest.text front, '\x7d' :: after, ?_, ?_⟩
    · simp [whole, Node.text, shape, split, Tree.text, Forest.text]
    · simp [stop, start, Forest.bytes_eq]
  · intro child member other
    obtain ⟨left, right, same, shifted⟩ := Node.mem_place (Node.mem_children member)
    rw [shape, Tree.children, split] at same
    rcases List.eq_nil_or_concat right with rfl | ⟨rest, final, rfl⟩
    · have same := (List.append_inj' same rfl).2
      simp only [List.cons.injEq, and_true] at same
      exact absurd (by rw [Node.kind, ← same, Tree.kind]) other
    · have same : front ++ [.leaf mark .symbol ['\x7d']] = (left ++ child.tree :: rest) ++ [final] := by
        simpa using same
      have same := (List.append_inj' same rfl).1
      rw [stop, same, Forest.bytes_append, Forest.bytes, Node.stop, shifted]
      omega

end Graft
