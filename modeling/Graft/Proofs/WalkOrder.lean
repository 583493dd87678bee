import Graft.Proofs.WalkReach

/-! The order of a walk. A cursor that goes to the first child, else to the next sibling, else up until
there is a sibling, comes to the nodes in the order of a plain recursion: each node before its children,
and all of a child before the next one. So a walk is a run along a list, and what it finds first is the
first find in that list. -/

namespace Graft

mutual

/-- A tree at an offset and all nodes below it in document order, spacing left out. -/
def Tree.nodesFrom (start : Nat) : Tree → List Node
  | .leaf role kind text => [⟨start, .leaf role kind text⟩]
  | .node role kind children => ⟨start, .node role kind children⟩ :: Forest.nodesFrom start children

def Forest.nodesFrom : Nat → List Tree → List Node
  | _, [] => []
  | start, tree :: trees =>
    (if tree.kind = .spacing then [] else tree.nodesFrom start) ++ Forest.nodesFrom (start + tree.bytes) trees

end

namespace Node

/-- A node and all below it in document order: parents before their children. -/
def nodes (node : Node) : List Node := node.tree.nodesFrom node.start

theorem nodesFrom_forest (start : Nat) (trees : List Tree) :
    Forest.nodesFrom start trees =
      ((place start trees).filter fun child => child.kind ≠ .spacing).flatMap nodes := by
  induction trees generalizing start with
  | nil => rfl
  | cons tree trees ih =>
    rw [Forest.nodesFrom, ih, place]
    by_cases blank : tree.kind = .spacing
    · simp [kind, blank]
    · simp [kind, blank, nodes]

theorem nodes_eq (node : Node) : node.nodes = node :: node.children.flatMap nodes := by
  obtain ⟨start, tree⟩ := node
  cases tree with
  | leaf role kind text => rfl
  | node role kind children =>
    rw [nodes, Tree.nodesFrom, nodesFrom_forest]
    rfl

theorem mem_nodes (node : Node) : node ∈ node.nodes := by simp [nodes_eq node]

theorem mem_nodes_of_child {node child inner : Node} (member : child ∈ node.children)
    (inside : inner ∈ child.nodes) : inner ∈ node.nodes := by
  rw [nodes_eq node]
  exact List.mem_cons_of_mem _ (List.mem_flatMap.mpr ⟨child, member, inside⟩)

theorem size_child {node child : Node} (member : child ∈ node.children) : child.tree.size < node.tree.size := by
  have smaller : ∀ (trees : List Tree), ∀ tree ∈ trees, tree.size ≤ Forest.size trees := by
    intro trees
    induction trees with
    | nil => simp
    | cons first trees ih =>
      intro tree inside
      rw [Forest.size]
      rcases List.mem_cons.mp inside with rfl | inside
      · omega
      · have := ih tree inside
        omega
  obtain ⟨left, right, split, -⟩ := mem_place (mem_children member)
  cases shape : node.tree with
  | leaf => simp [shape, Tree.children] at split
  | node role kind trees =>
    rw [shape, Tree.children] at split
    have := smaller trees child.tree (by simp [split])
    rw [Tree.size]
    omega

/-- What a node has when all its children have it holds of every node. -/
@[elab_as_elim]
theorem byChildren {motive : Node → Prop} (step : ∀ node : Node, (∀ child ∈ node.children, motive child) → motive node)
    (node : Node) : motive node :=
  step node fun child _ => byChildren step child
termination_by node.tree.size
decreasing_by exact size_child ‹_›

theorem mem_nodes_trans {top node inner : Node} (member : node ∈ top.nodes) (inside : inner ∈ node.nodes) :
    inner ∈ top.nodes := by
  induction top using byChildren with
  | step top ih =>
    rw [nodes_eq top] at member
    rcases List.mem_cons.mp member with rfl | below
    · exact inside
    · obtain ⟨child, listed, below⟩ := List.mem_flatMap.mp below
      exact mem_nodes_of_child listed (ih child listed below)

theorem nodes_keep {holds : Node → Prop} (closed : ∀ node, holds node → ∀ child ∈ node.children, holds child)
    {node : Node} (first : holds node) : ∀ inner ∈ node.nodes, holds inner := by
  induction node using byChildren with
  | step node ih =>
    intro inner member
    rw [nodes_eq node] at member
    rcases List.mem_cons.mp member with rfl | member
    · exact first
    · obtain ⟨child, listed, member⟩ := List.mem_flatMap.mp member
      exact ih child listed (closed node first child listed) inner member

theorem stop_of_children {node : Node} (filled : node.tree.children ≠ []) :
    node.stop = node.start + Forest.bytes node.tree.children := by
  cases shape : node.tree with
  | leaf => exact absurd (by rw [shape]; rfl) filled
  | node => rw [stop, shape]; rfl

theorem place_stop_le {start : Nat} {trees : List Tree} {node : Node} (member : node ∈ place start trees) :
    node.stop ≤ start + Forest.bytes trees := by
  obtain ⟨left, right, rfl, same⟩ := mem_place member
  simp only [stop, same, Forest.bytes_append, Forest.bytes]
  omega

theorem nodes_inside {node : Node} : ∀ inner ∈ node.nodes, node.start ≤ inner.start ∧ inner.stop ≤ node.stop := by
  induction node using byChildren with
  | step node ih =>
    intro inner member
    rw [nodes_eq node] at member
    rcases List.mem_cons.mp member with rfl | member
    · exact ⟨Nat.le_refl _, Nat.le_refl _⟩
    · obtain ⟨child, listed, member⟩ := List.mem_flatMap.mp member
      have placed := mem_children listed
      have filled : node.tree.children ≠ [] := by
        intro none
        rw [none] at placed
        cases placed
      have wide := stop_of_children filled
      have start := place_le placed
      have stop := place_stop_le placed
      have inside := ih child listed inner member
      omega

end Node

mutual

theorem Tree.nodesFrom_length_le (start : Nat) (tree : Tree) : (tree.nodesFrom start).length ≤ tree.size := by
  cases tree with
  | leaf role kind text => simp [Tree.nodesFrom, Tree.size]
  | node role kind children =>
    simpa [Tree.nodesFrom, Tree.size] using Forest.nodesFrom_length_le start children

theorem Forest.nodesFrom_length_le (start : Nat) (trees : List Tree) :
    (Forest.nodesFrom start trees).length ≤ Forest.size trees := by
  cases trees with
  | nil => simp [Forest.nodesFrom, Forest.size]
  | cons tree trees =>
    have first := Tree.nodesFrom_length_le start tree
    have rest := Forest.nodesFrom_length_le (start + tree.bytes) trees
    rw [Forest.nodesFrom, Forest.size, List.length_append]
    split <;> simp <;> omega

end

/-! The nodes a cursor has still to come to, the one it is on first. -/

namespace Zipper

/-- What follows the node that a cursor is on and all below it. -/
def later (after : List Node) (trail : List (Node × List Node)) : List Node :=
  after.flatMap Node.nodes ++ trail.flatMap fun level => level.2.flatMap Node.nodes

/-- The nodes from the one a cursor is on to the end of the document. -/
def ahead (zipper : Zipper) : List Node := zipper.focus.nodes ++ later zipper.after zipper.trail

theorem climbFrom_ahead (after : List Node) (trail : List (Node × List Node)) :
    ((climbFrom after trail).map ahead).getD [] = later after trail := by
  fun_induction climbFrom after trail with
  | case1 sibling siblings trail => simp [ahead, later]
  | case2 => rfl
  | case3 node after trail ih => simpa [later] using ih

/-- A cursor moves on by exactly one node of the document order. -/
theorem next?_ahead (zipper : Zipper) :
    ((zipper.next?).map ahead).getD [] = zipper.ahead.tail := by
  rw [ahead, Node.nodes_eq, List.cons_append, List.tail_cons]
  cases below : zipper.focus.children with
  | nil =>
    rw [next?, firstChild?, below, Option.none_or, climb?, climbFrom_ahead]
    rfl
  | cons child siblings =>
    rw [next?, firstChild?, below, Option.some_or]
    simp [ahead, later, List.append_assoc]

theorem ahead_ne_nil (zipper : Zipper) : zipper.ahead ≠ [] := by simp [ahead, Node.nodes_eq zipper.focus]

theorem ahead_top (node : Node) : (Zipper.top node).ahead = node.nodes := by simp [top, ahead, later]

end Zipper

section
variable {σ β : Type} (visit : σ → Node → σ × Option β)

/-- Show the nodes of a list to a visitor, one after the other, until it has found something. -/
def visitEach : List Node → σ → σ × Option β
  | [], state => (state, none)
  | node :: nodes, state =>
    match visit state node with
    | (state, some found) => (state, some found)
    | (state, none) => visitEach nodes state

theorem visitEach_named (node : Node) (nodes : List Node) (state : σ) :
    visitEach visit ((node :: nodes).filter Node.isNamed) state =
      match visitNamed visit state node with
      | (state, some found) => (state, some found)
      | (state, none) => visitEach visit (nodes.filter Node.isNamed) state := by
  by_cases named : node.isNamed = true <;> simp [visitNamed, visitEach, named]

/-- A walk with enough steps is a run along what its cursor has ahead. -/
theorem walkFrom_eq {steps : Nat} {zipper : Zipper} (state : σ) (enough : zipper.ahead.length ≤ steps) :
    walkFrom visit steps zipper state = visitEach visit (zipper.ahead.filter Node.isNamed) state := by
  induction steps generalizing zipper state with
  | zero => exact absurd (List.length_eq_zero_iff.mp (by omega)) zipper.ahead_ne_nil
  | succ steps ih =>
    have first : zipper.ahead = zipper.focus :: zipper.ahead.tail := by
      rw [Zipper.ahead, Node.nodes_eq, List.cons_append, List.tail_cons]
    have moved := zipper.next?_ahead
    rw [first] at enough
    rw [first, visitEach_named, walkFrom]
    cases seen : visitNamed visit state zipper.focus with
    | mk state found? =>
      cases found? with
      | some found => rfl
      | none =>
        cases onward : zipper.next? with
        | none =>
          rw [onward] at moved
          simp [← moved, visitEach]
        | some next =>
          rw [onward, Option.map_some, Option.getD_some] at moved
          rw [← moved]
          rw [← moved, List.length_cons] at enough
          exact ih state (by omega)

/-- A walk shows a visitor the named nodes in document order. -/
theorem walk_eq (root : Node) (state : σ) :
    walk visit root state = visitEach visit (root.nodes.filter Node.isNamed) state := by
  have enough : (Zipper.top root).ahead.length ≤ root.tree.size := by
    rw [Zipper.ahead_top]
    exact Tree.nodesFrom_length_le root.start root.tree
  rw [walk, walkFrom_eq visit state enough, Zipper.ahead_top]

end

theorem Node.findFirst?_eq {β : Type} (find : Node → Option β) (root : Node) :
    root.findFirst? find = (root.nodes.filter isNamed).findSome? find := by
  rw [findFirst?, walk_eq]
  generalize root.nodes.filter isNamed = nodes
  induction nodes with
  | nil => rfl
  | cons node nodes ih => cases found : find node <;> simp [visitEach, found, ih]

theorem Node.findAll_eq {β : Type} (find : Node → Option β) (root : Node) :
    root.findAll find = (root.nodes.filter isNamed).filterMap find := by
  have collected : ∀ (nodes : List Node) (found : List β),
      (visitEach (β := Unit) (fun found node => ((find node).toList ++ found, none)) nodes found).1 =
        (nodes.filterMap find).reverse ++ found := by
    intro nodes
    induction nodes with
    | nil => exact fun _ => rfl
    | cons node nodes ih =>
      intro found
      rw [visitEach, ih]
      cases seen : find node <;> simp [seen]
  rw [findAll, walk_eq, collected, List.append_nil, List.reverse_reverse]

end Graft
