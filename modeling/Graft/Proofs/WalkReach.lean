import Graft.Proofs.NodePlaces

/-! What a walk can come to. The cursor only moves to children and to siblings it has passed by, so a
property of the first node that passes from parents to their children holds wherever the walk stops. -/

namespace Graft

namespace Zipper

/-- A property of all nodes that a cursor knows: the one it is on and those it can still go to. -/
structure All (holds : Node → Prop) (zipper : Zipper) : Prop where
  focus : holds zipper.focus
  after : ∀ node ∈ zipper.after, holds node
  trail : ∀ level ∈ zipper.trail, ∀ node ∈ level.2, holds node

variable {holds : Node → Prop}

theorem all_top {node : Node} (first : holds node) : (Zipper.top node).All holds :=
  ⟨first, by simp [top], by simp [top]⟩

theorem All.firstChild {zipper next : Zipper} (kept : zipper.All holds)
    (closed : ∀ child ∈ zipper.focus.children, holds child) (moved : zipper.firstChild? = some next) :
    next.All holds := by
  unfold firstChild? at moved
  split at moved
  next => cases moved
  next child siblings same =>
    cases moved
    refine ⟨closed child (by simp [same]), fun node member => closed node (by simp [same, member]), ?_⟩
    intro level member node inside
    rcases List.mem_cons.mp member with rfl | member
    · exact kept.after node inside
    · exact kept.trail level member node inside

private theorem climbFrom_all {after : List Node} {trail : List (Node × List Node)} {next : Zipper}
    (siblings : ∀ node ∈ after, holds node) (levels : ∀ level ∈ trail, ∀ node ∈ level.2, holds node)
    (moved : climbFrom after trail = some next) : next.All holds := by
  fun_induction climbFrom after trail with
  | case1 sibling others trail =>
    cases moved
    exact ⟨siblings sibling (by simp), fun node member => siblings node (by simp [member]), levels⟩
  | case2 => cases moved
  | case3 parent after trail ih =>
    exact ih (levels (parent, after) (by simp)) (fun level member => levels level (by simp [member])) moved

theorem All.next {zipper next : Zipper} (kept : zipper.All holds)
    (closed : ∀ child ∈ zipper.focus.children, holds child) (moved : zipper.next? = some next) :
    next.All holds := by
  unfold next? at moved
  cases down : zipper.firstChild? with
  | some inner =>
    rw [down, Option.some_or] at moved
    cases moved
    exact kept.firstChild closed down
  | none =>
    rw [down, Option.none_or] at moved
    exact climbFrom_all kept.after kept.trail moved

end Zipper

section
variable {σ β : Type} {visit : σ → Node → σ × Option β} {holds : Node → Prop}

/-- A walk that is stopped was stopped at a named node that it could come to. -/
theorem walkFrom_found {steps : Nat} {zipper : Zipper} {state : σ} {found : β}
    (closed : ∀ node, holds node → ∀ child ∈ node.children, holds child) (kept : zipper.All holds)
    (stopped : (walkFrom visit steps zipper state).2 = some found) :
    ∃ before node, holds node ∧ node.isNamed = true ∧ (visit before node).2 = some found := by
  induction steps generalizing zipper state with
  | zero => simp [walkFrom] at stopped
  | succ steps ih =>
    rw [walkFrom] at stopped
    split at stopped
    next after result seen =>
      cases stopped
      unfold visitNamed at seen
      split at seen
      next named => exact ⟨state, zipper.focus, kept.focus, named, by rw [seen]⟩
      next => cases seen
    next after seen =>
      split at stopped
      next => cases stopped
      next next moved => exact ih (kept.next (closed _ kept.focus) moved) stopped

end

/-- What is found first belongs to a named node that can be reached from the root. -/
theorem Node.findFirst?_found {β : Type} {find : Node → Option β} {root : Node} {found : β} {holds : Node → Prop}
    (closed : ∀ node, holds node → ∀ child ∈ node.children, holds child) (first : holds root)
    (stopped : root.findFirst? find = some found) :
    ∃ node, holds node ∧ node.isNamed = true ∧ find node = some found := by
  obtain ⟨_, node, kept, named, same⟩ := walkFrom_found closed (Zipper.all_top first) stopped
  exact ⟨node, kept, named, same⟩

theorem Program.findFirst?_stands {β : Type} {find : Node → Option β} (program : Program) {found : β}
    (stopped : program.root.findFirst? find = some found) :
    ∃ node, node.Stands program.source ∧ node.isNamed = true ∧ find node = some found :=
  Node.findFirst?_found (fun _ stands _ member => (stands.child member).1) program.root_stands stopped

end Graft
