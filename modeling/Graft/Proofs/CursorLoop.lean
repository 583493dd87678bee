import Graft.Proofs.WalkOrder
import Graft.Snippet

/-! The loop that moves a cursor over a tree. In a turn it looks at a node and goes down, or it is done with a node and
goes to the next sibling, else up. Each node is looked at in one turn and left in at most one, so the turns that are still
to come can be counted; and what is still to be looked at is known in every turn, whatever the visitor's state. So the
loop ends, and it has looked at the nodes in the order of a recursion, up to the first that stops it. -/

namespace Graft

/-! ### Places in a tree -/

namespace Node

/-- The node at a place: the numbers of the children on the way down to it. -/
def at? : List Nat → Node → Option Node
  | [], node => some node
  | number :: place, node => node.children[number]?.bind (at? place)

/-- A list has every node of a tree just once, in the order of their places: a node before all below it, and all below a
child before the next child. -/
def Preorder (root : Node) (nodes : List Node) : Prop :=
  ∃ places : List (List Nat), places.Pairwise (· < ·) ∧
    (∀ place, place ∈ places ↔ (at? place root).isSome = true) ∧
    places.map (at? · root) = nodes.map some

private theorem at?_of_split {root child : Node} {left right : List Node} (split : root.children = left ++ child :: right)
    (place : List Nat) : at? (left.length :: place) root = at? place child := by
  rw [at?, split, List.getElem?_append_right (Nat.le_refl _), Nat.sub_self]
  rfl

private theorem places_behind {root : Node} {left right : List Node} (split : root.children = left ++ right)
    (each : ∀ child ∈ right, child.Preorder child.nodes) :
    ∃ places : List (List Nat), places.Pairwise (· < ·) ∧
      (∀ place, place ∈ places ↔
        ∃ number rest, place = number :: rest ∧ left.length ≤ number ∧ (at? place root).isSome = true) ∧
      places.map (at? · root) = (right.flatMap nodes).map some := by
  induction right generalizing left with
  | nil =>
    refine ⟨[], .nil, fun place => ⟨fun member => absurd member List.not_mem_nil, ?_⟩, rfl⟩
    rintro ⟨number, rest, rfl, beyond, found⟩
    rw [at?, split, List.append_nil, List.getElem?_eq_none beyond] at found
    cases found
  | cons child right ih =>
    obtain ⟨here, others⟩ := List.forall_mem_cons.mp each
    obtain ⟨inner, ordered, complete, same⟩ := here
    have behind : root.children = (left ++ [child]) ++ right := by
      rw [split]
      exact List.append_cons left child right
    obtain ⟨outer, later, covered, alike⟩ := ih behind others
    have down := at?_of_split split
    refine ⟨inner.map (left.length :: ·) ++ outer, ?_, ?_, ?_⟩
    · apply List.pairwise_append.mpr
      refine ⟨?_, later, ?_⟩
      · apply List.pairwise_map.mpr
        exact ordered.imp fun before => List.cons_lt_cons_iff.mpr (.inr ⟨rfl, before⟩)
      · intro first member second behind
        obtain ⟨place, -, rfl⟩ := List.mem_map.mp member
        obtain ⟨number, rest, rfl, beyond, -⟩ := (covered second).mp behind
        rw [List.length_append, List.length_singleton] at beyond
        exact List.cons_lt_cons_iff.mpr (.inl beyond)
    · intro place
      rw [List.mem_append, covered, List.mem_map]
      constructor
      · rintro (⟨rest, member, rfl⟩ | ⟨number, rest, rfl, beyond, found⟩)
        · exact ⟨left.length, rest, rfl, Nat.le_refl _, by rwa [down, ← complete]⟩
        · rw [List.length_append] at beyond
          exact ⟨number, rest, rfl, by omega, found⟩
      · rintro ⟨number, rest, rfl, beyond, found⟩
        rcases Nat.eq_or_lt_of_le beyond with rfl | beyond
        · rw [down, ← complete] at found
          exact .inl ⟨rest, found, rfl⟩
        · refine .inr ⟨number, rest, rfl, ?_, found⟩
          rw [List.length_append]
          exact beyond
    · rw [List.map_append, alike, List.flatMap_cons, List.map_append, ← same, List.map_map]
      congr 1
      apply List.map_congr_left
      intro place _
      exact down place

theorem nodes_preorder (root : Node) : root.Preorder root.nodes := by
  induction root using byChildren with
  | step root ih =>
    have all : root.children = [] ++ root.children := rfl
    obtain ⟨places, ordered, complete, same⟩ := places_behind all ih
    refine ⟨[] :: places, ?_, ?_, ?_⟩
    · apply List.pairwise_cons.mpr
      refine ⟨?_, ordered⟩
      intro place member
      obtain ⟨number, rest, rfl, -⟩ := (complete place).mp member
      exact List.nil_lt_cons ..
    · intro place
      cases place with
      | nil => simp [at?]
      | cons number rest =>
        rw [List.mem_cons, complete]
        simp
    · rw [nodes_eq root, List.map_cons, List.map_cons, same]
      rfl

end Node

/-! ### Turns of the loop -/

/-- Where a loop over the nodes of a tree is. -/
inductive Loop (σ β : Type) where
  /-- About to look at the node that the cursor is on. -/
  | looking (cursor : Zipper) (state : σ)
  /-- Done with the node that the cursor is on and all below it. -/
  | leaving (cursor : Zipper) (state : σ)
  | ended (outcome : σ × Option β)

namespace Loop
variable {σ β : Type} (look : σ → Node → σ × Option β)

def start (root : Node) (state : σ) : Loop σ β := looking (.top root) state

/-- Go down to the first child. A node without children is done with. -/
def descend (cursor : Zipper) (state : σ) : Loop σ β :=
  match cursor.firstChild? with
  | some child => looking child state
  | none => leaving cursor state

/-- Go on to the next sibling. Behind the last one the parent is done with, if the cursor may go there. -/
def ascend (cursor : Zipper) (state : σ) : Loop σ β :=
  match cursor.nextSibling? with
  | some sibling => looking sibling state
  | none =>
    match cursor.parent? with
    | some parent => leaving parent state
    | none => ended (state, none)

def turn : Loop σ β → Loop σ β
  | looking cursor state =>
    match look state cursor.focus with
    | (state, some found) => ended (state, some found)
    | (state, none) => descend cursor state
  | leaving cursor state => ascend cursor state
  | ended outcome => ended outcome

def turns : Nat → Loop σ β → Loop σ β
  | 0, loop => loop
  | more + 1, loop => turns more (turn look loop)

def focus? : Loop σ β → Option Node
  | looking cursor _ => some cursor.focus
  | leaving _ _ => none
  | ended _ => none

def looks : Nat → Loop σ β → List Node
  | 0, _ => []
  | more + 1, loop => loop.focus?.toList ++ looks more (turn look loop)

/-- The most turns that a loop can still take: two for each node to look at, and one for each to leave. -/
def rank : Loop σ β → Nat
  | looking cursor _ => 2 * cursor.ahead.length + cursor.trail.length
  | leaving cursor _ => 2 * (Zipper.later cursor.after cursor.trail).length + cursor.trail.length + 1
  | ended _ => 0

def reached : List Node → σ → List Node
  | [], _ => []
  | node :: nodes, state =>
    match look state node with
    | (_, some _) => [node]
    | (state, none) => node :: reached nodes state

def outcome : Loop σ β → σ × Option β
  | looking cursor state => visitEach look cursor.ahead state
  | leaving cursor state => visitEach look (Zipper.later cursor.after cursor.trail) state
  | ended outcome => outcome

/-- The nodes that a loop will still look at. -/
def coming : Loop σ β → List Node
  | looking cursor state => reached look cursor.ahead state
  | leaving cursor state => reached look (Zipper.later cursor.after cursor.trail) state
  | ended _ => []

end Loop

namespace Zipper

theorem ahead_cons (cursor : Zipper) : ∃ rest, cursor.ahead = cursor.focus :: rest :=
  ⟨_, by rw [ahead, Node.nodes_eq, List.cons_append]⟩

theorem ahead_firstChild {cursor child : Zipper} (down : cursor.firstChild? = some child) :
    cursor.ahead = cursor.focus :: child.ahead ∧ child.trail.length = cursor.trail.length + 1 := by
  unfold firstChild? at down
  split at down
  next => cases down
  next first siblings same =>
    cases down
    simp [ahead, later, Node.nodes_eq cursor.focus, same]

theorem ahead_childless {cursor : Zipper} (childless : cursor.firstChild? = none) :
    cursor.ahead = cursor.focus :: later cursor.after cursor.trail := by
  unfold firstChild? at childless
  split at childless
  next same => simp [ahead, Node.nodes_eq cursor.focus, same]
  next => cases childless

theorem later_nextSibling {cursor sibling : Zipper} (right : cursor.nextSibling? = some sibling) :
    later cursor.after cursor.trail = sibling.ahead ∧ sibling.trail = cursor.trail := by
  unfold nextSibling? at right
  split at right
  next => cases right
  next first siblings same =>
    cases right
    simp [ahead, later, same]

theorem later_parent {cursor parent : Zipper} (last : cursor.nextSibling? = none) (up : cursor.parent? = some parent) :
    later cursor.after cursor.trail = later parent.after parent.trail ∧
      cursor.trail.length = parent.trail.length + 1 := by
  unfold nextSibling? at last
  unfold parent? at up
  split at last
  next none =>
    split at up
    next => cases up
    next node after trail same =>
      cases up
      simp [later, none, same]
  next => cases last

theorem later_end {cursor : Zipper} (last : cursor.nextSibling? = none) (top : cursor.parent? = none) :
    later cursor.after cursor.trail = [] := by
  unfold nextSibling? at last
  unfold parent? at top
  split at last
  next none =>
    split at top
    next same => simp [later, none, same]
    next => cases top
  next => cases last

end Zipper

namespace Loop
variable {σ β : Type} (look : σ → Node → σ × Option β)

/-- What a turn makes of a loop: it comes nearer to its end and will end in the same way, and the nodes that it still
looks at are the same but for the one that the turn looked at. -/
structure Turned (loop next : Loop σ β) : Prop where
  rank : next.rank ≤ loop.rank - 1
  outcome : next.outcome look = loop.outcome look
  coming : loop.focus?.toList ++ next.coming look = loop.coming look

/-- Behind a node there is what follows it, its children first. -/
theorem descend_behind (cursor : Zipper) (state : σ) :
    (descend (β := β) cursor state).rank + 1 ≤ (looking (β := β) cursor state).rank ∧
      (descend cursor state).outcome look = visitEach look cursor.ahead.tail state ∧
      (descend cursor state).coming look = reached look cursor.ahead.tail state := by
  unfold descend
  cases down : cursor.firstChild? with
  | some child =>
    obtain ⟨ahead, deeper⟩ := Zipper.ahead_firstChild down
    refine ⟨?_, by rw [ahead]; rfl, by rw [ahead]; rfl⟩
    simp only [rank, ahead, deeper, List.length_cons]
    omega
  | none =>
    have ahead := Zipper.ahead_childless down
    refine ⟨?_, by rw [ahead]; rfl, by rw [ahead]; rfl⟩
    simp only [rank, ahead, List.length_cons]
    omega

theorem turn_looking (cursor : Zipper) (state : σ) :
    Turned look (looking cursor state) (turn look (looking cursor state)) := by
  obtain ⟨rest, first⟩ := cursor.ahead_cons
  rw [turn]
  cases seen : look state cursor.focus with
  | mk after found? =>
    cases found? with
    | some found =>
      refine ⟨Nat.zero_le _, ?_, ?_⟩
      · simp only [outcome, first, visitEach, seen]
      · simp only [coming, focus?, first, reached, seen]
        rfl
    | none =>
      obtain ⟨nearer, ends, comes⟩ := descend_behind look cursor after
      rw [first, List.tail_cons] at ends comes
      refine ⟨Nat.le_sub_of_add_le nearer, ?_, ?_⟩
      · rw [outcome, first, visitEach, seen]
        exact ends
      · rw [coming, first, reached, seen]
        exact congrArg (cursor.focus :: ·) comes

theorem turn_leaving (cursor : Zipper) (state : σ) :
    Turned look (leaving cursor state) (turn look (leaving cursor state)) := by
  rw [turn, ascend]
  cases right : cursor.nextSibling? with
  | some sibling =>
    obtain ⟨ahead, level⟩ := Zipper.later_nextSibling right
    refine ⟨?_, ?_, ?_⟩
    · simp [rank, ahead, level]
    · simp only [outcome, ahead]
    · simp [coming, focus?, ahead]
  | none =>
    cases up : cursor.parent? with
    | some parent =>
      obtain ⟨ahead, level⟩ := Zipper.later_parent right up
      refine ⟨?_, ?_, ?_⟩
      · simp only [rank, ahead, level]
        omega
      · simp only [outcome, ahead]
      · simp [coming, focus?, ahead]
    | none =>
      have none := Zipper.later_end right up
      refine ⟨Nat.zero_le _, ?_, ?_⟩
      · simp only [outcome, none, visitEach]
      · simp [coming, focus?, none, reached]

theorem turn_turned (loop : Loop σ β) : Turned look loop (turn look loop) := by
  cases loop with
  | looking cursor state => exact turn_looking look cursor state
  | leaving cursor state => exact turn_leaving look cursor state
  | ended outcome => exact ⟨Nat.le_refl _, rfl, rfl⟩

theorem ended_of_rank {loop : Loop σ β} (last : loop.rank = 0) : loop = ended (loop.outcome look) ∧ loop.coming look = [] := by
  cases loop with
  | looking cursor state =>
    obtain ⟨rest, first⟩ := cursor.ahead_cons
    rw [rank, first, List.length_cons] at last
    omega
  | leaving cursor state => cases last
  | ended outcome => exact ⟨rfl, rfl⟩

/-- With enough turns a loop comes to its end, and it has looked at all that it was to look at. -/
theorem turns_ended {loop : Loop σ β} {count : Nat} (enough : loop.rank ≤ count) :
    turns look count loop = ended (loop.outcome look) ∧ looks look count loop = loop.coming look := by
  induction count generalizing loop with
  | zero =>
    obtain ⟨ends, none⟩ := ended_of_rank look (Nat.le_zero.mp enough)
    exact ⟨ends, none.symm⟩
  | succ count ih =>
    have turned := turn_turned look loop
    obtain ⟨ends, looked⟩ := ih (Nat.le_trans turned.rank (Nat.sub_le_of_le_add enough))
    refine ⟨?_, ?_⟩
    · rw [turns, ends, turned.outcome]
    · rw [looks, looked, turned.coming]

theorem start_ended (root : Node) (state : σ) (more : Nat) :
    turns look (2 * root.nodes.length + more) (start root state) = ended (visitEach look root.nodes state) ∧
      looks look (2 * root.nodes.length + more) (start root state) = reached look root.nodes state := by
  have ahead := Zipper.ahead_top root
  have enough : (start (β := β) root state).rank ≤ 2 * root.nodes.length + more := by
    simp only [start, rank, ahead]
    exact Nat.le_add_right ..
  have ends := turns_ended look enough
  simp only [start, outcome, coming, ahead] at ends
  exact ends

end Loop

/-! ### What a visitor is shown -/

/-- How a visitor is shown nodes, one after the other until it stops: the nodes that it is called on, and how it ends. -/
inductive Visits {σ β : Type} (visit : σ → Node → σ × Option β) : σ → List Node → List Node → σ × Option β → Prop
  | nil (state : σ) : Visits visit state [] [] (state, none)
  | stop {state last : σ} {node : Node} {nodes : List Node} {found : β} (seen : visit state node = (last, some found)) :
      Visits visit state (node :: nodes) [node] (last, some found)
  | next {state after : σ} {node : Node} {nodes calls : List Node} {outcome : σ × Option β}
      (seen : visit state node = (after, none)) (rest : Visits visit after nodes calls outcome) :
      Visits visit state (node :: nodes) (node :: calls) outcome

section
variable {σ β : Type} (visit : σ → Node → σ × Option β)

theorem visitEach_visits (nodes : List Node) (state : σ) :
    Visits visit state nodes (Loop.reached visit nodes state) (visitEach visit nodes state) := by
  induction nodes generalizing state with
  | nil => exact .nil state
  | cons node nodes ih =>
    rw [Loop.reached, visitEach]
    cases seen : visit state node with
    | mk after found? =>
      cases found? with
      | some found => exact .stop seen
      | none => exact .next seen (ih after)

theorem visitEach_visitNamed (nodes : List Node) (state : σ) :
    visitEach (visitNamed visit) nodes state = visitEach visit (nodes.filter Node.isNamed) state ∧
      (Loop.reached (visitNamed visit) nodes state).filter Node.isNamed =
        Loop.reached visit (nodes.filter Node.isNamed) state := by
  induction nodes generalizing state with
  | nil => exact ⟨rfl, rfl⟩
  | cons node nodes ih =>
    by_cases named : node.isNamed = true
    · rw [List.filter_cons_of_pos named]
      cases seen : visit state node with
      | mk after found? => cases found? <;> simp [visitEach, Loop.reached, visitNamed, named, seen, ih after]
    · rw [List.filter_cons_of_neg named]
      simp [visitEach, Loop.reached, visitNamed, named, ih state]

/-- A visitor finds nothing if it goes on at every node, in the state in which it comes to it. -/
theorem visitEach_eq_none_iff {nodes : List Node} {state : σ} : (visitEach visit nodes state).2 = none ↔
    ∀ before node after, nodes = before ++ node :: after →
      (visit (before.foldl (fun state node => (visit state node).1) state) node).2 = none := by
  induction nodes generalizing state with
  | nil => simp [visitEach]
  | cons first nodes ih =>
    rw [visitEach]
    cases seen : visit state first with
    | mk after found? =>
      cases found? with
      | some found =>
        refine ⟨(fun never => by cases never), fun goes => ?_⟩
        have never := goes [] first nodes rfl
        rw [List.foldl_nil, seen] at never
        cases never
      | none =>
        apply ih.trans
        constructor
        · intro goes before node others split
          cases before with
          | nil =>
            cases split
            rw [List.foldl_nil, seen]
          | cons other before =>
            cases split
            rw [List.foldl_cons, seen]
            exact goes before node others rfl
        · intro goes before node others split
          have this := goes (first :: before) node others (congrArg _ split)
          rwa [List.foldl_cons, seen] at this

end

/-! ### Templates of several lines -/

namespace Node

def goesOn (source : Text) (node : Node) : Bool :=
  node.kind = .templateString && decide (rowAt source node.start < rowAt source node.stop)

def furtherRows (source : Text) (node : Node) : Span := ⟨rowAt source node.start + 1, rowAt source node.stop + 1⟩

/-- A look at a node that records its further rows if it is a template, and never stops. -/
def recordRows (source : Text) (rows : List Span) (node : Node) : List Span × Option Empty :=
  (if node.goesOn source then rows ++ [node.furtherRows source] else rows, none)

theorem visitEach_recordRows (source : Text) (nodes : List Node) (rows : List Span) :
    visitEach (recordRows source) nodes rows = (rows ++ (nodes.filter (goesOn source)).map (furtherRows source), none) := by
  induction nodes generalizing rows with
  | nil => simp [visitEach]
  | cons node nodes ih =>
    rw [visitEach, recordRows]
    by_cases template : node.goesOn source = true
    · simp [template, ih]
    · simp [template, ih]

theorem templateRows_eq (source : Text) (root : Node) :
    templateRows source root = (root.nodes.filter (goesOn source)).map (furtherRows source) := by
  rw [templateRows, findAll_eq, ← List.filterMap_eq_map, List.filterMap_filter, List.filterMap_filter]
  congr 1
  funext node
  by_cases template : node.kind = .templateString
  · have named : node.isNamed = true := by
      rw [isNamed, template]
      rfl
    simp [goesOn, furtherRows, template, named]
  · simp [goesOn, template]

/-- The loop over a tree ends, and what comes of it is what comes of the walk: the visitor is called on the named nodes
in the order of a recursion, up to the first that stops it, and finds nothing if none does. The same loop records the
further rows of all templates that have some. -/
theorem loop_visits_preorder {σ β : Type} (visit : σ → Node → σ × Option β) (state : σ) (source : Text) (root : Node) :
    root.Preorder root.nodes ∧
      (∀ more, Loop.turns (visitNamed visit) (2 * root.nodes.length + more) (.start root state) =
          .ended (walk visit root state) ∧
        Visits visit state (root.nodes.filter isNamed)
          ((Loop.looks (visitNamed visit) (2 * root.nodes.length + more) (.start root state)).filter isNamed)
          (walk visit root state)) ∧
      ((walk visit root state).2 = none ↔ ∀ before node after, root.nodes.filter isNamed = before ++ node :: after →
        (visit (before.foldl (fun state node => (visit state node).1) state) node).2 = none) ∧
      (∀ more, Loop.turns (recordRows source) (2 * root.nodes.length + more) (.start root []) =
        .ended (templateRows source root, none)) ∧
      templateRows source root = (root.nodes.filter (goesOn source)).map (furtherRows source) := by
  refine ⟨root.nodes_preorder, fun more => ?_, ?_, fun more => ?_, templateRows_eq source root⟩
  · obtain ⟨ends, looked⟩ := Loop.start_ended (visitNamed visit) root state more
    obtain ⟨outcome, calls⟩ := visitEach_visitNamed visit root.nodes state
    refine ⟨?_, ?_⟩
    · rw [ends, outcome, walk_eq]
    · rw [looked, calls, walk_eq]
      exact visitEach_visits visit _ state
  · rw [walk_eq]
    exact visitEach_eq_none_iff visit
  · obtain ⟨ends, -⟩ := Loop.start_ended (recordRows source) root [] more
    rw [ends, visitEach_recordRows, List.nil_append, templateRows_eq]

end Node
end Graft
