import Graft.Proofs.ExpressionTrees
import Graft.Proofs.ShellOpenings

/-! Parentheses around an expression. Taking them off leaves the expression itself, and what is taken off is made of
gaps and of pairs of parentheses, and of the types that stand behind an expression in parentheses. -/

namespace Graft

/-- A text between two tokens: spacing and comments. -/
def Text.IsGap (text : Text) : Prop := ∃ trees : List Tree, (∀ tree ∈ trees, tree.IsGap) ∧ Forest.text trees = text

/-- What stands before and behind an expression, and the types that are part of it. -/
inductive Around : List Text → Text → Text → Prop
  | nothing : Around [] [] []
  | gaps {types : List Text} {before after front back : Text} : before.IsGap → after.IsGap → Around types front back →
    Around types (before ++ front) (back ++ after)
  | type {types : List Text} {type front back : Text} : Around types front back →
    Around (types ++ [type]) front (back ++ type)
  | parentheses {types : List Text} {front back : Text} : Around types front back →
    Around types ('(' :: front) (back ++ [')'])

theorem Text.isGap_nil : Text.IsGap [] := ⟨[], by simp, rfl⟩

def Forest.types (trees : List Tree) : List Text :=
  (trees.filter fun tree => tree.kind = .typeClause).map Tree.text

theorem Forest.types_append (first second : List Tree) : types (first ++ second) = types first ++ types second := by
  simp [types]

theorem Forest.types_eq_nil {trees : List Tree} (none : ∀ tree ∈ trees, tree.kind ≠ .typeClause) : types trees = [] := by
  rw [types, List.filter_eq_nil_iff.mpr (by simpa using none)]
  rfl

theorem Around.behind {types : List Text} {front back : Text} (around : Around types front back) {trees : List Tree}
    (each : ∀ tree ∈ trees, tree.IsGap ∨ tree.kind = .typeClause) :
    Around (types ++ Forest.types trees) front (back ++ Forest.text trees) := by
  induction trees generalizing types back with
  | nil => simpa [Forest.types, Forest.text] using around
  | cons tree trees ih =>
    obtain ⟨here, later⟩ := List.forall_mem_cons.mp each
    rw [Forest.text, ← List.append_assoc]
    rcases here with gap | clause
    · have other : tree.kind ≠ .typeClause := gap.kind_ne rfl
      rw [show Forest.types (tree :: trees) = Forest.types trees by simp [Forest.types, other]]
      exact ih (.gaps Text.isGap_nil ⟨[tree], by simpa using gap, by simp [Forest.text]⟩ around) later
    · rw [show types ++ Forest.types (tree :: trees) = (types ++ [tree.text]) ++ Forest.types trees by
        simp [Forest.types, clause]]
      exact ih (.type around) later

/-! ### Inside of parentheses -/

theorem parenthesizedExpression_words : (Phrase.node .parenthesizedExpression).words =
    [[⟨.token (.mark .openParen), none, none⟩, ⟨.phrase (.group .expression), none, none⟩,
        ⟨.phrase (.node .typeClause), none, none⟩, ⟨.token (.mark .closeParen), none, none⟩],
      [⟨.token (.mark .openParen), none, none⟩, ⟨.phrase (.group .expression), none, none⟩,
        ⟨.token (.mark .closeParen), none, none⟩],
      [⟨.token (.mark .openParen), none, none⟩, ⟨.phrase (.node .sequenceExpression), none, none⟩,
        ⟨.token (.mark .closeParen), none, none⟩]] := by
  rfl

/-- The end of parentheses: perhaps a type, and the closing parenthesis. -/
theorem Spelled.closeParen_cases {trees : List Tree}
    (spelled : Spelled [⟨.phrase (.node .typeClause), none, none⟩, ⟨.token (.mark .closeParen), none, none⟩] trees ∨
      Spelled [⟨.token (.mark .closeParen), none, none⟩] trees) :
    ∃ behind closed, trees = behind ++ .leaf none .symbol [')'] :: closed ∧
      (∀ tree ∈ behind, tree.IsGap ∨ tree.kind = .typeClause) ∧ ∀ tree ∈ closed, tree.IsGap := by
  have close : ∀ {trees : List Tree}, Spelled [⟨.token (.mark .closeParen), none, none⟩] trees →
      ∃ gap closed, trees = gap ++ .leaf none .symbol [')'] :: closed ∧ (∀ tree ∈ gap, tree.IsGap) ∧
        ∀ tree ∈ closed, tree.IsGap := by
    intro trees spelled
    obtain ⟨gap, closed, between, rest, split⟩ := spelled.mark_cases
    exact ⟨gap, closed, split, between, rest.gaps⟩
  rcases spelled with spelled | spelled
  · obtain ⟨gap, letters, inner, others, between, -, -, later, rfl⟩ := spelled.node_cases rfl
    obtain ⟨gap', closed, rfl, between', gaps⟩ := close later
    refine ⟨gap ++ .node none .typeClause (inner.dropWhile Tree.isSpacing) :: gap', closed, by simp, ?_, gaps⟩
    intro tree member
    rcases List.mem_append.mp member with member | member
    · exact .inl (between tree member)
    · rcases List.mem_cons.mp member with rfl | member
      · exact .inr rfl
      · exact .inl (between' tree member)
  · obtain ⟨gap, closed, split, between, gaps⟩ := close spelled
    exact ⟨gap, closed, split, fun tree member => .inl (between tree member), gaps⟩

/-- One expression, or several between commas, is gaps and at most one other tree. -/
theorem Spelled.operand_split {word : List Letter} {trees : List Tree}
    (spelled : Spelled (⟨.phrase (.group .expression), none, none⟩ :: word) trees ∨
      Spelled (⟨.phrase (.node .sequenceExpression), none, none⟩ :: word) trees) :
    ∃ front others, trees = front ++ others ∧ Spelled word others ∧ (∀ tree ∈ front, tree.Origin ∧ tree.IsSpelled) ∧
      front.countP Tree.isSolid ≤ 1 := by
  rcases spelled with spelled | spelled
  · obtain ⟨front, others, split, later, made, few, -⟩ := spelled.expression_split
    exact ⟨front, others, split, later, made, few⟩
  · obtain ⟨gap, letters, items, others, between, member, filled, later, rfl⟩ := spelled.node_cases rfl
    refine ⟨gap ++ [.node none .sequenceExpression (items.dropWhile Tree.isSpacing)], others, by simp, later, ?_, ?_⟩
    · intro tree inside
      rcases List.mem_append.mp inside with inside | inside
      · exact ⟨.gap (between tree inside), (between tree inside).isSpelled⟩
      · rw [List.mem_singleton.mp inside]
        exact ⟨.phrase member filled, .node member filled⟩
    · rw [List.countP_append, Forest.countP_gap between, Nat.zero_add]
      exact List.countP_le_length

theorem Spelled.parentheses {word : List Letter} {trees : List Tree} (spelled : Spelled word trees)
    (member : word ∈ (Phrase.node .parenthesizedExpression).words) :
    ∃ gap front behind closed,
      trees = gap ++ .leaf none .symbol ['('] :: (front ++ (behind ++ .leaf none .symbol [')'] :: closed)) ∧
      (∀ tree ∈ gap, tree.IsGap) ∧ (∀ tree ∈ front, tree.Origin ∧ tree.IsSpelled) ∧ front.countP Tree.isSolid ≤ 1 ∧
      (∀ tree ∈ behind, tree.IsGap ∨ tree.kind = .typeClause) ∧ ∀ tree ∈ closed, tree.IsGap := by
  have opened : ∀ {letter : Letter} {word : List Letter},
      Spelled (⟨.token (.mark .openParen), none, none⟩ :: letter :: word) trees →
      (letter = ⟨.phrase (.group .expression), none, none⟩ ∨ letter = ⟨.phrase (.node .sequenceExpression), none, none⟩) →
      ∃ gap front others, trees = gap ++ .leaf none .symbol ['('] :: (front ++ others) ∧ (∀ tree ∈ gap, tree.IsGap) ∧
        (∀ tree ∈ front, tree.Origin ∧ tree.IsSpelled) ∧ front.countP Tree.isSolid ≤ 1 ∧ Spelled word others := by
    intro letter word spelled operand
    obtain ⟨gap, rest, between, later, rfl⟩ := spelled.mark_cases
    obtain ⟨front, others, rfl, later, made, few⟩ := Spelled.operand_split (operand.imp (· ▸ later) (· ▸ later))
    exact ⟨gap, front, others, rfl, between, made, few, later⟩
  rw [parenthesizedExpression_words] at member
  simp only [List.mem_cons, List.not_mem_nil, or_false] at member
  rcases member with rfl | rfl | rfl
  · obtain ⟨gap, front, others, rfl, between, made, few, later⟩ := opened spelled (.inl rfl)
    obtain ⟨behind, closed, rfl, second, last⟩ := Spelled.closeParen_cases (.inl later)
    exact ⟨gap, front, behind, closed, rfl, between, made, few, second, last⟩
  · obtain ⟨gap, front, others, rfl, between, made, few, later⟩ := opened spelled (.inl rfl)
    obtain ⟨behind, closed, rfl, second, last⟩ := Spelled.closeParen_cases (.inr later)
    exact ⟨gap, front, behind, closed, rfl, between, made, few, second, last⟩
  · obtain ⟨gap, front, others, rfl, between, made, few, later⟩ := opened spelled (.inr rfl)
    obtain ⟨behind, closed, rfl, second, last⟩ := Spelled.closeParen_cases (.inr later)
    exact ⟨gap, front, behind, closed, rfl, between, made, few, second, last⟩

/-- Whether a tree is neither a gap nor a mark nor a type. -/
def Tree.isCore (tree : Tree) : Bool := !tree.isTrivia && tree.kind ≠ .symbol && tree.kind ≠ .typeClause

theorem Tree.IsGap.not_core {tree : Tree} (gap : tree.IsGap) : tree.isCore = false := by
  rw [Tree.isCore, gap.trivia]
  rfl

/-- Trees are cut into parentheses and what is in them: gaps, a tree that they are around, and perhaps a type. -/
structure Encloses (inner : Tree) (left right : List Tree) : Prop where
  made : inner.IsSpelled
  cut : ∃ before opened behind closed, left = before ++ .leaf none .symbol ['('] :: opened ∧
    right = behind ++ .leaf none .symbol [')'] :: closed ∧ (∀ tree ∈ before ++ opened, tree.IsGap) ∧
    (∀ tree ∈ behind, tree.IsGap ∨ tree.kind = .typeClause) ∧ ∀ tree ∈ closed, tree.IsGap

namespace Encloses
variable {inner : Tree} {left right : List Tree}

theorem not_core (encloses : Encloses inner left right) :
    (∀ tree ∈ left, tree.isCore = false) ∧ ∀ tree ∈ right, tree.isCore = false := by
  obtain ⟨before, opened, behind, closed, rfl, rfl, first, second, last⟩ := encloses.cut
  constructor <;> intro tree member <;> rcases List.mem_append.mp member with member | member
  · exact (first tree (List.mem_append_left _ member)).not_core
  · rcases List.mem_cons.mp member with rfl | member
    · rfl
    · exact (first tree (List.mem_append_right _ member)).not_core
  · rcases second tree member with gap | clause
    · exact gap.not_core
    · simp [Tree.isCore, clause]
  · rcases List.mem_cons.mp member with rfl | member
    · rfl
    · exact (last tree member).not_core

theorem dropWhile_spacing (encloses : Encloses inner left right) :
    ∃ kept, (left ++ inner :: right).dropWhile Tree.isSpacing = kept ++ inner :: right ∧ Encloses inner kept right := by
  obtain ⟨before, opened, behind, closed, rfl, rfl, first, second, last⟩ := encloses.cut
  refine ⟨before.dropWhile Tree.isSpacing ++ .leaf none .symbol ['('] :: opened, ?_, encloses.made,
    _, opened, behind, closed, rfl, rfl, fun tree member => ?_, second, last⟩
  · rw [List.append_assoc, List.dropWhile_append]
    split
    next empty => rw [List.isEmpty_iff.mp empty]; rfl
    next => simp
  · rcases List.mem_append.mp member with member | member
    · exact first tree (List.mem_append_left _ ((List.dropWhile_suffix _).subset member))
    · exact first tree (List.mem_append_right _ member)

theorem within (encloses : Encloses inner left right) {types : List Text} {front back : Text}
    (inside : Around types front back) :
    ∃ before opened behind closed, left = before ++ .leaf none .symbol ['('] :: opened ∧
      right = behind ++ .leaf none .symbol [')'] :: closed ∧ (∀ tree ∈ before, tree.IsGap) ∧
      (∀ tree ∈ closed, tree.IsGap) ∧
      Around (types ++ Forest.types right) (Forest.text opened ++ front) (back ++ Forest.text behind) := by
  obtain ⟨before, opened, behind, closed, rfl, rfl, first, second, last⟩ := encloses.cut
  have outside : ∀ tree ∈ before, tree.IsGap := fun tree member => first tree (List.mem_append_left _ member)
  refine ⟨before, opened, behind, closed, rfl, rfl, outside, last, ?_⟩
  have typed : Forest.types (behind ++ .leaf none .symbol [')'] :: closed) = Forest.types behind := by
    rw [Forest.types_append, Forest.types_eq_nil (List.forall_mem_cons.mpr ⟨Kind.noConfusion, fun tree member => ?_⟩),
      List.append_nil]
    exact (last tree member).kind_ne rfl
  rw [typed]
  have spaced := Around.gaps ⟨opened, fun tree member => first tree (List.mem_append_right _ member), rfl⟩ Text.isGap_nil
    inside
  simpa using spaced.behind second

theorem around (encloses : Encloses inner left right) {types : List Text} {front back : Text}
    (inside : Around types front back) :
    Around (types ++ Forest.types right) (Forest.text left ++ front) (back ++ Forest.text right) := by
  obtain ⟨before, opened, behind, closed, rfl, rfl, gaps, gaps', around⟩ := encloses.within inside
  have wrapped := Around.gaps ⟨before, gaps, rfl⟩ ⟨closed, gaps', rfl⟩ around.parentheses
  simpa [Forest.text, Tree.text] using wrapped

/-- The types in parentheses stand behind what they are around. -/
theorem types_eq (encloses : Encloses inner left right) (core : inner.isCore = true) :
    Forest.types (left ++ inner :: right) = Forest.types right := by
  obtain ⟨before, opened, behind, closed, rfl, rfl, first, second, last⟩ := encloses.cut
  have other : inner.kind ≠ .typeClause := by
    simp only [Tree.isCore, Bool.and_eq_true, decide_eq_true_eq] at core
    exact core.2
  have none : Forest.types (before ++ .leaf none .symbol ['('] :: opened) = [] := by
    refine Forest.types_eq_nil fun tree member => ?_
    rcases List.mem_append.mp member with member | member
    · exact (first tree (List.mem_append_left _ member)).kind_ne rfl
    · rcases List.mem_cons.mp member with rfl | member
      · exact Kind.noConfusion
      · exact (first tree (List.mem_append_right _ member)).kind_ne rfl
  rw [Forest.types_append, none, List.nil_append]
  simp [Forest.types, other]

end Encloses

/-- Of a list in which one member passes a test, there is only one cut at such a member. -/
theorem List.cut_unique {α : Type} {test : α → Bool} {left right left' right' : List α} {one two : α}
    (same : left ++ one :: right = left' ++ two :: right') (before : ∀ item ∈ left, test item = false)
    (after : ∀ item ∈ right, test item = false) (here : test two = true) : left = left' ∧ right = right' := by
  rcases List.append_eq_append_iff.mp same with ⟨more, split, tail⟩ | ⟨more, split, tail⟩
  · cases more with
    | nil => exact ⟨by simpa using split.symm, (List.cons.inj tail).2⟩
    | cons item more =>
      have never := after two (by rw [(List.cons.inj tail).2]; simp)
      rw [here] at never
      cases never
  · cases more with
    | nil => exact ⟨by simpa using split, (List.cons.inj tail).2.symm⟩
    | cons item more =>
      have never := before two (by rw [split, (List.cons.inj tail).1]; simp)
      rw [here] at never
      cases never

theorem Spelled.encloses {word : List Letter} {trees : List Tree} {inner : Tree}
    (member : word ∈ (Phrase.node .parenthesizedExpression).words) (spelled : Spelled word trees) (inside : inner ∈ trees)
    (core : inner.isCore = true) : ∃ left right, trees = left ++ inner :: right ∧ Encloses inner left right := by
  have never : ∀ {tree : Tree}, tree.isCore = false → inner ≠ tree := by
    rintro _ other rfl
    rw [core] at other
    cases other
  obtain ⟨gap, front, behind, closed, rfl, between, made, few, second, last⟩ := spelled.parentheses member
  have here : inner ∈ front := by
    simp only [List.mem_append, List.mem_cons] at inside
    rcases inside with inside | same | inside | inside | same | inside
    · exact absurd rfl (never (between inner inside).not_core)
    · exact absurd same (never rfl)
    · exact inside
    · rcases second inner inside with gap | clause
      · exact absurd rfl (never gap.not_core)
      · exact absurd rfl (never (by simp [Tree.isCore, clause]))
    · exact absurd same (never rfl)
    · exact absurd rfl (never (last inner inside).not_core)
  have solid : inner.isTrivia = false := by
    simp only [Tree.isCore, Bool.and_eq_true, Bool.not_eq_true'] at core
    exact core.1.1
  obtain ⟨opened, others, rfl, first, gaps⟩ :=
    Forest.split_of_few few (fun tree member => (made tree member).1) here solid
  refine ⟨gap ++ .leaf none .symbol ['('] :: opened, (others ++ behind) ++ .leaf none .symbol [')'] :: closed, by simp,
    (made inner here).2, gap, opened, others ++ behind, closed, rfl, rfl, ?_, ?_, last⟩
  · exact fun tree member => (List.mem_append.mp member).elim (between tree) (first tree)
  · exact fun tree member => (List.mem_append.mp member).elim (fun member => .inl (gaps tree member)) (second tree)

/-! ### Taking parentheses off -/

namespace Node

/-- The types that stand in the parentheses that are taken off an expression, the innermost first. -/
def bareTypes (node : Node) : List Text := go node.tree.size node
where
  go : Nat → Node → List Text
    | 0, _ => []
    | steps + 1, node =>
      if node.kind = .parenthesizedExpression then
        match node.namedChildren.find? fun child => child.kind ≠ .comment with
        | some inner => go steps inner ++ Forest.types node.tree.children
        | none => []
      else []

theorem encloses {node inner : Node} (made : node.tree.IsSpelled) (same : node.kind = .parenthesizedExpression)
    (member : inner ∈ node.namedChildren) (core : inner.tree.isCore = true) :
    ∃ left right, node.tree.children = left ++ inner.tree :: right ∧ Encloses inner.tree left right ∧
      node.text = Forest.text left ++ (inner.text ++ Forest.text right) ∧
      inner.start = node.start + Text.bytes (Forest.text left) := by
  obtain ⟨left, right, split, start⟩ := mem_place (mem_children (mem_namedChildren member).1)
  have cut : ∃ left right, node.tree.children = left ++ inner.tree :: right ∧ Encloses inner.tree left right := by
    obtain ⟨tree, found⟩ : ∃ tree, tree = node.tree := ⟨_, rfl⟩
    rw [kind, ← found] at same
    rw [← found] at made split ⊢
    cases made with
    | leaf => simp [Tree.children] at split
    | @node role kind word trees member spelled =>
      cases (same : kind = .parenthesizedExpression)
      have inside : inner.tree ∈ trees := by
        refine (List.dropWhile_suffix Tree.isSpacing).subset ?_
        rw [show trees.dropWhile Tree.isSpacing = left ++ inner.tree :: right from split]
        simp
      obtain ⟨left, right, rfl, encloses⟩ := spelled.encloses member inside core
      obtain ⟨kept, dropped, encloses⟩ := encloses.dropWhile_spacing
      exact ⟨kept, right, dropped, encloses⟩
  obtain ⟨left', right', split', encloses⟩ := cut
  obtain ⟨rfl, rfl⟩ := List.cut_unique (split'.symm.trans split) encloses.not_core.1 encloses.not_core.2 core
  exact ⟨left', right', split, encloses, text_split split, by rw [start, Forest.bytes_eq]⟩

theorem bare_go_of_ne {steps : Nat} {node : Node} (other : node.kind ≠ .parenthesizedExpression) :
    bare.go steps node = node ∧ bareTypes.go steps node = [] := by
  cases steps with
  | zero => exact ⟨rfl, rfl⟩
  | succ steps => exact ⟨by rw [bare.go, if_neg other], by rw [bareTypes.go, if_neg other]⟩

/-- Parentheses are taken off what is in them, if anything is. -/
theorem bare_go_of_eq {steps : Nat} {node : Node} (same : node.kind = .parenthesizedExpression) :
    (bare.go (steps + 1) node = node ∧ bareTypes.go (steps + 1) node = []) ∨ ∃ inner ∈ node.namedChildren,
      bare.go (steps + 1) node = bare.go steps inner ∧
      bareTypes.go (steps + 1) node = bareTypes.go steps inner ++ Forest.types node.tree.children := by
  rw [bare.go, bareTypes.go, if_pos same, if_pos same]
  cases found : node.namedChildren.find? fun child => child.kind ≠ .comment with
  | none => exact .inl ⟨rfl, rfl⟩
  | some inner => exact .inr ⟨inner, List.mem_of_find?_eq_some found, rfl, rfl⟩

theorem isCore_of_bare_go {steps : Nat} {node : Node} (core : (bare.go steps node).tree.isCore = true) :
    node.tree.isCore = true := by
  by_cases same : node.kind = .parenthesizedExpression
  · simp [Tree.isCore, Tree.isTrivia, show node.tree.kind = .parenthesizedExpression from same, Kind.isTrivia]
  · rwa [(bare_go_of_ne same).1] at core

/-- What is taken off an expression stands around it. -/
theorem bare_go_around {steps : Nat} {node : Node} (made : node.tree.IsSpelled)
    (core : (bare.go steps node).tree.isCore = true) :
    ∃ front back, node.text = front ++ ((bare.go steps node).text ++ back) ∧
      (bare.go steps node).start = node.start + Text.bytes front ∧ Around (bareTypes.go steps node) front back := by
  have done : ∀ {node : Node}, ∃ front back, node.text = front ++ (node.text ++ back) ∧
      node.start = node.start + Text.bytes front ∧ Around [] front back := fun {_} => ⟨[], [], by simp, rfl, .nothing⟩
  induction steps generalizing node with
  | zero => exact done
  | succ steps ih =>
    by_cases same : node.kind = .parenthesizedExpression
    · rcases @bare_go_of_eq steps node same with ⟨stays, typeless⟩ | ⟨inner, member, goes, types⟩
      · rw [stays, typeless]
        exact done
      · rw [goes] at core ⊢
        have solid := isCore_of_bare_go core
        obtain ⟨left, right, split, encloses, text, start⟩ := node.encloses made same member solid
        obtain ⟨front, back, text', start', around⟩ := ih encloses.made core
        refine ⟨Forest.text left ++ front, back ++ Forest.text right, ?_, ?_, ?_⟩
        · rw [text, text']
          simp
        · rw [start', start, Text.bytes_append, Nat.add_assoc]
        · rw [types, split, encloses.types_eq solid]
          exact encloses.around around
    · rw [(bare_go_of_ne same).1, (bare_go_of_ne same).2]
      exact done

end Node
end Graft
