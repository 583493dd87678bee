import Graft.Proofs.PhraseStarts
import Graft.Shell

/-! The statements of a program. At the top level of a program, as between the braces of a block, there are nodes
of statements, and gaps between them; a program may also start with a line for an interpreter. -/

namespace Graft

/-! ### Groups of nodes -/

/-- Whether groups are made of nodes and of each other only. -/
def Grammar.nodesOnly (groups : List Group) : Bool :=
  groups.all fun group => (Phrase.group group).words.all fun word => word.all fun letter =>
    letter.role = none && letter.rename = none &&
      match letter.symbol with
      | .token _ => false
      | .phrase (.node _) => true
      | .phrase (.group other) => groups.contains other

def Grammar.nodesOf (groups : List Group) : List Kind :=
  groups.flatMap fun group => (Phrase.group group).words.flatMap fun word => word.filterMap fun letter =>
    match letter.symbol with
    | .phrase (.node kind) => some kind
    | _ => none

theorem Grammar.mem_nodesOf {groups : List Group} {group : Group} (listed : group ∈ groups) {word : List Letter}
    (member : word ∈ (Phrase.group group).words) {letter : Letter} (inside : letter ∈ word) {kind : Kind}
    (same : letter.symbol = .phrase (.node kind)) : kind ∈ nodesOf groups :=
  List.mem_flatMap.mpr ⟨group, listed, List.mem_flatMap.mpr ⟨word, member, List.mem_filterMap.mpr
    ⟨letter, inside, by rw [same]⟩⟩⟩

def Tree.IsNodeOf (kinds : List Kind) (tree : Tree) : Prop :=
  ∃ kind inner, kind ∈ kinds ∧ Derives (.phrase (.node kind)) (Forest.enclose kind inner) ∧
    tree = .node none kind (inner.dropWhile Tree.isSpacing)

theorem Derives.nodes_among {groups : List Group} (closed : Grammar.nodesOnly groups = true) {symbol : Symbol}
    {trees : List Tree} (derived : Derives symbol trees) :
    (∀ token, symbol ≠ .token token) → (∀ group, symbol = .phrase (.group group) → group ∈ groups) →
    (∀ kind, symbol = .phrase (.node kind) → kind ∈ Grammar.nodesOf groups) →
    ∀ tree ∈ trees, tree.IsGap ∨ tree.IsNodeOf (Grammar.nodesOf groups) := by
  induction derived with
  | @token token => exact fun never => absurd rfl (never token)
  | @phrase phrase production parts known spells plain firm derived ih =>
    intro _ listed named tree member
    have whole := Derives.phrase known spells plain firm derived
    rw [← Phrase.words_eq known] at spells
    cases phrase with
    | node kind =>
      have origin := Phrase.spelled_origin spells (.of_parts plain derived)
      rcases List.mem_append.mp member with member | member
      · exact .inl ((Forest.takeWhile_blank origin).1 tree member)
      · exact .inr ⟨kind, _, named kind rfl, whole, List.mem_singleton.mp member⟩
    | group group =>
      obtain ⟨part, here, ⟨extra, member⟩ | ⟨-, inside, member⟩⟩ := Part.mem_cases plain member
      · exact .inl ((derived part here).extra_gap extra tree member)
      · have letter := List.all_eq_true.mp (List.all_eq_true.mp (List.all_eq_true.mp closed group (listed group rfl))
          _ spells) _ inside
        simp only [Bool.and_eq_true, decide_eq_true_eq] at letter
        obtain ⟨⟨noRole, noName⟩, symbol⟩ := letter
        simp only [Letter.dress, noRole, noName] at member
        refine ih part here ?_ ?_ ?_ tree member
        · intro token same
          rw [same] at symbol
          cases symbol
        · intro other same
          rw [same] at symbol
          simpa using symbol
        · exact fun kind same => Grammar.mem_nodesOf (listed group rfl) spells inside same

/-- The groups that a list of statements is made of. -/
def Grammar.statementGroups : List Group := [.statements, .statement, .declaration]

theorem statement_groups : Grammar.nodesOnly Grammar.statementGroups = true := by rfl

def Tree.IsPlainNode (tree : Tree) : Prop := tree.IsNodeOf (Grammar.nodesOf Grammar.statementGroups)

set_option maxRecDepth 10000 in
theorem statement_kinds : (Grammar.nodesOf Grammar.statementGroups).all (fun kind =>
    kind.isNamed && !kind.isTrivia && kind ≠ .hashBangLine) = true := by rfl

namespace Tree.IsPlainNode
variable {tree : Tree}

theorem kind_mem (plain : tree.IsPlainNode) : tree.kind ∈ Grammar.nodesOf Grammar.statementGroups := by
  obtain ⟨kind, inner, listed, -, rfl⟩ := plain
  exact listed

theorem isNamed (plain : tree.IsPlainNode) : tree.kind.isNamed = true := by
  have known := List.all_eq_true.mp statement_kinds tree.kind plain.kind_mem
  simp only [Bool.and_eq_true] at known
  exact known.1.1

theorem notTrivia (plain : tree.IsPlainNode) : tree.kind.isTrivia = false := by
  have known := List.all_eq_true.mp statement_kinds tree.kind plain.kind_mem
  simp only [Bool.and_eq_true, Bool.not_eq_true'] at known
  exact known.1.2

theorem ne_hashBang (plain : tree.IsPlainNode) : tree.kind ≠ .hashBangLine := by
  have known := List.all_eq_true.mp statement_kinds tree.kind plain.kind_mem
  simp only [Bool.and_eq_true, decide_eq_true_eq] at known
  exact known.2

end Tree.IsPlainNode

/-- A tree between statements is spacing, or it has a name. -/
theorem Tree.named_or_blank {tree : Tree} (inside : tree.IsGap ∨ tree.IsPlainNode) :
    tree.isSpacing = true ∧ (∀ c ∈ tree.text, Graft.isSpacing c = true) ∧ tree.kind.isNamed = false ∨
      tree.isSpacing = false ∧ tree.kind.isNamed = true := by
  rcases inside with ⟨kind, text, rfl, ⟨rfl, blank⟩ | ⟨rfl, -⟩ | ⟨rfl, -⟩⟩ | plain
  · exact .inl ⟨rfl, blank, rfl⟩
  · exact .inr ⟨rfl, rfl⟩
  · exact .inr ⟨rfl, rfl⟩
  · exact .inr ⟨isSpacing_of_solid plain.notTrivia, plain.isNamed⟩

/-- Statements are nodes with gaps between them. -/
theorem Derives.statements {trees : List Tree} (derived : Derives (.phrase (.group .statements)) trees) :
    ∀ tree ∈ trees, tree.IsGap ∨ tree.IsPlainNode :=
  derived.nodes_among statement_groups (by simp) (by rintro group ⟨⟩; simp [Grammar.statementGroups]) (by simp)

/-! ### The top level -/

/-- A tree around statements: a gap, or the line for an interpreter. -/
def Tree.IsLoose (tree : Tree) : Prop :=
  tree.IsGap ∨ ∃ text, tree = .leaf none .hashBangLine text ∧ Token.hashBang.Shape text

namespace Spelled

theorem statements_cases {word : List Letter} {trees : List Tree}
    (spelled : Spelled (⟨.phrase (.group .statements), none, none⟩ :: word) trees) :
    ∃ inner others, (∀ tree ∈ inner, tree.IsGap ∨ tree.IsPlainNode) ∧ Spelled word others ∧ trees = inner ++ others := by
  cases spelled with
  | @letter _ _ gap made others between derived rest =>
    refine ⟨gap ++ made, others, fun tree member => ?_, rest, rfl⟩
    rcases List.mem_append.mp member with member | member
    · exact .inl (between tree member)
    · exact derived.statements tree member

theorem gaps {trees : List Tree} (spelled : Spelled [] trees) : ∀ tree ∈ trees, tree.IsGap := by
  cases spelled with
  | stop between => exact between

end Spelled

namespace Program
variable {source : Text} {program : Program}

/-- Before the statements of a program there may be a line for an interpreter, and before that comments. -/
theorem parse_split (read : Program.parse source = .ok program) :
    ∃ gap lines right, program.tree.children = gap ++ lines ++ right ∧ lines.length ≤ 1 ∧ (∀ tree ∈ gap, tree.IsGap) ∧
      (∀ tree ∈ lines, ∃ text, tree = .leaf none .hashBangLine text ∧ Token.hashBang.Shape text) ∧
      ∀ tree ∈ right, tree.IsGap ∨ tree.IsPlainNode := by
  obtain ⟨word, member, spelled⟩ := parse_spelled read
  generalize program.tree.children = trees at spelled
  have stop : ∀ {trees : List Tree}, Spelled [] trees → ∀ tree ∈ trees, tree.IsGap ∨ tree.IsPlainNode :=
    fun spelled tree member => .inl (spelled.gaps tree member)
  have statements : ∀ {trees : List Tree}, Spelled [⟨.phrase (.group .statements), none, none⟩] trees →
      ∀ tree ∈ trees, tree.IsGap ∨ tree.IsPlainNode := by
    intro trees spelled tree member
    obtain ⟨inner, others, nodes, rest, rfl⟩ := spelled.statements_cases
    rcases List.mem_append.mp member with member | member
    · exact nodes tree member
    · exact stop rest tree member
  have hashBang : ∀ {word : List Letter}, Spelled (⟨.token .hashBang, none, none⟩ :: word) trees →
      (∀ {others : List Tree}, Spelled word others → ∀ tree ∈ others, tree.IsGap ∨ tree.IsPlainNode) →
      ∃ gap lines right, trees = gap ++ lines ++ right ∧ lines.length ≤ 1 ∧ (∀ tree ∈ gap, tree.IsGap) ∧
        (∀ tree ∈ lines, ∃ text, tree = .leaf none .hashBangLine text ∧ Token.hashBang.Shape text) ∧
        ∀ tree ∈ right, tree.IsGap ∨ tree.IsPlainNode := by
    intro word spelled later
    obtain ⟨gap, text, others, between, shape, rest, rfl⟩ := spelled.token_cases rfl
    refine ⟨gap, _, others, rfl, ?_, between, ?_, later rest⟩
    · split <;> simp
    · intro tree member
      split at member
      next => cases member
      next => exact ⟨text, List.mem_singleton.mp member, shape⟩
  have plain : (∀ tree ∈ trees, tree.IsGap ∨ tree.IsPlainNode) →
      ∃ gap lines right, trees = gap ++ lines ++ right ∧ lines.length ≤ 1 ∧ (∀ tree ∈ gap, tree.IsGap) ∧
        (∀ tree ∈ lines, ∃ text, tree = .leaf none .hashBangLine text ∧ Token.hashBang.Shape text) ∧
        ∀ tree ∈ right, tree.IsGap ∨ tree.IsPlainNode :=
    fun all => ⟨[], [], trees, rfl, Nat.zero_le 1, by simp, by simp, all⟩
  rw [program_words] at member
  simp only [List.mem_cons, List.not_mem_nil, or_false] at member
  rcases member with rfl | rfl | rfl | rfl
  · exact hashBang spelled statements
  · exact hashBang spelled stop
  · exact plain (statements spelled)
  · exact plain (stop spelled)

theorem parse_trees (read : Program.parse source = .ok program) :
    ∀ tree ∈ program.tree.children, tree.IsLoose ∨ tree.IsPlainNode := by
  obtain ⟨gap, lines, right, split, -, gaps, hashBang, nodes⟩ := parse_split read
  intro tree member
  rw [split] at member
  rcases List.mem_append.mp member with member | member
  · rcases List.mem_append.mp member with member | member
    · exact .inl (.inl (gaps tree member))
    · exact .inl (.inr (hashBang tree member))
  · exact (nodes tree member).imp_left .inl

theorem parse_origin (read : Program.parse source = .ok program) : ∀ tree ∈ program.tree.children, tree.Origin := by
  obtain ⟨word, member, spelled⟩ := parse_spelled read
  exact Phrase.spelled_origin member spelled

end Program

theorem Node.place_append (start : Nat) (first second : List Tree) :
    place start (first ++ second) = place start first ++ place (start + Forest.bytes first) second := by
  induction first generalizing start with
  | nil => simp [place, Forest.bytes]
  | cons tree trees ih => simp [place, Forest.bytes, ih, Nat.add_assoc]

theorem Node.exists_mem_place (start : Nat) {trees : List Tree} {tree : Tree} (member : tree ∈ trees) :
    ∃ node ∈ place start trees, node.tree = tree := by
  induction trees generalizing start with
  | nil => cases member
  | cons other trees ih =>
    rcases List.mem_cons.mp member with rfl | member
    · exact ⟨_, List.mem_cons_self .., rfl⟩
    · obtain ⟨node, inside, same⟩ := ih _ member
      exact ⟨node, List.mem_cons_of_mem _ inside, same⟩

def Node.isStatement (node : Node) : Bool :=
  node.kind ≠ .comment && node.kind ≠ .hashBangLine && node.isNamed && node.kind ≠ .spacing

theorem Tree.IsPlainNode.isStatement {node : Node} (plain : node.tree.IsPlainNode) : node.isStatement = true := by
  have other := plain.notTrivia
  simp only [Kind.isTrivia, Bool.or_eq_false_iff, decide_eq_false_iff_not] at other
  simp only [Node.isStatement, Node.isNamed, Node.kind, Bool.and_eq_true]
  exact ⟨⟨⟨decide_eq_true other.1.2, decide_eq_true plain.ne_hashBang⟩, plain.isNamed⟩, decide_eq_true other.1.1⟩

namespace Program
variable {source : Text} {program : Program} {statement : Node}

theorem statements_eq (program : Program) :
    program.statements = (Node.place 0 program.tree.children).filter Node.isStatement := by
  rw [statements, topLevel, Node.namedChildren, Node.children, List.filter_filter, List.filter_filter]
  rfl

/-- Around the only statement of a program there is nothing but gaps and the line for an interpreter. -/
theorem single?_split (read : Program.parse source = .ok program) (single : program.single? = some statement) :
    ∃ left right, program.tree.children = left ++ statement.tree :: right ∧ statement.start = Forest.bytes left ∧
      (∀ tree ∈ left, tree.IsLoose) ∧ (∀ tree ∈ right, tree.IsLoose) ∧ statement.tree.Origin := by
  have only : program.statements = [statement] := by
    unfold single? at single
    split at single
    next it same =>
      cases single
      exact same
    next => cases single
  rw [statements_eq] at only
  have member : statement ∈ (Node.place 0 program.tree.children).filter Node.isStatement := by
    rw [only]
    exact List.mem_singleton_self _
  obtain ⟨inside, counts⟩ := List.mem_filter.mp member
  obtain ⟨left, right, split, start⟩ := Node.mem_place inside
  rw [Nat.zero_add] at start
  have none : (Node.place 0 left).filter Node.isStatement = [] ∧
      (Node.place (statement.start + statement.tree.bytes) right).filter Node.isStatement = [] := by
    have alone := congrArg List.length only
    rw [split, Node.place_append, Nat.zero_add, ← start, Node.place, List.filter_append, List.filter_cons, if_pos counts,
      List.length_append, List.length_cons, List.length_singleton] at alone
    exact ⟨List.length_eq_zero_iff.mp (by omega), List.length_eq_zero_iff.mp (by omega)⟩
  have loose : ∀ {start : Nat} {trees : List Tree}, (Node.place start trees).filter Node.isStatement = [] →
      (∀ tree ∈ trees, tree ∈ program.tree.children) → ∀ tree ∈ trees, tree.IsLoose := by
    intro start trees none inside tree member
    rcases parse_trees read tree (inside tree member) with loose | plain
    · exact loose
    · obtain ⟨node, placed, rfl⟩ := Node.exists_mem_place start member
      have never : node ∈ (Node.place start trees).filter Node.isStatement :=
        List.mem_filter.mpr ⟨placed, plain.isStatement⟩
      rw [none] at never
      cases never
  refine ⟨left, right, split, start, loose none.1 ?_, loose none.2 ?_, parse_origin read _ ?_⟩ <;> rw [split]
  · exact fun tree member => List.mem_append_left _ member
  · exact fun tree member => List.mem_append_right _ (List.mem_cons_of_mem _ member)
  · simp

end Program

end Graft
