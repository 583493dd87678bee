import Graft.Proofs.ProgramDerivations

/-! What trees of the grammar look like. Gaps are made of trivia and of nothing else, a node of most kinds spells
a word of its own kind, and what a phrase can start with is found by going from first letter to first letter. -/

namespace Graft

/-! ### Facts about all rules -/

def Rule.renames : Rule → List Kind
  | nothing => []
  | symbol _ => []
  | pair one two => one.renames ++ two.renames
  | either one two => one.renames ++ two.renames
  | strong _ _ rule => rule.renames
  | role _ rule => rule.renames
  | rename kind rule => kind :: rule.renames

theorem Rule.rename_mem (rule : Rule) : ∀ (role : Option Role) (rename : Option Kind) (word : List Letter),
    word ∈ rule.spellings role rename → ∀ letter ∈ word, ∀ kind, letter.rename = some kind →
    rename = some kind ∨ kind ∈ rule.renames := by
  induction rule with
  | nothing =>
    intro role rename word member letter inside
    rw [List.mem_singleton.mp member] at inside
    cases inside
  | symbol it =>
    intro role rename word member letter inside kind same
    rw [List.mem_singleton.mp member] at inside
    rw [List.mem_singleton.mp inside] at same
    exact .inl same
  | pair one two front back =>
    intro role rename word member letter inside kind same
    obtain ⟨first, here, member⟩ := List.mem_flatMap.mp member
    obtain ⟨second, there, rfl⟩ := List.mem_map.mp member
    rcases List.mem_append.mp inside with inside | inside
    · exact (front role rename first here letter inside kind same).imp_right (List.mem_append_left _)
    · exact (back role rename second there letter inside kind same).imp_right (List.mem_append_right _)
  | either one two front back =>
    intro role rename word member letter inside kind same
    rcases List.mem_append.mp member with member | member
    · exact (front role rename word member letter inside kind same).imp_right (List.mem_append_left _)
    · exact (back role rename word member letter inside kind same).imp_right (List.mem_append_right _)
  | strong level side rule inner => exact fun role rename => inner role rename
  | role it rule inner => exact fun role rename => inner (some it) rename
  | rename it rule inner =>
    intro role rename word member letter inside kind same
    rcases inner role (some it) word member letter inside kind same with here | there
    · cases here
      exact .inr (List.mem_cons_self ..)
    · exact .inr (List.mem_cons_of_mem _ there)

/-- Whether some rule makes nodes of a kind from others. -/
def Kind.isRenamed (kind : Kind) : Bool :=
  Grammar.productions.any fun production => production.rule.renames.contains kind

theorem Phrase.rename_mem {phrase : Phrase} {word : List Letter} (member : word ∈ phrase.words) {letter : Letter}
    (inside : letter ∈ word) {kind : Kind} (same : letter.rename = some kind) : kind.isRenamed = true := by
  rw [words] at member
  split at member
  next production known =>
    rcases production.rule.rename_mem none none word member letter inside kind same with never | listed
    · cases never
    · exact List.any_eq_true.mpr ⟨production, List.mem_of_find?_eq_some known, by simpa using listed⟩
  next => cases member

set_option maxRecDepth 10000 in
theorem trivia_unnamed {kind : Kind} (trivia : kind.isTrivia = true) :
    kind.isRenamed = false ∧ (Phrase.node kind).words = [] := by
  simp only [Kind.isTrivia, Bool.or_eq_true, decide_eq_true_eq] at trivia
  rcases trivia with (rfl | rfl) | rfl <;> exact ⟨rfl, rfl⟩

set_option maxRecDepth 10000 in
/-- Declarations, arrow functions and blocks are always made of phrases of their own. -/
theorem Kind.isRenamed_declared {kind : Kind}
    (listed : kind ∈ [Kind.functionDeclaration, .lexicalDeclaration, .arrowFunction, .statementBlock]) :
    kind.isRenamed = false := by
  have unnamed : [Kind.functionDeclaration, .lexicalDeclaration, .arrowFunction, .statementBlock].all
      (fun kind => !kind.isRenamed) = true := rfl
  simpa using List.all_eq_true.mp unnamed kind listed

theorem Token.kind_trivia {token : Token} (trivia : token.kind.isTrivia = true) : token.isExtra = true := by
  cases token with
  | word it => cases it <;> cases trivia
  | _ => first | rfl | cases trivia

/-! ### Where trees come from -/

/-- What a tree of a derivation is: a gap, a token, a node that was made of a phrase, or a tree of another
kind that was given a new one. -/
inductive Tree.Origin : Tree → Prop
  | gap {tree : Tree} (gap : tree.IsGap) : Origin tree
  | token {role : Option Role} {token : Token} {text : Text} (some : text ≠ []) (plain : token.isExtra = false)
    (shape : token.Shape text) : Origin (.leaf role token.kind text)
  | phrase {role : Option Role} {kind : Kind} {word : List Letter} {inner : List Tree}
    (member : word ∈ (Phrase.node kind).words) (spelled : Spelled word inner) :
    Origin (.node role kind (inner.dropWhile Tree.isSpacing))
  | renamed {tree : Tree} (renamed : tree.kind.isRenamed = true) : Origin tree

namespace Tree

theorem IsGap.trivia {tree : Tree} (gap : tree.IsGap) : tree.isTrivia = true := by
  obtain ⟨kind, text, rfl, ⟨rfl, -⟩ | ⟨rfl, -⟩ | ⟨rfl, -⟩⟩ := gap <;> rfl

theorem isTrivia_of_isSpacing {tree : Tree} (blank : tree.isSpacing = true) : tree.isTrivia = true := by
  simp only [Tree.isSpacing, decide_eq_true_eq] at blank
  rw [isTrivia, blank]
  rfl

theorem isSpacing_of_solid {tree : Tree} (solid : tree.isTrivia = false) : tree.isSpacing = false := by
  cases spacing : tree.isSpacing with
  | true =>
    rw [isTrivia_of_isSpacing spacing] at solid
    cases solid
  | false => rfl

theorem Origin.gap_of_trivia {tree : Tree} (origin : tree.Origin) (trivia : tree.isTrivia = true) : tree.IsGap := by
  cases origin with
  | gap gap => exact gap
  | token _ plain _ =>
    rw [Token.kind_trivia trivia] at plain
    cases plain
  | @phrase role kind word inner member _ =>
    have none : (Phrase.node kind).words = [] := (trivia_unnamed trivia).2
    rw [none] at member
    cases member
  | renamed renamed =>
    rw [(trivia_unnamed trivia).1] at renamed
    cases renamed

theorem Origin.withRole {tree : Tree} (origin : tree.Origin) (other : tree.isTrivia = false) (role : Role) :
    (tree.withRole role).Origin := by
  cases origin with
  | gap gap =>
    rw [gap.trivia] at other
    cases other
  | token some plain shape => exact .token some plain shape
  | phrase member spelled => exact .phrase member spelled
  | renamed renamed => cases tree <;> exact .renamed renamed

end Tree

def Kind.isLeaf : Kind → Bool
  | .identifier | .privatePropertyIdentifier | .number | .hashBangLine | .comment | .htmlComment | .stringFragment
  | .escapeSequence | .regexPattern | .regexFlags | .jsxText | .htmlCharacterReference | .symbol | .spacing
  | .thisExpression | .superExpression | .trueLiteral | .falseLiteral | .nullLiteral | .undefinedLiteral => true
  | _ => false

theorem Token.kind_isLeaf (token : Token) : token.kind.isLeaf = true := by
  cases token with
  | word it => cases it <;> rfl
  | _ => rfl

/-- A tree of a kind that is neither one of leaves nor given to trees of other kinds is made of a phrase. -/
theorem Tree.Origin.node_of_kind {tree : Tree} (origin : tree.Origin) {kind : Kind} (same : tree.kind = kind)
    (solid : kind.isLeaf = false) (unnamed : kind.isRenamed = false) :
    ∃ role word inner, tree = .node role kind (inner.dropWhile Tree.isSpacing) ∧ word ∈ (Phrase.node kind).words ∧
      Spelled word inner := by
  subst same
  cases origin with
  | gap gap =>
    obtain ⟨kind, text, rfl, ⟨rfl, -⟩ | ⟨rfl, -⟩ | ⟨rfl, -⟩⟩ := gap <;> cases solid
  | @token role token text _ _ _ =>
    have leaf : token.kind.isLeaf = false := solid
    rw [token.kind_isLeaf] at leaf
    cases leaf
  | @phrase role kind word inner member spelled => exact ⟨role, word, inner, rfl, member, spelled⟩
  | renamed renamed =>
    rw [unnamed] at renamed
    cases renamed

/-- The place of a letter gives its trees a role or another kind, and leaves gaps as they are. -/
theorem Letter.dress_origin {letter : Letter} {trees : List Tree} (origin : ∀ tree ∈ trees, tree.Origin)
    (known : ∀ kind, letter.rename = some kind → kind.isRenamed = true) :
    ∀ tree ∈ letter.dress trees, tree.Origin := by
  have played : ∀ trees : List Tree, (∀ tree ∈ trees, tree.Origin) → ∀ role, ∀ tree ∈ trees.map fun tree =>
      if tree.isTrivia then tree else tree.withRole role, tree.Origin := by
    intro trees origin role tree member
    obtain ⟨before, here, rfl⟩ := List.mem_map.mp member
    split
    next => exact origin before here
    next other => exact (origin before here).withRole (by simpa using other) role
  have enclosed : ∀ kind : Kind, kind.isRenamed = true → ∀ tree ∈ Forest.enclose kind trees, tree.Origin := by
    intro kind listed tree member
    rcases List.mem_append.mp member with member | member
    · exact origin tree ((List.takeWhile_prefix _).subset member)
    · rw [List.mem_singleton.mp member]
      exact .renamed listed
  have recast : ∀ kind : Kind, kind.isRenamed = true → ∀ tree ∈ trees.map fun (tree : Tree) =>
      if tree.kind = Kind.spacing then tree else StackEntry.recast kind tree, tree.Origin := by
    intro kind listed tree member
    obtain ⟨before, here, rfl⟩ := List.mem_map.mp member
    split
    next => exact origin before here
    next => cases before <;> exact .renamed listed
  unfold dress
  dsimp only
  split <;> split
  next => exact origin
  next kind same =>
    split
    next => exact enclosed kind (known kind same)
    next => exact recast kind (known kind same)
  next role _ _ _ => exact played trees origin role
  next role _ _ kind same =>
    refine played _ ?_ role
    split
    next => exact enclosed kind (known kind same)
    next => exact recast kind (known kind same)

theorem Token.trees_origin {token : Token} {spacing text : Text} (blank : ∀ c ∈ spacing, isSpacing c = true)
    (shape : token.Shape text) : ∀ tree ∈ token.trees spacing text, tree.Origin := by
  intro tree member
  cases extra : token.isExtra with
  | true => exact .gap ((Derives.token blank shape).extra_gap extra tree member)
  | false =>
    rcases List.mem_append.mp member with member | member
    · split at member
      next => cases member
      next =>
        rw [List.mem_singleton.mp member]
        exact .gap (Tree.isGap_spacing blank)
    · split at member
      next => cases member
      next some =>
        rw [List.mem_singleton.mp member]
        exact .token (by simpa using some) extra shape

theorem Derives.origin {symbol : Symbol} {trees : List Tree} (derived : Derives symbol trees) :
    ∀ tree ∈ trees, tree.Origin := by
  induction derived with
  | token blank shape => exact Token.trees_origin blank shape
  | @phrase phrase production parts known spells plain firm derived ih =>
    have inside : ∀ tree ∈ parts.flatMap Part.dressed, tree.Origin := by
      intro tree member
      obtain ⟨part, here, ⟨-, member⟩ | ⟨-, letter, member⟩⟩ := Part.mem_cases plain member
      · exact ih part here tree member
      · rw [← Phrase.words_eq known] at spells
        exact Letter.dress_origin (ih part here) (fun kind => Phrase.rename_mem spells letter) tree member
    cases phrase with
    | group => exact inside
    | node kind =>
      intro tree member
      rcases List.mem_append.mp member with member | member
      · exact inside tree ((List.takeWhile_prefix _).subset member)
      · rw [List.mem_singleton.mp member]
        rw [← Phrase.words_eq known] at spells
        exact .phrase spells (.of_parts plain derived)

theorem Spelled.origin {word : List Letter} {trees : List Tree} (spelled : Spelled word trees)
    (known : ∀ letter ∈ word, ∀ kind, letter.rename = some kind → kind.isRenamed = true) :
    ∀ tree ∈ trees, tree.Origin := by
  induction spelled with
  | stop between => exact fun tree member => .gap (between tree member)
  | letter between derived _ ih =>
    intro tree member
    rcases List.mem_append.mp member with member | member
    · rcases List.mem_append.mp member with member | member
      · exact .gap (between tree member)
      · exact Letter.dress_origin derived.origin (known _ (List.mem_cons_self ..)) tree member
    · exact ih (fun letter inside => known letter (List.mem_cons_of_mem _ inside)) tree member

theorem Phrase.spelled_origin {phrase : Phrase} {word : List Letter} {trees : List Tree} (member : word ∈ phrase.words)
    (spelled : Spelled word trees) : ∀ tree ∈ trees, tree.Origin :=
  spelled.origin fun _ inside _ same => Phrase.rename_mem member inside same

end Graft
