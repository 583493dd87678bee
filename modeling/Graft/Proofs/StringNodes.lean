import Graft.Proofs.OpeningMarks

/-! The strings of a program: quoted literals and attributes in quotes. A string starts with its quote and has only
leaves below it. So strings stand one behind the other, and a node has those of the program that are inside of it. -/

namespace Graft

/-! ### What is inside of quotes -/

/-- A leaf, not only by its kind. -/
def Tree.IsLeaf (tree : Tree) : Prop := tree.kind.isLeaf = true ∧ tree.children = []

/-- Whether a symbol has only leaves: a token, or the tokens inside of quotes. -/
def Symbol.isFlat : Symbol → Bool
  | token _ => true
  | phrase (.group it) =>
    [.doubleStringParts, .singleStringParts, .doubleAttributeParts, .singleAttributeParts].contains it
  | phrase (.node _) => false

def Phrase.isQuoted (phrase : Phrase) : Bool :=
  phrase = .node .string || phrase = .group .attributeString || (Symbol.phrase phrase).isFlat

set_option maxRecDepth 10000 in
theorem string_opens : Kind.string.Opens [.attributeString] [.doubleQuote, .singleQuote] :=
  ⟨rfl, by decide, by decide⟩

set_option maxRecDepth 10000 in
theorem quoted_letters : Grammar.allLetters (fun phrase letter =>
    !phrase.isQuoted || letter.rename = none && letter.symbol.isFlat) = true := by
  decide

theorem Tree.IsGap.leaf {tree : Tree} (gap : tree.IsGap) : tree.IsLeaf := by
  refine ⟨gap.isLeaf, ?_⟩
  obtain ⟨_, _, rfl, -⟩ := gap
  rfl

theorem Letter.dress_flat {letter : Letter} {phrase : Phrase} {word : List Letter} (quoted : phrase.isQuoted = true)
    (known : word ∈ phrase.words) (listed : letter ∈ word) {made : List Tree}
    (leaves : letter.symbol.isFlat = true → ∀ tree ∈ made, tree.IsLeaf) : ∀ tree ∈ letter.dress made, tree.IsLeaf := by
  have passes := Phrase.letter_passes quoted_letters known listed
  rw [quoted, Bool.not_true, Bool.false_or, Bool.and_eq_true] at passes
  have plain : letter.rekind made = made := by rw [rekind, of_decide_eq_true passes.1]
  intro tree member
  rw [dress_eq, plain] at member
  obtain ⟨before, here, ⟨rfl, -⟩ | ⟨-, role, -, rfl⟩⟩ := Forest.mem_play member
  · exact leaves passes.2 _ here
  · have leaf := leaves passes.2 before here
    cases before <;> exact leaf

theorem Derives.flat {symbol : Symbol} {trees : List Tree} (derived : Derives symbol trees)
    (flat : symbol.isFlat = true) : ∀ tree ∈ trees, tree.IsLeaf := by
  induction derived with
  | @token token spacing text blank shape =>
    intro tree member
    refine ⟨token.trees_isLeaf spacing text tree member, ?_⟩
    obtain ⟨_, _, rfl⟩ := (Derives.token blank shape).leaf_of_token tree member
    rfl
  | @phrase phrase production parts known spells plain firm derived ih =>
    rw [← Phrase.words_eq known] at spells
    have quoted : phrase.isQuoted = true := by rw [Phrase.isQuoted, flat, Bool.or_true]
    cases phrase with
    | node => cases flat
    | group group =>
      intro tree member
      obtain ⟨part, here, ⟨extra, member⟩ | ⟨-, letter, member⟩⟩ := Part.mem_cases plain member
      · exact ((derived part here).extra_gap extra tree member).leaf
      · exact Letter.dress_flat quoted spells letter (ih part here) tree member

/-- Below a string there are only leaves. -/
theorem Tree.Grown.leaf_of_string {tree child : Tree} (grown : tree.Grown) (string : tree.kind = .string)
    (inside : child ∈ tree.children) : child.IsLeaf := by
  obtain ⟨phrase, word, blank, made, member, spelled, -⟩ := grown.word inside
  have quoted : phrase.isQuoted = true := by
    rw [string] at made
    rcases List.mem_cons.mp (string_opens.of_canBe made) with rfl | group
    · rfl
    · cases List.mem_singleton.mp group
      rfl
  rcases spelled.mem_cases (List.mem_append_right blank inside) with gap | ⟨letter, listed, made, derived, dressed⟩
  · exact gap.leaf
  · exact Letter.dress_flat quoted member listed derived.flat child dressed

/-! ### Strings in order -/

namespace Node

/-- The strings of a node, itself included, in the order of the text. -/
def strings (node : Node) : List Node := node.nodes.filter fun inner => inner.kind = .string

theorem mem_strings {node inner : Node} : inner ∈ node.strings ↔ inner ∈ node.nodes ∧ inner.kind = .string := by
  simp [strings]

theorem nodes_of_isLeaf {node : Node} (leaf : node.tree.IsLeaf) : node.nodes = [node] := by
  rw [nodes_eq, children, leaf.2]
  rfl

theorem strings_of_isLeaf {node : Node} (leaf : node.tree.IsLeaf) : node.strings = [] := by
  rw [strings, nodes_of_isLeaf leaf, List.filter_cons_of_neg, List.filter_nil]
  intro same
  have string : node.tree.kind = .string := of_decide_eq_true same
  have leaf := leaf.1
  rw [string] at leaf
  cases leaf

theorem strings_eq {node : Node} (other : node.kind ≠ .string) : node.strings = node.children.flatMap strings := by
  rw [strings, nodes_eq, List.filter_cons_of_neg (by simpa using other), List.filter_flatMap]
  rfl

def StringsAreFlat (node : Node) : Prop :=
  ∀ inner ∈ node.nodes, inner.kind = .string → ∀ child ∈ inner.children, child.tree.IsLeaf

theorem StringsAreFlat.child {node child : Node} (flat : node.StringsAreFlat) (listed : child ∈ node.children) :
    child.StringsAreFlat :=
  fun inner member => flat inner (mem_nodes_of_child listed member)

theorem strings_ordered {node : Node} (flat : node.StringsAreFlat) :
    node.strings.Pairwise fun first second => first.stop ≤ second.start := by
  induction node using byChildren with
  | step node ih =>
    by_cases string : node.kind = .string
    · have alone : node.strings = [node] := by
        have none : (node.children.flatMap nodes).filter (fun inner => inner.kind = .string) = [] := by
          rw [List.filter_flatMap, List.flatMap_eq_nil_iff]
          exact fun child listed => strings_of_isLeaf (flat node node.mem_nodes string child listed)
        rw [strings, nodes_eq, List.filter_cons_of_pos (by simpa using string), none]
      rw [alone]
      exact List.pairwise_singleton ..
    · rw [strings_eq string, List.pairwise_flatMap]
      refine ⟨fun child listed => ih child listed (flat.child listed), ?_⟩
      refine node.children_ordered.imp fun {first second} before one early two late => ?_
      have inside := nodes_inside one (mem_strings.mp early).1
      have inside' := nodes_inside two (mem_strings.mp late).1
      omega

/-- A node below another has all its nodes in one stretch. What is before it ends before it starts or is above it, and
what is behind it starts where it has ended. -/
theorem nodes_split {top node : Node} (member : node ∈ top.nodes) : ∃ before after,
    top.nodes = before ++ (node.nodes ++ after) ∧
      (∀ other ∈ before, other.stop ≤ node.start ∨ ∃ child ∈ other.children, node ∈ child.nodes) ∧
      ∀ other ∈ after, node.stop ≤ other.start := by
  induction top using byChildren with
  | step top ih =>
    rw [nodes_eq top] at member
    rcases List.mem_cons.mp member with rfl | member
    · exact ⟨[], [], by simp, by simp, by simp⟩
    · obtain ⟨child, listed, member⟩ := List.mem_flatMap.mp member
      obtain ⟨before, after, split, early, late⟩ := ih child listed member
      have inside := nodes_inside node member
      have ordered := top.children_ordered
      obtain ⟨left, right, siblings⟩ := List.append_of_mem listed
      rw [siblings, List.pairwise_append] at ordered
      obtain ⟨-, behind, across⟩ := ordered
      refine ⟨top :: left.flatMap nodes ++ before, after ++ right.flatMap nodes, ?_, ?_, ?_⟩
      · rw [nodes_eq top, siblings, List.flatMap_append, List.flatMap_cons, split]
        simp
      · intro other member
        rcases List.mem_append.mp member with member | member
        · rcases List.mem_cons.mp member with rfl | member
          · exact .inr ⟨child, listed, ‹_›⟩
          · obtain ⟨sibling, first, member⟩ := List.mem_flatMap.mp member
            have apart := across sibling first child (List.mem_cons_self ..)
            have within := nodes_inside other member
            exact .inl (by omega)
        · exact early other member
      · intro other member
        rcases List.mem_append.mp member with member | member
        · exact late other member
        · obtain ⟨sibling, last, member⟩ := List.mem_flatMap.mp member
          have apart := (List.pairwise_cons.mp behind).1 sibling last
          have within := nodes_inside other member
          omega

end Node

/-- The strings of a program stand in its source, start with a quote, and have only leaves below them. -/
theorem Program.strings_stand {source : Text} {program : Program} (read : Program.parse source = .ok program) :
    program.root.StringsAreFlat ∧ ∀ node ∈ program.root.strings,
      node.Stands source ∧ ∃ quote rest, node.text = quote :: rest ∧ (quote = '"' ∨ quote = '\'') := by
  have holds := nodes_open string_opens nofun read
  constructor
  · exact fun node member string child listed => (holds node member).1.2.leaf_of_string string (Node.tree_mem listed)
  · intro node member
    obtain ⟨listed, string⟩ := Node.mem_strings.mp member
    obtain ⟨⟨stands, -⟩, opening⟩ := holds node listed
    obtain ⟨mark, known, rest, text⟩ := opening string
    refine ⟨stands, ?_⟩
    rcases List.mem_cons.mp known with rfl | known
    · exact ⟨'"', rest, text.symm, .inl rfl⟩
    · cases List.mem_singleton.mp known
      exact ⟨'\'', rest, text.symm, .inr rfl⟩

end Graft
