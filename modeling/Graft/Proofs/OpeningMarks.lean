import Graft.Proofs.TreeGrowth
import Graft.Proofs.WalkOrder

/-! Kinds of nodes that start with a mark, such as a quote or a backquote. Comments before a phrase do not belong to it,
so a node starts with the mark that all words of its phrases start with. -/

namespace Graft

/-- A text starts with one of some marks. -/
def Text.OpensWith (marks : List Mark) (text : Text) : Prop := ∃ mark ∈ marks, mark.text.toList <+: text

/-- Nodes of a kind are made for its own phrase, or for some groups by letters that rename them. All words of these start
with one of some marks. -/
structure Kind.Opens (kind : Kind) (groups : List Group) (marks : List Mark) : Prop where
  solid : kind.isLeaf = false
  renamed : Grammar.allLetters (fun _ letter =>
    letter.rename ≠ some kind || groups.any fun group => letter.symbol = .phrase (.group group)) = true
  words : ∀ phrase ∈ Phrase.node kind :: groups.map Phrase.group, ∀ word ∈ phrase.words,
    ∃ mark ∈ marks, word.head? = some ⟨.token (.mark mark), none, none⟩

/-- Behind spacing, what the parts of a phrase spell starts with the mark that is its first symbol. -/
theorem Forest.mark_prefix {parts : List Part} {mark : Mark}
    (head : (Part.word parts).head? = some ⟨.token (.mark mark), none, none⟩)
    (firm : ∀ part, parts.head? = some part → part.isExtra = false)
    (derived : ∀ part ∈ parts, Derives part.letter.symbol part.trees) :
    mark.text.toList <+: Forest.text ((parts.flatMap Part.dressed).dropWhile Tree.isSpacing) := by
  cases parts with
  | nil => cases head
  | cons part parts =>
    simp only [Part.word, List.filter_cons, firm part rfl, Bool.not_false, if_true, List.map_cons, List.head?_cons,
      Option.some.injEq] at head
    have here := derived part (List.mem_cons_self ..)
    have plain : part.dressed = part.trees := by rw [Part.dressed, head]; rfl
    rw [List.flatMap_cons, plain]
    rw [head] at here
    generalize part.trees = trees at here
    generalize symbol : Symbol.token (.mark mark) = it at here
    cases here with
    | phrase => cases symbol
    | @token token spacing text blank shape =>
      cases symbol
      cases (shape : text = mark.text.toList)
      cases spelled : mark.text.toList with
      | nil => exact List.nil_prefix
      | cons c rest =>
        -- the spacing before the mark is left out, and the mark comes first
        have trees : ∃ blank : List Tree, (∀ tree ∈ blank, tree.isSpacing = true) ∧
            Token.trees (.mark mark) spacing (c :: rest) = blank ++ [.leaf none .symbol (c :: rest)] := by
          refine ⟨if spacing.isEmpty then [] else [.leaf none .spacing spacing], ?_, rfl⟩
          split <;> simp [Tree.isSpacing, Tree.kind]
        obtain ⟨before, spaces, same⟩ := trees
        rw [same, List.append_assoc, List.dropWhile_append_of_pos spaces, List.singleton_append,
          List.dropWhile_cons_of_neg Bool.false_ne_true]
        exact List.prefix_append ..

section
variable {kind : Kind} {groups : List Group} {marks : List Mark} (opens : kind.Opens groups marks)
include opens

theorem Letter.group_of_rename {letter : Letter} {phrase : Phrase} {word : List Letter} (known : word ∈ phrase.words)
    (listed : letter ∈ word) (rename : letter.rename = some kind) :
    ∃ group ∈ groups, letter.symbol = .phrase (.group group) := by
  have passes := Phrase.letter_passes opens.renamed known listed
  rw [rename] at passes
  simpa only [ne_eq, not_true_eq_false, decide_false, Bool.false_or, List.any_eq_true, decide_eq_true_eq] using passes

theorem Kind.Opens.of_canBe {phrase : Phrase} (made : phrase.CanBe kind) :
    phrase ∈ Phrase.node kind :: groups.map Phrase.group := by
  rcases made with rfl | ⟨outer, word, known, letter, listed, symbol, rename⟩
  · exact List.mem_cons_self ..
  · obtain ⟨group, inside, same⟩ := Letter.group_of_rename opens known listed rename
    cases symbol.symm.trans same
    exact List.mem_cons_of_mem _ (List.mem_map_of_mem inside)

section
variable {letter : Letter} {made : List Tree} {phrase : Phrase} {word : List Letter} (known : word ∈ phrase.words)
  (listed : letter ∈ word)
  (grouped : ∀ group ∈ groups, letter.symbol = .phrase (.group group) →
    (Forest.text (made.dropWhile Tree.isSpacing)).OpensWith marks)
  (below : ∀ tree ∈ made, tree.kind = kind → tree.text.OpensWith marks)
include known listed grouped below

theorem Letter.rekind_opensWith : ∀ tree ∈ letter.rekind made, tree.kind = kind → tree.text.OpensWith marks := by
  intro tree member same
  cases rename : letter.rename with
  | none =>
    rw [rekind, rename] at member
    exact below tree member same
  | some other =>
    rw [rekind, rename] at member
    by_cases own : other = kind
    · subst own
      obtain ⟨group, inside, symbol⟩ := Letter.group_of_rename opens known listed rename
      rw [symbol] at member
      rcases List.mem_append.mp member with blank | member
      · exact below tree ((List.takeWhile_prefix _).subset blank) same
      · rw [List.mem_singleton.mp member, Tree.text]
        exact grouped group inside symbol
    · dsimp only at member
      split at member
      next =>
        rcases List.mem_append.mp member with blank | member
        · exact below tree ((List.takeWhile_prefix _).subset blank) same
        · rw [List.mem_singleton.mp member] at same
          exact absurd same own
      next =>
        obtain ⟨before, here, rfl⟩ := List.mem_map.mp member
        split at same
        next blank =>
          rw [if_pos blank]
          exact below before here same
        next => cases before <;> exact absurd same own

theorem Letter.dress_opensWith : ∀ tree ∈ letter.dress made, tree.kind = kind → tree.text.OpensWith marks := by
  have kept := Letter.rekind_opensWith opens known listed grouped below
  intro tree member same
  obtain ⟨before, here, ⟨rfl, -⟩ | ⟨-, role, -, rfl⟩⟩ := Forest.mem_play member
  · exact kept _ here same
  · rw [Tree.text_withRole]
    exact kept before here (by cases before <;> exact same)

end

/-- Trees of such a kind start with a mark, and so do those of the groups. -/
theorem Derives.opensWith {symbol : Symbol} {trees : List Tree} (derived : Derives symbol trees) :
    (∀ group ∈ groups, symbol = .phrase (.group group) →
      (Forest.text (trees.dropWhile Tree.isSpacing)).OpensWith marks) ∧
    ∀ tree ∈ trees, tree.kind = kind → tree.text.OpensWith marks := by
  induction derived with
  | @token token spacing text =>
    refine ⟨(fun _ _ never => by cases never), fun tree member same => ?_⟩
    have leaf := token.trees_isLeaf spacing text tree member
    rw [same, opens.solid] at leaf
    cases leaf
  | @phrase phrase production parts known spells plain firm derived ih =>
    rw [← Phrase.words_eq known] at spells
    have starts : phrase ∈ Phrase.node kind :: groups.map Phrase.group →
        (Forest.text ((parts.flatMap Part.dressed).dropWhile Tree.isSpacing)).OpensWith marks := by
      intro member
      obtain ⟨mark, listed, head⟩ := opens.words phrase member _ spells
      exact ⟨mark, listed, Forest.mark_prefix head firm derived⟩
    have inside : ∀ tree ∈ parts.flatMap Part.dressed, tree.kind = kind → tree.text.OpensWith marks := by
      intro tree member same
      obtain ⟨part, here, ⟨-, member⟩ | ⟨-, letter, member⟩⟩ := Part.mem_cases plain member
      · exact (ih part here).2 tree member same
      · exact Letter.dress_opensWith opens spells letter (ih part here).1 (ih part here).2 tree member same
    cases phrase with
    | group group =>
      refine ⟨fun other listed same => ?_, inside⟩
      cases same
      exact starts (List.mem_cons_of_mem _ (List.mem_map_of_mem listed))
    | node own =>
      refine ⟨(fun _ _ never => by cases never), fun tree member same => ?_⟩
      rcases List.mem_append.mp member with member | member
      · exact inside tree ((List.takeWhile_prefix _).subset member) same
      · rw [List.mem_singleton.mp member] at same ⊢
        cases same
        exact starts (List.mem_cons_self ..)

theorem Tree.Grown.opensWith {tree child : Tree} (grown : tree.Grown) (inside : child ∈ tree.children)
    (same : child.kind = kind) : child.text.OpensWith marks := by
  obtain ⟨phrase, word, blank, -, member, spelled, -⟩ := grown.word inside
  rcases spelled.mem_cases (List.mem_append_right blank inside) with gap | ⟨letter, listed, made, derived, dressed⟩
  · have leaf := gap.isLeaf
    rw [same, opens.solid] at leaf
    cases leaf
  · exact Letter.dress_opensWith opens member listed (derived.opensWith opens).1 (derived.opensWith opens).2 child dressed same

/-- The nodes of a program stand in its source, and those of such a kind start with a mark. -/
theorem Program.nodes_open (other : kind ≠ .program) {source : Text} {program : Program}
    (read : Program.parse source = .ok program) :
    ∀ node ∈ program.root.nodes,
      (node.Stands source ∧ node.tree.Grown) ∧ (node.kind = kind → node.text.OpensWith marks) := by
  have closed : ∀ node : Node, (node.Stands source ∧ node.tree.Grown) ∧ (node.kind = kind → node.text.OpensWith marks) →
      ∀ child ∈ node.children,
        (child.Stands source ∧ child.tree.Grown) ∧ (child.kind = kind → child.text.OpensWith marks) := by
    rintro node ⟨⟨stands, grown⟩, -⟩ child listed
    exact ⟨⟨(stands.child listed).1, grown.child (Node.tree_mem listed)⟩, grown.opensWith opens (Node.tree_mem listed)⟩
  obtain ⟨whole, forest, -, tree⟩ := parse_ok read
  have top : program.root.kind = .program := congrArg Tree.kind tree
  exact Node.nodes_keep closed ⟨⟨whole ▸ program.root_stands, root_grown read⟩, fun same => absurd (same.symm.trans top) other⟩

end
end Graft
