import Graft.Proofs.EditTargets
import Graft.Proofs.TreeGrowth
import Graft.Proofs.WalkOrder

/-! The shape of a tag. A tag opens with its mark, then come its name and type arguments, then its attributes, and
the mark that ends it comes last. So the place of the attributes covers all of them and nothing else that counts. -/

namespace Graft

def Kind.isTag (kind : Kind) : Bool := kind = .jsxOpeningElement || kind = .jsxSelfClosingElement

def Kind.isTagAttribute (kind : Kind) : Bool := kind = .jsxAttribute || kind = .jsxExpression

def Tree.endsTag (tree : Tree) : Bool := tree.isSymbol ['/'] || tree.isSymbol ['/', '>'] || tree.isSymbol ['>']

namespace Letter

/-- A letter up to the name and the type arguments of a tag. -/
def isEarly (letter : Letter) : Bool :=
  letter.single?.any fun kind => !kind.isTagAttribute && (letter.role ≠ some .name || kind ≠ .symbol)

def isLate (letter : Letter) : Bool :=
  letter = ⟨.phrase (.group .tagAttributes), none, none⟩ ||
    letter.single?.any fun kind => kind ≠ .typeArguments && letter.role ≠ some .name

end Letter

/-- The word of a tag: its mark, what comes before the attributes, and the rest. -/
theorem tag_words {kind : Kind} (tag : kind.isTag = true) {word : List Letter} (member : word ∈ (Phrase.node kind).words) :
    ∃ front back, word = ⟨.token (.mark .less), none, none⟩ :: (front ++ back) ∧
      (∀ letter ∈ front, letter.isEarly = true) ∧ ∀ letter ∈ back, letter.isLate = true := by
  have all : ∀ kind ∈ [Kind.jsxOpeningElement, .jsxSelfClosingElement], (Phrase.node kind).words.all (fun word =>
      word.head? = some ⟨.token (.mark .less), none, none⟩ &&
        (word.tail.dropWhile Letter.isEarly).all Letter.isLate) = true := by
    have both : [Kind.jsxOpeningElement, .jsxSelfClosingElement].all (fun kind => (Phrase.node kind).words.all fun word =>
        word.head? = some ⟨.token (.mark .less), none, none⟩ &&
          (word.tail.dropWhile Letter.isEarly).all Letter.isLate) = true := by rfl
    exact List.all_eq_true.mp both
  have listed : kind ∈ [Kind.jsxOpeningElement, .jsxSelfClosingElement] := by simpa [Kind.isTag] using tag
  have known := List.all_eq_true.mp (all kind listed) word member
  simp only [Bool.and_eq_true, decide_eq_true_eq] at known
  obtain ⟨others, rfl⟩ := List.head?_eq_some_iff.mp known.1
  refine ⟨others.takeWhile Letter.isEarly, others.dropWhile Letter.isEarly, ?_,
    fun letter inside => List.all_eq_true.mp List.all_takeWhile letter inside,
    fun letter inside => List.all_eq_true.mp known.2 letter inside⟩
  rw [List.takeWhile_append_dropWhile]

theorem attribute_group : Grammar.nodesOnly [.tagAttributes] = true := by rfl

theorem attribute_kinds : (Grammar.nodesOf [.tagAttributes]).all Kind.isTagAttribute = true := by rfl

theorem Derives.attributes {trees : List Tree} (derived : Derives (.phrase (.group .tagAttributes)) trees) :
    ∀ tree ∈ trees, tree.IsGap ∨ tree.kind.isTagAttribute = true ∧ tree.role = none := by
  intro tree member
  rcases derived.nodes_among attribute_group (by simp) (by rintro group ⟨⟩; simp) (by simp) tree member with gap | node
  · exact .inl gap
  · obtain ⟨kind, inner, listed, -, rfl⟩ := node
    exact .inr ⟨List.all_eq_true.mp attribute_kinds kind listed, rfl⟩

namespace Spelled

theorem split {one two : List Letter} {trees : List Tree} (spelled : Spelled (one ++ two) trees) :
    ∃ first second, trees = first ++ second ∧ Spelled one first ∧ Spelled two second := by
  induction one generalizing trees with
  | nil => exact ⟨[], trees, rfl, .stop (by simp), spelled⟩
  | cons letter one ih =>
    cases spelled with
    | @letter _ _ gap made others between derived rest =>
      obtain ⟨first, second, rfl, front, back⟩ := ih rest
      exact ⟨gap ++ letter.dress made ++ first, second, by simp, .letter between derived front, back⟩

theorem early {word : List Letter} {trees : List Tree} (spelled : Spelled word trees)
    (early : ∀ letter ∈ word, letter.isEarly = true) :
    ∀ tree ∈ trees, tree.kind.isTagAttribute = false ∧ (tree.role = some .name → tree.kind ≠ .symbol) := by
  have gap : ∀ tree : Tree, tree.isTrivia = true → tree.kind.isTagAttribute = false ∧ tree.kind ≠ .symbol := by
    intro tree trivia
    simp only [Tree.isTrivia, Kind.isTrivia, Bool.or_eq_true, decide_eq_true_eq] at trivia
    rcases trivia with (same | same) | same <;> rw [same] <;> exact ⟨rfl, by decide⟩
  intro tree member
  rcases spelled.mem_cases member with blank | ⟨letter, listed, made, derived, dressed⟩
  · exact ⟨(gap tree blank.trivia).1, fun _ => (gap tree blank.trivia).2⟩
  · obtain ⟨kind, single, known⟩ := (Option.any_eq_true _ _).mp (early letter listed)
    simp only [Bool.and_eq_true, Bool.not_eq_true', Bool.or_eq_true, decide_eq_true_eq] at known
    rcases Letter.dress_single single derived tree dressed with ⟨trivia, -⟩ | ⟨rfl, role⟩
    · exact ⟨(gap tree trivia).1, fun _ => (gap tree trivia).2⟩
    · exact ⟨known.1, fun named => known.2.resolve_left fun other => other (role ▸ named)⟩

theorem late {word : List Letter} {trees : List Tree} (spelled : Spelled word trees)
    (late : ∀ letter ∈ word, letter.isLate = true) :
    ∀ tree ∈ trees, tree.kind ≠ .typeArguments ∧ tree.role ≠ some .name := by
  have silent : ∀ tree : Tree, tree.isTrivia = true → tree.role = none →
      tree.kind ≠ .typeArguments ∧ tree.role ≠ some .name := by
    intro tree trivia none
    refine ⟨fun same => ?_, by simp [none]⟩
    rw [Tree.isTrivia, same] at trivia
    cases trivia
  intro tree member
  rcases spelled.mem_cases member with gap | ⟨letter, listed, made, derived, dressed⟩
  · exact silent tree gap.trivia gap.role
  · have known := late letter listed
    simp only [Letter.isLate, Bool.or_eq_true, decide_eq_true_eq] at known
    rcases known with rfl | known
    · rcases derived.attributes tree dressed with gap | ⟨kind, role⟩
      · exact silent tree gap.trivia gap.role
      · refine ⟨fun same => ?_, by simp [role]⟩
        rw [same] at kind
        cases kind
    · obtain ⟨kind, single, known⟩ := (Option.any_eq_true _ _).mp known
      simp only [Bool.and_eq_true, decide_eq_true_eq] at known
      rcases Letter.dress_single single derived tree dressed with ⟨trivia, none⟩ | ⟨rfl, role⟩
      · exact silent tree trivia none
      · exact ⟨known.1, role ▸ known.2⟩

end Spelled

theorem Phrase.CanBe.own {phrase : Phrase} {kind : Kind} (made : phrase.CanBe kind) (unnamed : kind.isRenamed = false) :
    phrase = .node kind := by
  rcases made with own | ⟨outer, word, member, letter, inside, -, rename⟩
  · exact own
  · rw [Phrase.rename_mem member inside rename] at unnamed
    cases unnamed

set_option maxRecDepth 10000 in
theorem tag_unnamed {kind : Kind} (tag : kind.isTag = true) : kind.isRenamed = false := by
  simp only [Kind.isTag, Bool.or_eq_true, decide_eq_true_eq] at tag
  rcases tag with rfl | rfl <;> rfl

namespace Tree.Grown
variable {tree : Tree}

theorem tag_split (grown : tree.Grown) (tag : tree.kind.isTag = true) (filled : tree.children ≠ []) :
    ∃ gap left right, tree.children = gap ++ .leaf none .symbol ['<'] :: (left ++ right) ∧ (∀ tree ∈ gap, tree.IsGap) ∧
      (∀ tree ∈ left, tree.kind.isTagAttribute = false ∧ (tree.role = some .name → tree.kind ≠ .symbol)) ∧
      ∀ tree ∈ right, tree.kind ≠ .typeArguments ∧ tree.role ≠ some .name := by
  obtain ⟨child, inside⟩ := List.exists_mem_of_ne_nil _ filled
  obtain ⟨phrase, word, blank, made, member, spelled, spacing⟩ := grown.word inside
  obtain rfl := made.own (tag_unnamed tag)
  obtain ⟨front, back, rfl, early, late⟩ := tag_words tag member
  obtain ⟨gap, others, between, rest, split⟩ := spelled.mark_cases
  obtain ⟨left, right, rfl, first, second⟩ := rest.split
  rw [show Mark.less.text.toList = ['<'] from rfl] at split
  -- spacing that was left out belongs to the gap
  obtain ⟨inner, rfl, same⟩ : ∃ inner, gap = blank ++ inner ∧
      tree.children = inner ++ .leaf none .symbol ['<'] :: (left ++ right) := by
    rcases List.append_eq_append_iff.mp split with ⟨inner, here, there⟩ | ⟨inner, here, there⟩
    · exact ⟨inner, here, there⟩
    · cases inner with
      | nil => exact ⟨[], by simpa using here.symm, by simpa using there.symm⟩
      | cons tree inner =>
        obtain ⟨rfl, -⟩ := List.cons.inj there
        have never := spacing (.leaf none .symbol ['<']) (by rw [here]; simp)
        cases never
  exact ⟨inner, left, right, same, fun tree member => between tree (List.mem_append_right _ member),
    first.early early, second.late late⟩

end Tree.Grown

/-- The last of a tag's trees ends it, and no other does. -/
theorem closesTag_split {symbol : Text} {trees : List Tree} (closes : closesTag symbol trees = true) :
    ∃ front last, trees = front ++ [last] ∧ last.isSymbol symbol = true ∧ ∀ tree ∈ front, tree.endsTag = false := by
  induction trees with
  | nil => cases closes
  | cons tree trees ih =>
    cases trees with
    | nil => exact ⟨[], tree, rfl, closes, by simp⟩
    | cons other trees =>
      rw [closesTag, Bool.and_eq_true, Bool.not_eq_true'] at closes
      · obtain ⟨front, last, split, ends, plain⟩ := ih closes.2
        refine ⟨tree :: front, last, by rw [split]; rfl, ends, fun inner member => ?_⟩
        rcases List.mem_cons.mp member with rfl | member
        · exact closes.1
        · exact plain inner member
      · simp

/-! ### The place of the attributes -/

namespace Node

theorem children_apart {node first second : Node} (one : first ∈ node.children) (two : second ∈ node.children) :
    first = second ∨ first.stop ≤ second.start ∨ second.stop ≤ first.start := by
  have ordered := node.children_ordered
  generalize node.children = children at one two ordered
  induction children with
  | nil => cases one
  | cons child children ih =>
    obtain ⟨before, ordered⟩ := List.pairwise_cons.mp ordered
    rcases List.mem_cons.mp one with rfl | here <;> rcases List.mem_cons.mp two with rfl | there
    · exact .inl rfl
    · exact .inr (.inl (before _ there))
    · exact .inr (.inr (before _ here))
    · exact ih here there ordered

/-- The name and the type arguments of a tag stand before a place in it, and its attributes behind that place. -/
theorem tag_places (node : Node) {gap left right : List Tree}
    (split : node.tree.children = gap ++ .leaf none .symbol ['<'] :: (left ++ right)) (gaps : ∀ tree ∈ gap, tree.IsGap)
    (early : ∀ tree ∈ left, tree.kind.isTagAttribute = false ∧ (tree.role = some .name → tree.kind ≠ .symbol))
    (late : ∀ tree ∈ right, tree.kind ≠ .typeArguments ∧ tree.role ≠ some .name) :
    (∀ child ∈ node.children, child.kind = .typeArguments ∨ child.tree.role = some .name →
      child.kind ≠ .symbol ∧ child.stop ≤ node.start + Forest.bytes (gap ++ .leaf none .symbol ['<'] :: left)) ∧
    ∀ child ∈ node.children, child.kind.isTagAttribute = true →
      node.start + Forest.bytes (gap ++ .leaf none .symbol ['<'] :: left) ≤ child.start := by
  have sides : ∀ child ∈ node.children, child ∈ place node.start (gap ++ .leaf none .symbol ['<'] :: left) ∨
      child ∈ place (node.start + Forest.bytes (gap ++ .leaf none .symbol ['<'] :: left)) right := by
    intro child inside
    have placed := mem_children inside
    rw [split, ← List.cons_append, ← List.append_assoc, place_append] at placed
    exact List.mem_append.mp placed
  have head : ∀ tree ∈ gap ++ .leaf none .symbol ['<'] :: left,
      tree.kind.isTagAttribute = false ∧ (tree.role = some .name → tree.kind ≠ .symbol) := by
    intro tree member
    rcases List.mem_append.mp member with member | member
    · obtain ⟨kind, text, rfl, ⟨rfl, -⟩ | ⟨rfl, -⟩ | ⟨rfl, -⟩⟩ := gaps tree member <;> exact ⟨rfl, by simp [Tree.role]⟩
    · rcases List.mem_cons.mp member with rfl | member
      · exact ⟨rfl, by simp [Tree.role]⟩
      · exact early tree member
  constructor
  · intro child inside counts
    rcases sides child inside with placed | placed
    · refine ⟨?_, place_stop_le placed⟩
      obtain ⟨_, _, same, -⟩ := mem_place placed
      rcases counts with arguments | played
      · rw [arguments]
        decide
      · exact (head child.tree (by rw [same]; simp)).2 played
    · obtain ⟨_, _, same, -⟩ := mem_place placed
      obtain ⟨other, silent⟩ := late child.tree (by rw [same]; simp)
      rcases counts with arguments | played
      · exact absurd arguments other
      · exact absurd played silent
  · intro child inside kind
    rcases sides child inside with placed | placed
    · obtain ⟨_, _, same, -⟩ := mem_place placed
      rw [Node.kind, (head child.tree (by rw [same]; simp)).1] at kind
      cases kind
    · exact place_le placed

end Node

namespace OpeningTag

theorem attributesSpan_cons (start : Nat) (child : Node) (children : List Node) :
    attributesSpan?.go start (child :: children) =
      if child.kind = .typeArguments then attributesSpan?.go child.stop children
      else if child.tree.endsTag then some ⟨start, child.start⟩ else attributesSpan?.go start children := rfl

/-- The search passes by all but the last child, and starts again behind type arguments. -/
theorem attributesSpan_closed {start : Nat} {front : List Node} {last : Node}
    (ordered : front.Pairwise fun first second => first.stop ≤ second.start) (later : ∀ child ∈ front, start ≤ child.start)
    (plain : ∀ child ∈ front, child.tree.endsTag = false) (ends : last.tree.endsTag = true)
    (other : last.kind ≠ .typeArguments) :
    ∃ first, attributesSpan?.go start (front ++ [last]) = some ⟨first, last.start⟩ ∧ start ≤ first ∧
      (∀ child ∈ front, child.kind = .typeArguments → child.stop ≤ first) ∧
      (first = start ∨ ∃ child ∈ front, child.kind = .typeArguments ∧ first = child.stop) := by
  induction front generalizing start with
  | nil =>
    refine ⟨start, ?_, Nat.le_refl _, by simp, .inl rfl⟩
    rw [List.nil_append, attributesSpan_cons, if_neg other, if_pos ends]
  | cons child front ih =>
    obtain ⟨before, ordered⟩ := List.pairwise_cons.mp ordered
    obtain ⟨here, later⟩ := List.forall_mem_cons.mp later
    obtain ⟨goesOn, plain⟩ := List.forall_mem_cons.mp plain
    have wide := Node.Stands.start_le_stop child
    rw [List.cons_append, attributesSpan_cons]
    split
    next arguments =>
      obtain ⟨first, found, le, covers, reached⟩ := ih ordered before plain
      refine ⟨first, found, by omega, List.forall_mem_cons.mpr ⟨fun _ => le, covers⟩, .inr ?_⟩
      rcases reached with rfl | ⟨child, inside, same⟩
      · exact ⟨child, List.mem_cons_self .., arguments, rfl⟩
      · exact ⟨child, List.mem_cons_of_mem _ inside, same⟩
    next never =>
      rw [goesOn, if_neg Bool.false_ne_true]
      obtain ⟨first, found, le, covers, reached⟩ := ih ordered later plain
      refine ⟨first, found, le, List.forall_mem_cons.mpr ⟨fun same => absurd same never, covers⟩, ?_⟩
      exact reached.imp_right fun ⟨child, inside, same⟩ => ⟨child, List.mem_cons_of_mem _ inside, same⟩

/-- A span in a tag that covers its attributes: it starts behind the name and the type arguments, and it ends where
the mark that ends the tag starts. -/
structure Covers (it : OpeningTag) (span : Span) : Prop where
  name : ∀ name, it.node.child? .name = some name → name.stop ≤ span.start
  arguments : ∀ child ∈ it.node.children, child.kind = .typeArguments → child.stop ≤ span.start
  ordered : span.start ≤ span.stop
  inside : it.node.start ≤ span.start ∧ span.stop ≤ it.node.stop
  closes : ∃ front last, it.node.children = front ++ [last] ∧
    last.tree.isSymbol (if it.closesItself then ['/', '>'] else ['>']) = true ∧ span.stop = last.start
  attributes : ∀ entry ∈ it.attributes, span.start ≤ entry.node.start ∧ entry.node.stop ≤ span.stop

theorem closes_last {it : OpeningTag} (sound : it.node.tree.sound = true) (tag : it.node.kind.isTag = true)
    (filled : it.node.tree.children ≠ []) :
    ∃ front last, it.node.tree.children = front ++ [last] ∧
      last.isSymbol (if it.closesItself then ['/', '>'] else ['>']) = true ∧ ∀ tree ∈ front, tree.endsTag = false := by
  have closes : ∀ tree : Tree, tree.sound = true → tree.kind.isTag = true → tree.children ≠ [] →
      closesTag (if tree.kind = .jsxSelfClosingElement then ['/', '>'] else ['>']) tree.children = true := by
    intro tree sound tag filled
    cases tree with
    | leaf => exact absurd rfl filled
    | node role kind children =>
      rw [Tree.sound, Bool.and_eq_true] at sound
      simp only [Kind.isTag, Bool.or_eq_true, decide_eq_true_eq] at tag
      rcases tag with same | same <;> cases same <;> exact sound.1
  have found := closesTag_split (closes it.node.tree sound tag filled)
  simp only [closesItself, decide_eq_true_eq]
  exact found

theorem endsTag_of_closes {it : OpeningTag} {tree : Tree}
    (closes : tree.isSymbol (if it.closesItself then ['/', '>'] else ['>']) = true) : tree.endsTag = true := by
  unfold Tree.endsTag
  split at closes <;> simp [closes]

/-- The children of a tag: those before the mark that ends it, and that mark. -/
theorem children_closed {it : OpeningTag} (sound : it.node.tree.sound = true) (tag : it.node.kind.isTag = true)
    (filled : it.node.tree.children ≠ []) :
    ∃ others final, it.node.children = others ++ [final] ∧ final.kind = .symbol ∧
      final.tree.isSymbol (if it.closesItself then ['/', '>'] else ['>']) = true ∧ final.start ≤ it.node.stop ∧
      (others.Pairwise fun first second => first.stop ≤ second.start) ∧
      ∀ child ∈ others, child.stop ≤ final.start ∧ child.tree.endsTag = false := by
  obtain ⟨front, last, whole, ends, plain⟩ := closes_last sound tag filled
  have symbol : last.kind = .symbol := by
    obtain ⟨role, rfl⟩ := Tree.eq_leaf_of_isSymbol ends
    rfl
  refine ⟨(Node.place it.node.start front).filter fun child => child.kind ≠ .spacing,
    ⟨it.node.start + Forest.bytes front, last⟩, ?_, symbol, ends, ?_, (Node.place_ordered _ _).filter _, ?_⟩
  · rw [Node.children, whole, Node.place_append, List.filter_append]
    congr 1
    rw [Node.place, Node.place, List.filter_cons, if_pos (by simp [Node.kind, symbol]), List.filter_nil]
  · rw [Node.stop_of_children filled, whole, Forest.bytes_append]
    dsimp only
    omega
  · intro child inside
    have placed := (List.mem_filter.mp inside).1
    obtain ⟨_, _, same, -⟩ := Node.mem_place placed
    exact ⟨Node.place_stop_le placed, plain child.tree (by rw [same]; simp)⟩

theorem attributesSpan?_covers {it : OpeningTag} {name : Node} (grown : it.node.tree.Grown)
    (sound : it.node.tree.sound = true) (tag : it.node.kind.isTag = true) (named : it.node.child? .name = some name) :
    ∃ span, it.attributesSpan? = some span ∧ it.Covers span := by
  obtain ⟨listed, played⟩ := Node.child?_mem named
  have filled : it.node.tree.children ≠ [] := by
    intro none
    rw [Node.children, none] at listed
    cases listed
  obtain ⟨gap, left, right, split, gaps, early, late⟩ := grown.tag_split tag filled
  obtain ⟨others, final, children, symbol, ends, inside, ordered, before⟩ := children_closed sound tag filled
  have among : ∀ {child : Node}, child ∈ it.node.children → child.kind ≠ .symbol → child ∈ others := by
    intro child inside kind
    rw [children] at inside
    rcases List.mem_append.mp inside with inside | inside
    · exact inside
    · rw [List.mem_singleton.mp inside] at kind
      exact absurd symbol kind
  obtain ⟨early', late'⟩ := it.node.tag_places split gaps early late
  obtain ⟨kind, narrow⟩ := early' name listed (.inr played)
  have ahead := (before name (among listed kind)).1
  -- the search goes on behind the name
  have rest : it.node.children.filter (fun child => name.stop ≤ child.start) =
      others.filter (fun child => name.stop ≤ child.start) ++ [final] := by
    rw [children, List.filter_append, List.filter_cons, if_pos (by simpa using ahead), List.filter_nil]
  have behind : ∀ child ∈ others.filter (fun child => name.stop ≤ child.start), name.stop ≤ child.start :=
    fun child inside => by simpa using (List.mem_filter.mp inside).2
  have other : final.kind ≠ .typeArguments := by
    rw [symbol]
    decide
  obtain ⟨first, found, le, covers, reached⟩ := attributesSpan_closed (ordered.filter _) behind
    (fun child inside => (before child (List.mem_filter.mp inside).1).2) (endsTag_of_closes ends) other
  have small : first ≤ it.node.start + Forest.bytes (gap ++ .leaf none .symbol ['<'] :: left) := by
    rcases reached with rfl | ⟨child, inside, arguments, rfl⟩
    · exact narrow
    · have member : child ∈ it.node.children := by
        rw [children]
        exact List.mem_append_left _ (List.mem_filter.mp inside).1
      exact (early' child member (.inl arguments)).2
  have short : first ≤ final.start := by
    rcases reached with rfl | ⟨child, inside, -, rfl⟩
    · exact ahead
    · exact (before child (List.mem_filter.mp inside).1).1
  have wide := Node.Stands.start_le_stop name
  have start := Node.place_le (Node.mem_children listed)
  refine ⟨⟨first, final.start⟩, ?_, ?_, ?_, short, ⟨by dsimp only; omega, inside⟩,
    ⟨others, final, children, ends, rfl⟩, ?_⟩
  · rw [attributesSpan?, named]
    dsimp only
    rw [rest]
    exact found
  · intro other again
    cases named.symm.trans again
    exact le
  · intro child inside arguments
    obtain ⟨kind, -⟩ := early' child inside (.inl arguments)
    rcases Node.children_apart listed inside with rfl | behind | ahead
    · exact le
    · exact covers child (List.mem_filter.mpr ⟨among inside kind, by simpa using behind⟩) arguments
    · dsimp only
      omega
  · intro entry member
    obtain ⟨child, inside, rfl⟩ := List.mem_map.mp member
    obtain ⟨inside, kind⟩ := List.mem_filter.mp inside
    have inside := (Node.mem_namedChildren inside).1
    have symbol' : child.kind ≠ .symbol := by
      intro same
      rw [same] at kind
      cases kind
    exact ⟨Nat.le_trans small (late' child inside kind), (before child (among inside symbol')).1⟩

end OpeningTag

end Graft
