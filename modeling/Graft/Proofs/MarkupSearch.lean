import Graft.Proofs.TagShapes
import Mathlib.Data.List.Basic

/-! Two searches for the first element with a name. One looks for the whole element and one for the tag that opens it.
Tags come in the order of their elements, because the tag that opens an element is its first child, so both searches
come to the same element, and it is the one that starts first. -/

namespace Graft

/-! ### Where tags that open an element stand -/

set_option maxRecDepth 10000 in
theorem opening_own : Kind.IsOwn .jsxOpeningElement := ⟨rfl, rfl, rfl⟩

set_option maxRecDepth 10000 in
/-- Only elements have a letter for a tag that opens them, and no letter gives an element another kind. -/
theorem element_letters : Grammar.allLetters (fun phrase letter =>
    (letter.symbol ≠ .phrase (.node .jsxOpeningElement) || phrase = .node .jsxElement) &&
      (letter.symbol ≠ .phrase (.node .jsxElement) || letter.rename = none)) = true := by rfl

theorem Tree.Grown.kind_of_opening {tree child : Tree} (grown : tree.Grown) (inside : child ∈ tree.children)
    (opens : child.kind = .jsxOpeningElement) : tree.kind = .jsxElement := by
  obtain ⟨phrase, word, blank, made, member, spelled, -⟩ := grown.word inside
  obtain ⟨letter, listed, symbol⟩ :=
    Spelled.letter_of_kind opening_own member spelled (List.mem_append_right blank inside) opens
  have known := (Bool.and_eq_true_iff.mp (Phrase.letter_passes element_letters member listed)).1
  simp only [symbol, ne_eq, not_true, decide_false, Bool.false_or, decide_eq_true_eq] at known
  subst known
  rcases made with own | ⟨outer, other, known, letter, listed, symbol, rename⟩
  · exact (Phrase.node.inj own).symm
  · have kept := Phrase.letter_passes element_letters known listed
    simp [symbol, rename] at kept

namespace Node

/-- The tree of a node was made by the grammar and is admitted. -/
structure Grows (node : Node) : Prop where
  grown : node.tree.Grown
  sound : node.tree.sound = true

theorem Grows.child {node child : Node} (grows : node.Grows) (inside : child ∈ node.children) : child.Grows := by
  have member := tree_mem inside
  refine ⟨grows.grown.child member, ?_⟩
  have sound := grows.sound
  cases shape : node.tree with
  | leaf => simp [shape, Tree.children] at member
  | node role kind trees =>
    rw [shape, Tree.sound, Bool.and_eq_true] at sound
    rw [shape, Tree.children] at member
    exact Forest.sound_of_mem sound.2 member

theorem Grows.inner {node inner : Node} (grows : node.Grows) (member : inner ∈ node.nodes) : inner.Grows :=
  nodes_keep (fun _ above _ inside => above.child inside) grows inner member

/-- The tag that opens an element is the first of its children, at the same place, and no other is such a tag. -/
theorem opening_first {node opening : Node} (sound : node.tree.sound = true) (kind : node.kind = .jsxElement)
    (found : node.childOfKind? .jsxOpeningElement = some opening) :
    ∃ others, node.children = opening :: others ∧ opening.start = node.start ∧
      ∀ child ∈ others, child.kind ≠ .jsxOpeningElement := by
  obtain ⟨inside, opens⟩ := childOfKind?_mem found
  obtain ⟨first, rest, split, opens', others⟩ : ∃ first rest, node.tree.children = first :: rest ∧
      first.kind = .jsxOpeningElement ∧ ∀ tree ∈ rest, tree.kind ≠ .jsxOpeningElement := by
    cases shape : node.tree with
    | leaf => simp [children, shape, Tree.children, place] at inside
    | node role own trees =>
      rw [Node.kind, shape, Tree.kind] at kind
      subst kind
      rw [shape, Tree.sound, Bool.and_eq_true] at sound
      cases trees with
      | nil => simp [Kind.admits] at sound
      | cons first rest =>
        simp only [Kind.admits, Bool.and_eq_true, decide_eq_true_eq, List.all_eq_true] at sound
        exact ⟨first, rest, rfl, sound.1⟩
  have listed : node.children = ⟨node.start, first⟩ ::
      (place (node.start + first.bytes) rest).filter fun child => child.kind ≠ .spacing := by
    rw [children, split, place, List.filter_cons, if_pos (by simp [Node.kind, opens'])]
  have plain : ∀ child ∈ (place (node.start + first.bytes) rest).filter fun child => child.kind ≠ .spacing,
      child.kind ≠ .jsxOpeningElement := by
    intro child member
    obtain ⟨_, _, same, -⟩ := mem_place (List.mem_filter.mp member).1
    exact others child.tree (by simp [same])
  rw [childOfKind?, listed, List.find?_cons_of_pos (by simp [Node.kind, opens'])] at found
  cases found
  exact ⟨_, listed, rfl, plain⟩

/-! ### Elements and tags in document order -/

def elementNamed? (node : Node) (tag : Text) : Option Element :=
  match node.construct with
  | .element it => if it.name? = some tag then some it else none
  | _ => none

def elementSlot? (node : Node) (tag : Text) : Option AttributeSlot :=
  (node.elementNamed? tag).bind fun it => it.opening?.bind fun opening => opening.slot? tag

def tagSlot? (node : Node) (tag : Text) : Option AttributeSlot :=
  node.openingTag?.bind fun it => it.slot? tag

variable {node : Node} {tag : Text}

theorem elementTarget?_eq (node : Node) (tag : Text) :
    node.elementTarget? tag = (node.elementNamed? tag).map fun it => it.node.span := by
  rw [elementTarget?, elementNamed?]
  cases node.construct
  case element it =>
    dsimp only
    split <;> rfl
  all_goals rfl

theorem elementNamed?_kind {it : Element} (found : node.elementNamed? tag = some it) :
    node.kind = .jsxElement ∨ node.kind = .jsxSelfClosingElement := by
  unfold elementNamed? construct at found
  split at found
  next same =>
    split at same
    all_goals first
      | exact .inl ‹_›
      | exact .inr ‹_›
      | cases same
      | (split at same <;> cases same)
  next => cases found

theorem elementNamed?_closed (kind : node.kind = .jsxSelfClosingElement) :
    node.elementNamed? tag = if (OpeningTag.mk node).name? = some tag then some ⟨node⟩ else none := by
  simp [elementNamed?, construct, kind, Element.name?, Element.opening?, Element.closesItself]

theorem elementNamed?_opened (kind : node.kind = .jsxElement) {opening : Node}
    (found : node.childOfKind? .jsxOpeningElement = some opening) :
    node.elementNamed? tag = if (OpeningTag.mk opening).name? = some tag then some ⟨node⟩ else none := by
  have said : ∀ name, (OpeningTag.mk opening).name? = some name → opening.isNamedTag = true := by
    intro name called
    obtain ⟨inner, listed, -⟩ := Option.map_eq_some_iff.mp called
    rw [isNamedTag, listed]
    rfl
  have name : (Element.mk node).name? = (OpeningTag.mk opening).name? := by
    simp [Element.name?, Element.opening?, Element.closesItself, kind, found]
  cases named : opening.isNamedTag with
  | true => simp [elementNamed?, construct, kind, found, named, name]
  | false =>
    rw [if_neg fun called => by rw [said tag called] at named; cases named]
    simp [elementNamed?, construct, kind, found, named]

/-- An element with a name closes itself, or a tag with the name opens it. -/
theorem elementNamed?_cases {it : Element} (found : node.elementNamed? tag = some it) :
    it = ⟨node⟩ ∧ ∃ opening, it.opening? = some ⟨opening⟩ ∧ (OpeningTag.mk opening).name? = some tag ∧
      (opening = node ∧ node.kind = .jsxSelfClosingElement ∨
        node.kind = .jsxElement ∧ node.childOfKind? .jsxOpeningElement = some opening) := by
  rcases elementNamed?_kind found with kind | kind
  · cases opened : node.childOfKind? .jsxOpeningElement with
    | none =>
      rw [elementNamed?, construct, kind] at found
      simp [opened] at found
    | some opening =>
      rw [elementNamed?_opened kind opened] at found
      split at found
      next named =>
        cases found
        exact ⟨rfl, opening, by simp [Element.opening?, Element.closesItself, kind, opened], named, .inr ⟨kind, rfl⟩⟩
      next => cases found
  · rw [elementNamed?_closed kind] at found
    split at found
    next named =>
      cases found
      exact ⟨rfl, node, by simp [Element.opening?, Element.closesItself, kind], named, .inl ⟨rfl, kind⟩⟩
    next => cases found

theorem elementSlot?_none (other : node.kind ≠ .jsxElement ∧ node.kind ≠ .jsxSelfClosingElement) :
    node.elementSlot? tag = none := by
  cases found : node.elementNamed? tag with
  | none => rw [elementSlot?, found, Option.bind_none]
  | some it => exact absurd (elementNamed?_kind found) (by simp [other])

theorem openingTag?_kind {it : OpeningTag} (found : node.openingTag? = some it) :
    node.kind = .jsxOpeningElement ∨ node.kind = .jsxSelfClosingElement := by
  have view := node.construct_node
  unfold openingTag? at found
  split at found
  next same =>
    unfold construct at same
    split at same
    all_goals first
      | exact .inl ‹_›
      | cases same
      | (split at same <;> cases same)
  next same =>
    rw [same] at view
    split at found
    next closes =>
      cases view
      exact .inr (of_decide_eq_true closes)
    next => cases found
  next => cases found

theorem tagSlot?_none (other : node.kind ≠ .jsxOpeningElement ∧ node.kind ≠ .jsxSelfClosingElement) :
    node.tagSlot? tag = none := by
  cases opens : node.openingTag? with
  | none => rw [tagSlot?, opens, Option.bind_none]
  | some it => exact absurd (openingTag?_kind opens) (by simp [other])

theorem slots_closed (kind : node.kind = .jsxSelfClosingElement) : node.tagSlot? tag = node.elementSlot? tag := by
  have opening : (Element.mk node).opening? = some ⟨node⟩ := by simp [Element.opening?, Element.closesItself, kind]
  have opens : node.openingTag? = some ⟨node⟩ := by simp [openingTag?, construct, kind, Element.closesItself, opening]
  rw [tagSlot?, opens, Option.bind_some, elementSlot?, elementNamed?_closed kind]
  split
  · rw [Option.bind_some, opening, Option.bind_some]
  · rw [OpeningTag.slot?, if_neg ‹_›, Option.bind_none]

theorem slots_opened (kind : node.kind = .jsxElement) {opening : Node}
    (found : node.childOfKind? .jsxOpeningElement = some opening) : opening.tagSlot? tag = node.elementSlot? tag := by
  have opened : (Element.mk node).opening? = some ⟨opening⟩ := by
    simp [Element.opening?, Element.closesItself, kind, found]
  have opens : opening.openingTag? = if opening.isNamedTag then some ⟨opening⟩ else none := by
    rw [openingTag?, construct, (childOfKind?_mem found).2]
    cases opening.isNamedTag <;> rfl
  rw [tagSlot?, opens, elementSlot?, elementNamed?_opened kind found]
  by_cases called : (OpeningTag.mk opening).name? = some tag
  · obtain ⟨name, listed, -⟩ := Option.map_eq_some_iff.mp called
    have named : opening.isNamedTag = true := by
      rw [isNamedTag, listed]
      rfl
    rw [if_pos named, if_pos called, Option.bind_some, Option.bind_some, opened, Option.bind_some]
  · rw [if_neg called, Option.bind_none]
    cases opening.isNamedTag
    · rfl
    · rw [if_pos rfl, Option.bind_some, OpeningTag.slot?, if_neg called]

/-- Tags are found in the order of their elements, a tag at the root apart. -/
theorem slots_eq (tag : Text) (grows : node.Grows) : node.nodes.filterMap (fun inner => inner.tagSlot? tag) =
    (if node.kind = .jsxOpeningElement then (node.tagSlot? tag).toList else []) ++
      node.nodes.filterMap fun inner => inner.elementSlot? tag := by
  have cons : ∀ (find : Node → Option AttributeSlot) (first : Node) (others : List Node),
      (first :: others).filterMap find = (find first).toList ++ others.filterMap find := by
    intro find first others
    cases found : find first <;> simp [found]
  induction node using byChildren with
  | step node ih =>
    have below : ∀ children : List Node, (∀ child ∈ children, child ∈ node.children ∧ child.kind ≠ .jsxOpeningElement) →
        (children.flatMap nodes).filterMap (fun inner => inner.tagSlot? tag) =
          (children.flatMap nodes).filterMap fun inner => inner.elementSlot? tag := by
      intro children inside
      rw [List.filterMap_flatMap, List.filterMap_flatMap]
      refine List.flatMap_congr fun child member => ?_
      obtain ⟨listed, plain⟩ := inside child member
      rw [ih child listed (grows.child listed), if_neg plain, List.nil_append]
    rw [nodes_eq node, cons, cons]
    cases found : node.childOfKind? .jsxOpeningElement with
    | some opening =>
      -- the tag is found one node behind its element
      obtain ⟨listed, opens⟩ := childOfKind?_mem found
      have kind : node.kind = .jsxElement := grows.grown.kind_of_opening (tree_mem listed) opens
      obtain ⟨others, children, -, plain⟩ := opening_first grows.sound kind found
      have rest := below others fun child member => ⟨by rw [children]; simp [member], plain child member⟩
      rw [children, List.flatMap_cons, List.filterMap_append, List.filterMap_append, rest,
        ih opening listed (grows.child listed), if_pos opens, slots_opened kind found,
        tagSlot?_none (by simp [kind]), if_neg (by simp [kind])]
      simp
    | none =>
      have plain : ∀ child ∈ node.children, child.kind ≠ .jsxOpeningElement := by
        intro child member opens
        have never := List.find?_eq_none.mp found child member
        simp [opens] at never
      rw [below node.children fun child member => ⟨member, plain child member⟩, ← List.append_assoc]
      congr 1
      by_cases opens : node.kind = .jsxOpeningElement
      · rw [if_pos opens, elementSlot?_none (by simp [opens])]
        simp
      · rw [if_neg opens, List.nil_append]
        by_cases closed : node.kind = .jsxSelfClosingElement
        · rw [slots_closed closed]
        · rw [tagSlot?_none ⟨opens, closed⟩]
          cases named : node.elementNamed? tag with
          | none => rw [elementSlot?, named, Option.bind_none]
          | some it =>
            obtain ⟨-, opening, -, -, ⟨-, kind⟩ | ⟨-, listed⟩⟩ := elementNamed?_cases named
            · exact absurd kind closed
            · rw [found] at listed
              cases listed

/-! ### Where elements start -/

theorem nodes_of_leaf {leaf : Node} (none : leaf.tree.children = []) : leaf.nodes = [leaf] := by
  rw [nodes_eq, children, none]
  rfl

theorem tag_start (grown : node.tree.Grown) (tag : node.kind.isTag = true) (filled : node.tree.children ≠ []) :
    node.start < node.stop ∧ ∀ child ∈ node.children, ∀ inner ∈ child.nodes,
      inner.kind.isLeaf = false → node.start < inner.start := by
  obtain ⟨gap, left, right, split, gaps, -, -⟩ := grown.tag_split tag filled
  have mark : Forest.bytes [.leaf none .symbol ['<']] = 1 := by
    simp [Forest.bytes, Tree.bytes, Text.bytes, Char.utf8Size]
  rw [← List.singleton_append, ← List.append_assoc] at split
  constructor
  · rw [stop_of_children filled, split, Forest.bytes_append, Forest.bytes_append, mark]
    omega
  · intro child inside inner member solid
    have placed := mem_children inside
    rw [split, place_append] at placed
    rcases List.mem_append.mp placed with placed | placed
    · -- gaps and the mark have nothing below them
      obtain ⟨_, _, same, -⟩ := mem_place placed
      have leaf : child.tree.kind.isLeaf = true ∧ child.tree.children = [] := by
        have listed : child.tree ∈ gap ++ [Tree.leaf none .symbol ['<']] := by rw [same]; simp
        rcases List.mem_append.mp listed with listed | listed
        · obtain ⟨kind, text, shape, -⟩ := gaps _ listed
          exact ⟨(gaps _ listed).isLeaf, by rw [shape]; rfl⟩
        · rw [List.mem_singleton.mp listed]
          exact ⟨rfl, rfl⟩
      rw [nodes_of_leaf leaf.2, List.mem_singleton] at member
      rw [member, Node.kind, leaf.1] at solid
      cases solid
    · have start := place_le placed
      have within := (nodes_inside inner member).1
      rw [Forest.bytes_append, mark] at start
      omega

theorem elementNamed?_isLeaf {it : Element} (found : node.elementNamed? tag = some it) : node.kind.isLeaf = false := by
  rcases elementNamed?_kind found with kind | kind <;> rw [kind] <;> rfl

theorem filled_of_name {name : Text} (called : (OpeningTag.mk node).name? = some name) : node.tree.children ≠ [] := by
  obtain ⟨inner, listed, -⟩ := Option.map_eq_some_iff.mp called
  intro none
  have placed := mem_children (child?_mem listed).1
  rw [none] at placed
  cases placed

/-- An element starts before all elements in it. -/
theorem element_start {it : Element} (grows : node.Grows) (found : node.elementNamed? tag = some it) :
    node.start < node.stop ∧ ∀ child ∈ node.children, ∀ inner ∈ child.nodes, ∀ other,
      inner.elementNamed? tag = some other → node.start < inner.start := by
  obtain ⟨-, opening, -, called, ⟨rfl, kind⟩ | ⟨kind, listed⟩⟩ := elementNamed?_cases found
  · obtain ⟨wide, behind⟩ := tag_start grows.grown (by simp [Kind.isTag, kind]) (filled_of_name called)
    exact ⟨wide, fun child inside inner member other seen => behind child inside inner member (elementNamed?_isLeaf seen)⟩
  · obtain ⟨inside, opens⟩ := childOfKind?_mem listed
    obtain ⟨others, children, start, -⟩ := opening_first grows.sound kind listed
    obtain ⟨wide, behind⟩ := tag_start (grows.child inside).grown (by simp [Kind.isTag, opens]) (filled_of_name called)
    have within := (nodes_inside opening (mem_nodes_of_child inside opening.mem_nodes)).2
    refine ⟨by omega, fun child member inner below other seen => ?_⟩
    have solid := elementNamed?_isLeaf seen
    rw [children] at member
    rcases List.mem_cons.mp member with rfl | member
    · rw [nodes_eq] at below
      rcases List.mem_cons.mp below with rfl | below
      · rcases elementNamed?_kind seen with same | same <;> rw [opens] at same <;> cases same
      · obtain ⟨next, here, below⟩ := List.mem_flatMap.mp below
        have := behind next here inner below solid
        omega
    · have ordered := node.children_ordered
      rw [children] at ordered
      have := (List.pairwise_cons.mp ordered).1 child member
      have := (nodes_inside inner below).1
      omega

/-- Elements come in the order in which they start. -/
theorem elements_ordered (tag : Text) (grows : node.Grows) : node.nodes.Pairwise fun first second =>
    (first.elementNamed? tag).isSome → (second.elementNamed? tag).isSome → first.start < second.start := by
  induction node using byChildren with
  | step node ih =>
    rw [nodes_eq node, List.pairwise_cons, List.pairwise_flatMap]
    refine ⟨fun inner member one two => ?_, fun child inside => ih child inside (grows.child inside), ?_⟩
    · obtain ⟨it, found⟩ := Option.isSome_iff_exists.mp one
      obtain ⟨other, seen⟩ := Option.isSome_iff_exists.mp two
      obtain ⟨child, inside, member⟩ := List.mem_flatMap.mp member
      exact (element_start grows found).2 child inside inner member other seen
    · refine node.children_ordered.imp_of_mem fun {first second} here there apart inner below other above one two => ?_
      obtain ⟨it, found⟩ := Option.isSome_iff_exists.mp one
      have wide := (element_start ((grows.child here).inner below) found).1
      have left := (nodes_inside inner below).2
      have right := (nodes_inside other above).1
      omega

end Node

/-! ### Both searches -/

namespace Program
variable {source : Text} {program : Program}

theorem root_grows (read : Program.parse source = .ok program) : program.root.Grows := ⟨root_grown read, program.sound⟩

/-- An element with a name stands somewhere in a program. -/
def HasElement (program : Program) (tag : Text) (element : Element) : Prop :=
  element.node ∈ program.root.nodes ∧ element.node.construct = .element element ∧ element.name? = some tag

def elementsNamed (program : Program) (tag : Text) : List Element :=
  program.root.nodes.filterMap fun node => node.elementNamed? tag

theorem hasElement_iff {tag : Text} {element : Element} :
    program.HasElement tag element ↔ element.node ∈ program.root.nodes ∧ element.node.elementNamed? tag = some element := by
  refine and_congr_right fun _ => ⟨fun ⟨view, named⟩ => ?_, fun found => ?_⟩
  · rw [Node.elementNamed?, view]
    exact if_pos named
  · unfold Node.elementNamed? at found
    split at found
    next view =>
      split at found
      next named =>
        cases found
        exact ⟨view, named⟩
      next => cases found
    next => cases found

theorem mem_elementsNamed {tag : Text} {element : Element} :
    element ∈ program.elementsNamed tag ↔ program.HasElement tag element := by
  rw [hasElement_iff, elementsNamed, List.mem_filterMap]
  constructor
  · rintro ⟨node, member, found⟩
    obtain ⟨rfl, -⟩ := Node.elementNamed?_cases found
    exact ⟨member, found⟩
  · rintro ⟨member, found⟩
    exact ⟨element.node, member, found⟩

/-- A walk that looks at named nodes only passes by nothing that it looks for. -/
theorem findFirst?_head {β : Type} {find : Node → Option β} (named : ∀ node found, find node = some found → node.isNamed = true) :
    program.root.findFirst? find = (program.root.nodes.filterMap find).head? := by
  rw [Node.findFirst?_eq, ← List.head?_filterMap, List.filterMap_filter]
  congr 1
  refine List.filterMap_congr fun node _ => ?_
  cases found : find node with
  | none => split <;> rfl
  | some other => rw [if_pos (named node other found)]

theorem elementNamed?_head (program : Program) (tag : Text) :
    program.elementNamed? tag = (program.elementsNamed tag).head?.map fun it => it.node.span := by
  have same : (fun node : Node => node.elementTarget? tag) = fun node => (node.elementNamed? tag).map fun it => it.node.span :=
    funext fun node => node.elementTarget?_eq tag
  rw [elementNamed?, same, findFirst?_head, elementsNamed, ← List.head?_map, List.map_filterMap]
  intro node span found
  obtain ⟨it, found, -⟩ := Option.map_eq_some_iff.mp found
  rcases Node.elementNamed?_kind found with kind | kind <;> rw [Node.isNamed, kind] <;> rfl

theorem attributesOf?_head (read : Program.parse source = .ok program) (tag : Text) :
    program.attributesOf? tag =
      ((program.elementsNamed tag).filterMap fun it => it.opening?.bind fun opening => opening.slot? tag).head? := by
  have root : program.root.kind ≠ .jsxOpeningElement := by
    obtain ⟨-, forest, -, tree⟩ := parse_ok read
    rw [Node.kind, show program.root.tree = .node none .program forest from tree, Tree.kind]
    decide
  have slots := Node.slots_eq tag (root_grows read)
  rw [if_neg root, List.nil_append] at slots
  rw [attributesOf?, elementsNamed, List.filterMap_filterMap]
  refine (findFirst?_head fun node slot found => ?_).trans (congrArg List.head? slots)
  obtain ⟨it, opens, -⟩ := Option.bind_eq_some_iff.mp found
  rcases Node.openingTag?_kind opens with kind | kind <;> rw [Node.isNamed, kind] <;> rfl

theorem elementsNamed_ordered (read : Program.parse source = .ok program) (tag : Text) :
    (program.elementsNamed tag).Pairwise fun first second => first.node.start < second.node.start := by
  rw [elementsNamed, List.pairwise_filterMap]
  refine (Node.elements_ordered tag (root_grows read)).imp fun {first second} apart one here two there => ?_
  obtain ⟨rfl, -⟩ := Node.elementNamed?_cases here
  obtain ⟨rfl, -⟩ := Node.elementNamed?_cases there
  exact apart (by rw [here]; rfl) (by rw [there]; rfl)

/-- An element with a name has a tag with that name, in which there is a place for its attributes. -/
theorem HasElement.slot {tag : Text} {element : Element} (read : Program.parse source = .ok program)
    (has : program.HasElement tag element) : ∃ opening span, element.opening? = some opening ∧ opening.name? = some tag ∧
      opening.slot? tag = some ⟨span, element.closesItself⟩ ∧ opening.Covers span ∧
      element.node.start ≤ span.start ∧ span.stop ≤ element.node.stop := by
  obtain ⟨member, found⟩ := hasElement_iff.mp has
  have grows := (root_grows read).inner member
  obtain ⟨-, node, opened, called, place⟩ := Node.elementNamed?_cases found
  obtain ⟨name, listed, -⟩ := Option.map_eq_some_iff.mp called
  have inside : node.Grows ∧ element.node.start ≤ node.start ∧ node.stop ≤ element.node.stop := by
    rcases place with ⟨rfl, -⟩ | ⟨-, child⟩
    · exact ⟨grows, Nat.le_refl _, Nat.le_refl _⟩
    · have listed := (Node.childOfKind?_mem child).1
      exact ⟨grows.child listed, Node.nodes_inside node (Node.mem_nodes_of_child listed node.mem_nodes)⟩
  have kind : node.kind.isTag = true ∧ (OpeningTag.mk node).closesItself = element.closesItself := by
    rcases place with ⟨same, kind⟩ | ⟨kind, child⟩
    · rw [same]
      exact ⟨by simp [Kind.isTag, kind], rfl⟩
    · have opens := (Node.childOfKind?_mem child).2
      exact ⟨by simp [Kind.isTag, opens], by simp [OpeningTag.closesItself, Element.closesItself, opens, kind]⟩
  obtain ⟨span, spanned, covers⟩ : ∃ span, (OpeningTag.mk node).attributesSpan? = some span ∧ (OpeningTag.mk node).Covers span :=
    OpeningTag.attributesSpan?_covers inside.1.grown inside.1.sound kind.1 listed
  refine ⟨⟨node⟩, span, opened, called, ?_, covers, ?_, ?_⟩
  · rw [OpeningTag.slot?, if_pos called, spanned, Option.map_some, kind.2]
  · exact Nat.le_trans inside.2.1 covers.inside.1
  · exact Nat.le_trans covers.inside.2 inside.2.2

/-- Looking for an element and looking for the tag that opens it come to the same element, the one with the name that
starts first, and both find it if there is one. The place of attributes that is found is in the tag of that element. -/
theorem searches_agree (read : Program.parse source = .ok program) (tag : Text) :
    ((program.elementNamed? tag).isSome ↔ ∃ element, program.HasElement tag element) ∧
    ((program.attributesOf? tag).isSome ↔ ∃ element, program.HasElement tag element) ∧
    ∀ span slot, program.elementNamed? tag = some span → program.attributesOf? tag = some slot →
      ∃ element opening, program.HasElement tag element ∧ span = element.node.span ∧
        (∀ other, program.HasElement tag other → other = element ∨ element.node.start < other.node.start) ∧
        element.opening? = some opening ∧ opening.name? = some tag ∧ slot.closesItself = element.closesItself ∧
        opening.Covers slot.span ∧ span.start ≤ slot.span.start ∧ slot.span.stop ≤ span.stop := by
  rw [elementNamed?_head, attributesOf?_head read]
  have ordered := elementsNamed_ordered read tag
  simp only [← mem_elementsNamed]
  cases listed : program.elementsNamed tag with
  | nil => simp
  | cons element others =>
    rw [listed] at ordered
    have has : program.HasElement tag element := mem_elementsNamed.mp (by rw [listed]; exact List.mem_cons_self ..)
    obtain ⟨opening, place, opened, called, slot, covers, start, stop⟩ := has.slot read
    have head : ((element :: others).filterMap fun it => it.opening?.bind fun opening => opening.slot? tag).head? =
        some ⟨place, element.closesItself⟩ := by
      rw [List.filterMap_cons_some (by rw [opened, Option.bind_some, slot])]
      rfl
    rw [head]
    refine ⟨by simp, by simp, ?_⟩
    rintro _ _ ⟨⟩ ⟨⟩
    refine ⟨element, opening, List.mem_cons_self .., rfl, fun other member => ?_, opened, called, rfl, covers, start, stop⟩
    rcases List.mem_cons.mp member with rfl | member
    · exact .inl rfl
    · exact .inr ((List.pairwise_cons.mp ordered).1 other member)

/-- An element inside an attribute of another with the same name. -/
def nestedMarkup : Text := "<b><a x={<a/>}y>z</a></b>".toList

set_option maxRecDepth 100000 in
theorem parse_nestedMarkup : (parse nestedMarkup).toOption.map (fun program =>
    (program.elementNamed? ['a'], program.attributesOf? ['a'])) = some (some ⟨3, 21⟩, some ⟨⟨5, 15⟩, false⟩) := by
  decide +kernel

theorem searches_agree_nested : ∃ program, Program.parse nestedMarkup = .ok program ∧
    program.elementNamed? ['a'] = some ⟨3, 21⟩ ∧ program.attributesOf? ['a'] = some ⟨⟨5, 15⟩, false⟩ ∧
    ∃ element opening, program.HasElement ['a'] element ∧ element.node.span = ⟨3, 21⟩ ∧
      (∀ other, program.HasElement ['a'] other → other = element ∨ 3 < other.node.start) ∧
      element.opening? = some opening ∧ opening.Covers ⟨5, 15⟩ := by
  obtain ⟨program, found, results⟩ := Option.map_eq_some_iff.mp parse_nestedMarkup
  obtain ⟨named, attributes⟩ := Prod.mk.inj results
  have read := Except.ok_of_toOption found
  obtain ⟨element, opening, has, span, first, opened, -, -, covers, -⟩ :=
    (searches_agree read ['a']).2.2 _ _ named attributes
  have start : element.node.start = 3 := (congrArg Span.start span).symm
  rw [start] at first
  exact ⟨program, read, named, attributes, element, opening, has, span.symm, first, opened, covers⟩

end Program
end Graft
