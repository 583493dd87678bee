import Graft.Proofs.BlockTexts

/-! How shells open. Whatever is inside of a shell, its first tokens are read as what they are: the name and the
empty parameters of a function, and behind them the brace of its block. -/

namespace Graft

theorem Tree.IsGap.role {tree : Tree} (gap : tree.IsGap) : tree.role = none := by
  obtain ⟨kind, text, rfl, -⟩ := gap
  rfl

theorem Tree.IsGap.kind_ne {tree : Tree} (gap : tree.IsGap) {kind : Kind} (other : kind.isTrivia = false) :
    tree.kind ≠ kind := by
  rintro rfl
  have trivia := gap.trivia
  rw [Tree.isTrivia, other] at trivia
  cases trivia

/-! ### Names and parameters -/

/-- Phrases that can start with nearly any character, or be empty. -/
def Phrase.isFree : Phrase → Bool
  | .node .program | .node .jsxNamespaceName | .node .jsxAttribute | .group .doubleStringParts
  | .group .singleStringParts | .group .templateParts | .group .templateTypeParts | .group .markupChildren
  | .group .doubleAttributeParts | .group .singleAttributeParts | .group .memberTypes | .group .tagAttributes => true
  | _ => false

set_option maxRecDepth 10000 in
theorem avoid_closeParen : Grammar.avoid [')'] (fun phrase => !phrase.isFree) = true := by rfl

/-- The phrases of the head of a function that start with a mark. -/
def Phrase.isHead (phrase : Phrase) : Bool :=
  phrase ∈ [.group .signature, .node .typeParameters, .node .formalParameters, .node .typeClause, .node .assertsClause,
    .node .predicateClause, .group .initializer, .group .destructuringPattern, .node .objectPattern, .node .arrayPattern]

theorem isSpacing_of_isSolid {c : Char} (solid : isSolid c = true) : isSpacing c = false := by
  simp only [isSolid, Bool.and_eq_true, Bool.not_eq_true'] at solid
  exact solid.1.1.1

theorem isSolid_of_isNamePart {c : Char} (part : isNamePart c = true) : isSolid c = true := by
  have other : ∀ {d}, isNamePart d = false → c ≠ d := by
    rintro d never rfl
    rw [part] at never
    cases never
  simp only [isSolid, isSpacing_of_isNamePart part, Bool.not_false, Bool.true_and, Bool.and_eq_true, decide_eq_true_eq]
  exact ⟨⟨other (by decide), other (by decide)⟩, other (by decide)⟩

/-- A name that nothing in the head of a function starts with a character of. -/
structure Text.IsApart (name : Text) : Prop where
  some : name ≠ []
  parts : ∀ c ∈ name, isNamePart c = true
  avoided : Grammar.avoid name Phrase.isHead = true

theorem Text.IsApart.solid {name : Text} (apart : name.IsApart) : ∀ c ∈ name, isSolid c = true :=
  fun c inside => isSolid_of_isNamePart (apart.parts c inside)

set_option maxRecDepth 10000 in
theorem temp_apart : Text.IsApart ['t', 'e', 'm', 'p'] := ⟨by decide, List.all_eq_true.mp rfl, rfl⟩

set_option maxRecDepth 10000 in
theorem avoid_openParen : Grammar.avoid ['('] (fun phrase => phrase = .node .typeParameters) = true := by rfl

/-- The phrases that say what a function returns. -/
def Phrase.isResult (phrase : Phrase) : Bool :=
  phrase ∈ [.node .typeClause, .node .assertsClause, .node .predicateClause]

set_option maxRecDepth 10000 in
theorem avoid_body : Grammar.avoid ['\x7b', '='] Phrase.isResult = true := by rfl

theorem signature_words : (Phrase.group .signature).words =
    [[⟨.phrase (.node .typeParameters), none, none⟩, ⟨.phrase (.node .formalParameters), none, none⟩,
        ⟨.phrase (.node .typeClause), none, none⟩],
      [⟨.phrase (.node .typeParameters), none, none⟩, ⟨.phrase (.node .formalParameters), none, none⟩,
        ⟨.phrase (.node .assertsClause), none, none⟩],
      [⟨.phrase (.node .typeParameters), none, none⟩, ⟨.phrase (.node .formalParameters), none, none⟩,
        ⟨.phrase (.node .predicateClause), none, none⟩],
      [⟨.phrase (.node .typeParameters), none, none⟩, ⟨.phrase (.node .formalParameters), none, none⟩],
      [⟨.phrase (.node .formalParameters), none, none⟩, ⟨.phrase (.node .typeClause), none, none⟩],
      [⟨.phrase (.node .formalParameters), none, none⟩, ⟨.phrase (.node .assertsClause), none, none⟩],
      [⟨.phrase (.node .formalParameters), none, none⟩, ⟨.phrase (.node .predicateClause), none, none⟩],
      [⟨.phrase (.node .formalParameters), none, none⟩]] := by
  rfl

/-- Parameters open with a parenthesis, and either close at once or go on with a parameter. -/
theorem formalParameters_words : ∀ word ∈ (Phrase.node .formalParameters).words,
    word = [⟨.token (.mark .openParen), none, none⟩, ⟨.token (.mark .closeParen), none, none⟩] ∨
    ∃ others, word = ⟨.token (.mark .openParen), none, none⟩ :: ⟨.phrase (.group .parameter), none, none⟩ :: others := by
  have words : (Phrase.node .formalParameters).words.all (fun word =>
      word = [⟨.token (.mark .openParen), none, none⟩, ⟨.token (.mark .closeParen), none, none⟩] ||
      word.take 2 = [⟨.token (.mark .openParen), none, none⟩, ⟨.phrase (.group .parameter), none, none⟩]) = true := by
    rfl
  intro word member
  have known := List.all_eq_true.mp words word member
  simp only [Bool.or_eq_true, decide_eq_true_eq] at known
  refine known.imp_right fun first => ⟨word.drop 2, ?_⟩
  rw [← List.take_append_drop 2 word, first]
  rfl

namespace Spelled
variable {word : List Letter} {trees : List Tree} {rest goal : Text} {c : Char}

theorem read_parameters (spelled : Spelled (⟨.phrase (.node .formalParameters), none, none⟩ :: word) trees)
    (next : Text.ahead (Forest.text trees ++ rest) = '(' :: ')' :: ' ' :: c :: goal) (solid : isSolid c = true) :
    ∃ front others, trees = front ++ others ∧ (∀ tree ∈ front, tree.role = none) ∧ Spelled word others ∧
      Text.ahead (Forest.text others ++ rest) = c :: goal := by
  obtain ⟨gap, letters, inner, others, between, member, inside, later, rfl, opens⟩ := spelled.read_node rfl next rfl
  refine ⟨gap ++ [.node none .formalParameters (inner.dropWhile Tree.isSpacing)], others, by simp, ?_, later, ?_⟩
  · intro tree member
    rcases List.mem_append.mp member with member | member
    · exact (between tree member).1.role
    · rw [List.mem_singleton.mp member]
      rfl
  · have spacing : isSpacing c = false := isSpacing_of_isSolid solid
    rcases formalParameters_words letters member with rfl | ⟨more, rfl⟩
    · obtain ⟨_, opened, -, closed, -, text⟩ := inside.read_mark opens rfl
      have closes : Text.ahead (Forest.text opened ++ (Forest.text others ++ rest)) = ')' :: ' ' :: c :: goal := by
        rw [show Forest.text opened ++ (Forest.text others ++ rest) = ')' :: ' ' :: c :: goal from (List.cons.inj text).2]
        rfl
      obtain ⟨_, after, -, stop, -, text⟩ := closed.read_mark closes rfl
      have ends : Text.ahead (Forest.text after ++ (Forest.text others ++ rest)) = c :: goal := by
        rw [show Forest.text after ++ (Forest.text others ++ rest) = [' '] ++ c :: goal from (List.cons.inj text).2,
          Text.ahead_append (List.all_eq_true.mp rfl), Text.ahead_cons spacing]
      exact (Forest.ahead_gap stop.gaps ends solid).2.2
    · obtain ⟨_, opened, -, first, -, text⟩ := inside.read_mark opens rfl
      have closes : Text.ahead (Forest.text opened ++ (Forest.text others ++ rest)) = ')' :: ' ' :: c :: goal := by
        rw [show Forest.text opened ++ (Forest.text others ++ rest) = ')' :: ' ' :: c :: goal from (List.cons.inj text).2]
        rfl
      exact absurd (List.mem_singleton_self _) (first.ahead_avoids (List.all_eq_true.mp rfl) avoid_closeParen rfl closes)

theorem read_signature (spelled : Spelled (⟨.phrase (.group .signature), none, none⟩ :: word) trees)
    (next : Text.ahead (Forest.text trees ++ rest) = '(' :: ')' :: ' ' :: c :: goal) (listed : c ∈ ['\x7b', '=']) :
    ∃ front others, trees = front ++ others ∧ (∀ tree ∈ front, tree.role = none) ∧ Spelled word others ∧
      Text.ahead (Forest.text others ++ rest) = c :: goal := by
  have solid : isSolid c = true := List.all_eq_true.mp (rfl : ['\x7b', '='].all isSolid = true) c listed
  have typed : ∀ {others : List Letter},
      ¬Spelled (⟨.phrase (.node .typeParameters), none, none⟩ :: others) trees := by
    intro others spelled
    exact spelled.ahead_avoids (List.all_eq_true.mp rfl) avoid_openParen rfl next (List.mem_singleton_self _)
  have result : ∀ {kind : Kind}, (Phrase.node kind).isResult = true →
      ¬Spelled (⟨.phrase (.node .formalParameters), none, none⟩ :: ⟨.phrase (.node kind), none, none⟩ :: word) trees := by
    intro kind clause spelled
    obtain ⟨_, _, -, -, later, next⟩ := spelled.read_parameters next solid
    exact later.ahead_avoids (List.all_eq_true.mp rfl) avoid_body clause next listed
  obtain ⟨letters, member, spelled⟩ := spelled.group_cases
  rw [signature_words] at member
  simp only [List.mem_cons, List.not_mem_nil, or_false] at member
  rcases member with rfl | rfl | rfl | rfl | rfl | rfl | rfl | rfl
  · exact absurd spelled typed
  · exact absurd spelled typed
  · exact absurd spelled typed
  · exact absurd spelled typed
  · exact absurd spelled (result rfl)
  · exact absurd spelled (result rfl)
  · exact absurd spelled (result rfl)
  · exact spelled.read_parameters next solid

theorem read_name {letter : Letter} {role : Option Role} {name : Text} {d : Char} (apart : name.IsApart)
    (spelled : Spelled (⟨.token .identifier, role, none⟩ :: letter :: word) trees)
    (next : Text.ahead (Forest.text trees ++ rest) = name ++ d :: goal) (edge : isNamePart d = false)
    (avoids : letter.symbol.avoids name Phrase.isHead = true) :
    ∃ gap others, (∀ tree ∈ gap, tree.IsGap ∧ tree.isSpacing = true) ∧ Spelled (letter :: word) others ∧
      trees = gap ++ .leaf role .identifier name :: others ∧ Forest.text others ++ rest = d :: goal := by
  have begins : ∀ {text}, Token.identifier.Shape text → ∃ d others, text = d :: others ∧ isSpacing d = false := by
    rintro text ⟨some, parts⟩
    obtain ⟨d, others, rfl⟩ := List.exists_cons_of_ne_nil some
    exact ⟨d, others, rfl, isSpacing_of_isNamePart (parts d (List.mem_cons_self ..))⟩
  obtain ⟨c, letters, spells⟩ := List.exists_cons_of_ne_nil apart.some
  have first : isSolid c = true := apart.solid c (by rw [spells]; exact List.mem_cons_self ..)
  rw [spells, List.cons_append] at next
  obtain ⟨gap, text, others, between, ⟨-, parts⟩, later, split, read⟩ :=
    spelled.read_token rfl begins next first
  rw [← List.cons_append, ← spells] at read
  have whole : text = name ∧ Forest.text others ++ rest = d :: goal := by
    rcases List.append_eq_append_iff.mp read with ⟨more, same, tail⟩ | ⟨more, same, tail⟩
    · cases more with
      | nil => exact ⟨by simpa using same.symm, by simpa using tail⟩
      | cons e more =>
        -- the name would be cut, and what comes next would start inside of it
        have inside : e ∈ name := by rw [same]; simp
        have ahead : Text.ahead (Forest.text others ++ rest) = e :: (more ++ d :: goal) := by
          rw [tail, List.cons_append, Text.ahead_cons (isSpacing_of_isSolid (apart.solid e inside))]
        exact absurd inside (later.ahead_avoids apart.solid apart.avoided avoids ahead)
    · cases more with
      | nil => exact ⟨by simpa using same, by simpa using tail.symm⟩
      | cons e more =>
        have part := parts e (by rw [same]; simp)
        rw [← (List.cons.inj tail).1, edge] at part
        cases part
  exact ⟨gap, others, between, later, by rw [split, whole.1]; rfl, whole.2⟩

end Spelled

/-! ### Children in their places -/

namespace Node
variable {node : Node} {left right : List Tree} {tree : Tree}

theorem find?_split {test : Node → Bool} (split : node.tree.children = left ++ tree :: right)
    (before : ∀ other : Node, other.tree ∈ left → test other = false)
    (here : test ⟨node.start + Forest.bytes left, tree⟩ = true) :
    (place node.start node.tree.children).find? test = some ⟨node.start + Forest.bytes left, tree⟩ := by
  have none : (place node.start left).find? test = none := by
    refine List.find?_eq_none.mpr fun other member => ?_
    obtain ⟨_, _, rfl, -⟩ := mem_place member
    rw [before other (by simp)]
    simp
  rw [split, place_append, List.find?_append, none, Option.none_or, place, List.find?_cons, here]

theorem namedChildren_eq (node : Node) : node.namedChildren = (place node.start node.tree.children).filter isNamed := by
  rw [namedChildren, children, List.filter_filter]
  refine List.filter_congr fun child _ => ?_
  cases named : child.isNamed with
  | false => rfl
  | true =>
    rw [isNamed, Kind.isNamed, Bool.and_eq_true] at named
    exact named.2

theorem child?_split {role : Role} (split : node.tree.children = left ++ tree :: right)
    (before : ∀ other ∈ left, other.role ≠ some role) (here : tree.role = some role) (solid : tree.isSpacing = false) :
    node.child? role = some ⟨node.start + Forest.bytes left, tree⟩ := by
  rw [child?, children, List.find?_filter]
  refine find?_split split (fun other member => ?_) ?_
  · simp [before other.tree member]
  · simp only [Tree.isSpacing, decide_eq_false_iff_not] at solid
    simp [kind, here, solid]

theorem child?_tail {role : Role} {child : Node} {others : List Tree} (split : node.tree.children = left ++ others)
    (before : ∀ other ∈ left, other.role ≠ some role) (found : node.child? role = some child) : child.tree ∈ others := by
  obtain ⟨listed, played⟩ := child?_mem found
  obtain ⟨front, back, whole, -⟩ := mem_place (mem_children listed)
  have member : child.tree ∈ node.tree.children := by rw [whole]; simp
  rw [split] at member
  rcases List.mem_append.mp member with member | member
  · exact absurd played (before _ member)
  · exact member

/-- A node stands in a source, and trees come after it. -/
def StandsBefore (source : Text) (node : Node) (after : List Tree) : Prop :=
  ∃ head, source = head ++ (node.text ++ Forest.text after) ∧ Text.bytes head = node.start

theorem text_split (split : node.tree.children = left ++ tree :: right) :
    node.text = Forest.text left ++ (tree.text ++ Forest.text right) := by
  cases shape : node.tree with
  | leaf role kind text => simp [shape, Tree.children] at split
  | node role kind children =>
    rw [shape, Tree.children] at split
    rw [Node.text, shape, Tree.text, split, Forest.text_append, Forest.text]

theorem StandsBefore.child {source : Text} {after : List Tree} (stands : node.StandsBefore source after)
    (split : node.tree.children = left ++ tree :: right) :
    (⟨node.start + Forest.bytes left, tree⟩ : Node).StandsBefore source (right ++ after) := by
  obtain ⟨head, whole, start⟩ := stands
  refine ⟨head ++ Forest.text left, ?_, ?_⟩
  · rw [whole, text_split split]
    simp [Node.text]
  · simp [start, Forest.bytes_eq]

end Node

/-- The only statement of a program is all of its text but for what is loose behind it. -/
theorem Program.single?_stands {source : Text} {program : Program} {statement : Node} {c : Char} {goal : Text}
    (read : Program.parse source = .ok program) (single : program.single? = some statement)
    (starts : source = c :: goal) (solid : isSolid c = true) (other : c ≠ '#') :
    ∃ after, (∀ tree ∈ after, tree.IsLoose) ∧ statement.StandsBefore source after ∧
      statement.text ++ Forest.text after = source ∧ statement.tree.Origin := by
  obtain ⟨left, right, split, start, before, after, origin⟩ := single?_split read single
  have root : program.root.StandsBefore source [] := by
    refine ⟨[], ?_, rfl⟩
    rw [← (parse_ok read).1, ← program.whole]
    simp [root, Node.text, Forest.text]
  have stands := root.child split
  have same : (⟨program.root.start + Forest.bytes left, statement.tree⟩ : Node) = statement := by
    rw [show program.root.start = 0 from rfl, Nat.zero_add, ← start]
  rw [same, List.append_nil] at stands
  have whole : Forest.text left ++ (statement.text ++ Forest.text right) = source := by
    rw [← (parse_ok read).1, ← program.whole]
    obtain ⟨-, forest, -, tree⟩ := parse_ok read
    rw [tree] at split ⊢
    rw [Tree.text, show forest = left ++ statement.tree :: right from split]
    simp [Forest.text, Node.text]
  refine ⟨right, after, stands, ?_, origin⟩
  rw [Forest.text_loose before (whole.trans starts) solid other] at whole
  exact whole

end Graft
