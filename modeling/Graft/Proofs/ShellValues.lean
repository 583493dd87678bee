import Graft.Proofs.ExpressionTrees
import Graft.Proofs.ShellOpenings

/-! The value of a shell. A shell that is a declaration gives a value to a name. Whatever is inside of the shell, the
first variable of the statement that is read is the one with this name, and its value is what the shell opens; behind
it is the end of the declaration, or there are further variables. -/

namespace Graft

/-! ### Declarators -/

theorem initializer_words : (Phrase.group .initializer).words =
    [[⟨.token (.mark .assign), none, none⟩, ⟨.phrase (.group .expression), some .value, none⟩]] := by
  rfl

theorem variableDeclarator_words : ∀ word ∈ (Phrase.node .variableDeclarator).words,
    word = [⟨.token .identifier, some .name, none⟩, ⟨.phrase (.group .initializer), none, none⟩] ∨
    word = [⟨.token .identifier, some .name, none⟩] ∨
    (∃ letter others, word = ⟨.token .identifier, some .name, none⟩ :: letter :: others ∧
      (letter = ⟨.phrase (.node .typeClause), none, none⟩ ∨ letter = ⟨.token (.mark .bang), none, none⟩)) ∨
    ∃ others, word = ⟨.phrase (.group .destructuringPattern), some .name, none⟩ :: others := by
  have words : (Phrase.node .variableDeclarator).words.all (fun word =>
      match word with
      | first :: letter :: others =>
        first = ⟨.phrase (.group .destructuringPattern), some .name, none⟩ ||
        first = ⟨.token .identifier, some .name, none⟩ &&
          (letter = ⟨.phrase (.group .initializer), none, none⟩ && others.isEmpty ||
            (letter = ⟨.phrase (.node .typeClause), none, none⟩ || letter = ⟨.token (.mark .bang), none, none⟩))
      | [first] =>
        first = ⟨.phrase (.group .destructuringPattern), some .name, none⟩ || first = ⟨.token .identifier, some .name, none⟩
      | [] => false) = true := by
    rfl
  intro word member
  have known := List.all_eq_true.mp words word member
  split at known
  next first letter others =>
    simp only [Bool.or_eq_true, Bool.and_eq_true, decide_eq_true_eq, List.isEmpty_iff] at known
    rcases known with rfl | ⟨rfl, ⟨rfl, rfl⟩ | clause⟩
    · exact .inr (.inr (.inr ⟨_, rfl⟩))
    · exact .inl rfl
    · exact .inr (.inr (.inl ⟨letter, others, rfl, clause⟩))
  next first =>
    simp only [Bool.or_eq_true, decide_eq_true_eq] at known
    rcases known with rfl | rfl
    · exact .inr (.inr (.inr ⟨_, rfl⟩))
    · exact .inr (.inl rfl)
  next => cases known

theorem clause_avoids {letter : Letter} {name : Text} (apart : name.IsApart)
    (clause : letter = ⟨.phrase (.node .typeClause), none, none⟩ ∨ letter = ⟨.token (.mark .bang), none, none⟩) :
    letter.symbol.avoids name Phrase.isHead = true ∧ letter.symbol.avoids ['\x7b', '='] Phrase.isResult = true := by
  rcases clause with rfl | rfl
  · exact ⟨rfl, rfl⟩
  · refine ⟨?_, rfl⟩
    have absent : '!' ∉ name := fun inside => Bool.noConfusion (apart.parts _ inside)
    simp [Symbol.avoids, Token.avoids, Mark.text, isSpacing, isBlank, absent]

theorem Node.value_stands {declarator value : Node} {source goal name : Text} {c : Char} {role : Option Role}
    {after inner : List Tree} {letters : List Letter} (apart : name.IsApart)
    (stands : declarator.StandsBefore source after)
    (shape : declarator.tree = .node role .variableDeclarator (inner.dropWhile Tree.isSpacing))
    (member : letters ∈ (Phrase.node .variableDeclarator).words) (spelled : Spelled letters inner)
    (valued : declarator.child? .value = some value) (other : value.tree.isTrivia = false)
    (next : Text.ahead (Forest.text inner ++ Forest.text after) = name ++ ' ' :: '=' :: ' ' :: c :: goal)
    (solid : isSolid c = true) :
    ∃ gap, (∀ tree ∈ gap, tree.IsGap) ∧ value.StandsBefore source (gap ++ after) ∧
      (value.tree.Origin ∧ value.tree.IsSpelled) ∧ Text.ahead (value.text ++ Forest.text (gap ++ after)) = c :: goal := by
  rcases variableDeclarator_words letters member with rfl | rfl | ⟨letter, others, rfl, clause⟩ | ⟨others, rfl⟩
  · obtain ⟨gap, rest, between, later, split, text⟩ := spelled.read_name apart next rfl rfl
    have next1 : Text.ahead (Forest.text rest ++ Forest.text after) = '=' :: ' ' :: c :: goal := by
      rw [text]
      rfl
    obtain ⟨letters, listed, later1⟩ := later.group_cases
    rw [initializer_words, List.mem_singleton] at listed
    subst listed
    obtain ⟨gap1, given, between1, later2, split1, text1⟩ := later1.read_mark next1 rfl
    have next2 : Text.ahead (Forest.text given ++ Forest.text after) = c :: goal := by
      rw [show Forest.text given ++ Forest.text after = [' '] ++ c :: goal from (List.cons.inj text1).2,
        Text.ahead_append (List.all_eq_true.mp rfl), Text.ahead_cons (isSpacing_of_isSolid solid)]
    have children : declarator.tree.children = (.leaf (some .name) .identifier name :: gap1 ++
        [.leaf none .symbol Mark.assign.text.toList]) ++ given := by
      rw [shape, Tree.children, split, split1]
      refine (Forest.dropWhile_spacing (fun tree member => (between tree member).2) rfl).trans ?_
      simp
    have unplayed : ∀ tree ∈ .leaf (some .name) .identifier name :: gap1 ++
        [.leaf none .symbol Mark.assign.text.toList], tree.role ≠ some .value := by
      simp only [List.cons_append, List.mem_cons, List.mem_append, List.not_mem_nil, or_false]
      rintro tree (rfl | member | rfl)
      · simp [Tree.role]
      · simp [(between1 tree member).1.role]
      · simp [Tree.role]
    obtain ⟨before, others, split2, gaps, gaps', played, made⟩ :=
      later2.expression_cases (Node.child?_tail children unplayed valued) other
    rw [split2, ← List.append_assoc] at children
    have first := Node.child?_split children (fun tree member => ?_) played (Tree.isSpacing_of_solid other)
    rotate_left
    · rcases List.mem_append.mp member with member | member
      · exact unplayed tree member
      · simp [(gaps tree member).role]
    refine ⟨others, gaps', ?_, made, ?_⟩
    · rw [Option.some.inj (valued.symm.trans first)]
      exact stands.child children
    · rw [split2, Forest.text_append, List.append_assoc] at next2
      have next3 := (Forest.ahead_gap gaps next2 solid).2.2
      rwa [Forest.text, List.append_assoc, ← Forest.text_append] at next3
  · -- a name alone has no value
    obtain ⟨gap, name, others, between, -, later, rfl⟩ := spelled.token_cases rfl
    have played := (Node.child?_mem valued).2
    have inside : value.tree ∈ declarator.tree.children := by
      have nothing : declarator.tree.children = [] ++ declarator.tree.children := rfl
      exact Node.child?_tail nothing (by simp) valued
    rw [shape, Tree.children] at inside
    replace inside := (List.dropWhile_suffix _).subset inside
    rcases List.mem_append.mp inside with inside | inside
    · rcases List.mem_append.mp inside with inside | inside
      · rw [(between _ inside).role] at played
        cases played
      · split at inside
        next => cases inside
        next =>
          rw [List.mem_singleton.mp inside] at played
          cases played
    · rw [(later.gaps _ inside).role] at played
      cases played
  · obtain ⟨avoids, result⟩ := clause_avoids apart clause
    obtain ⟨_, rest, -, later, -, text⟩ := spelled.read_name apart next rfl avoids
    have next1 : Text.ahead (Forest.text rest ++ Forest.text after) = '=' :: ' ' :: c :: goal := by
      rw [text]
      rfl
    exact absurd (by simp) (later.ahead_avoids (List.all_eq_true.mp rfl) avoid_body result next1)
  · obtain ⟨first, letters, spells⟩ := List.exists_cons_of_ne_nil apart.some
    have next1 := next
    rw [spells, List.cons_append] at next1
    exact absurd (by rw [spells]; simp) (spelled.ahead_avoids apart.solid apart.avoided rfl next1)

/-! ### Variables -/

theorem lexicalDeclaration_words : ∀ word ∈ (Phrase.node .lexicalDeclaration).words, ∃ keyword others,
    word = ⟨.token (.word keyword), none, none⟩ :: ⟨.phrase (.node .variableDeclarator), none, none⟩ :: others ∧
    (keyword = .let_ ∨ keyword = .const_) ∧
    (others = [⟨.token .lineEnd, none, none⟩] ∨ others = [⟨.token (.mark .semicolon), none, none⟩] ∨
      ∃ more, others = ⟨.phrase (.group .declarators), none, none⟩ :: more) := by
  have words : (Phrase.node .lexicalDeclaration).words =
      [Keyword.let_, .const_].flatMap fun keyword =>
        [[⟨.phrase (.group .declarators), none, none⟩, ⟨.token .lineEnd, none, none⟩],
          [⟨.phrase (.group .declarators), none, none⟩, ⟨.token (.mark .semicolon), none, none⟩],
          [⟨.token .lineEnd, none, none⟩], [⟨.token (.mark .semicolon), none, none⟩]].map fun others =>
            ⟨.token (.word keyword), none, none⟩ :: ⟨.phrase (.node .variableDeclarator), none, none⟩ :: others := by
    rfl
  intro word member
  rw [words] at member
  obtain ⟨keyword, listed, member⟩ := List.mem_flatMap.mp member
  obtain ⟨others, form, rfl⟩ := List.mem_map.mp member
  refine ⟨keyword, others, rfl, by simpa using listed, ?_⟩
  simp only [List.mem_cons, List.not_mem_nil, or_false] at form
  rcases form with rfl | rfl | rfl | rfl
  · exact .inr (.inr ⟨_, rfl⟩)
  · exact .inr (.inr ⟨_, rfl⟩)
  · exact .inl rfl
  · exact .inr (.inl rfl)

theorem VariableDeclaration.length_declarators (it : VariableDeclaration) :
    it.declarators.length = it.node.tree.children.countP fun tree => tree.kind = .variableDeclarator := by
  have placed : ∀ (trees : List Tree) (start : Nat), (Node.place start trees).countP (fun node =>
      node.kind = .variableDeclarator) = trees.countP fun tree => tree.kind = .variableDeclarator := by
    intro trees
    induction trees with
    | nil => exact fun _ => rfl
    | cons tree trees ih =>
      intro start
      rw [Node.place, List.countP_cons, List.countP_cons, ih]
      rfl
  rw [← placed _ it.node.start, declarators, List.length_map, Node.namedChildren, Node.children, List.filter_filter,
    List.filter_filter, ← List.countP_eq_length_filter]
  refine List.countP_congr fun node _ => ?_
  cases same : decide (node.kind = .variableDeclarator) with
  | false => simp
  | true =>
    rw [decide_eq_true_eq] at same
    simp [Node.isNamed, same, Kind.isNamed]

theorem ending_cases {others : List Letter} {trees : List Tree}
    (ending : others = [⟨.token .lineEnd, none, none⟩] ∨ others = [⟨.token (.mark .semicolon), none, none⟩])
    (spelled : Spelled others trees) : ∀ tree ∈ trees, tree.IsGap ∨ tree = .leaf none .symbol [';'] := by
  intro tree member
  rcases ending with rfl | rfl
  · exact .inl (spelled.lineEnd_gaps tree member)
  · obtain ⟨gap, others, between, later, rfl⟩ := spelled.mark_cases
    rcases List.mem_append.mp member with member | member
    · exact .inl (between tree member)
    · rcases List.mem_cons.mp member with same | member
      · exact .inr same
      · exact .inl (later.gaps tree member)

theorem declarators_words : (Phrase.group .declarators).words =
    [[⟨.phrase (.group .declarators), none, none⟩, ⟨.token (.mark .comma), none, none⟩,
        ⟨.phrase (.node .variableDeclarator), none, none⟩],
      [⟨.token (.mark .comma), none, none⟩, ⟨.phrase (.node .variableDeclarator), none, none⟩]] := by
  rfl

theorem declarators_cases {more : List Letter} {trees : List Tree}
    (spelled : Spelled (⟨.phrase (.group .declarators), none, none⟩ :: more) trees) :
    (∃ tree ∈ trees, tree.text = [',']) ∧ ∃ tree ∈ trees, tree.kind = .variableDeclarator := by
  have behind : ∀ {trees : List Tree}, Spelled (⟨.token (.mark .comma), none, none⟩ ::
      ⟨.phrase (.node .variableDeclarator), none, none⟩ :: more) trees →
      (∃ tree ∈ trees, tree.text = [',']) ∧ ∃ tree ∈ trees, tree.kind = .variableDeclarator := by
    intro trees spelled
    obtain ⟨gap, others, -, later, rfl⟩ := spelled.mark_cases
    obtain ⟨gap1, letters, inner, others1, -, -, -, -, rfl⟩ := later.node_cases rfl
    exact ⟨⟨_, List.mem_append_right _ (List.mem_cons_self ..), rfl⟩,
      ⟨.node none .variableDeclarator (inner.dropWhile Tree.isSpacing), by simp, rfl⟩⟩
  obtain ⟨letters, listed, spelled⟩ := spelled.group_cases
  rw [declarators_words] at listed
  simp only [List.mem_cons, List.not_mem_nil, or_false] at listed
  rcases listed with rfl | rfl
  · cases spelled with
    | @letter _ _ gap made others between derived later =>
      obtain ⟨⟨comma, here, mark⟩, tree, there, declarator⟩ := behind later
      exact ⟨⟨comma, List.mem_append_right _ here, mark⟩, tree, List.mem_append_right _ there, declarator⟩
  · exact behind spelled

theorem declaration_end {statement : Node} {front rest : List Tree} {first : Tree} {others : List Letter}
    (split : statement.tree.children = front ++ first :: rest) (before : ∀ tree ∈ front, tree.kind ≠ .variableDeclarator)
    (here : first.kind = .variableDeclarator) (spelled : Spelled others rest)
    (ending : others = [⟨.token .lineEnd, none, none⟩] ∨ others = [⟨.token (.mark .semicolon), none, none⟩] ∨
      ∃ more, others = ⟨.phrase (.group .declarators), none, none⟩ :: more) :
    (VariableDeclaration.mk statement).declarators.length = 1 ∧ (∀ tree ∈ rest, tree.IsGap ∨ tree.text = [';']) ∨
      2 ≤ (VariableDeclaration.mk statement).declarators.length ∧ ∃ tree ∈ rest, tree.text = [','] := by
  have counted : (VariableDeclaration.mk statement).declarators.length =
      1 + rest.countP fun tree => tree.kind = .variableDeclarator := by
    have none : front.countP (fun tree : Tree => decide (tree.kind = .variableDeclarator)) = 0 := by
      rw [List.countP_eq_zero]
      intro tree member
      simp [before tree member]
    rw [VariableDeclaration.length_declarators, split, List.countP_append, none,
      List.countP_cons_of_pos (by simpa using here)]
    omega
  have ended : (others = [⟨.token .lineEnd, none, none⟩] ∨ others = [⟨.token (.mark .semicolon), none, none⟩]) →
      (VariableDeclaration.mk statement).declarators.length = 1 ∧ ∀ tree ∈ rest, tree.IsGap ∨ tree.text = [';'] := by
    intro ending
    have ends := ending_cases ending spelled
    constructor
    · rw [counted, List.countP_eq_zero.mpr fun tree member => ?_]
      rcases ends tree member with gap | rfl
      · have other : tree.kind ≠ .variableDeclarator := gap.kind_ne rfl
        simp [other]
      · exact Bool.noConfusion
    · intro tree member
      exact (ends tree member).imp_right fun same => by rw [same, Tree.text]
  rcases ending with ending | ending | ⟨more, rfl⟩
  · exact .inl (ended (.inl ending))
  · exact .inl (ended (.inr ending))
  · obtain ⟨comma, tree, there, declarator⟩ := declarators_cases spelled
    have some : 0 < rest.countP fun tree => tree.kind = .variableDeclarator :=
      List.countP_pos_iff.mpr ⟨tree, there, decide_eq_true declarator⟩
    exact .inr ⟨by omega, comma⟩

/-- The value of the first variable of a declaration stands where a shell opens it, and behind it is the end of the
declaration, or there are further variables. -/
theorem Node.firstValue?_opened {statement value : Node} {source goal name : Text} {c : Char} {after : List Tree}
    (apart : name.IsApart) (stands : statement.StandsBefore source after) (origin : statement.tree.Origin)
    (valued : statement.firstValue? = some value) (other : value.tree.isTrivia = false)
    (next : Text.ahead (statement.text ++ Forest.text after) =
      ['c', 'o', 'n', 's', 't', ' '] ++ (name ++ ' ' :: '=' :: ' ' :: c :: goal)) (solid : isSolid c = true) :
    ∃ rest, value.StandsBefore source (rest ++ after) ∧ (value.tree.Origin ∧ value.tree.IsSpelled) ∧
      Text.ahead (value.text ++ Forest.text (rest ++ after)) = c :: goal ∧
      ((VariableDeclaration.mk statement).declarators.length = 1 ∧ (∀ tree ∈ rest, tree.IsGap ∨ tree.text = [';']) ∨
        2 ≤ (VariableDeclaration.mk statement).declarators.length ∧ ∃ tree ∈ rest, tree.text = [',']) := by
  unfold Node.firstValue? at valued
  split at valued
  next lexical =>
    obtain ⟨role, word, inner, shape, member, spelled⟩ := origin.node_of_kind lexical (by decide) (Kind.isRenamed_declared (by simp))
    rw [Node.text, shape, Tree.text, Phrase.ahead_dropWhile member spelled] at next
    obtain ⟨keyword, others, rfl, keywords, ending⟩ := lexicalDeclaration_words word member
    rcases keywords with rfl | rfl
    · obtain ⟨_, _, _, _, _, text⟩ := spelled.read_word next rfl
      cases (List.cons.inj text).1
    obtain ⟨gap, named, between, later, split, text⟩ := spelled.read_word next rfl
    obtain ⟨first, letters, spells⟩ := List.exists_cons_of_ne_nil apart.some
    have next1 : Text.ahead (Forest.text named ++ Forest.text after) =
        first :: (letters ++ ' ' :: '=' :: ' ' :: c :: goal) := by
      have text : ['c', 'o', 'n', 's', 't'] ++ (Forest.text named ++ Forest.text after) =
          ['c', 'o', 'n', 's', 't'] ++ ([' '] ++ (name ++ ' ' :: '=' :: ' ' :: c :: goal)) := text
      have part : isSpacing first = false := isSpacing_of_isSolid (apart.solid first (by rw [spells]; simp))
      rw [List.append_cancel_left text, Text.ahead_append (List.all_eq_true.mp rfl), spells, List.cons_append, Text.ahead_cons part]
    obtain ⟨gap1, letters', firstInner, rest, between1, member, filled, later1, split1, next2⟩ :=
      later.read_node rfl next1 (apart.solid first (by rw [spells]; simp))
    have children : statement.tree.children = (.leaf none .symbol Keyword.const_.text.toList :: gap1) ++
        .node none .variableDeclarator (firstInner.dropWhile Tree.isSpacing) :: rest := by
      rw [shape, Tree.children, split, split1]
      exact Forest.dropWhile_spacing (fun tree member => (between tree member).2) rfl
    have front : ∀ tree ∈ .leaf none .symbol Keyword.const_.text.toList :: gap1, tree.kind ≠ .variableDeclarator := by
      intro tree member
      rcases List.mem_cons.mp member with rfl | member
      · exact Kind.noConfusion
      · exact (between1 tree member).1.kind_ne rfl
    obtain ⟨declarator, listed, valued⟩ := Option.bind_eq_some_iff.mp valued
    have placed : declarator = ⟨statement.start + Forest.bytes (.leaf none .symbol Keyword.const_.text.toList :: gap1),
        .node none .variableDeclarator (firstInner.dropWhile Tree.isSpacing)⟩ := by
      rw [Node.namedChildren, Node.children, List.filter_filter, List.find?_filter] at listed
      refine Option.some.inj (listed.symm.trans (Node.find?_split children (fun node member => ?_) ?_))
      · simp [Node.kind, front node.tree member]
      · rfl
    have stands1 := stands.child children
    rw [← placed] at stands1
    rw [← Forest.text_append, ← List.cons_append, ← spells] at next2
    obtain ⟨tail, gaps, value, made, next3⟩ :=
      Node.value_stands apart stands1 (by rw [placed]) member filled valued other next2 solid
    rw [← List.append_assoc] at value next3
    refine ⟨tail ++ rest, value, made, next3, ?_⟩
    refine (declaration_end children front rfl later1 ending).imp (And.imp_right fun ends tree member => ?_)
      (And.imp_right ?_)
    · rcases List.mem_append.mp member with member | member
      · exact .inl (gaps tree member)
      · exact ends tree member
    · rintro ⟨tree, member, comma⟩
      exact ⟨tree, List.mem_append_right _ member, comma⟩
  next => cases valued

theorem Program.firstValue?_opened {source goal name : Text} {c : Char} {program : Program} {statement value : Node}
    (apart : name.IsApart) (read : Program.parse source = .ok program) (single : program.single? = some statement)
    (valued : statement.firstValue? = some value) (other : value.tree.isTrivia = false)
    (starts : source = ['c', 'o', 'n', 's', 't', ' '] ++ (name ++ ' ' :: '=' :: ' ' :: c :: goal))
    (solid : isSolid c = true) :
    ∃ after, value.StandsBefore source after ∧ (value.tree.Origin ∧ value.tree.IsSpelled) ∧
      Text.ahead (value.text ++ Forest.text after) = c :: goal ∧
      ((VariableDeclaration.mk statement).declarators.length = 1 ∧ (∀ tree ∈ after, tree.IsLoose ∨ tree.text = [';']) ∨
        2 ≤ (VariableDeclaration.mk statement).declarators.length ∧ ∃ tree ∈ after, tree.text = [',']) := by
  obtain ⟨after, loose, stands, whole, origin⟩ := single?_stands read single starts (by decide) (by decide)
  obtain ⟨rest, value, made, next, behind⟩ := Node.firstValue?_opened apart stands origin valued other
    (by rw [whole, starts]; rfl) solid
  refine ⟨rest ++ after, value, made, next, behind.imp (And.imp_right fun ends tree member => ?_) (And.imp_right ?_)⟩
  · rcases List.mem_append.mp member with member | member
    · exact (ends tree member).imp_left .inl
    · exact .inl (loose tree member)
  · rintro ⟨tree, member, comma⟩
    exact ⟨tree, List.mem_append_left _ member, comma⟩

end Graft
