import Graft.Proofs.ShellValues

/-! The block of a shell. What is found as the body of the function in a shell is the block that the shell opens:
behind a function declaration there is nothing but gaps, and behind an arrow function the rest of the declaration
that names it. -/

namespace Graft

/-- The block of a shell stands in a source, trees come after it, and behind its first brace is the rest of the
source. -/
structure BlockStands (source : Text) (block : Node) (after : List Tree) (goal : Text) : Prop where
  stands : block.StandsBefore source after
  spelled : ∃ role letters inner, block.tree = .node role .statementBlock (inner.dropWhile Tree.isSpacing) ∧
    letters ∈ (Phrase.node .statementBlock).words ∧ Spelled letters inner ∧
    Text.ahead (Forest.text inner ++ Forest.text after) = '\x7b' :: goal

theorem functionDeclaration_words : (Phrase.node .functionDeclaration).words =
    [[⟨.token (.word .async_), none, none⟩, ⟨.token (.word .function_), none, none⟩,
        ⟨.token .identifier, some .name, none⟩, ⟨.phrase (.group .signature), none, none⟩,
        ⟨.phrase (.node .statementBlock), some .body, none⟩, ⟨.token .lineEnd, none, none⟩],
      [⟨.token (.word .async_), none, none⟩, ⟨.token (.word .function_), none, none⟩,
        ⟨.token .identifier, some .name, none⟩, ⟨.phrase (.group .signature), none, none⟩,
        ⟨.phrase (.node .statementBlock), some .body, none⟩],
      [⟨.token (.word .function_), none, none⟩,
        ⟨.token .identifier, some .name, none⟩, ⟨.phrase (.group .signature), none, none⟩,
        ⟨.phrase (.node .statementBlock), some .body, none⟩, ⟨.token .lineEnd, none, none⟩],
      [⟨.token (.word .function_), none, none⟩,
        ⟨.token .identifier, some .name, none⟩, ⟨.phrase (.group .signature), none, none⟩,
        ⟨.phrase (.node .statementBlock), some .body, none⟩]] := by
  rfl

namespace FunctionShell

theorem declaration_read {statement block : Node} {source goal : Text} {after inner : List Tree} {role : Option Role}
    {tail : List Letter} (stands : statement.StandsBefore source after)
    (shape : statement.tree = .node role .functionDeclaration (inner.dropWhile Tree.isSpacing))
    (found : statement.child? .body = some block)
    (spelled : Spelled (⟨.token (.word .function_), none, none⟩ :: ⟨.token .identifier, some .name, none⟩ ::
      ⟨.phrase (.group .signature), none, none⟩ :: ⟨.phrase (.node .statementBlock), some .body, none⟩ :: tail) inner)
    (gaps : ∀ {trees : List Tree}, Spelled tail trees → ∀ tree ∈ trees, tree.IsGap)
    (next : Text.ahead (Forest.text inner ++ Forest.text after) =
      ['f', 'u', 'n', 'c', 't', 'i', 'o', 'n', ' ', 't', 'e', 'm', 'p', '(', ')', ' ', '\x7b'] ++ goal) :
    ∃ gap, (∀ tree ∈ gap, tree.IsGap) ∧ BlockStands source block (gap ++ after) goal := by
  obtain ⟨gap, named, between, later, split, text⟩ := spelled.read_word next rfl
  have next1 : Text.ahead (Forest.text named ++ Forest.text after) =
      't' :: ['e', 'm', 'p'] ++ '(' :: ')' :: ' ' :: '\x7b' :: goal := by
    have text : ['f', 'u', 'n', 'c', 't', 'i', 'o', 'n'] ++ (Forest.text named ++ Forest.text after) =
        ['f', 'u', 'n', 'c', 't', 'i', 'o', 'n'] ++ [' ', 't', 'e', 'm', 'p', '(', ')', ' ', '\x7b'] ++ goal := text
    rw [List.append_assoc] at text
    rw [List.append_cancel_left text]
    rfl
  obtain ⟨gap1, signed, between1, later1, split1, text1⟩ := later.read_name temp_apart next1 rfl rfl
  have next2 : Text.ahead (Forest.text signed ++ Forest.text after) = '(' :: ')' :: ' ' :: '\x7b' :: goal := by
    rw [text1]
    rfl
  obtain ⟨front, rest, split2, plain, later2, next3⟩ := later1.read_signature next2 (by simp)
  obtain ⟨gap3, letters, inside, others, between3, member, filled, later3, split3, next4⟩ := later2.read_node rfl next3 rfl
  have children : statement.tree.children = (.leaf none .symbol ['f', 'u', 'n', 'c', 't', 'i', 'o', 'n'] :: gap1 ++
      .leaf (some .name) .identifier ['t', 'e', 'm', 'p'] :: (front ++ gap3)) ++
      .node (some .body) .statementBlock (inside.dropWhile Tree.isSpacing) :: others := by
    rw [shape, Tree.children, split, split1, split2, split3]
    refine (Forest.dropWhile_spacing (fun tree member => (between tree member).2) rfl).trans ?_
    simp only [List.cons_append, List.append_assoc]
    rfl
  have first : statement.child? .body = some ⟨_, _⟩ := Node.child?_split children ?_ rfl rfl
  · cases found.symm.trans first
    refine ⟨others, gaps later3, ?_, some .body, letters, inside, rfl, member, filled, ?_⟩
    · exact stands.child children
    · rwa [Forest.text_append]
  · simp only [List.cons_append, List.mem_cons, List.mem_append]
    rintro tree (rfl | member | rfl | member | member)
    · simp [Tree.role]
    · simp [(between1 tree member).1.role]
    · simp [Tree.role]
    · simp [plain tree member]
    · simp [(between3 tree member).1.role]

theorem declaration_wrap (text : Text) : declaration.wrap text =
    ['f', 'u', 'n', 'c', 't', 'i', 'o', 'n', ' ', 't', 'e', 'm', 'p', '(', ')', ' ', '\x7b'] ++
      '\n' :: (text ++ ['\n', '\x7d']) := by
  have same : declaration.wrap text =
    ['f', 'u', 'n', 'c', 't', 'i', 'o', 'n', ' ', 't', 'e', 'm', 'p', '(', ')', ' ', '\x7b', '\n'] ++ text ++
      ['\n', '\x7d'] := rfl
  rw [same, List.append_assoc]
  rfl

theorem body_of_block? {body? : Option Node} {block : Node}
    (found : (body?.bind fun body => if body.kind = .statementBlock then some body else none) = some block) :
    body? = some block ∧ block.kind = .statementBlock := by
  obtain ⟨body, here, kept⟩ := Option.bind_eq_some_iff.mp found
  split at kept
  next same =>
    cases kept
    exact ⟨here, same⟩
  next => cases kept

theorem declaration_block {text : Text} {program : Program} {statement block : Node}
    (read : Program.parse (declaration.wrap text) = .ok program) (single : program.single? = some statement)
    (found : declaration.block? statement = some block) :
    ∃ after, (∀ tree ∈ after, tree.IsLoose) ∧
      BlockStands (declaration.wrap text) block after ('\n' :: (text ++ ['\n', '\x7d'])) := by
  obtain ⟨body, -⟩ := body_of_block? found
  dsimp only at body
  split at body
  next function =>
    obtain ⟨after, loose, stands, whole, origin⟩ :=
      Program.single?_stands read single (declaration_wrap text) (by decide) (by decide)
    obtain ⟨role, word, inner, shape, member, spelled⟩ := origin.node_of_kind function (by decide) (Kind.isRenamed_declared (by simp))
    have next : Text.ahead (Forest.text inner ++ Forest.text after) =
        ['f', 'u', 'n', 'c', 't', 'i', 'o', 'n', ' ', 't', 'e', 'm', 'p', '(', ')', ' ', '\x7b'] ++
          '\n' :: (text ++ ['\n', '\x7d']) := by
      rw [← Phrase.ahead_dropWhile member spelled]
      rw [Node.text, shape, Tree.text, declaration_wrap] at whole
      rw [whole]
      rfl
    have async : ∀ {letters : List Letter}, ¬Spelled (⟨.token (.word .async_), none, none⟩ :: letters) inner := by
      intro letters spelled
      obtain ⟨_, _, _, _, _, text⟩ := spelled.read_word next rfl
      cases (List.cons.inj text).1
    have done : ∀ gap : List Tree, (∀ tree ∈ gap, tree.IsGap) → ∀ tree ∈ gap ++ after, tree.IsLoose := by
      intro gap gaps tree member
      rcases List.mem_append.mp member with member | member
      · exact .inl (gaps tree member)
      · exact loose tree member
    rw [functionDeclaration_words] at member
    simp only [List.mem_cons, List.not_mem_nil, or_false] at member
    rcases member with rfl | rfl | rfl | rfl
    · exact absurd spelled async
    · exact absurd spelled async
    · obtain ⟨gap, gaps, stands⟩ := declaration_read stands shape body spelled Spelled.lineEnd_gaps next
      exact ⟨gap ++ after, done gap gaps, stands⟩
    · obtain ⟨gap, gaps, stands⟩ := declaration_read stands shape body spelled Spelled.gaps next
      exact ⟨gap ++ after, done gap gaps, stands⟩
  next => cases body

/-! ### Arrow functions -/

theorem arrowFunction_words : ∀ word ∈ (Phrase.node .arrowFunction).words,
    (∃ letter, word = [⟨.phrase (.group .signature), none, none⟩, ⟨.token (.mark .arrow), none, none⟩, letter] ∧
      (letter = ⟨.phrase (.group .expression), some .body, none⟩ ∨
        letter = ⟨.phrase (.node .statementBlock), some .body, none⟩)) ∨
    ∃ letter others, word = letter :: others ∧ letter.symbol.avoids ['('] (fun phrase => phrase = .node .typeParameters) = true := by
  have words : (Phrase.node .arrowFunction).words.all (fun word =>
      word = [⟨.phrase (.group .signature), none, none⟩, ⟨.token (.mark .arrow), none, none⟩,
        ⟨.phrase (.group .expression), some .body, none⟩] ||
      word = [⟨.phrase (.group .signature), none, none⟩, ⟨.token (.mark .arrow), none, none⟩,
        ⟨.phrase (.node .statementBlock), some .body, none⟩] ||
      word.head?.any fun letter => letter.symbol.avoids ['('] (fun phrase => phrase = .node .typeParameters)) = true := by
    rfl
  intro word member
  have known := List.all_eq_true.mp words word member
  simp only [Bool.or_eq_true, decide_eq_true_eq] at known
  rcases known with (rfl | rfl) | first
  · exact .inl ⟨_, rfl, .inl rfl⟩
  · exact .inl ⟨_, rfl, .inr rfl⟩
  · cases word with
    | nil => cases first
    | cons letter others => exact .inr ⟨letter, others, rfl, first⟩

theorem body_cases {letter : Letter} {trees : List Tree} {tree : Tree}
    (body : letter = ⟨.phrase (.group .expression), some .body, none⟩ ∨
      letter = ⟨.phrase (.node .statementBlock), some .body, none⟩)
    (spelled : Spelled [letter] trees) (inside : tree ∈ trees) (solid : tree.isTrivia = false) :
    ∃ before after, trees = before ++ tree :: after ∧ (∀ tree ∈ before, tree.IsGap) ∧ (∀ tree ∈ after, tree.IsGap) ∧
      tree.role = some .body ∧ tree.Origin := by
  rcases body with rfl | rfl
  · obtain ⟨before, after, split, gaps, gaps', played, origin, -⟩ := spelled.expression_cases inside solid
    exact ⟨before, after, split, gaps, gaps', played, origin⟩
  · obtain ⟨gap, letters, inner, others, between, member, filled, later, rfl⟩ := spelled.node_cases rfl
    have same : tree = .node (some .body) .statementBlock (inner.dropWhile Tree.isSpacing) := by
      rcases List.mem_append.mp inside with inside | inside
      · rw [(between tree inside).trivia] at solid
        cases solid
      · rcases List.mem_cons.mp inside with same | inside
        · exact same
        · rw [(later.gaps tree inside).trivia] at solid
          cases solid
    exact ⟨gap, others, by rw [same], between, later.gaps, by rw [same]; rfl, by rw [same]; exact .phrase member filled⟩

theorem arrow_read {value block : Node} {source goal : Text} {after : List Tree} (stands : value.StandsBefore source after)
    (origin : value.tree.Origin) (arrow : value.kind = .arrowFunction) (found : value.child? .body = some block)
    (isBlock : block.kind = .statementBlock)
    (next : Text.ahead (value.text ++ Forest.text after) = '(' :: ')' :: ' ' :: '=' :: '>' :: ' ' :: '\x7b' :: goal) :
    ∃ gap, (∀ tree ∈ gap, tree.IsGap) ∧ BlockStands source block (gap ++ after) goal := by
  obtain ⟨role, word, inner, shape, member, spelled⟩ := origin.node_of_kind arrow (by decide) (Kind.isRenamed_declared (by simp))
  rw [Node.text, shape, Tree.text, Phrase.ahead_dropWhile member spelled] at next
  rcases arrowFunction_words word member with ⟨letter, rfl, body⟩ | ⟨letter, others, rfl, avoids⟩
  · obtain ⟨front, rest, split, plain, later, next1⟩ := spelled.read_signature next (by simp)
    obtain ⟨gap, bodied, between, later1, split1, text⟩ := later.read_mark next1 rfl
    have next2 : Text.ahead (Forest.text bodied ++ Forest.text after) = '\x7b' :: goal := by
      have text : ['=', '>'] ++ (Forest.text bodied ++ Forest.text after) = ['=', '>'] ++ ' ' :: '\x7b' :: goal := text
      rw [List.append_cancel_left text]
      rfl
    have children : value.tree.children =
        (front ++ (gap ++ [Tree.leaf none .symbol Mark.arrow.text.toList])).dropWhile Tree.isSpacing ++ bodied := by
      have inside : Tree.leaf none .symbol Mark.arrow.text.toList ∈
          front ++ (gap ++ [.leaf none .symbol Mark.arrow.text.toList]) := by simp
      rw [shape, Tree.children, split, split1, ← Forest.dropWhile_append inside rfl]
      simp
    have unplayed : ∀ tree ∈ (front ++ (gap ++ [Tree.leaf none .symbol Mark.arrow.text.toList])).dropWhile Tree.isSpacing,
        tree.role ≠ some .body := by
      intro tree member
      replace member := (List.dropWhile_suffix _).subset member
      simp only [List.mem_append, List.mem_singleton] at member
      rcases member with member | member | rfl
      · simp [plain tree member]
      · simp [(between tree member).1.role]
      · simp [Tree.role]
    have solid : block.tree.isTrivia = false := by
      rw [Tree.isTrivia, show block.tree.kind = .statementBlock from isBlock]
      rfl
    obtain ⟨before, others, split2, gaps, gaps', played, origin⟩ :=
      body_cases body later1 (Node.child?_tail children unplayed found) solid
    rw [split2, ← List.append_assoc] at children
    have first := Node.child?_split children (fun tree member => ?_) played (Tree.isSpacing_of_solid solid)
    rotate_left
    · rcases List.mem_append.mp member with member | member
      · exact unplayed tree member
      · simp [(gaps tree member).role]
    obtain ⟨role', letters, blockInner, shape', member', filled⟩ := origin.node_of_kind isBlock (by decide) (Kind.isRenamed_declared (by simp))
    refine ⟨others, gaps', ?_, role', letters, blockInner, shape', member', filled, ?_⟩
    · rw [Option.some.inj (found.symm.trans first)]
      exact stands.child children
    · rw [split2, Forest.text_append, List.append_assoc] at next2
      have next3 := (Forest.ahead_gap gaps next2 rfl).2.2
      rw [Forest.text, shape', Tree.text, List.append_assoc, Phrase.ahead_dropWhile member' filled] at next3
      rwa [Forest.text_append]
  · exact absurd (List.mem_singleton_self _) (spelled.ahead_avoids (List.all_eq_true.mp rfl) avoid_openParen avoids next)

theorem arrow_wrap (text : Text) : arrow.wrap text =
    ['c', 'o', 'n', 's', 't', ' '] ++ (['t', 'e', 'm', 'p'] ++ ' ' :: '=' :: ' ' :: '(' :: ')' :: ' ' :: '=' :: '>' :: ' ' ::
      '\x7b' :: '\n' :: (text ++ ['\n', '\x7d', ';'])) := by
  have same : arrow.wrap text =
    ['c', 'o', 'n', 's', 't', ' ', 't', 'e', 'm', 'p', ' ', '=', ' ', '(', ')', ' ', '=', '>', ' ', '\x7b', '\n'] ++ text ++
      ['\n', '\x7d', ';'] := rfl
  rw [same, List.append_assoc]
  rfl

def declaratorsOf (statement : Node) : List Node :=
  statement.namedChildren.filter fun child => child.kind = .variableDeclarator

theorem length_declaratorsOf (statement : Node) :
    (declaratorsOf statement).length = (VariableDeclaration.mk statement).declarators.length :=
  (List.length_map _).symm

/-- Behind the block of an arrow function comes the end of the declaration, or there are further variables. -/
theorem arrow_block {text : Text} {program : Program} {statement block : Node}
    (read : Program.parse (arrow.wrap text) = .ok program) (single : program.single? = some statement)
    (found : arrow.block? statement = some block) :
    ∃ after, BlockStands (arrow.wrap text) block after ('\n' :: (text ++ ['\n', '\x7d', ';'])) ∧
      ((declaratorsOf statement).length = 1 ∧ (∀ tree ∈ after, tree.IsLoose ∨ tree.text = [';']) ∨
        2 ≤ (declaratorsOf statement).length ∧ ∃ tree ∈ after, tree.text = [',']) := by
  obtain ⟨body, isBlock⟩ := body_of_block? found
  dsimp only at body
  split at body
  next value valued =>
    split at body
    next arrow =>
      have solid : value.tree.isTrivia = false := by
        rw [Tree.isTrivia, show value.tree.kind = .arrowFunction from arrow]
        rfl
      obtain ⟨after, stands, ⟨origin, -⟩, next, behind⟩ :=
        Program.firstValue?_opened temp_apart read single valued solid (arrow_wrap text) rfl
      obtain ⟨gap, gaps, block⟩ := arrow_read stands origin arrow body isBlock next
      rw [length_declaratorsOf]
      refine ⟨gap ++ after, block, behind.imp (And.imp_right fun ends tree member => ?_) (And.imp_right ?_)⟩
      · rcases List.mem_append.mp member with member | member
        · exact .inl (.inl (gaps tree member))
        · exact ends tree member
      · rintro ⟨tree, member, comma⟩
        exact ⟨tree, List.mem_append_right _ member, comma⟩
    next => cases body
  next => cases body

end FunctionShell
end Graft
