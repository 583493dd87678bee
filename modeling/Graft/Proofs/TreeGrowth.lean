import Graft.Proofs.FirmTexts

/-! How trees grow. Every node that can be reached from the root of a program was made around what spells a word of
some phrase, of its own kind or of one that was renamed to it. So a fact about all letters of the grammar is one about
all children in the tree of a program. -/

namespace Graft

/-- The node of a phrase can come to be of a kind: its own, or one that a letter of the grammar gives it. -/
def Phrase.CanBe (phrase : Phrase) (kind : Kind) : Prop :=
  phrase = .node kind ∨ ∃ outer : Phrase, ∃ word ∈ outer.words, ∃ letter ∈ word,
    letter.symbol = .phrase phrase ∧ letter.rename = some kind

/-- A leaf, or a node around what spells a word of a phrase, with spacing before it left out. -/
inductive Tree.Grown : Tree → Prop
  | leaf {role : Option Role} {kind : Kind} {text : Text} : Grown (.leaf role kind text)
  | node {role : Option Role} {kind : Kind} {phrase : Phrase} {word : List Letter} {blank trees : List Tree}
    (made : phrase.CanBe kind) (member : word ∈ phrase.words) (spelled : Spelled word (blank ++ trees))
    (spacing : ∀ tree ∈ blank, tree.isSpacing = true) : Grown (.node role kind trees)

theorem Tree.Grown.enclosed {role : Option Role} {kind : Kind} {phrase : Phrase} {word : List Letter} {inner : List Tree}
    (made : phrase.CanBe kind) (member : word ∈ phrase.words) (spelled : Spelled word inner) :
    (Tree.node role kind (inner.dropWhile Tree.isSpacing)).Grown := by
  have spacing : ∀ tree ∈ inner.takeWhile Tree.isSpacing, tree.isSpacing = true :=
    fun tree inside => List.all_eq_true.mp List.all_takeWhile tree inside
  refine .node made member ?_ spacing
  rwa [List.takeWhile_append_dropWhile]

namespace Tree

theorem IsGap.grown {tree : Tree} (gap : tree.IsGap) : tree.Grown := by
  obtain ⟨kind, text, rfl, -⟩ := gap
  exact .leaf

theorem Grown.withRole {tree : Tree} (grown : tree.Grown) (role : Role) : (tree.withRole role).Grown := by
  cases grown with
  | leaf => exact .leaf
  | node made member spelled spacing => exact .node made member spelled spacing

end Tree

theorem Letter.rekind_grown {letter : Letter} {trees : List Tree} (derived : Derives letter.symbol trees)
    (grown : ∀ tree ∈ trees, tree.Grown) {outer : Phrase} {word : List Letter} (member : word ∈ outer.words)
    (inside : letter ∈ word) : ∀ tree ∈ letter.rekind trees, tree.Grown := by
  intro tree listed
  unfold rekind at listed
  split at listed
  next => exact grown tree listed
  next kind same =>
    cases symbol : letter.symbol with
    | token token =>
      rw [symbol] at derived listed
      obtain ⟨before, here, rfl⟩ := List.mem_map.mp listed
      obtain ⟨_, _, rfl⟩ := derived.leaf_of_token before here
      split <;> exact .leaf
    | phrase phrase =>
      rw [symbol] at derived listed
      have made : phrase.CanBe kind := .inr ⟨outer, word, member, letter, inside, symbol, same⟩
      obtain ⟨letters, known, inner, spelled, rfl⟩ := derived.word
      cases phrase with
      | group group =>
        rcases List.mem_append.mp listed with listed | listed
        · exact grown tree ((List.takeWhile_prefix _).subset listed)
        · rw [List.mem_singleton.mp listed]
          exact .enclosed made known spelled
      | node own =>
        obtain ⟨before, here, rfl⟩ := List.mem_map.mp listed
        split
        next => exact grown before here
        next other =>
          rcases List.mem_append.mp here with blank | here
          · exact absurd (of_decide_eq_true (List.all_eq_true.mp List.all_takeWhile before blank)) other
          · rw [List.mem_singleton.mp here]
            exact .enclosed made known spelled

theorem Letter.dress_grown {letter : Letter} {trees : List Tree} (derived : Derives letter.symbol trees)
    (grown : ∀ tree ∈ trees, tree.Grown) {outer : Phrase} {word : List Letter} (member : word ∈ outer.words)
    (inside : letter ∈ word) : ∀ tree ∈ letter.dress trees, tree.Grown := by
  intro tree listed
  obtain ⟨before, here, ⟨rfl, -⟩ | ⟨-, role, -, rfl⟩⟩ := Forest.mem_play listed
  · exact Letter.rekind_grown derived grown member inside _ here
  · exact (Letter.rekind_grown derived grown member inside _ here).withRole role

theorem Derives.grown {symbol : Symbol} {trees : List Tree} (derived : Derives symbol trees) :
    ∀ tree ∈ trees, tree.Grown := by
  induction derived with
  | token blank shape =>
    intro tree member
    obtain ⟨_, _, rfl⟩ := (Derives.token blank shape).leaf_of_token tree member
    exact .leaf
  | @phrase phrase production parts known spells plain firm derived ih =>
    rw [← Phrase.words_eq known] at spells
    have inside : ∀ tree ∈ parts.flatMap Part.dressed, tree.Grown := by
      intro tree member
      obtain ⟨part, here, ⟨-, member⟩ | ⟨-, letter, member⟩⟩ := Part.mem_cases plain member
      · exact ih part here tree member
      · exact Letter.dress_grown (derived part here) (ih part here) spells letter tree member
    cases phrase with
    | group => exact inside
    | node kind =>
      intro tree member
      rcases List.mem_append.mp member with member | member
      · exact inside tree ((List.takeWhile_prefix _).subset member)
      · rw [List.mem_singleton.mp member]
        exact .enclosed (.inl rfl) spells (.of_parts plain derived)

/-- A tree among those of a word is a gap, or it belongs to one of the letters. -/
theorem Spelled.mem_cases {word : List Letter} {trees : List Tree} (spelled : Spelled word trees) {tree : Tree}
    (member : tree ∈ trees) :
    tree.IsGap ∨ ∃ letter ∈ word, ∃ made, Derives letter.symbol made ∧ tree ∈ letter.dress made := by
  induction spelled with
  | stop between => exact .inl (between tree member)
  | @letter letter word gap made others between derived _ ih =>
    rcases List.mem_append.mp member with member | member
    · rcases List.mem_append.mp member with member | member
      · exact .inl (between tree member)
      · exact .inr ⟨letter, List.mem_cons_self .., made, derived, member⟩
    · refine (ih member).imp_right ?_
      rintro ⟨other, inside, rest⟩
      exact ⟨other, List.mem_cons_of_mem _ inside, rest⟩

theorem Phrase.spelled_grown {phrase : Phrase} {word : List Letter} {trees : List Tree} (member : word ∈ phrase.words)
    (spelled : Spelled word trees) : ∀ tree ∈ trees, tree.Grown := by
  intro tree inside
  rcases spelled.mem_cases inside with gap | ⟨letter, listed, made, derived, dressed⟩
  · exact gap.grown
  · exact Letter.dress_grown derived derived.grown member listed tree dressed

theorem Tree.Grown.word {tree child : Tree} (grown : tree.Grown) (inside : child ∈ tree.children) :
    ∃ phrase : Phrase, ∃ word blank, phrase.CanBe tree.kind ∧ word ∈ phrase.words ∧
      Spelled word (blank ++ tree.children) ∧ ∀ tree ∈ blank, tree.isSpacing = true := by
  cases grown with
  | leaf => cases inside
  | @node role kind phrase word blank trees made member spelled spacing =>
    exact ⟨phrase, word, blank, made, member, spelled, spacing⟩

theorem Tree.Grown.child {tree child : Tree} (grown : tree.Grown) (inside : child ∈ tree.children) : child.Grown := by
  obtain ⟨phrase, word, blank, -, member, spelled, -⟩ := grown.word inside
  exact Phrase.spelled_grown member spelled child (List.mem_append_right _ inside)

/-- The trees of a program are grown. -/
theorem Program.root_grown {source : Text} {program : Program} (read : Program.parse source = .ok program) :
    program.root.tree.Grown := by
  obtain ⟨word, member, spelled⟩ := parse_spelled read
  obtain ⟨-, forest, -, tree⟩ := parse_ok read
  rw [tree] at spelled
  rw [show program.root.tree = .node none .program forest from tree]
  have none : ∀ tree ∈ ([] : List Tree), tree.isSpacing = true := by simp
  exact .node (.inl rfl) member spelled none

/-! ### Kinds of children -/

/-- The kind of the tree of a letter, unless the letter stands for a group. -/
def Letter.single? (letter : Letter) : Option Kind :=
  match letter.symbol with
  | .token token => some (letter.rename.getD token.kind)
  | .phrase (.node kind) => some (letter.rename.getD kind)
  | .phrase (.group _) => none

/-- A symbol that is no group has one tree, of its kind, and else spacing. -/
theorem Derives.of_single {letter : Letter} {kind : Kind} (single : letter.single? = some kind) {made : List Tree}
    (derived : Derives letter.symbol made) :
    ∃ own, letter.rename.getD own = kind ∧
      ∀ tree ∈ made, tree.role = none ∧ (tree.isSpacing = true ∨ tree.kind = own) := by
  unfold Letter.single? at single
  split at single
  next token same =>
    refine ⟨token.kind, Option.some.inj single, fun tree member => ?_⟩
    rw [same] at derived
    cases derived with
    | token blank shape =>
      rcases List.mem_append.mp member with member | member
      · split at member
        next => cases member
        next =>
          rw [List.mem_singleton.mp member]
          exact ⟨rfl, .inl rfl⟩
      · split at member
        next => cases member
        next =>
          rw [List.mem_singleton.mp member]
          exact ⟨rfl, .inr rfl⟩
  next own same =>
    refine ⟨own, Option.some.inj single, fun tree member => ?_⟩
    rw [same] at derived
    obtain ⟨word, known, inner, spelled, rfl⟩ := derived.word
    rcases List.mem_append.mp member with member | member
    · exact ⟨((Forest.takeWhile_blank (Phrase.spelled_origin known spelled)).1 tree member).role,
        .inl (List.all_eq_true.mp List.all_takeWhile tree member)⟩
    · rw [List.mem_singleton.mp member]
      exact ⟨rfl, .inr rfl⟩
  next => cases single

theorem Letter.dress_single {letter : Letter} {kind : Kind} (single : letter.single? = some kind) {made : List Tree}
    (derived : Derives letter.symbol made) :
    ∀ tree ∈ letter.dress made,
      tree.isTrivia = true ∧ tree.role = none ∨ tree.kind = kind ∧ tree.role = letter.role := by
  obtain ⟨own, named, all⟩ := derived.of_single single
  have kept : ∀ tree ∈ letter.rekind made, tree.role = none ∧ (tree.isTrivia = true ∨ tree.kind = kind) := by
    intro tree listed
    unfold rekind at listed
    cases rename : letter.rename with
    | none =>
      rw [rename] at named listed
      cases named
      exact (all tree listed).imp_right (.imp_left Tree.isTrivia_of_isSpacing)
    | some other =>
      rw [rename] at named listed
      cases named
      dsimp only at listed
      split at listed
      next group same => simp [single?, same] at single
      next =>
        obtain ⟨before, here, rfl⟩ := List.mem_map.mp listed
        have silent := (all before here).1
        split
        next blank => exact ⟨silent, .inl (Tree.isTrivia_of_isSpacing (decide_eq_true blank))⟩
        next => cases before <;> exact ⟨silent, .inr rfl⟩
  intro tree listed
  obtain ⟨before, here, ⟨rfl, silent⟩ | ⟨solid, role, played, rfl⟩⟩ := Forest.mem_play listed
  · obtain ⟨none, trivia | same⟩ := kept _ here
    · exact .inl ⟨trivia, none⟩
    · rcases silent with silent | trivia
      · exact .inr ⟨same, none.trans silent.symm⟩
      · exact .inl ⟨trivia, none⟩
  · rcases (kept before here).2 with trivia | same
    · rw [trivia] at solid
      cases solid
    · rw [played]
      cases before <;> exact .inr ⟨same, rfl⟩

theorem Token.trees_isLeaf (token : Token) (spacing text : Text) :
    ∀ tree ∈ token.trees spacing text, tree.kind.isLeaf = true := by
  intro tree member
  rcases List.mem_append.mp member with member | member
  all_goals
    split at member
    next => cases member
    next =>
      rw [List.mem_singleton.mp member]
      first | rfl | exact token.kind_isLeaf

/-- A kind that only phrases of their own have, and no group has a letter for. -/
structure Kind.IsOwn (kind : Kind) : Prop where
  solid : kind.isLeaf = false
  unnamed : kind.isRenamed = false
  ungrouped : Grammar.allLetters (fun phrase letter =>
    letter.symbol ≠ .phrase (.node kind) || match phrase with | .node _ => true | .group _ => false) = true

theorem Tree.IsGap.isLeaf {tree : Tree} (gap : tree.IsGap) : tree.kind.isLeaf = true := by
  obtain ⟨kind, text, rfl, ⟨rfl, -⟩ | ⟨rfl, -⟩ | ⟨rfl, -⟩⟩ := gap <;> rfl

theorem Letter.symbol_of_kind {kind : Kind} (own : kind.IsOwn) {letter : Letter} {made : List Tree}
    (known : ∀ other, letter.rename = some other → other.isRenamed = true)
    (below : ∀ tree ∈ made, tree.kind = kind → letter.symbol = .phrase (.node kind)) :
    ∀ tree ∈ letter.dress made, tree.kind = kind → letter.symbol = .phrase (.node kind) := by
  have never : ∀ {other : Kind}, letter.rename = some other → other ≠ kind := by
    rintro other same rfl
    have named := known other same
    rw [own.unnamed] at named
    cases named
  have solid : ∀ {tree : Tree}, tree.isSpacing = true → tree.kind ≠ kind := by
    intro tree blank same
    rw [← same, of_decide_eq_true blank] at own
    cases own.solid
  have kept : ∀ tree ∈ letter.rekind made, tree.kind = kind → letter.symbol = .phrase (.node kind) := by
    intro tree listed same
    unfold rekind at listed
    split at listed
    next => exact below tree listed same
    next other rename =>
      split at listed
      next =>
        rcases List.mem_append.mp listed with blank | listed
        · exact absurd same (solid (List.all_eq_true.mp List.all_takeWhile tree blank))
        · rw [List.mem_singleton.mp listed] at same
          exact absurd same (never rename)
      next =>
        obtain ⟨before, here, rfl⟩ := List.mem_map.mp listed
        split at same
        next blank => exact absurd same (solid (decide_eq_true blank))
        next => cases before <;> exact absurd same (never rename)
  intro tree listed same
  obtain ⟨before, here, ⟨rfl, -⟩ | ⟨-, role, -, rfl⟩⟩ := Forest.mem_play listed
  · exact kept _ here same
  · cases before <;> exact kept _ here same

/-- A tree of such a kind was made for a letter that stands for its phrase. -/
theorem Derives.symbol_of_kind {kind : Kind} (own : kind.IsOwn) {symbol : Symbol} {trees : List Tree}
    (derived : Derives symbol trees) : ∀ tree ∈ trees, tree.kind = kind → symbol = .phrase (.node kind) := by
  induction derived with
  | @token token spacing text blank shape =>
    intro tree member same
    have leaf := token.trees_isLeaf spacing text tree member
    rw [same, own.solid] at leaf
    cases leaf
  | @phrase phrase production parts known spells plain firm derived ih =>
    intro tree member same
    rw [← Phrase.words_eq known] at spells
    cases phrase with
    | node other =>
      have origin := Phrase.spelled_origin spells (.of_parts plain derived)
      rcases List.mem_append.mp member with member | member
      · have leaf := ((Forest.takeWhile_blank origin).1 tree member).isLeaf
        rw [same, own.solid] at leaf
        cases leaf
      · rw [List.mem_singleton.mp member] at same
        rw [← same]
        rfl
    | group group =>
      obtain ⟨part, here, ⟨extra, member⟩ | ⟨-, inside, member⟩⟩ := Part.mem_cases plain member
      · have leaf := ((derived part here).extra_gap extra tree member).isLeaf
        rw [same, own.solid] at leaf
        cases leaf
      · have symbol := Letter.symbol_of_kind own (fun other => Phrase.rename_mem spells inside) (ih part here) tree member same
        have never := Phrase.letter_passes own.ungrouped spells inside
        simp [symbol] at never

theorem Spelled.letter_of_kind {kind : Kind} (own : kind.IsOwn) {phrase : Phrase} {word : List Letter}
    (member : word ∈ phrase.words) {trees : List Tree} (spelled : Spelled word trees) {tree : Tree} (inside : tree ∈ trees)
    (same : tree.kind = kind) : ∃ letter ∈ word, letter.symbol = .phrase (.node kind) := by
  rcases spelled.mem_cases inside with gap | ⟨letter, listed, made, derived, dressed⟩
  · have leaf := gap.isLeaf
    rw [same, own.solid] at leaf
    cases leaf
  · exact ⟨letter, listed, Letter.symbol_of_kind own (fun other => Phrase.rename_mem member listed)
      (derived.symbol_of_kind own) tree dressed same⟩

end Graft
