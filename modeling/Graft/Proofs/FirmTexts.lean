import Graft.Proofs.ExpressionTrees
import Graft.Proofs.ShellOpenings

/-! What phrases start with. Comments before a phrase do not belong to it, so a phrase that cannot be empty starts
with a tree that is none, and that tree starts with a character that is no spacing. -/

namespace Graft

/-! ### Letters of the grammar -/

def Rule.letters (rule : Rule) (played : Option Role) (made : Option Kind) : List Letter :=
  match rule with
  | nothing => []
  | symbol it => [⟨it, played, made⟩]
  | pair one two => one.letters played made ++ two.letters played made
  | either one two => one.letters played made ++ two.letters played made
  | strong _ _ rule => rule.letters played made
  | role it rule => rule.letters (some it) made
  | rename kind rule => rule.letters played (some kind)

theorem Rule.mem_letters (rule : Rule) : ∀ (role : Option Role) (rename : Option Kind) (word : List Letter),
    word ∈ rule.spellings role rename → ∀ letter ∈ word, letter ∈ rule.letters role rename := by
  induction rule with
  | nothing =>
    intro role rename word member letter inside
    rw [List.mem_singleton.mp member] at inside
    cases inside
  | symbol it =>
    intro role rename word member letter inside
    rw [List.mem_singleton.mp member] at inside
    exact inside
  | pair one two front back =>
    intro role rename word member letter inside
    obtain ⟨first, here, member⟩ := List.mem_flatMap.mp member
    obtain ⟨second, there, rfl⟩ := List.mem_map.mp member
    rcases List.mem_append.mp inside with inside | inside
    · exact List.mem_append_left _ (front role rename first here letter inside)
    · exact List.mem_append_right _ (back role rename second there letter inside)
  | either one two front back =>
    intro role rename word member letter inside
    rcases List.mem_append.mp member with member | member
    · exact List.mem_append_left _ (front role rename word member letter inside)
    · exact List.mem_append_right _ (back role rename word member letter inside)
  | strong level side rule inner => exact inner
  | role it rule inner => exact fun _ rename => inner (some it) rename
  | rename kind rule inner => exact fun role _ => inner role (some kind)

/-- Whether all letters of all rules pass a test, which may ask for the phrase that a rule is of. -/
def Grammar.allLetters (test : Phrase → Letter → Bool) : Bool :=
  productions.all fun production => (production.rule.letters none none).all (test production.phrase)

theorem Phrase.letter_passes {test : Phrase → Letter → Bool} (passes : Grammar.allLetters test = true) {phrase : Phrase}
    {word : List Letter} (member : word ∈ phrase.words) {letter : Letter} (inside : letter ∈ word) :
    test phrase letter = true := by
  rw [words] at member
  split at member
  next production known =>
    have named := Grammar.production_phrase known
    have listed := production.rule.mem_letters none none word member letter inside
    have rule := List.all_eq_true.mp passes production (List.mem_of_find?_eq_some known)
    rw [named] at rule
    exact List.all_eq_true.mp rule letter listed
  next => cases member

/-! ### Trees in the place of a letter -/

def Letter.rekind (letter : Letter) (trees : List Tree) : List Tree :=
  match letter.rename with
  | none => trees
  | some kind =>
    match letter.symbol with
    | .phrase (.group _) => Forest.enclose kind trees
    | _ => trees.map fun tree => if tree.kind = .spacing then tree else StackEntry.recast kind tree

/-- Trees that play a role. Trivia play none. -/
def Forest.play (role : Option Role) (trees : List Tree) : List Tree :=
  match role with
  | none => trees
  | some role => trees.map fun tree => if tree.isTrivia then tree else tree.withRole role

theorem Letter.dress_eq (letter : Letter) (trees : List Tree) :
    letter.dress trees = Forest.play letter.role (letter.rekind trees) := rfl

theorem Forest.mem_play {role : Option Role} {trees : List Tree} {tree : Tree} (member : tree ∈ play role trees) :
    ∃ before ∈ trees, tree = before ∧ (role = none ∨ before.isTrivia = true) ∨
      before.isTrivia = false ∧ ∃ it, role = some it ∧ tree = before.withRole it := by
  cases role with
  | none => exact ⟨tree, member, .inl ⟨rfl, .inl rfl⟩⟩
  | some it =>
    obtain ⟨before, here, rfl⟩ := List.mem_map.mp member
    cases trivia : before.isTrivia with
    | true => exact ⟨before, here, .inl ⟨by simp, .inr trivia⟩⟩
    | false => exact ⟨before, here, .inr ⟨trivia, it, rfl, by simp⟩⟩

/-! ### Firm trees -/

/-- The text of a tree starts with a character that is no spacing. -/
def Tree.IsFirm (tree : Tree) : Prop := ∃ c rest, tree.text = c :: rest ∧ Graft.isSpacing c = false

/-- Behind spacing, the first tree is no trivia, and it is firm. -/
def Forest.IsFirm (trees : List Tree) : Prop :=
  ∃ blank first others, trees = blank ++ first :: others ∧ (∀ tree ∈ blank, tree.isSpacing = true) ∧
    first.isTrivia = false ∧ first.IsFirm

theorem Tree.IsFirm.of_text {tree other : Tree} (firm : tree.IsFirm) (same : other.text = tree.text) : other.IsFirm := by
  rwa [IsFirm, same]

namespace Forest.IsFirm
variable {trees : List Tree}

theorem append (firm : IsFirm trees) (others : List Tree) : IsFirm (trees ++ others) := by
  obtain ⟨blank, first, more, rfl, rest⟩ := firm
  exact ⟨blank, first, more ++ others, by simp, rest⟩

theorem enclose {kind : Kind} (firm : IsFirm trees) (solid : kind.isTrivia = false) :
    IsFirm (Forest.enclose kind trees) := by
  obtain ⟨blank, first, others, rfl, spacing, other, c, rest, text, head⟩ := firm
  have stop : first.isSpacing = false := Tree.isSpacing_of_solid other
  refine ⟨blank, .node none kind (first :: others), [], ?_, spacing, solid, c, rest ++ Forest.text others, ?_, head⟩
  · rw [Forest.enclose, List.takeWhile_append_of_pos spacing, List.dropWhile_append_of_pos spacing,
      List.takeWhile_cons_of_neg (by simp [stop]), List.dropWhile_cons_of_neg (by simp [stop]), List.append_nil]
  · rw [Tree.text, Forest.text, text, List.cons_append]

/-- Firm trees stay firm where each tree keeps its text, spacing stays spacing and nothing becomes trivia. -/
theorem map {change : Tree → Tree} (firm : IsFirm trees) (text : ∀ tree, (change tree).text = tree.text)
    (blank : ∀ tree : Tree, tree.isSpacing = true → (change tree).isSpacing = true)
    (solid : ∀ tree : Tree, tree.isTrivia = false → (change tree).isTrivia = false) : IsFirm (trees.map change) := by
  obtain ⟨spacing, first, others, rfl, spaces, other, firm⟩ := firm
  refine ⟨spacing.map change, change first, others.map change, by simp, ?_, solid first other, firm.of_text (text first)⟩
  intro tree member
  obtain ⟨before, here, rfl⟩ := List.mem_map.mp member
  exact blank before (spaces before here)

theorem play {role : Option Role} (firm : IsFirm trees) : IsFirm (Forest.play role trees) := by
  cases role with
  | none => exact firm
  | some role =>
    refine firm.map (fun tree => ?_) (fun tree blank => ?_) fun tree solid => ?_
    · split <;> simp
    · rw [if_pos (Tree.isTrivia_of_isSpacing blank)]
      exact blank
    · rw [solid, if_neg Bool.false_ne_true]
      cases tree <;> exact solid

theorem rekind {letter : Letter} (firm : IsFirm trees)
    (named : ∀ kind, letter.rename = some kind → kind.isTrivia = false) : IsFirm (letter.rekind trees) := by
  unfold Letter.rekind
  split
  next => exact firm
  next kind same =>
    split
    next => exact firm.enclose (named kind same)
    next =>
      refine firm.map (fun tree => ?_) (fun tree blank => ?_) fun tree solid => ?_
      · split <;> simp
      · rw [if_pos (of_decide_eq_true blank)]
        exact blank
      · split
        next => exact solid
        next => cases tree <;> exact named kind same

theorem dress {letter : Letter} (firm : IsFirm trees)
    (named : ∀ kind, letter.rename = some kind → kind.isTrivia = false) : IsFirm (letter.dress trees) :=
  (firm.rekind named).play

end Forest.IsFirm

theorem Phrase.rename_solid {phrase : Phrase} {word : List Letter} (member : word ∈ phrase.words) {letter : Letter}
    (inside : letter ∈ word) {kind : Kind} (same : letter.rename = some kind) : kind.isTrivia = false := by
  cases trivia : kind.isTrivia with
  | false => rfl
  | true =>
    have never := Phrase.rename_mem member inside same
    rw [(trivia_unnamed trivia).1] at never
    cases never

theorem Phrase.node_solid {kind : Kind} {word : List Letter} (member : word ∈ (Phrase.node kind).words) :
    kind.isTrivia = false := by
  cases trivia : kind.isTrivia with
  | false => rfl
  | true =>
    rw [(trivia_unnamed trivia).2] at member
    cases member

def Symbol.isFirm (symbol : Symbol) : Bool := symbol.avoids [')'] fun phrase => !phrase.isFree

/-- The trees of a symbol that cannot be empty. -/
theorem Derives.firm {symbol : Symbol} {trees : List Tree} (derived : Derives symbol trees)
    (firm : symbol.isFirm = true) : Forest.IsFirm trees := by
  induction derived with
  | @token token spacing text blank shape =>
    obtain ⟨c, rest, rfl, head, -⟩ := Token.starts firm shape
    refine ⟨if spacing.isEmpty then [] else [.leaf none .spacing spacing], .leaf none token.kind (c :: rest), [], ?_, ?_,
      ?_, c, rest, rfl, head⟩
    · simp [Token.trees]
    · split <;> simp [Tree.isSpacing, Tree.kind]
    · cases trivia : (Tree.leaf none token.kind (c :: rest)).isTrivia with
      | false => rfl
      | true =>
        have extra : token.isExtra = true := Token.kind_trivia trivia
        simp only [Token.isExtra, Bool.or_eq_true, decide_eq_true_eq] at extra
        rcases extra with rfl | rfl <;> cases firm
  | @phrase phrase production parts known spells plain starts derived ih =>
    have named := Grammar.production_phrase known
    have rule := List.all_eq_true.mp avoid_closeParen production (List.mem_of_find?_eq_some known)
    have inside : (!production.phrase.isFree) = true := by rw [named]; exact firm
    dsimp only at rule
    rw [inside, Bool.not_true, Bool.false_or, Bool.and_eq_true, Bool.not_eq_true'] at rule
    have words := spells
    rw [← Phrase.words_eq known] at words
    have opens : Forest.IsFirm (parts.flatMap Part.dressed) := by
      rcases production.rule.spellings_head none none _ spells with ⟨-, empty⟩ | ⟨letter, others, word, head⟩
      · rw [rule.1] at empty
        cases empty
      · cases parts with
        | nil => cases word
        | cons part parts =>
          simp only [Part.word, List.filter_cons, starts part rfl, Bool.not_false, if_true, List.map_cons] at word words
          have same : part.letter = letter := (List.cons.inj word).1
          have here := ih part (List.mem_cons_self ..) (by rw [same]; exact List.all_eq_true.mp rule.2 _ head)
          exact (here.dress fun kind => Phrase.rename_solid words (List.mem_cons_self ..)).append _
    cases phrase with
    | group => exact opens
    | node kind => exact opens.enclose (Phrase.node_solid words)

theorem Derives.node_firm {kind : Kind} {inner : List Tree}
    (derived : Derives (.phrase (.node kind)) (Forest.enclose kind inner)) (some : (Phrase.node kind).isFree = false)
    (role : Option Role) : (Tree.node role kind (inner.dropWhile Tree.isSpacing)).IsFirm := by
  obtain ⟨blank, first, others, split, spacing, solid, firm⟩ := derived.firm (by simp [Symbol.isFirm, Symbol.avoids, some])
  have blanks : ∀ tree ∈ inner.takeWhile Tree.isSpacing, tree.isSpacing = true :=
    fun tree member => List.all_eq_true.mp List.all_takeWhile tree member
  have same : Tree.node none kind (inner.dropWhile Tree.isSpacing) = first := by
    rw [Forest.enclose] at split
    rcases List.eq_nil_or_concat others with rfl | ⟨more, final, rfl⟩
    · exact List.singleton_inj.mp (List.append_inj' split rfl).2
    · rw [List.concat_eq_append, ← List.cons_append, ← List.append_assoc] at split
      have inside : first ∈ inner.takeWhile Tree.isSpacing := by
        rw [(List.append_inj' split rfl).1]
        simp
      have spaced := blanks first inside
      rw [Tree.isSpacing_of_solid solid] at spaced
      cases spaced
  rw [← same] at firm
  exact firm.of_text rfl

end Graft
