import Graft.Proofs.PhraseTraces
import Graft.Proofs.TokenShapes

/-! Derivations. The trees of a token are its text behind spacing; the trees of a phrase are those of the
symbols of a word of its rule, in order and with comments between them. -/

namespace Graft

/-- The trees of a token: spacing and its text, unless they are empty. -/
def Token.trees (token : Token) (spacing text : Text) : List Tree :=
  (if spacing.isEmpty then [] else [.leaf none .spacing spacing]) ++
    (if text.isEmpty then [] else [.leaf none token.kind text])

def Symbol.isExtra : Symbol → Bool
  | token it => it.isExtra
  | phrase _ => false

def Tree.isSpacing (tree : Tree) : Bool := tree.kind = .spacing

/-- One node of trees. Spacing before the first token stays outside. -/
def Forest.enclose (kind : Kind) (trees : List Tree) : List Tree :=
  trees.takeWhile Tree.isSpacing ++ [.node none kind (trees.dropWhile Tree.isSpacing)]

def Phrase.wrap (phrase : Phrase) (trees : List Tree) : List Tree :=
  match phrase with
  | .node kind => Forest.enclose kind trees
  | .group _ => trees

def Letter.dress (letter : Letter) (trees : List Tree) : List Tree :=
  let renamed :=
    match letter.rename with
    | none => trees
    | some kind =>
      match letter.symbol with
      | .phrase (.group _) => Forest.enclose kind trees
      | _ => trees.map fun tree => if tree.kind = .spacing then tree else StackEntry.recast kind tree
  match letter.role with
  | none => renamed
  | some role => renamed.map fun tree => if tree.isTrivia then tree else tree.withRole role

/-- A symbol of a phrase, or a comment between them, with its trees. -/
structure Part where
  letter : Letter
  trees : List Tree

namespace Part

def isExtra (part : Part) : Bool := part.letter.symbol.isExtra

def dressed (part : Part) : List Tree := part.letter.dress part.trees

/-- The word that parts spell, comments left out. -/
def word (parts : List Part) : List Letter := (parts.filter fun part => !part.isExtra).map letter

/-- A tree of some parts is one of a comment, or it stands in the place of a letter. -/
theorem mem_cases {parts : List Part}
    (plain : ∀ part ∈ parts, part.isExtra = true → part.letter.role = none ∧ part.letter.rename = none) {tree : Tree}
    (member : tree ∈ parts.flatMap dressed) :
    ∃ part ∈ parts, part.isExtra = true ∧ tree ∈ part.trees ∨
      part.isExtra = false ∧ part.letter ∈ word parts ∧ tree ∈ part.letter.dress part.trees := by
  obtain ⟨part, here, member⟩ := List.mem_flatMap.mp member
  refine ⟨part, here, ?_⟩
  cases extra : part.isExtra with
  | true =>
    obtain ⟨noRole, noName⟩ := plain part here extra
    simp only [dressed, Letter.dress, noRole, noName] at member
    exact .inl ⟨rfl, member⟩
  | false => exact .inr ⟨rfl, List.mem_map_of_mem (List.mem_filter.mpr ⟨here, by simp [extra]⟩), member⟩

end Part

/-- The trees that can be read for a symbol. A phrase starts with one of its symbols; comments before it do not
belong to it. -/
inductive Derives : Symbol → List Tree → Prop
  | token {token : Token} {spacing text : Text} (blank : ∀ c ∈ spacing, isSpacing c = true) (shape : token.Shape text) :
    Derives (.token token) (token.trees spacing text)
  | phrase {phrase : Phrase} {production : Production} {parts : List Part}
    (known : Grammar.productionOf? phrase.code = some production)
    (spells : Part.word parts ∈ production.rule.spellings none none)
    (plain : ∀ part ∈ parts, part.isExtra = true → part.letter.role = none ∧ part.letter.rename = none)
    (firm : ∀ part, parts.head? = some part → part.isExtra = false)
    (derived : ∀ part ∈ parts, Derives part.letter.symbol part.trees) :
    Derives (.phrase phrase) (phrase.wrap (parts.flatMap Part.dressed))

/-- A tree between two tokens: spacing or a comment. -/
def Tree.IsGap (tree : Tree) : Prop :=
  ∃ kind text, tree = .leaf none kind text ∧
    (kind = .spacing ∧ (∀ c ∈ text, Graft.isSpacing c = true) ∨ kind = .comment ∧ IsComment text ∨
      kind = .htmlComment ∧ IsPageComment text)

/-- Trees that spell a word, with gaps before, between and after its letters. -/
inductive Spelled : List Letter → List Tree → Prop
  | stop {gap : List Tree} (between : ∀ tree ∈ gap, tree.IsGap) : Spelled [] gap
  | letter {letter : Letter} {word : List Letter} {gap trees others : List Tree} (between : ∀ tree ∈ gap, tree.IsGap)
    (derived : Derives letter.symbol trees) (rest : Spelled word others) :
    Spelled (letter :: word) (gap ++ letter.dress trees ++ others)

theorem Tree.isGap_spacing {text : Text} (blank : ∀ c ∈ text, Graft.isSpacing c = true) :
    (Tree.leaf none .spacing text).IsGap := ⟨.spacing, text, rfl, .inl ⟨rfl, blank⟩⟩

theorem Derives.extra_gap {symbol : Symbol} {trees : List Tree} (derived : Derives symbol trees)
    (extra : symbol.isExtra = true) : ∀ tree ∈ trees, tree.IsGap := by
  cases derived with
  | phrase => cases extra
  | @token token spacing text blank shape =>
    intro tree member
    rcases List.mem_append.mp member with member | member
    · split at member
      next => cases member
      next =>
        rw [List.mem_singleton.mp member]
        exact Tree.isGap_spacing blank
    · split at member
      next => cases member
      next =>
        rw [List.mem_singleton.mp member]
        simp only [Symbol.isExtra, Token.isExtra, Bool.or_eq_true, decide_eq_true_eq] at extra
        rcases extra with rfl | rfl
        · exact ⟨.comment, text, rfl, .inr (.inl ⟨rfl, shape⟩)⟩
        · exact ⟨.htmlComment, text, rfl, .inr (.inr ⟨rfl, shape⟩)⟩

namespace Spelled

theorem behind {word : List Letter} {gap trees : List Tree} (between : ∀ tree ∈ gap, tree.IsGap)
    (spelled : Spelled word trees) : Spelled word (gap ++ trees) := by
  have joined : ∀ {other : List Tree}, (∀ tree ∈ other, tree.IsGap) → ∀ tree ∈ gap ++ other, tree.IsGap := by
    intro other gaps tree member
    rcases List.mem_append.mp member with member | member
    · exact between tree member
    · exact gaps tree member
  cases spelled with
  | stop between' => exact .stop (joined between')
  | letter between' derived rest =>
    rw [← List.append_assoc, ← List.append_assoc]
    exact .letter (joined between') derived rest

theorem of_parts {parts : List Part}
    (plain : ∀ part ∈ parts, part.isExtra = true → part.letter.role = none ∧ part.letter.rename = none)
    (derived : ∀ part ∈ parts, Derives part.letter.symbol part.trees) :
    Spelled (Part.word parts) (parts.flatMap Part.dressed) := by
  induction parts with
  | nil => exact .stop (by simp)
  | cons part parts ih =>
    have rest := ih (fun other member => plain other (List.mem_cons_of_mem _ member))
      (fun other member => derived other (List.mem_cons_of_mem _ member))
    have here := derived part (List.mem_cons_self ..)
    cases extra : part.isExtra with
    | true =>
      obtain ⟨noRole, noName⟩ := plain part (List.mem_cons_self ..) extra
      have same : part.dressed = part.trees := by simp [Part.dressed, Letter.dress, noRole, noName]
      simp only [Part.word, List.filter_cons, extra, Bool.not_true, Bool.false_eq_true, if_false, List.flatMap_cons, same]
      exact behind (here.extra_gap extra) rest
    | false =>
      simp only [Part.word, List.filter_cons, extra, Bool.not_false, if_true, List.map_cons, List.flatMap_cons]
      have none_before : ∀ tree ∈ ([] : List Tree), tree.IsGap := by simp
      exact Spelled.letter none_before here rest

end Spelled

/-- The trees of a phrase spell a word of its rule. -/
theorem Derives.spelled {phrase : Phrase} {production : Production} {trees : List Tree}
    (known : Grammar.productionOf? phrase.code = some production) (derived : Derives (.phrase phrase) trees) :
    ∃ word ∈ production.rule.spellings none none, ∃ inner, Spelled word inner ∧ trees = phrase.wrap inner := by
  cases derived with
  | phrase known' spells plain firm derived =>
    cases known.symm.trans known'
    exact ⟨_, spells, _, .of_parts plain derived, rfl⟩

/-! ### Texts -/

@[simp] theorem Forest.text_enclose (kind : Kind) (trees : List Tree) : text (enclose kind trees) = text trees := by
  rw [enclose, text_append]
  simp only [Forest.text, Tree.text, List.append_nil]
  rw [← text_append, List.takeWhile_append_dropWhile]

@[simp] theorem Tree.text_recast (kind : Kind) (tree : Tree) : (StackEntry.recast kind tree).text = tree.text := by
  cases tree <;> rfl

@[simp] theorem Tree.text_withRole (role : Role) (tree : Tree) : (tree.withRole role).text = tree.text := by
  cases tree <;> rfl

theorem Forest.text_map {change : Tree → Tree} (same : ∀ tree, (change tree).text = tree.text) (trees : List Tree) :
    text (trees.map change) = text trees := by
  induction trees with
  | nil => rfl
  | cons tree trees ih => simp [Forest.text, same, ih]

@[simp] theorem Letter.text_dress (letter : Letter) (trees : List Tree) :
    Forest.text (letter.dress trees) = Forest.text trees := by
  have renamed : ∀ kind, Forest.text (trees.map fun tree =>
      if tree.kind = .spacing then tree else StackEntry.recast kind tree) = Forest.text trees := by
    refine fun kind => Forest.text_map (fun tree => ?_) trees
    split <;> simp
  have played : ∀ role (trees : List Tree), Forest.text (trees.map fun tree =>
      if tree.isTrivia then tree else tree.withRole role) = Forest.text trees := by
    refine fun role => Forest.text_map fun tree => ?_
    split <;> simp
  unfold dress
  dsimp only
  split <;> (try rw [played]) <;> split <;> (try rfl) <;> split <;> simp [renamed]

@[simp] theorem Token.text_trees (token : Token) (spacing text : Text) :
    Forest.text (token.trees spacing text) = spacing ++ text := by
  unfold Token.trees
  split <;> split <;> simp_all [Forest.text, Tree.text]

end Graft
