import Graft.Proofs.ProgramStatements

/-! The tree of an expression. An expression is one tree with gaps around it, so what plays a role as an expression
is that tree. -/

namespace Graft

/-- Whether each word of some groups is one letter, of which those that are groups are among them, and only tokens
get another kind. -/
def Grammar.singles (groups : List Group) : Bool :=
  groups.all fun group => (Phrase.group group).words.all fun word =>
    match word with
    | [letter] =>
      letter.role = none &&
        match letter.symbol with
        | .phrase (.group other) => groups.contains other && letter.rename = none
        | .phrase (.node _) => letter.rename = none
        | .token _ => true
    | _ => false

def Tree.isSolid (tree : Tree) : Bool := !tree.isTrivia

theorem Tree.IsGap.isSolid {tree : Tree} (gap : tree.IsGap) : tree.isSolid = false := by
  rw [Tree.isSolid, gap.trivia]
  rfl

theorem Forest.countP_gap {gap : List Tree} (between : ∀ tree ∈ gap, tree.IsGap) : gap.countP Tree.isSolid = 0 := by
  rw [List.countP_eq_zero]
  intro tree member
  simp [(between tree member).isSolid]

theorem Part.countP_le {parts : List Part}
    (each : ∀ part ∈ parts, part.dressed.countP Tree.isSolid ≤ if part.isExtra then 0 else 1) :
    (parts.flatMap Part.dressed).countP Tree.isSolid ≤ (Part.word parts).length := by
  induction parts with
  | nil => exact Nat.le_refl 0
  | cons part parts ih =>
    have here := each part (List.mem_cons_self ..)
    have later := ih fun other member => each other (List.mem_cons_of_mem _ member)
    rw [List.flatMap_cons, List.countP_append]
    cases extra : part.isExtra <;> rw [extra] at here <;>
      simp only [Part.word, List.filter_cons, extra, Bool.not_false, Bool.not_true, Bool.false_eq_true, if_true, if_false,
        List.map_cons, List.length_cons] at * <;> omega

/-- What is neither spacing nor a comment was not spacing before it got another kind. -/
theorem Forest.countP_recast (kind : Kind) (trees : List Tree) :
    (trees.map fun tree => if tree.kind = .spacing then tree else StackEntry.recast kind tree).countP Tree.isSolid ≤
      trees.countP fun tree => !tree.isSpacing := by
  rw [List.countP_map]
  refine List.countP_mono_left fun tree _ solid => ?_
  dsimp only [Function.comp] at solid
  split at solid
  next spacing =>
    rw [Tree.isSolid, Tree.isTrivia, spacing] at solid
    cases solid
  next other => simpa [Tree.isSpacing] using other

theorem Grammar.singles_part {groups : List Group} (closed : Grammar.singles groups = true) {group : Group}
    (listed : group ∈ groups) {parts : List Part} (spells : Part.word parts ∈ (Phrase.group group).words) :
    (Part.word parts).length = 1 ∧ ∀ part ∈ parts, part.isExtra = false → part.letter.role = none ∧
      (part.letter.rename = none ∧ (∀ other, part.letter.symbol = .phrase (.group other) → other ∈ groups) ∨
        ∃ token, part.letter.symbol = .token token) := by
  have single := List.all_eq_true.mp (List.all_eq_true.mp closed group listed) _ spells
  split at single
  next letter same =>
    refine ⟨by rw [same]; rfl, fun part here plain => ?_⟩
    have inside : part.letter ∈ Part.word parts :=
      List.mem_map_of_mem (List.mem_filter.mpr ⟨here, by simp [plain]⟩)
    rw [same] at inside
    rw [← List.mem_singleton.mp inside, Bool.and_eq_true, decide_eq_true_eq] at single
    obtain ⟨noRole, form⟩ := single
    refine ⟨noRole, ?_⟩
    cases symbol : part.letter.symbol with
    | token token => exact .inr ⟨token, rfl⟩
    | phrase phrase =>
      rw [symbol] at form
      cases phrase with
      | node kind => exact .inl ⟨by simpa using form, by simp⟩
      | group other =>
        simp only [Bool.and_eq_true, decide_eq_true_eq, List.contains_eq_mem] at form
        exact .inl ⟨form.2, by rintro _ ⟨⟩; exact form.1⟩
  next => cases single

theorem Derives.countP_le {groups : List Group} (closed : Grammar.singles groups = true) {symbol : Symbol}
    {trees : List Tree} (derived : Derives symbol trees) :
    ((∀ group, symbol ≠ .phrase (.group group)) → (trees.countP fun tree => !tree.isSpacing) ≤ 1) ∧
      ((∀ group, symbol = .phrase (.group group) → group ∈ groups) → trees.countP Tree.isSolid ≤ 1) := by
  have solid : ∀ trees : List Tree, trees.countP Tree.isSolid ≤ trees.countP fun tree => !tree.isSpacing := by
    refine fun trees => List.countP_mono_left fun tree _ solid => ?_
    cases spacing : tree.isSpacing with
    | true =>
      rw [Tree.isSolid, Tree.isTrivia_of_isSpacing spacing] at solid
      cases solid
    | false => rfl
  induction derived with
  | @token token spacing text blank shape =>
    have few : ((token.trees spacing text).countP fun tree => !tree.isSpacing) ≤ 1 := by
      have gap : (if spacing.isEmpty then [] else [Tree.leaf none .spacing spacing]).countP (fun tree => !tree.isSpacing) = 0 := by
        split <;> rfl
      rw [Token.trees, List.countP_append, gap, Nat.zero_add]
      split
      next => exact Nat.zero_le 1
      next => exact List.countP_le_length
    exact ⟨fun _ => few, fun _ => Nat.le_trans (solid _) few⟩
  | @phrase phrase production parts known spells plain firm derived ih =>
    cases phrase with
    | node kind =>
      have few : ((Forest.enclose kind (parts.flatMap Part.dressed)).countP fun tree => !tree.isSpacing) ≤ 1 := by
        have blank : ((parts.flatMap Part.dressed).takeWhile Tree.isSpacing).countP (fun tree => !tree.isSpacing) = 0 := by
          rw [List.countP_eq_zero]
          intro tree member
          simp [show tree.isSpacing = true from List.all_eq_true.mp List.all_takeWhile tree member]
        rw [Forest.enclose, List.countP_append, blank, Nat.zero_add]
        exact List.countP_le_length
      exact ⟨fun _ => few, fun _ => Nat.le_trans (solid _) few⟩
    | group group =>
      refine ⟨fun never => absurd rfl (never group), fun listed => ?_⟩
      rw [← Phrase.words_eq known] at spells
      obtain ⟨one, only⟩ := Grammar.singles_part closed (listed group rfl) spells
      rw [← one]
      refine Part.countP_le fun part here => ?_
      cases extra : part.isExtra with
      | true =>
        obtain ⟨noRole, noName⟩ := plain part here extra
        rw [Part.dressed, Letter.dress, noRole, noName]
        exact Nat.le_of_eq (Forest.countP_gap ((derived part here).extra_gap extra))
      | false =>
        obtain ⟨noRole, ⟨noName, among⟩ | ⟨token, symbol⟩⟩ := only part here extra
        · rw [Part.dressed, Letter.dress, noRole, noName]
          exact (ih part here).2 among
        · rw [Part.dressed, Letter.dress, noRole, symbol]
          cases name : part.letter.rename with
          | none => exact (ih part here).2 (by simp [symbol])
          | some kind =>
            exact Nat.le_trans (Forest.countP_recast kind part.trees) ((ih part here).1 (by simp [symbol]))

theorem expression_groups : Grammar.singles [.expression, .primaryExpression] = true := by rfl

/-- A leaf, or a node that spells a word of its own kind. -/
inductive Tree.IsSpelled : Tree → Prop
  | leaf {role : Option Role} {kind : Kind} {text : Text} : IsSpelled (.leaf role kind text)
  | node {role : Option Role} {kind : Kind} {word : List Letter} {inner : List Tree}
    (member : word ∈ (Phrase.node kind).words) (spelled : Spelled word inner) :
    IsSpelled (.node role kind (inner.dropWhile Tree.isSpacing))

theorem Tree.IsGap.isSpelled {tree : Tree} (gap : tree.IsGap) : tree.IsSpelled := by
  obtain ⟨kind, text, rfl, -⟩ := gap
  exact .leaf

theorem Tree.IsSpelled.withRole {tree : Tree} (spelled : tree.IsSpelled) (role : Role) :
    (tree.withRole role).IsSpelled := by
  cases spelled with
  | leaf => exact .leaf
  | node member spelled => exact .node member spelled

theorem Derives.leaf_of_token {token : Token} {trees : List Tree} (derived : Derives (.token token) trees) :
    ∀ tree ∈ trees, ∃ kind text, tree = .leaf none kind text := by
  cases derived with
  | token =>
    intro tree member
    rcases List.mem_append.mp member with member | member
    all_goals
      split at member
      next => cases member
      next => exact ⟨_, _, List.mem_singleton.mp member⟩

/-- The trees of an expression keep the kinds that they were made with, unless they are leaves. -/
theorem Derives.isSpelled {groups : List Group} (closed : Grammar.singles groups = true) {symbol : Symbol}
    {trees : List Tree} (derived : Derives symbol trees) :
    (∀ group, symbol = .phrase (.group group) → group ∈ groups) → ∀ tree ∈ trees, tree.IsSpelled := by
  induction derived with
  | token blank shape =>
    intro _ tree member
    obtain ⟨_, _, rfl⟩ := (Derives.token blank shape).leaf_of_token tree member
    exact .leaf
  | @phrase phrase production parts known spells plain firm derived ih =>
    intro listed tree member
    rw [← Phrase.words_eq known] at spells
    cases phrase with
    | node kind =>
      have origin := Phrase.spelled_origin spells (.of_parts plain derived)
      rcases List.mem_append.mp member with member | member
      · exact ((Forest.takeWhile_blank origin).1 tree member).isSpelled
      · rw [List.mem_singleton.mp member]
        exact .node spells (.of_parts plain derived)
    | group group =>
      obtain ⟨part, here, ⟨extra, member⟩ | ⟨plain, -, member⟩⟩ := Part.mem_cases plain member
      · exact ((derived part here).extra_gap extra tree member).isSpelled
      · obtain ⟨noRole, ⟨noName, among⟩ | ⟨token, symbol⟩⟩ :=
          (Grammar.singles_part closed (listed group rfl) spells).2 part here plain
        · simp only [Letter.dress, noRole, noName] at member
          exact ih part here among tree member
        · simp only [Letter.dress, noRole, symbol] at member
          have made := derived part here
          rw [symbol] at made
          cases name : part.letter.rename with
          | none =>
            rw [name] at member
            exact ih part here (by simp [symbol]) tree member
          | some kind =>
            rw [name] at member
            obtain ⟨before, old, rfl⟩ := List.mem_map.mp member
            obtain ⟨_, _, rfl⟩ := made.leaf_of_token before old
            split <;> exact .leaf

theorem Forest.split_of_few {trees : List Tree} {tree : Tree} (few : trees.countP Tree.isSolid ≤ 1)
    (origin : ∀ tree ∈ trees, tree.Origin) (inside : tree ∈ trees) (solid : tree.isTrivia = false) :
    ∃ before after, trees = before ++ tree :: after ∧ (∀ tree ∈ before, tree.IsGap) ∧ ∀ tree ∈ after, tree.IsGap := by
  obtain ⟨before, after, rfl⟩ := List.append_of_mem inside
  have here : tree.isSolid = true := by rw [Tree.isSolid, solid]; rfl
  rw [List.countP_append, List.countP_cons_of_pos here] at few
  have gaps : ∀ {side : List Tree}, side.countP Tree.isSolid = 0 → (∀ tree ∈ side, tree.Origin) →
      ∀ tree ∈ side, tree.IsGap := by
    intro side none origin tree member
    have trivia := List.countP_eq_zero.mp none tree member
    exact (origin tree member).gap_of_trivia (by simpa [Tree.isSolid] using trivia)
  refine ⟨before, after, rfl, gaps (by omega) fun tree member => origin tree (List.mem_append_left _ member),
    gaps (by omega) fun tree member => origin tree (List.mem_append_right _ (List.mem_cons_of_mem _ member))⟩

/-- An expression is gaps and at most one other tree, which plays the role of the expression if it has one. -/
theorem Spelled.expression_split {role : Option Role} {word : List Letter} {trees : List Tree}
    (spelled : Spelled (⟨.phrase (.group .expression), role, none⟩ :: word) trees) :
    ∃ front others, trees = front ++ others ∧ Spelled word others ∧ (∀ tree ∈ front, tree.Origin ∧ tree.IsSpelled) ∧
      front.countP Tree.isSolid ≤ 1 ∧
      ∀ it, role = some it → ∀ tree ∈ front, tree.isTrivia = false → tree.role = role := by
  cases spelled with
  | @letter _ _ gap made others between derived rest =>
    refine ⟨gap ++ Letter.dress ⟨.phrase (.group .expression), role, none⟩ made, others, rfl, rest, ?_, ?_, ?_⟩
    · intro tree member
      rcases List.mem_append.mp member with member | member
      · exact ⟨.gap (between tree member), (between tree member).isSpelled⟩
      · refine ⟨Letter.dress_origin derived.origin (by simp) tree member, ?_⟩
        have spelled := derived.isSpelled expression_groups (by simp)
        cases role with
        | none => exact spelled tree member
        | some role =>
          obtain ⟨before, old, rfl⟩ := List.mem_map.mp member
          split
          next => exact spelled before old
          next => exact (spelled before old).withRole role
    · have few := (derived.countP_le expression_groups).2 (by simp)
      rw [List.countP_append, Forest.countP_gap between, Nat.zero_add]
      cases role with
      | none => exact few
      | some role =>
        rw [Letter.dress, List.countP_map]
        refine Nat.le_trans (Nat.le_of_eq (List.countP_congr fun tree _ => ?_)) few
        dsimp only [Function.comp]
        split
        next => rfl
        next => cases tree <;> rfl
    · rintro role rfl tree inside solid
      rcases List.mem_append.mp inside with inside | inside
      · rw [(between tree inside).trivia] at solid
        cases solid
      · obtain ⟨tree, -, rfl⟩ := List.mem_map.mp inside
        split at solid
        next trivia => rw [trivia] at solid; cases solid
        next trivia =>
          rw [if_neg trivia]
          cases tree <;> rfl

theorem Spelled.expression_cases {role : Role} {trees : List Tree} {tree : Tree}
    (spelled : Spelled [⟨.phrase (.group .expression), some role, none⟩] trees) (inside : tree ∈ trees)
    (solid : tree.isTrivia = false) :
    ∃ before after, trees = before ++ tree :: after ∧ (∀ tree ∈ before, tree.IsGap) ∧ (∀ tree ∈ after, tree.IsGap) ∧
      tree.role = some role ∧ tree.Origin ∧ tree.IsSpelled := by
  obtain ⟨front, others, rfl, rest, made, few, played⟩ := spelled.expression_split
  rcases List.mem_append.mp inside with inside | inside
  · obtain ⟨before, after, rfl, gaps, gaps'⟩ :=
      Forest.split_of_few few (fun tree member => (made tree member).1) inside solid
    refine ⟨before, after ++ others, by simp, gaps, fun tree member => ?_, played role rfl tree inside solid,
      made tree inside⟩
    rcases List.mem_append.mp member with member | member
    · exact gaps' tree member
    · exact rest.gaps tree member
  · rw [(rest.gaps tree inside).trivia] at solid
    cases solid

end Graft
