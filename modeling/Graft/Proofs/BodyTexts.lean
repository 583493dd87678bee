import Graft.Proofs.EditTargets
import Graft.Proofs.TreeGrowth

/-! Where bodies start. What stands in the place of a body cannot be empty and is a single tree, so the body of a
function starts with a character that is no spacing. -/

namespace Graft

theorem body_groups : Grammar.singles [.statement, .declaration, .expression, .primaryExpression] = true := by rfl

set_option maxRecDepth 10000 in
/-- What stands in the place of a body cannot be empty, and it is one tree. -/
theorem body_letters : Grammar.allLetters (fun _ letter => letter.role ≠ some .body || letter.symbol.isFirm &&
    match letter.symbol with
    | .phrase (.group group) => letter.rename = none &&
        [Group.statement, .declaration, .expression, .primaryExpression].contains group
    | _ => true) = true := by rfl

theorem Forest.IsFirm.of_few {trees : List Tree} (firm : IsFirm trees) (few : trees.countP Tree.isSolid ≤ 1) {tree : Tree}
    (member : tree ∈ trees) (solid : tree.isTrivia = false) : tree.IsFirm := by
  obtain ⟨blank, first, others, rfl, spacing, other, firm⟩ := firm
  rw [List.countP_append, List.countP_cons_of_pos (by simp [Tree.isSolid, other])] at few
  rcases List.mem_append.mp member with member | member
  · rw [Tree.isTrivia_of_isSpacing (spacing tree member)] at solid
    cases solid
  · rcases List.mem_cons.mp member with rfl | member
    · exact firm
    · have none : others.countP Tree.isSolid = 0 := by omega
      have never := List.countP_eq_zero.mp none tree member
      simp [Tree.isSolid, solid] at never

theorem Letter.rekind_firm {phrase : Phrase} {word : List Letter} (member : word ∈ phrase.words) {letter : Letter}
    (inside : letter ∈ word) (played : letter.role = some .body) {made : List Tree} (derived : Derives letter.symbol made) :
    ∀ tree ∈ letter.rekind made, tree.isTrivia = false → tree.IsFirm := by
  have known := Phrase.letter_passes body_letters member inside
  simp only [played, ne_eq, not_true, decide_false, Bool.false_or, Bool.and_eq_true] at known
  obtain ⟨starts, shape⟩ := known
  have firm := (derived.firm starts).rekind fun kind => Phrase.rename_solid member inside
  refine fun tree listed => firm.of_few ?_ listed
  unfold rekind
  cases rename : letter.rename with
  | none =>
    refine (derived.countP_le body_groups).2 fun group same => ?_
    simp only [same, rename, decide_true, Bool.true_and, List.contains_iff_mem] at shape
    exact shape
  | some kind =>
    dsimp only
    split
    next group same => simp [same, rename] at shape
    next single => exact Nat.le_trans (Forest.countP_recast kind made) ((derived.countP_le body_groups).1 fun group => single group)

theorem Letter.dress_body {phrase : Phrase} {word : List Letter} (member : word ∈ phrase.words) {letter : Letter}
    (inside : letter ∈ word) {made : List Tree} (derived : Derives letter.symbol made)
    (below : ∀ tree ∈ made, tree.role = some .body → tree.IsFirm) :
    ∀ tree ∈ letter.dress made, tree.role = some .body → tree.IsFirm := by
  have kept : ∀ tree ∈ letter.rekind made, tree.role = some .body → tree.IsFirm := by
    intro tree listed body
    unfold rekind at listed
    split at listed
    next => exact below tree listed body
    next kind _ =>
      split at listed
      next =>
        rcases List.mem_append.mp listed with listed | listed
        · exact below tree ((List.takeWhile_prefix _).subset listed) body
        · rw [List.mem_singleton.mp listed] at body
          cases body
      next =>
        obtain ⟨before, here, rfl⟩ := List.mem_map.mp listed
        split at body
        next blank =>
          rw [if_pos blank]
          exact below before here body
        next other =>
          rw [if_neg other]
          cases before <;> exact (below _ here body).of_text rfl
  intro tree listed body
  obtain ⟨before, here, ⟨rfl, -⟩ | ⟨solid, role, played, rfl⟩⟩ := Forest.mem_play listed
  · exact kept _ here body
  · have same : role = .body := by cases before <;> exact Option.some.inj body
    rw [same] at played
    refine (Letter.rekind_firm member inside played derived before here solid).of_text ?_
    cases before <;> rfl

theorem Derives.body_firm {symbol : Symbol} {trees : List Tree} (derived : Derives symbol trees) :
    ∀ tree ∈ trees, tree.role = some .body → tree.IsFirm := by
  induction derived with
  | token blank shape =>
    intro tree member body
    obtain ⟨_, _, rfl⟩ := (Derives.token blank shape).leaf_of_token tree member
    cases body
  | @phrase phrase production parts known spells plain firm derived ih =>
    rw [← Phrase.words_eq known] at spells
    have inside : ∀ tree ∈ parts.flatMap Part.dressed, tree.role = some .body → tree.IsFirm := by
      intro tree member
      obtain ⟨part, here, ⟨-, member⟩ | ⟨-, letter, member⟩⟩ := Part.mem_cases plain member
      · exact ih part here tree member
      · exact Letter.dress_body spells letter (derived part here) (ih part here) tree member
    cases phrase with
    | group => exact inside
    | node kind =>
      intro tree member body
      rcases List.mem_append.mp member with member | member
      · exact inside tree ((List.takeWhile_prefix _).subset member) body
      · rw [List.mem_singleton.mp member] at body
        cases body

/-- The body of a function starts with a character that is no spacing. -/
theorem Program.body_firm {source : Text} {program : Program} (read : Program.parse source = .ok program) {name : Text}
    {target : FunctionTarget} (found : program.functionNamed? name = some target) : target.body.tree.IsFirm := by
  have closed : ∀ node : Node, node.tree.Grown → ∀ child ∈ node.children, child.tree.Grown :=
    fun node grown child inside => grown.child (Node.tree_mem inside)
  obtain ⟨parent, grown, child⟩ := functionNamed?_body closed (root_grown read) found
  obtain ⟨inside, body⟩ := Node.child?_mem child
  obtain ⟨phrase, word, blank, -, member, spelled, -⟩ := grown.word (Node.tree_mem inside)
  rcases spelled.mem_cases (List.mem_append_right blank (Node.tree_mem inside)) with gap | ⟨letter, listed, made, derived, dressed⟩
  · rw [gap.role] at body
    cases body
  · exact Letter.dress_body member listed derived derived.body_firm _ dressed body

end Graft
