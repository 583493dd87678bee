import Graft.Proofs.TreeShapes

/-! What the text of a word starts with. A gap starts with spacing or with the mark of a comment, so another
character ahead is that of the first letter; whole phrases are told apart by the characters that none of them
can start with. -/

namespace Graft

/-- A text from its first character on that is no spacing. -/
def Text.ahead (text : Text) : Text := text.dropWhile isSpacing

/-- Whether a character is no part of a gap in front of something. -/
def isSolid (c : Char) : Bool := !isSpacing c && c ≠ '/' && c ≠ '<' && c ≠ '-'

namespace Text

theorem ahead_append {blanks : Text} (blank : ∀ c ∈ blanks, isSpacing c = true) (rest : Text) :
    ahead (blanks ++ rest) = ahead rest :=
  List.dropWhile_append_of_pos blank

theorem ahead_cons {c : Char} (other : isSpacing c = false) (rest : Text) : ahead (c :: rest) = c :: rest := by
  rw [ahead, List.dropWhile_cons, other]
  rfl

theorem ahead_append_cons {text others : Text} {c : Char} (first : ahead text = c :: others) (rest : Text) :
    ahead (text ++ rest) = c :: (others ++ rest) := by
  have blank : ∀ d ∈ text.takeWhile isSpacing, isSpacing d = true :=
    fun d member => List.all_eq_true.mp List.all_takeWhile d member
  have head : isSpacing c = false := by
    have stops := List.head?_dropWhile_not isSpacing text
    rw [show text.dropWhile isSpacing = c :: others from first] at stops
    simpa using stops
  have whole : text = text.takeWhile isSpacing ++ c :: others := by
    rw [← first, ahead, List.takeWhile_append_dropWhile]
  rw [whole, List.append_assoc, ahead_append blank, List.cons_append, ahead_cons head]

end Text

/-! ### Gaps -/

/-- A gap is spacing, or what comes first in it belongs to a comment. -/
theorem Tree.IsGap.ahead_cases {tree : Tree} (gap : tree.IsGap) :
    tree.isSpacing = true ∧ (∀ c ∈ tree.text, Graft.isSpacing c = true) ∨
    ∃ c rest, Text.ahead tree.text = c :: rest ∧ isSolid c = false := by
  obtain ⟨kind, text, rfl, ⟨rfl, blank⟩ | ⟨-, comment⟩ | ⟨-, page⟩⟩ := gap
  · exact .inl ⟨rfl, blank⟩
  · refine .inr ?_
    rcases comment with ⟨body, rfl, -⟩ | ⟨body, rfl⟩
    · exact ⟨'/', '/' :: body, Text.ahead_cons rfl _, rfl⟩
    · exact ⟨'/', _, Text.ahead_cons rfl _, rfl⟩
  · obtain ⟨blanks, mark, body, rfl, blank, mark, -⟩ := page
    simp only [Tree.text, List.append_assoc, Text.ahead_append blank]
    rcases mark with rfl | rfl
    · exact .inr ⟨'<', _, Text.ahead_cons rfl _, rfl⟩
    · exact .inr ⟨'-', _, Text.ahead_cons rfl _, rfl⟩

theorem Tree.IsGap.unnamed {tree : Tree} (gap : tree.IsGap) (empty : tree.text = []) : tree.kind.isNamed = false := by
  rcases gap.ahead_cases with ⟨spacing, -⟩ | ⟨c, rest, ahead, -⟩
  · rw [of_decide_eq_true spacing]
    rfl
  · rw [empty] at ahead
    cases ahead

theorem Forest.ahead_gap {gap : List Tree} {rest goal : Text} {c : Char} (between : ∀ tree ∈ gap, tree.IsGap)
    (next : Text.ahead (Forest.text gap ++ rest) = c :: goal) (solid : isSolid c = true) :
    (∀ tree ∈ gap, tree.isSpacing = true) ∧ (∀ c ∈ Forest.text gap, isSpacing c = true) ∧
      Text.ahead rest = c :: goal := by
  induction gap with
  | nil => exact ⟨by simp, by simp [Forest.text], next⟩
  | cons tree gap ih =>
    rw [Forest.text, List.append_assoc] at next
    rcases (between tree (List.mem_cons_self ..)).ahead_cases with ⟨spacing, blank⟩ | ⟨d, others, first, loose⟩
    · rw [Text.ahead_append blank] at next
      obtain ⟨trees, blanks, next⟩ := ih (fun tree member => between tree (List.mem_cons_of_mem _ member)) next
      refine ⟨List.forall_mem_cons.mpr ⟨spacing, trees⟩, fun c member => ?_, next⟩
      rcases List.mem_append.mp member with member | member
      · exact blank c member
      · exact blanks c member
    · rw [Text.ahead_append_cons first] at next
      rw [← (List.cons.inj next).1, loose] at solid
      cases solid

/-- Spacing trees of a derivation are blank. -/
theorem Forest.takeWhile_blank {trees : List Tree} (origin : ∀ tree ∈ trees, tree.Origin) :
    (∀ tree ∈ trees.takeWhile Tree.isSpacing, tree.IsGap) ∧
      ∀ c ∈ Forest.text (trees.takeWhile Tree.isSpacing), isSpacing c = true := by
  have gaps : ∀ tree ∈ trees.takeWhile Tree.isSpacing, tree.IsGap ∧ ∀ c ∈ tree.text, isSpacing c = true := by
    intro tree member
    have spacing : tree.isSpacing = true := List.all_eq_true.mp List.all_takeWhile tree member
    have gap := (origin tree ((List.takeWhile_prefix _).subset member)).gap_of_trivia
      (Tree.isTrivia_of_isSpacing spacing)
    refine ⟨gap, ?_⟩
    obtain ⟨kind, text, rfl, ⟨rfl, blank⟩ | ⟨rfl, -⟩ | ⟨rfl, -⟩⟩ := gap
    · exact blank
    · cases spacing
    · cases spacing
  refine ⟨fun tree member => (gaps tree member).1, ?_⟩
  generalize trees.takeWhile Tree.isSpacing = spacing at gaps
  induction spacing with
  | nil => simp [Forest.text]
  | cons tree others ih =>
    intro c member
    rcases List.mem_append.mp member with member | member
    · exact (gaps tree (List.mem_cons_self ..)).2 c member
    · exact ih (fun tree member => gaps tree (List.mem_cons_of_mem _ member)) c member

/-- What is ahead of the trees of a word is ahead of the node that was made of them. -/
theorem Phrase.ahead_dropWhile {phrase : Phrase} {letters : List Letter} {inner : List Tree} {rest : Text}
    (member : letters ∈ phrase.words) (spelled : Spelled letters inner) :
    Text.ahead (Forest.text (inner.dropWhile Tree.isSpacing) ++ rest) = Text.ahead (Forest.text inner ++ rest) := by
  have blank := (Forest.takeWhile_blank (Phrase.spelled_origin member spelled)).2
  have whole : Forest.text inner =
      Forest.text (inner.takeWhile Tree.isSpacing) ++ Forest.text (inner.dropWhile Tree.isSpacing) := by
    rw [← Forest.text_append, List.takeWhile_append_dropWhile]
  rw [whole, List.append_assoc, Text.ahead_append blank]

/-! ### Letters -/

namespace Spelled
variable {word : List Letter} {trees : List Tree}

theorem append {one two : List Letter} {first second : List Tree} (front : Spelled one first)
    (back : Spelled two second) : Spelled (one ++ two) (first ++ second) := by
  induction front with
  | stop between => exact behind between back
  | letter between derived _ ih =>
    rw [List.append_assoc]
    exact .letter between derived ih

theorem token_cases {token : Token} {role : Option Role} (plain : token.isExtra = false)
    (spelled : Spelled (⟨.token token, role, none⟩ :: word) trees) :
    ∃ gap text others, (∀ tree ∈ gap, tree.IsGap) ∧ token.Shape text ∧ Spelled word others ∧
      trees = gap ++ (if text.isEmpty then [] else [.leaf role token.kind text]) ++ others := by
  cases spelled with
  | @letter _ _ gap inner others between derived rest =>
    cases derived with
    | @token _ spacing text blank shape =>
      have notTrivia : token.kind.isTrivia = false := by
        cases trivia : token.kind.isTrivia with
        | true => rw [Token.kind_trivia trivia] at plain; cases plain
        | false => rfl
      refine ⟨gap ++ (if spacing.isEmpty then [] else [.leaf none .spacing spacing]), text, others, ?_, shape, rest, ?_⟩
      · intro tree member
        rcases List.mem_append.mp member with member | member
        · exact between tree member
        · split at member
          next => cases member
          next =>
            rw [List.mem_singleton.mp member]
            exact Tree.isGap_spacing blank
      · cases role with
        | none => simp only [Letter.dress, Token.trees, List.append_assoc]
        | some role =>
          have spaced : (Tree.leaf none .spacing spacing).isTrivia = true := rfl
          have solid : (Tree.leaf none token.kind text).isTrivia = false := notTrivia
          simp only [Letter.dress, Token.trees, List.append_assoc, List.map_append]
          congr 2
          · split
            next => rfl
            next => simp [spaced]
          · congr 1
            split
            next => rfl
            next => simp [solid, Tree.withRole]

theorem mark_cases {mark : Mark} {role : Option Role}
    (spelled : Spelled (⟨.token (.mark mark), role, none⟩ :: word) trees) :
    ∃ gap others, (∀ tree ∈ gap, tree.IsGap) ∧ Spelled word others ∧
      trees = gap ++ .leaf role .symbol mark.text.toList :: others := by
  obtain ⟨gap, text, others, between, shape, later, rfl⟩ := spelled.token_cases rfl
  cases (shape : text = mark.text.toList)
  have some : mark.text.toList.isEmpty = false := by cases mark <;> rfl
  exact ⟨gap, others, between, later, by simp only [some]; simp [Token.kind]⟩

theorem node_cases {kind : Kind} {role : Option Role} (solid : kind.isTrivia = false)
    (spelled : Spelled (⟨.phrase (.node kind), role, none⟩ :: word) trees) :
    ∃ gap letters inner others, (∀ tree ∈ gap, tree.IsGap) ∧ letters ∈ (Phrase.node kind).words ∧
      Spelled letters inner ∧ Spelled word others ∧
      trees = gap ++ .node role kind (inner.dropWhile Tree.isSpacing) :: others := by
  cases spelled with
  | @letter _ _ gap made others between derived rest =>
    obtain ⟨letters, member, inner, spelled, rfl⟩ := Derives.word derived
    have blank := (Forest.takeWhile_blank (Phrase.spelled_origin member spelled)).1
    refine ⟨gap ++ inner.takeWhile Tree.isSpacing, letters, inner, others, ?_, member, spelled, rest, ?_⟩
    · intro tree member
      rcases List.mem_append.mp member with member | member
      · exact between tree member
      · exact blank tree member
    · cases role with
      | none => simp [Letter.dress, Phrase.wrap, Forest.enclose]
      | some role =>
        have notTrivia : (Tree.node none kind (inner.dropWhile Tree.isSpacing)).isTrivia = false := solid
        have same : (inner.takeWhile Tree.isSpacing).map (fun tree =>
            if tree.isTrivia then tree else tree.withRole role) = inner.takeWhile Tree.isSpacing := by
          refine (List.map_congr_left fun tree member => ?_).trans (List.map_id _)
          exact if_pos (blank tree member).trivia
        simp only [Letter.dress, Phrase.wrap, Forest.enclose, List.map_append, same]
        simp [notTrivia, Tree.withRole]

theorem group_cases {group : Group} (spelled : Spelled (⟨.phrase (.group group), none, none⟩ :: word) trees) :
    ∃ letters ∈ (Phrase.group group).words, Spelled (letters ++ word) trees := by
  cases spelled with
  | @letter _ _ gap made others between derived rest =>
    obtain ⟨letters, member, inner, spelled, rfl⟩ := Derives.word derived
    exact ⟨letters, member, append (behind between spelled) rest⟩

/-- A token that is known to be next. -/
theorem read_token {token : Token} {role : Option Role} {rest goal : Text} {c : Char} (plain : token.isExtra = false)
    (begins : ∀ {text}, token.Shape text → ∃ d others, text = d :: others ∧ isSpacing d = false)
    (spelled : Spelled (⟨.token token, role, none⟩ :: word) trees)
    (next : Text.ahead (Forest.text trees ++ rest) = c :: goal) (solid : isSolid c = true) :
    ∃ gap text others, (∀ tree ∈ gap, tree.IsGap ∧ tree.isSpacing = true) ∧ token.Shape text ∧ Spelled word others ∧
      trees = gap ++ .leaf role token.kind text :: others ∧ text ++ (Forest.text others ++ rest) = c :: goal := by
  obtain ⟨gap, text, others, between, shape, later, rfl⟩ := spelled.token_cases plain
  obtain ⟨d, more, rfl, head⟩ := begins shape
  simp only [List.isEmpty_cons, Bool.false_eq_true, if_false, List.append_assoc, List.singleton_append,
    Forest.text_append] at next ⊢
  obtain ⟨spacing, -, next⟩ := Forest.ahead_gap between next solid
  rw [Forest.text, Tree.text, List.append_assoc, List.cons_append, Text.ahead_cons head] at next
  exact ⟨gap, d :: more, others, fun tree member => ⟨between tree member, spacing tree member⟩, shape, later, rfl, next⟩

theorem read_mark {mark : Mark} {role : Option Role} {rest goal : Text} {c : Char}
    (spelled : Spelled (⟨.token (.mark mark), role, none⟩ :: word) trees)
    (next : Text.ahead (Forest.text trees ++ rest) = c :: goal) (solid : isSolid c = true) :
    ∃ gap others, (∀ tree ∈ gap, tree.IsGap ∧ tree.isSpacing = true) ∧ Spelled word others ∧
      trees = gap ++ .leaf role .symbol mark.text.toList :: others ∧
      mark.text.toList ++ (Forest.text others ++ rest) = c :: goal := by
  have begins : ∀ {text}, (Token.mark mark).Shape text → ∃ d others, text = d :: others ∧ isSpacing d = false := by
    rintro _ rfl
    cases mark <;> exact ⟨_, _, rfl, rfl⟩
  obtain ⟨gap, _, others, between, rfl, spelled, split, next⟩ := spelled.read_token rfl begins next solid
  exact ⟨gap, others, between, spelled, split, next⟩

theorem read_word {keyword : Keyword} {role : Option Role} {rest goal : Text} {c : Char}
    (spelled : Spelled (⟨.token (.word keyword), role, none⟩ :: word) trees)
    (next : Text.ahead (Forest.text trees ++ rest) = c :: goal) (solid : isSolid c = true) :
    ∃ gap others, (∀ tree ∈ gap, tree.IsGap ∧ tree.isSpacing = true) ∧ Spelled word others ∧
      trees = gap ++ .leaf role keyword.kind keyword.text.toList :: others ∧
      keyword.text.toList ++ (Forest.text others ++ rest) = c :: goal := by
  have begins : ∀ {text}, (Token.word keyword).Shape text → ∃ d others, text = d :: others ∧ isSpacing d = false := by
    rintro _ rfl
    cases keyword <;> exact ⟨_, _, rfl, rfl⟩
  obtain ⟨gap, _, others, between, rfl, spelled, split, next⟩ := spelled.read_token rfl begins next solid
  exact ⟨gap, others, between, spelled, split, next⟩

theorem read_node {kind : Kind} {role : Option Role} {rest goal : Text} {c : Char} (other : kind.isTrivia = false)
    (spelled : Spelled (⟨.phrase (.node kind), role, none⟩ :: word) trees)
    (next : Text.ahead (Forest.text trees ++ rest) = c :: goal) (solid : isSolid c = true) :
    ∃ gap letters inner others, (∀ tree ∈ gap, tree.IsGap ∧ tree.isSpacing = true) ∧
      letters ∈ (Phrase.node kind).words ∧ Spelled letters inner ∧ Spelled word others ∧
      trees = gap ++ .node role kind (inner.dropWhile Tree.isSpacing) :: others ∧
      Text.ahead (Forest.text inner ++ (Forest.text others ++ rest)) = c :: goal := by
  obtain ⟨gap, letters, inner, others, between, member, inside, later, rfl⟩ := spelled.node_cases other
  rw [Forest.text_append, List.append_assoc] at next
  obtain ⟨spacing, -, next⟩ := Forest.ahead_gap between next solid
  refine ⟨gap, letters, inner, others, fun tree here => ⟨between tree here, spacing tree here⟩, member, inside,
    later, rfl, ?_⟩
  rw [← Phrase.ahead_dropWhile member inside]
  rwa [Forest.text, Tree.text, List.append_assoc] at next

end Spelled

end Graft
