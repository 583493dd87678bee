import Graft.Proofs.ProgramStatements

/-! The braces of a block. A block is its two braces with statements and gaps between them. What comes after it
can only be told from what is inside by where the brace stands: neither a gap nor the line for an interpreter
holds a closing mark at the start of a line with at most a semicolon behind it. -/

namespace Graft

theorem Forest.text_split {trees : List Tree} {before after : Text} {c : Char}
    (same : Forest.text trees = before ++ c :: after) :
    ∃ left tree right front back, trees = left ++ tree :: right ∧ tree.text = front ++ c :: back ∧
      before = Forest.text left ++ front ∧ after = back ++ Forest.text right := by
  induction trees generalizing before with
  | nil => simp [Forest.text] at same
  | cons tree trees ih =>
    have later : ∀ {rest : Text}, before = tree.text ++ rest → Forest.text trees = rest ++ c :: after →
        ∃ left found right front back, tree :: trees = left ++ found :: right ∧ found.text = front ++ c :: back ∧
          before = Forest.text left ++ front ∧ after = back ++ Forest.text right := by
      intro rest split same
      obtain ⟨left, found, right, front, back, rfl, text, rfl, rfl⟩ := ih same
      exact ⟨tree :: left, found, right, front, back, rfl, text, by rw [split, Forest.text, List.append_assoc], rfl⟩
    rw [Forest.text] at same
    rcases List.append_eq_append_iff.mp same with ⟨rest, split, same⟩ | ⟨rest, split, same⟩
    · exact later split same
    · cases rest with
      | nil =>
        have first : before = tree.text ++ [] := by simpa using split.symm
        exact later first same.symm
      | cons d rest =>
        obtain ⟨rfl, rfl⟩ := List.cons.inj same
        exact ⟨[], tree, trees, before, rest, rfl, split, rfl, rfl⟩

/-! ### Closing marks in gaps -/

/-- Nothing stands before a text that starts with a solid character. -/
theorem Forest.text_loose {left : List Tree} {rest goal : Text} {c : Char} (loose : ∀ tree ∈ left, tree.IsLoose)
    (same : Forest.text left ++ rest = c :: goal) (solid : isSolid c = true) (other : c ≠ '#') : Forest.text left = [] := by
  have first : ∀ {tree : Tree}, tree.IsLoose → ∀ {d more}, tree.text = d :: more → isSolid d = false ∨ d = '#' := by
    rintro tree (gap | ⟨text, rfl, body, rfl, -⟩) d more same
    · refine .inl ?_
      cases spacing : isSpacing d with
      | true => simp [isSolid, spacing]
      | false =>
        rcases gap.ahead_cases with ⟨-, blank⟩ | ⟨e, others, ahead, loose⟩
        · rw [blank d (by rw [same]; simp)] at spacing
          cases spacing
        · rw [same, Text.ahead_cons spacing] at ahead
          rw [(List.cons.inj ahead).1]
          exact loose
    · exact .inr (List.cons.inj same).1.symm
  induction left with
  | nil => rfl
  | cons tree left ih =>
    rw [Forest.text, List.append_assoc] at same
    cases text : tree.text with
    | nil =>
      rw [text, List.nil_append] at same
      rw [Forest.text, text, List.nil_append]
      exact ih (fun tree member => loose tree (List.mem_cons_of_mem _ member)) same
    | cons d more =>
      rw [text, List.cons_append] at same
      rcases first (loose tree (List.mem_cons_self ..)) text with never | never
      · rw [(List.cons.inj same).1, solid] at never
        cases never
      · rw [(List.cons.inj same).1] at never
        exact absurd never other

/-- Whether what comes after a text is at the start of a line. -/
def Text.IsLines (text : Text) : Prop := text = [] ∨ ∃ lines, text = lines ++ ['\n']

theorem Text.IsLines.of_append {first second : Text} (lines : Text.IsLines (first ++ second)) : second.IsLines := by
  rcases lines with empty | ⟨lines, same⟩
  · exact .inl (List.append_eq_nil_iff.mp empty).2
  · rcases List.append_eq_append_iff.mp same with ⟨more, -, split⟩ | ⟨more, -, split⟩
    · exact .inr ⟨more, split⟩
    · cases more with
      | nil => exact .inr ⟨[], split.symm⟩
      | cons c more => exact .inl (List.append_eq_nil_iff.mp (List.cons.inj split).2.symm).2

/-- Whether a character closes what a shell opens. -/
def isCloser (c : Char) : Bool := c = '\x7d' || c = ')'

theorem ne_of_isCloser {c d : Char} (closes : isCloser c = true) (other : isCloser d = false) : c ≠ d := by
  rintro rfl
  rw [closes] at other
  cases other

theorem isSpacing_of_isCloser {c : Char} (closes : isCloser c = true) : isSpacing c = false := by
  simp only [isCloser, Bool.or_eq_true, decide_eq_true_eq] at closes
  rcases closes with rfl | rfl <;> rfl

section
variable {closer : Char} (closes : isCloser closer = true)
include closes

theorem closer_of_line {blanks rest front back : Text} {c : Char} (blank : ∀ d ∈ blanks, isSpacing d = true)
    (line : '\n' ∉ c :: rest) (other : isCloser c = false) (same : blanks ++ c :: rest = front ++ closer :: back) :
    ¬front.IsLines := by
  have split : ∃ more, front = blanks ++ c :: more ∧ rest = more ++ closer :: back := by
    rcases List.append_eq_append_iff.mp same with ⟨more, split, tail⟩ | ⟨more, split, tail⟩
    · cases more with
      | nil => exact absurd (List.cons.inj tail).1.symm (ne_of_isCloser closes other)
      | cons d more =>
        obtain ⟨rfl, rfl⟩ := List.cons.inj tail
        exact ⟨more, split, rfl⟩
    · cases more with
      | nil => exact absurd (List.cons.inj tail).1 (ne_of_isCloser closes other)
      | cons d more =>
        obtain ⟨rfl, -⟩ := List.cons.inj tail
        have never := blank closer (by rw [split]; simp)
        rw [isSpacing_of_isCloser closes] at never
        cases never
  obtain ⟨more, rfl, rfl⟩ := split
  rintro (never | ⟨lines, same⟩)
  · simp at never
  · have last : '\n' ∈ c :: more := by
      have ends := congrArg List.getLast? same
      rw [List.getLast?_append, List.getLast?_concat, List.getLast?_cons, Option.some_or] at ends
      exact List.mem_of_getLast? (by rw [List.getLast?_cons]; exact ends)
    rcases List.mem_cons.mp last with here | member
    · exact line (here ▸ List.mem_cons_self ..)
    · exact line (List.mem_cons_of_mem _ (List.mem_append_left _ member))

theorem Tree.IsLoose.not_isLines {tree : Tree} (loose : tree.IsLoose) {front back : Text}
    (same : tree.text = front ++ closer :: back) (short : back = [] ∨ back = [';']) : ¬front.IsLines := by
  have nothing : ∀ c ∈ ([] : Text), Graft.isSpacing c = true := by simp
  rcases loose with ⟨kind, text, rfl, ⟨-, blank⟩ | ⟨-, comment⟩ | ⟨-, page⟩⟩ | ⟨_, rfl, body, rfl, line⟩ <;>
    rw [Tree.text] at same
  · have never := blank closer (by rw [same]; simp)
    rw [isSpacing_of_isCloser closes] at never
    cases never
  · rcases comment with ⟨body, rfl, line⟩ | ⟨body, rfl⟩
    · exact closer_of_line closes nothing (by simpa using line) (by decide) (same : [] ++ '/' :: '/' :: body = _)
    · have last := congrArg List.getLast? same
      rw [show '/' :: '*' :: (body ++ ['*', '/']) = ('/' :: '*' :: (body ++ ['*'])) ++ ['/'] by simp,
        List.getLast?_concat, List.getLast?_append] at last
      rcases short with rfl | rfl
      · exact absurd (Option.some.inj last).symm (ne_of_isCloser closes (by decide))
      · cases last
  · obtain ⟨blanks, mark, body, rfl, blank, mark, line⟩ := page
    rcases mark with rfl | rfl
    · have same : blanks ++ '<' :: '!' :: '-' :: '-' :: body = front ++ closer :: back := by simpa using same
      exact closer_of_line closes blank (by simpa using line) (by decide) same
    · have same : blanks ++ '-' :: '-' :: '>' :: body = front ++ closer :: back := by simpa using same
      exact closer_of_line closes blank (by simpa using line) (by decide) same
  · exact closer_of_line closes nothing (by simpa using line) (by decide) (same : [] ++ '#' :: '!' :: body = _)

/-- Behind a closing mark, only gaps and a semicolon: then it is the last one that stands at the start of a line. -/
theorem closing_mark {inside before suffix : Text} {trees : List Tree}
    (whole : inside ++ closer :: Forest.text trees = before ++ '\n' :: closer :: suffix)
    (short : suffix = [] ∨ suffix = [';']) (loose : ∀ tree ∈ trees, tree.IsLoose ∨ tree.text = [';']) :
    Forest.text trees = suffix := by
  have semicolon : closer ≠ ';' := ne_of_isCloser closes (by decide)
  -- a mark further behind would be in one of these trees, at the start of a line
  have later : ∀ {more : Text}, Forest.text trees = more ++ closer :: suffix → ¬more.IsLines := by
    intro more same lines
    obtain ⟨left, tree, right, front, back, rfl, text, rfl, rest⟩ := Forest.text_split same
    have ends : back = [] ∨ back = [';'] := by
      cases back with
      | nil => exact .inl rfl
      | cons c back =>
        rcases short with rfl | rfl
        · cases rest
        · obtain ⟨rfl, empty⟩ := List.cons.inj rest
          rw [(List.append_eq_nil_iff.mp empty.symm).1]
          exact .inr rfl
    rcases loose tree (by simp) with loose | same
    · exact loose.not_isLines closes text ends lines.of_append
    · rw [same] at text
      have never : closer ∈ [';'] := by rw [text]; simp
      exact semicolon (List.mem_singleton.mp never)
  have whole : inside ++ closer :: Forest.text trees = (before ++ ['\n']) ++ closer :: suffix := by simpa using whole
  rcases List.append_eq_append_iff.mp whole with ⟨more, split, tail⟩ | ⟨more, split, tail⟩
  · cases more with
    | nil => exact (List.cons.inj tail).2
    | cons c more =>
      obtain ⟨rfl, rest⟩ := List.cons.inj tail
      have lines : Text.IsLines (inside ++ closer :: more) := .inr ⟨before, split.symm⟩
      replace lines := lines.of_append
      rcases lines with never | ⟨lines, same⟩
      · cases never
      · cases lines with
        | nil =>
          rw [(List.cons.inj same).1] at closes
          cases closes
        | cons d lines => exact absurd (.inr ⟨lines, (List.cons.inj same).2⟩) (later rest)
  · cases more with
    | nil => exact (List.cons.inj tail).2.symm
    | cons c more =>
      have tail := (List.cons.inj tail).2
      have never : closer ∈ suffix := by rw [tail]; simp
      rcases short with rfl | rfl
      · cases never
      · exact absurd (List.mem_singleton.mp never) semicolon

/-- What is behind the mark that closes a shell is the end of the shell, and all of the text is inside. -/
theorem closed_of_loose {text inside ending : Text} {tail after : List Tree}
    (whole : inside ++ closer :: (Forest.text tail ++ Forest.text after) = '\n' :: (text ++ '\n' :: closer :: ending))
    (short : ending = [] ∨ ending = [';']) (gaps : ∀ tree ∈ tail, tree.IsGap)
    (loose : ∀ tree ∈ after, tree.IsLoose ∨ tree.text = [';']) :
    inside = '\n' :: (text ++ ['\n']) ∧ Forest.text tail = [] := by
  have last : Forest.text tail ++ Forest.text after = ending := by
    rw [← Forest.text_append] at whole ⊢
    have around : inside ++ closer :: Forest.text (tail ++ after) = ('\n' :: text) ++ '\n' :: closer :: ending := by
      simpa using whole
    refine closing_mark closes around short fun tree member => ?_
    rcases List.mem_append.mp member with member | member
    · exact .inl (.inl (gaps tree member))
    · exact loose tree member
  constructor
  · rw [last] at whole
    have same : inside ++ closer :: ending = ('\n' :: (text ++ ['\n'])) ++ closer :: ending := by simpa using whole
    exact List.append_cancel_right same
  · rcases short with short | short <;> rw [short] at last
    · exact (List.append_eq_nil_iff.mp last).1
    · exact Forest.text_loose (fun tree member => .inl (gaps tree member)) last (by decide) (by decide)

end

/-! ### Blocks -/

theorem statementBlock_words : (Phrase.node .statementBlock).words =
    [[⟨.token (.mark .openBrace), none, none⟩, ⟨.phrase (.group .statements), none, none⟩,
        ⟨.token (.mark .closeBrace), none, none⟩, ⟨.token .lineEnd, none, none⟩],
      [⟨.token (.mark .openBrace), none, none⟩, ⟨.phrase (.group .statements), none, none⟩,
        ⟨.token (.mark .closeBrace), none, none⟩],
      [⟨.token (.mark .openBrace), none, none⟩, ⟨.token (.mark .closeBrace), none, none⟩, ⟨.token .lineEnd, none, none⟩],
      [⟨.token (.mark .openBrace), none, none⟩, ⟨.token (.mark .closeBrace), none, none⟩]] := by
  rfl

theorem Forest.dropWhile_spacing {gap others : List Tree} {tree : Tree} (spacing : ∀ tree ∈ gap, tree.isSpacing = true)
    (other : tree.isSpacing = false) : (gap ++ tree :: others).dropWhile Tree.isSpacing = tree :: others := by
  rw [List.dropWhile_append_of_pos spacing, List.dropWhile_cons, other]
  rfl

theorem Forest.dropWhile_append {front others : List Tree} {tree : Tree} (inside : tree ∈ front)
    (other : tree.isSpacing = false) :
    (front ++ others).dropWhile Tree.isSpacing = front.dropWhile Tree.isSpacing ++ others := by
  rw [List.dropWhile_append, if_neg]
  rw [List.isEmpty_iff]
  intro empty
  rw [← List.takeWhile_append_dropWhile (p := Tree.isSpacing) (l := front), empty, List.append_nil] at inside
  rw [List.all_eq_true.mp List.all_takeWhile tree inside] at other
  cases other

theorem Spelled.lineEnd_gaps {role : Option Role} {trees : List Tree}
    (spelled : Spelled [⟨.token .lineEnd, role, none⟩] trees) : ∀ tree ∈ trees, tree.IsGap := by
  obtain ⟨gap, text, others, between, shape, rest, rfl⟩ := spelled.token_cases rfl
  cases (shape : text = [])
  intro tree member
  rcases List.mem_append.mp member with member | member
  · exact between tree (by simpa using member)
  · exact rest.gaps tree member

theorem Spelled.closing {trees : List Tree} (spelled : Spelled [⟨.token (.mark .closeBrace), none, none⟩] trees ∨
    Spelled [⟨.token (.mark .closeBrace), none, none⟩, ⟨.token .lineEnd, none, none⟩] trees) :
    ∃ gap tail, trees = gap ++ .leaf none .symbol ['\x7d'] :: tail ∧ (∀ tree ∈ gap, tree.IsGap) ∧
      ∀ tree ∈ tail, tree.IsGap := by
  rcases spelled with spelled | spelled
  · obtain ⟨gap, others, between, rest, split⟩ := spelled.mark_cases
    exact ⟨gap, others, split, between, rest.gaps⟩
  · obtain ⟨gap, others, between, rest, split⟩ := spelled.mark_cases
    exact ⟨gap, others, split, between, rest.lineEnd_gaps⟩

/-- A block is its braces with statements and gaps between them. -/
theorem Spelled.block {letters : List Letter} {inner : List Tree} {rest goal : Text}
    (member : letters ∈ (Phrase.node .statementBlock).words) (spelled : Spelled letters inner)
    (next : Text.ahead (Forest.text inner ++ rest) = '\x7b' :: goal) :
    ∃ inside tail, inner.dropWhile Tree.isSpacing =
        .leaf none .symbol ['\x7b'] :: (inside ++ .leaf none .symbol ['\x7d'] :: tail) ∧
      (∀ tree ∈ inside, tree.IsGap ∨ tree.IsPlainNode) ∧ (∀ tree ∈ tail, tree.IsGap) ∧
      Forest.text (inner.dropWhile Tree.isSpacing) ++ rest = '\x7b' :: goal := by
  have opened : ∀ {word : List Letter}, Spelled (⟨.token (.mark .openBrace), none, none⟩ :: word) inner →
      ∃ others, Spelled word others ∧ inner.dropWhile Tree.isSpacing = .leaf none .symbol ['\x7b'] :: others ∧
        Forest.text (inner.dropWhile Tree.isSpacing) ++ rest = '\x7b' :: goal := by
    intro word spelled
    obtain ⟨gap, others, between, later, split, text⟩ := spelled.read_mark next rfl
    have dropped : inner.dropWhile Tree.isSpacing = .leaf none .symbol ['\x7b'] :: others := by
      rw [split]
      exact Forest.dropWhile_spacing (fun tree member => (between tree member).2) rfl
    refine ⟨others, later, dropped, ?_⟩
    rw [dropped]
    exact text
  have filled : ∀ {word : List Letter} {others : List Tree},
      Spelled (⟨.phrase (.group .statements), none, none⟩ :: word) others →
      (∀ {trees : List Tree}, Spelled word trees → ∃ gap tail, trees = gap ++ .leaf none .symbol ['\x7d'] :: tail ∧
        (∀ tree ∈ gap, tree.IsGap) ∧ ∀ tree ∈ tail, tree.IsGap) →
      ∃ inside tail, others = inside ++ .leaf none .symbol ['\x7d'] :: tail ∧
        (∀ tree ∈ inside, tree.IsGap ∨ tree.IsPlainNode) ∧ ∀ tree ∈ tail, tree.IsGap := by
    intro word others spelled closed
    obtain ⟨inside, trees, nodes, later, rfl⟩ := spelled.statements_cases
    obtain ⟨gap, tail, rfl, between, gaps⟩ := closed later
    refine ⟨inside ++ gap, tail, by simp, fun tree member => ?_, gaps⟩
    rcases List.mem_append.mp member with member | member
    · exact nodes tree member
    · exact .inl (between tree member)
  rw [statementBlock_words] at member
  simp only [List.mem_cons, List.not_mem_nil, or_false] at member
  rcases member with rfl | rfl | rfl | rfl <;> obtain ⟨others, later, dropped, text⟩ := opened spelled <;>
    rw [dropped] at text ⊢
  · obtain ⟨inside, tail, rfl, nodes, gaps⟩ := filled later fun spelled => Spelled.closing (.inr spelled)
    exact ⟨inside, tail, rfl, nodes, gaps, text⟩
  · obtain ⟨inside, tail, rfl, nodes, gaps⟩ := filled later fun spelled => Spelled.closing (.inl spelled)
    exact ⟨inside, tail, rfl, nodes, gaps, text⟩
  · obtain ⟨gap, tail, rfl, between, gaps⟩ := Spelled.closing (.inr later)
    exact ⟨gap, tail, rfl, fun tree member => .inl (between tree member), gaps, text⟩
  · obtain ⟨gap, tail, rfl, between, gaps⟩ := Spelled.closing (.inl later)
    exact ⟨gap, tail, rfl, fun tree member => .inl (between tree member), gaps, text⟩

end Graft
