import Graft.Proofs.ShellBlocks
import Graft.Proofs.ShellReadings

/-! Shells keep what is put into them, with one exception. The block that a body is read in starts with the brace of
the shell. It ends with the closing brace of the shell, and the body is all of it, unless the body goes on with
further variables of the declaration that the shell is: then everything from the first of them on is lost. -/

namespace Graft

namespace FunctionShell

/-- The text of a shell up to its brace. -/
def opening : FunctionShell → Text
  | declaration => "function temp() ".toList
  | arrow => "const temp = () => ".toList

def ending : FunctionShell → Text
  | declaration => []
  | arrow => [';']

theorem wrap_eq (shell : FunctionShell) (text : Text) :
    shell.wrap text = shell.opening ++ '\x7b' :: '\n' :: (text ++ '\n' :: '\x7d' :: shell.ending) := by
  cases shell with
  | declaration => exact declaration_wrap text
  | arrow => exact arrow_wrap text

/-- Whether a statement that is read in a shell declares variables besides the one of the shell. -/
def goesOn (shell : FunctionShell) (statement : Node) : Bool :=
  shell = arrow && 2 ≤ (declaratorsOf statement).length

theorem block_stands {shell : FunctionShell} {text : Text} {program : Program} {statement block : Node}
    (read : Program.parse (shell.wrap text) = .ok program) (single : program.single? = some statement)
    (found : shell.block? statement = some block) :
    ∃ after, BlockStands (shell.wrap text) block after ('\n' :: (text ++ '\n' :: '\x7d' :: shell.ending)) ∧
      (shell.goesOn statement = false ∧ (∀ tree ∈ after, tree.IsLoose ∨ tree.text = [';']) ∨
        shell.goesOn statement = true ∧ ∃ tree ∈ after, tree.text = [',']) := by
  cases shell with
  | declaration =>
    obtain ⟨after, loose, stands⟩ := declaration_block read single found
    exact ⟨after, stands, .inl ⟨rfl, fun tree member => .inl (loose tree member)⟩⟩
  | arrow =>
    obtain ⟨after, stands, ⟨alone, loose⟩ | ⟨more, comma⟩⟩ := arrow_block read single found
    · exact ⟨after, stands, .inl ⟨by simp [goesOn, alone], loose⟩⟩
    · exact ⟨after, stands, .inr ⟨by simpa [goesOn] using more, comma⟩⟩

end FunctionShell

theorem BlockStands.opened {head goal : Text} {block : Node} {after : List Tree}
    (stands : BlockStands (head ++ '\x7b' :: goal) block after goal) :
    block.start = Text.bytes head ∧ block.text ++ Forest.text after = '\x7b' :: goal ∧
      ∃ inside tail, block.tree.children = .leaf none .symbol ['\x7b'] :: (inside ++ .leaf none .symbol ['\x7d'] :: tail) ∧
        block.text = '\x7b' :: (Forest.text inside ++ '\x7d' :: Forest.text tail) ∧
        (∀ tree ∈ inside, tree.IsGap ∨ tree.IsPlainNode) ∧ ∀ tree ∈ tail, tree.IsGap := by
  obtain ⟨⟨before, whole, start⟩, role, letters, inner, shape, member, spelled, next⟩ := stands
  obtain ⟨inside, tail, children, nodes, gaps, text⟩ := spelled.block member next
  have spells : block.text = Forest.text (inner.dropWhile Tree.isSpacing) := by rw [Node.text, shape, Tree.text]
  rw [← spells] at text
  refine ⟨?_, text, inside, tail, by rw [shape, Tree.children, children], ?_, nodes, gaps⟩
  · rw [text] at whole
    rw [← start, List.append_cancel_right whole]
  · rw [spells, children]
    simp [Forest.text, Tree.text]

/-! ### What is between the braces -/

/-- A list is made of members that pass a test, or there are a first and a last that do not. -/
theorem List.trim_cases {α : Type} (test : α → Bool) (list : List α) : (∀ item ∈ list, test item = true) ∨
    ∃ left middle right first last front back, list = left ++ (middle ++ right) ∧ (∀ item ∈ left, test item = true) ∧
      (∀ item ∈ right, test item = true) ∧ middle = first :: back ∧ test first = false ∧ middle = front ++ [last] ∧
      test last = false := by
  induction list with
  | nil => exact .inl (by simp)
  | cons item list ih =>
    rcases ih with all | ⟨left, middle, right, first, last, front, back, rfl, before, after, starts, firstFails, ends, lastFails⟩
    · cases here : test item with
      | true => exact .inl (by simpa [here] using all)
      | false => exact .inr ⟨[], [item], list, item, item, [], [], rfl, by simp, all, rfl, here, rfl, here⟩
    · refine .inr ?_
      cases here : test item with
      | true =>
        exact ⟨item :: left, middle, right, first, last, front, back, rfl, by simpa [here] using before, after, starts,
          firstFails, ends, lastFails⟩
      | false =>
        exact ⟨[], item :: (left ++ middle), right, item, last, item :: (left ++ front), left ++ middle, by simp, by simp, after,
          rfl, here, by simp [ends], lastFails⟩

namespace Node

theorem filter_place_eq_nil {start : Nat} {trees : List Tree} (hidden : ∀ tree ∈ trees, tree.kind.isNamed = false) :
    (place start trees).filter isNamed = [] := by
  rw [List.filter_eq_nil_iff]
  intro node member
  obtain ⟨_, _, rfl, -⟩ := mem_place member
  simp [isNamed, kind, hidden node.tree (by simp)]

/-- Between trees without names, the named children of a node reach from the first tree to the last. -/
theorem ofNodes_between {node : Node} {left middle right front back : List Tree} {first last : Tree} (source : Text)
    (root : Node) (split : node.tree.children = left ++ (middle ++ right))
    (before : ∀ tree ∈ left, tree.kind.isNamed = false) (after : ∀ tree ∈ right, tree.kind.isNamed = false)
    (starts : middle = first :: back) (firstNamed : first.kind.isNamed = true) (ends : middle = front ++ [last])
    (lastNamed : last.kind.isNamed = true) :
    Snippet.ofNodes source root node.namedChildren = .ofRegion source root
      ⟨node.start + Forest.bytes left, node.start + Forest.bytes (left ++ middle)⟩ := by
  have named : node.namedChildren = (place (node.start + Forest.bytes left) middle).filter isNamed := by
    rw [namedChildren_eq, split, place_append, place_append, List.filter_append, List.filter_append,
      filter_place_eq_nil before, filter_place_eq_nil after, List.nil_append, List.append_nil]
  have head : node.namedChildren.head? = some ⟨node.start + Forest.bytes left, first⟩ := by
    rw [named, starts, place, List.filter_cons_of_pos (show isNamed ⟨_, first⟩ = true from firstNamed), List.head?_cons]
  have final : node.namedChildren.getLast? = some ⟨node.start + Forest.bytes left + Forest.bytes front, last⟩ := by
    rw [named, ends, place_append, List.filter_append, place, place,
      List.filter_cons_of_pos (show isNamed ⟨_, last⟩ = true from lastNamed), List.filter_nil, List.getLast?_concat]
  rw [Snippet.ofNodes, head, final]
  dsimp only [stop]
  rw [ends]
  simp only [Forest.bytes_append, Forest.bytes, Nat.add_zero, Nat.add_assoc]

end Node

theorem Forest.text_eq_nil {trees : List Tree} (empty : Forest.text trees = []) : ∀ tree ∈ trees, tree.text = [] := by
  induction trees with
  | nil => simp
  | cons tree trees ih =>
    obtain ⟨here, later⟩ := List.append_eq_nil_iff.mp empty
    exact List.forall_mem_cons.mpr ⟨here, ih later⟩

/-- The snippet of a block is all that is between its braces, but for spacing at both ends. -/
theorem Snippet.ofNodes_block {block : Node} {inside tail : List Tree} {head : Text} (source : Text) (root : Node)
    (start : block.start = Text.bytes head)
    (children : block.tree.children = .leaf none .symbol ['\x7b'] :: (inside ++ .leaf none .symbol ['\x7d'] :: tail))
    (nodes : ∀ tree ∈ inside, tree.IsGap ∨ tree.IsPlainNode) (silent : ∀ tree ∈ tail, tree.kind.isNamed = false) :
    ∃ left kept right, Forest.text inside = left ++ (kept ++ right) ∧ (∀ c ∈ left ++ right, isSpacing c = true) ∧
      (kept = [] ∧ Snippet.ofNodes source root block.namedChildren = .empty ∨
        Snippet.ofNodes source root block.namedChildren = .ofRegion source root
          ⟨Text.bytes (head ++ '\x7b' :: left), Text.bytes (head ++ '\x7b' :: (left ++ kept))⟩) := by
  have blank : ∀ {trees : List Tree}, (∀ tree ∈ trees, tree ∈ inside) → (∀ tree ∈ trees, tree.isSpacing = true) →
      (∀ c ∈ Forest.text trees, isSpacing c = true) ∧ ∀ tree ∈ trees, tree.kind.isNamed = false := by
    intro trees listed spacing
    have each : ∀ tree ∈ trees, (∀ c ∈ tree.text, isSpacing c = true) ∧ tree.kind.isNamed = false := by
      intro tree member
      rcases Tree.named_or_blank (nodes tree (listed tree member)) with ⟨-, blank, unnamed⟩ | ⟨solid, -⟩
      · exact ⟨blank, unnamed⟩
      · rw [spacing tree member] at solid
        cases solid
    refine ⟨?_, fun tree member => (each tree member).2⟩
    intro c member
    obtain ⟨before, rest, split⟩ := List.append_of_mem member
    obtain ⟨left, tree, right, front, back, rfl, text, -, -⟩ := Forest.text_split split
    exact (each tree (by simp)).1 c (by rw [text]; simp)
  rcases List.trim_cases Tree.isSpacing inside with
    all | ⟨left, middle, right, first, last, front, back, split, before, after, starts, firstFails, ends, lastFails⟩
  · obtain ⟨blanks, unnamed⟩ := blank (fun tree member => member) all
    refine ⟨Forest.text inside, [], [], by simp, by simpa using blanks, .inl ⟨rfl, ?_⟩⟩
    have none : block.namedChildren = [] := by
      rw [Node.namedChildren_eq]
      refine Node.filter_place_eq_nil fun tree member => ?_
      simp only [children, List.mem_cons, List.mem_append] at member
      rcases member with rfl | member | rfl | member
      · rfl
      · exact unnamed tree member
      · rfl
      · exact silent tree member
    rw [none]
    rfl
  · have named : ∀ {tree : Tree}, tree ∈ middle → tree.isSpacing = false → tree.kind.isNamed = true := by
      intro tree member solid
      rcases Tree.named_or_blank (nodes tree (by rw [split]; simp [member])) with ⟨spacing, -⟩ | ⟨-, named⟩
      · rw [spacing] at solid
        cases solid
      · exact named
    obtain ⟨blanks, unnamed⟩ := blank (fun tree member => by rw [split]; simp [member]) before
    obtain ⟨blanks', unnamed'⟩ := blank (fun tree member => by rw [split]; simp [member]) after
    have whole : block.tree.children = (.leaf none .symbol ['\x7b'] :: left) ++
        (middle ++ (right ++ .leaf none .symbol ['\x7d'] :: tail)) := by
      rw [children, split]
      simp
    refine ⟨Forest.text left, Forest.text middle, Forest.text right, by rw [split]; simp, ?_, .inr ?_⟩
    · intro c member
      rcases List.mem_append.mp member with member | member
      · exact blanks c member
      · exact blanks' c member
    · refine (Node.ofNodes_between source root whole ?_ ?_ starts (named (by rw [starts]; simp) firstFails) ends
        (named (by rw [ends]; simp) lastFails)).trans ?_
      · intro tree member
        rcases List.mem_cons.mp member with rfl | member
        · rfl
        · exact unnamed tree member
      · intro tree member
        simp only [List.mem_append, List.mem_cons] at member
        rcases member with member | rfl | member
        · exact unnamed' tree member
        · rfl
        · exact silent tree member
      · rw [start]
        simp only [Forest.bytes_eq, List.cons_append, Forest.text, Tree.text, Text.bytes_append, Forest.text_append,
          List.nil_append, Text.bytes]

namespace FunctionShell

/-- A snippet is cut from all of a text but for spacing at its ends. -/
def Keeps (shell : FunctionShell) (text : Text) (program : Program) (snippet : Snippet) : Prop :=
  ∃ left kept right, '\n' :: (text ++ ['\n']) = left ++ (kept ++ right) ∧ (∀ c ∈ left ++ right, isSpacing c = true) ∧
    (kept = [] ∧ snippet = .empty ∨ snippet = .ofRegion program.source program.root
      ⟨Text.bytes (shell.opening ++ '\x7b' :: left), Text.bytes (shell.opening ++ '\x7b' :: (left ++ kept))⟩)

/-- A block with nothing but gaps and the end of a shell behind it holds all of the text. -/
theorem block_closed {shell : FunctionShell} {text : Text} {block : Node} {inside tail after : List Tree}
    (whole : block.text ++ Forest.text after = '\x7b' :: '\n' :: (text ++ '\n' :: '\x7d' :: shell.ending))
    (spells : block.text = '\x7b' :: (Forest.text inside ++ '\x7d' :: Forest.text tail))
    (gaps : ∀ tree ∈ tail, tree.IsGap) (loose : ∀ tree ∈ after, tree.IsLoose ∨ tree.text = [';']) :
    block.text = '\x7b' :: '\n' :: (text ++ ['\n', '\x7d']) ∧ Forest.text inside = '\n' :: (text ++ ['\n']) ∧
      Forest.text tail = [] := by
  have short : shell.ending = [] ∨ shell.ending = [';'] := by
    cases shell with
    | declaration => exact .inl rfl
    | arrow => exact .inr rfl
  have around : Forest.text inside ++ '\x7d' :: (Forest.text tail ++ Forest.text after) =
      '\n' :: (text ++ '\n' :: '\x7d' :: shell.ending) := by
    rw [spells] at whole
    simpa using whole
  obtain ⟨filled, nothing⟩ := closed_of_loose rfl around short gaps loose
  refine ⟨?_, filled, nothing⟩
  rw [spells, filled, nothing]
  simp

/-- Behind a block that ends too early, a comma and what follows it is lost. -/
theorem lost_of_comma {text ending : Text} {block : Node} {inside tail after : List Tree}
    (whole : block.text ++ Forest.text after = '\x7b' :: '\n' :: (text ++ '\n' :: '\x7d' :: ending))
    (spells : block.text = '\x7b' :: (Forest.text inside ++ '\x7d' :: Forest.text tail)) (short : ',' ∉ ending)
    (comma : ',' ∈ Forest.text after) :
    ∃ kept lost, text = kept ++ lost ∧ block.text = '\x7b' :: '\n' :: kept ∧ ',' ∈ lost := by
  obtain ⟨c, kept, begins⟩ : ∃ c kept, Forest.text inside ++ '\x7d' :: Forest.text tail = c :: kept :=
    List.exists_cons_of_ne_nil (by simp)
  rw [begins] at spells
  rw [spells] at whole
  obtain ⟨same, rest⟩ := List.cons.inj (List.cons.inj whole).2
  subst same
  rcases List.append_eq_append_iff.mp rest with ⟨lost, split, tail⟩ | ⟨more, split, tail⟩
  · refine ⟨kept, lost, split, spells, ?_⟩
    rw [tail] at comma
    rcases List.mem_append.mp comma with comma | comma
    · exact comma
    · simp [short] at comma
  · have never : ',' ∈ '\n' :: '\x7d' :: ending := by
      rw [tail]
      exact List.mem_append_right _ comma
    simp [short] at never

/-- A body that is read in a shell is all of the shell's block, which the shell's own brace closes, exactly if the
statement that is read declares no variables besides the one of the shell. If it does, the snippet is that of a
block that ends inside of the body, and what is behind it is lost. -/
theorem parseBody_closed_iff {shell : FunctionShell} {text : Text} {snippet : Snippet}
    (read : shell.parseBody text = .ok snippet) :
    ∃ program statement block, Program.parse (shell.wrap text) = .ok program ∧ program.single? = some statement ∧
      shell.block? statement = some block ∧ snippet = .ofNodes program.source program.root block.namedChildren ∧
      block.start = Text.bytes shell.opening ∧
      (block.text = '\x7b' :: '\n' :: (text ++ ['\n', '\x7d']) ↔ shell.goesOn statement = false) ∧
      (shell.goesOn statement = false → shell.Keeps text program snippet) ∧
      (shell.goesOn statement = true →
        ∃ kept lost, text = kept ++ lost ∧ block.text = '\x7b' :: '\n' :: kept ∧ ',' ∈ lost) := by
  obtain ⟨program, statement, block, parsed, single, found, snipped⟩ := bodyOf_ok read
  obtain ⟨after, stands, tail⟩ := block_stands parsed single found
  rw [wrap_eq] at stands
  obtain ⟨start, whole, inside, behind, children, spells, nodes, gaps⟩ := stands.opened
  refine ⟨program, statement, block, parsed, single, found, snipped, start, ?_⟩
  rcases tail with ⟨alone, loose⟩ | ⟨more, mark, member, comma⟩
  · obtain ⟨closed, filled, nothing⟩ := block_closed whole spells gaps loose
    refine ⟨⟨fun _ => alone, fun _ => closed⟩, fun _ => ?_, fun more => ?_⟩
    · have silent : ∀ tree ∈ behind, tree.kind.isNamed = false :=
        fun tree member => (gaps tree member).unnamed (Forest.text_eq_nil nothing tree member)
      obtain ⟨left, kept, right, split, blank, cut⟩ :=
        Snippet.ofNodes_block program.source program.root start children nodes silent
      rw [← snipped] at cut
      exact ⟨left, kept, right, filled.symm.trans split, blank, cut⟩
    · rw [alone] at more
      cases more
  · have lost : ∃ kept lost, text = kept ++ lost ∧ block.text = '\x7b' :: '\n' :: kept ∧ ',' ∈ lost := by
      refine lost_of_comma whole spells (by cases shell <;> decide) ?_
      obtain ⟨left, right, rfl⟩ := List.append_of_mem member
      simp [Forest.text, comma]
    refine ⟨⟨fun closed => ?_, fun alone => ?_⟩, fun alone => ?_, fun _ => lost⟩
    · obtain ⟨kept, lost, split, short, -⟩ := lost
      have same := congrArg List.length (closed.symm.trans short)
      rw [split] at same
      simp only [List.length_cons, List.length_append] at same
      omega
    · rw [more] at alone
      cases alone
    · rw [more] at alone
      cases alone

theorem parseBody_closed_iff_escaping : ∃ snippet, arrow.parseBody escapingBody = .ok snippet ∧
    snippet.text = "a();".toList ∧ ∃ program statement block, Program.parse (arrow.wrap escapingBody) = .ok program ∧
      program.single? = some statement ∧ arrow.block? statement = some block ∧ arrow.goesOn statement = true ∧
      ∃ kept lost, escapingBody = kept ++ lost ∧ block.text = '\x7b' :: '\n' :: kept ∧ ',' ∈ lost := by
  obtain ⟨program, found, results⟩ := Option.map_eq_some_iff.mp parse_escaping.1
  have parsed := Except.ok_of_toOption found
  obtain ⟨body, declared⟩ := Prod.mk.inj results
  have read : arrow.parseBody escapingBody = .ok ⟨[⟨"a();".toList, false⟩]⟩ := by
    rw [parseBody, parsed]
    exact Except.ok_of_toOption body
  obtain ⟨program', statement, block, parsed', single, inside, -, -, -, -, lost⟩ := parseBody_closed_iff read
  cases parsed.symm.trans parsed'
  rw [single] at declared
  have two : (VariableDeclaration.mk statement).declarators.length = 2 := Option.some.inj declared
  have more : arrow.goesOn statement = true := by simp [goesOn, length_declaratorsOf, two]
  exact ⟨_, read, rfl, program, statement, block, parsed, single, inside, more, lost more⟩

end FunctionShell
end Graft
