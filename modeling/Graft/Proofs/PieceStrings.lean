import Graft.Proofs.CarriedStrings

/-! Strings of what is read as a piece of code. Statements are all that has a name at the top level of a program or in
a block, so the strings are inside of them. The text of a shell has no strings, so those of its block are all that
there are, unless the body goes on behind the block. -/

namespace Graft

namespace Tree

theorem IsLoose.leaf {tree : Tree} (loose : tree.IsLoose) : tree.IsLeaf := by
  rcases loose with gap | ⟨text, rfl, -⟩
  · exact gap.leaf
  · exact ⟨rfl, rfl⟩

end Tree

theorem Program.leaf_of_unkept {source : Text} {program : Program} (read : Program.parse source = .ok program) {child : Node}
    (listed : child ∈ program.root.children)
    (lost : child ∉ program.topLevel.filter fun node => node.kind ≠ .hashBangLine) : child.tree.IsLeaf := by
  rcases parse_trees read child.tree (Node.tree_mem listed) with loose | plain
  · exact loose.leaf
  · refine absurd (List.mem_filter.mpr ⟨List.mem_filter.mpr ⟨listed, plain.isNamed⟩, ?_⟩) lost
    exact decide_eq_true plain.ne_hashBang

theorem parseStatements_ok {text : Text} {snippet : Snippet} (read : parseStatements text = .ok snippet) :
    ∃ program, Program.parse text = .ok program ∧ snippet = .ofProgram program := by
  unfold parseStatements at read
  cases parsed : Program.parse text with
  | error error =>
    rw [parsed] at read
    cases read
  | ok program =>
    rw [parsed] at read
    cases read
    exact ⟨program, rfl, rfl⟩

theorem BlockStands.leaf_of_unnamed {head goal : Text} {block child : Node} {after : List Tree}
    (stands : BlockStands (head ++ '\x7b' :: goal) block after goal) (listed : child ∈ block.children)
    (lost : child ∉ block.namedChildren) : child.tree.IsLeaf := by
  obtain ⟨-, -, inside, tail, children, -, nodes, gaps⟩ := stands.opened
  have member := Node.tree_mem listed
  simp only [children, List.mem_cons, List.mem_append] at member
  rcases member with same | member | same | member
  · rw [same]
    exact ⟨rfl, rfl⟩
  · rcases nodes _ member with gap | plain
    · exact gap.leaf
    · exact absurd (List.mem_filter.mpr ⟨listed, plain.isNamed⟩) lost
  · rw [same]
    exact ⟨rfl, rfl⟩
  · exact (gaps _ member).leaf

namespace Node
variable {node inner : Node}

/-- A node that starts with a character that is neither before a part of a source nor behind it reaches into that part. -/
theorem Stands.reaches {front middle back rest : Text} {c : Char} (stands : node.Stands (front ++ (middle ++ back)))
    (opens : node.text = c :: rest) (absent : c ∉ front ++ back) :
    Text.bytes front < node.stop ∧ node.start < Text.bytes (front ++ middle) := by
  obtain ⟨before, after, spelled, offset⟩ := stands.place
  constructor
  · refine Nat.lt_of_not_le fun ends => absent (List.mem_append_left _ ?_)
    rw [stop_eq, ← offset, ← Text.bytes_append] at ends
    obtain ⟨more, split, -⟩ := Text.append_inj_of_bytes_le ((List.append_assoc ..).trans spelled.symm) ends
    simp [split, opens]
  · refine Nat.lt_of_not_le fun starts => absent (List.mem_append_right _ ?_)
    rw [← offset] at starts
    obtain ⟨more, -, split⟩ := Text.append_inj_of_bytes_le ((List.append_assoc ..).trans spelled) starts
    simp [split, opens]

theorem nodes_of_child? {role : Role} (found : node.child? role = some inner) : inner ∈ node.nodes :=
  mem_nodes_of_child (child?_mem found).1 inner.mem_nodes

theorem nodes_of_firstValue? (found : node.firstValue? = some inner) : inner ∈ node.nodes := by
  unfold firstValue? at found
  split at found
  next =>
    obtain ⟨declarator, declared, value⟩ := Option.bind_eq_some_iff.mp found
    have listed := (mem_namedChildren (List.mem_of_find?_eq_some declared)).1
    exact mem_nodes_of_child listed (nodes_of_child? value)
  next => cases found

end Node

theorem Node.findAll_strings {β : Type} (node : Node) (find : Node → β) :
    node.findAll (fun inner => if inner.kind = .string then some (find inner) else none) = node.strings.map find := by
  rw [findAll_eq, strings]
  induction node.nodes with
  | nil => rfl
  | cons inner nodes ih =>
    by_cases string : inner.kind = .string
    · have named : inner.isNamed = true := by rw [isNamed, string]; rfl
      simp [string, named, ih]
    · cases named : inner.isNamed <;> simp [string, named, ih]

/-- The rows that templates go on in, and the row and the text of each string. -/
def Program.stringRows (program : Program) : List Span × List (Nat × Text) :=
  (templateRows program.source program.root, program.root.findAll fun node =>
    if node.kind = .string then some (rowAt program.source node.start, node.text) else none)

/-- Strings are steady if the rows of templates cover the rows that they go on in. -/
theorem Program.steadyStrings_of_rows (program : Program) {verbatim : List Span} {strings : List (Nat × Text)}
    (rows : program.stringRows = (verbatim, strings))
    (covered : (strings.all fun (row, text) => (List.range (Text.rows text)).all fun more =>
      verbatim.any fun rows => rows.start ≤ row + 1 + more && row + 1 + more < rows.stop) = true) :
    (program.steadyStrings program.root).map Node.text = strings.map Prod.snd := by
  obtain ⟨rfl, rfl⟩ := Prod.mk.inj rows
  rw [Node.findAll_strings] at covered ⊢
  rw [List.all_map, List.all_eq_true] at covered
  have steady : ∀ string ∈ program.root.strings, string.isSteady program.source program.root = true := covered
  rw [steadyStrings, List.filter_eq_self.mpr steady, List.map_map]
  rfl

namespace FunctionShell
variable {shell : FunctionShell} {text : Text} {program : Program} {statement block : Node}

theorem nodes_of_block? (found : shell.block? statement = some block) :
    block ∈ statement.nodes ∧ block.kind = .statementBlock := by
  unfold block? at found
  obtain ⟨body, kind⟩ := body_of_block? found
  refine ⟨?_, kind⟩
  split at body
  next =>
    split at body
    next => exact Node.nodes_of_child? body
    next => cases body
  next =>
    split at body
    next value valued =>
      split at body
      next => exact Node.mem_nodes_trans (Node.nodes_of_firstValue? valued) (Node.nodes_of_child? body)
      next => cases body
    next => cases body

theorem root_nodes_of_block? (single : program.single? = some statement) (found : shell.block? statement = some block) :
    block ∈ program.root.nodes := by
  have listed := (Node.mem_namedChildren (List.mem_filter.mp (Program.single?_mem single)).1).1
  exact Node.mem_nodes_of_child listed (nodes_of_block? found).1

theorem quotes_not_mem {quote : Char} (known : quote = '"' ∨ quote = '\'') : quote ∉ shell.opening ++ shell.ending := by
  rcases known with rfl | rfl <;> cases shell <;> decide

/-- The block of a body that does not go on behind it is all of the shell between the opening and the ending. -/
theorem block_whole (read : Program.parse (shell.wrap text) = .ok program) (single : program.single? = some statement)
    (found : shell.block? statement = some block) (alone : shell.goesOn statement = false) :
    shell.wrap text = shell.opening ++ (block.text ++ shell.ending) ∧ block.start = Text.bytes shell.opening := by
  obtain ⟨after, stands, ⟨-, loose⟩ | ⟨more, -⟩⟩ := block_stands read single found
  · rw [wrap_eq] at stands ⊢
    obtain ⟨start, whole, inside, behind, -, spells, -, gaps⟩ := stands.opened
    refine ⟨?_, start⟩
    rw [(block_closed whole spells gaps loose).1]
    simp
  · rw [alone] at more
    cases more

/-- A body that does not go on behind its block has all strings in it. -/
theorem strings_eq_block (read : Program.parse (shell.wrap text) = .ok program) (single : program.single? = some statement)
    (found : shell.block? statement = some block) (alone : shell.goesOn statement = false) :
    program.root.strings = block.strings := by
  obtain ⟨flat, strings⟩ := Program.strings_stand read
  obtain ⟨before, after, split, early, late⟩ := Node.nodes_split (root_nodes_of_block? single found)
  obtain ⟨whole, start⟩ := block_whole read single found alone
  have reaches : ∀ other ∈ program.root.nodes, other.kind = .string → block.start < other.stop ∧ other.start < block.stop := by
    intro other member kind
    obtain ⟨stands, quote, rest, opens, known⟩ := strings other (Node.mem_strings.mpr ⟨member, kind⟩)
    rw [Node.stop_eq block, start, ← Text.bytes_append]
    exact (whole ▸ stands).reaches opens (quotes_not_mem known)
  have outside : ∀ nodes : List Node, (∀ other ∈ nodes, other ∈ before ∨ other ∈ after) →
      nodes.filter (fun inner => inner.kind = .string) = [] := by
    intro nodes listed
    refine List.filter_eq_nil_iff.mpr fun other member => ?_
    intro same
    have kind : other.kind = .string := of_decide_eq_true same
    have place := listed other member
    have inside : other ∈ program.root.nodes := by
      rw [split]
      rcases place with place | place <;> simp [place]
    obtain ⟨behind, ahead⟩ := reaches other inside kind
    rcases place with place | place
    · rcases early other place with ends | ⟨child, below, above⟩
      · omega
      · -- what is above the block has more than leaves below it
        have leaf := flat other inside kind child below
        rw [Node.nodes_of_isLeaf leaf, List.mem_singleton] at above
        have solid := leaf.1
        rw [← above, show block.tree.kind = .statementBlock from (nodes_of_block? found).2] at solid
        cases solid
    · have starts := late other place
      omega
  rw [Node.strings, split, List.filter_append, List.filter_append, outside before fun _ => .inl, outside after fun _ => .inr,
    List.nil_append, List.append_nil]
  rfl

end FunctionShell

namespace Snippet

/-- The strings of statements and of bodies that are on one line, or go on only in lines that templates go on in, are
found again in the piece of code that is read, one behind the other, whatever indentation it gets. For a body these are
the strings of its block, and all strings unless the body goes on behind it. -/
theorem strings_unchanged {text : Text} {snippet : Snippet} (indent : Text) :
    (parseStatements text = .ok snippet → ∃ program, Program.parse text = .ok program ∧
      Text.InOrder ((program.steadyStrings program.root).map Node.text) (snippet.indented indent true)) ∧
    ∀ shell : FunctionShell, shell.parseBody text = .ok snippet → ∃ program statement block,
      Program.parse (shell.wrap text) = .ok program ∧ program.single? = some statement ∧
        shell.block? statement = some block ∧
        Text.InOrder ((program.steadyStrings block).map Node.text) (snippet.indented indent true) ∧
        (shell.goesOn statement = false → program.root.strings = block.strings) := by
  constructor
  · intro read
    obtain ⟨program, parsed, rfl⟩ := parseStatements_ok read
    refine ⟨program, parsed, ?_⟩
    have part : (program.topLevel.filter fun node => node.kind ≠ .hashBangLine).Sublist program.root.children :=
      List.filter_sublist.trans List.filter_sublist
    obtain ⟨-, forest, -, tree⟩ := Program.parse_ok parsed
    have top : program.root.kind = .program := congrArg Tree.kind tree
    exact Program.indented_strings parsed program.root.mem_nodes (by rw [top]; decide) part
      (fun child listed lost => Program.leaf_of_unkept parsed listed lost) indent
  · intro shell read
    obtain ⟨program, statement, block, parsed, single, found, rfl⟩ := FunctionShell.bodyOf_ok read
    have kind := (FunctionShell.nodes_of_block? found).2
    refine ⟨program, statement, block, parsed, single, found, ?_, FunctionShell.strings_eq_block parsed single found⟩
    obtain ⟨after, stands, -⟩ := FunctionShell.block_stands parsed single found
    rw [FunctionShell.wrap_eq] at stands
    exact Program.indented_strings parsed (FunctionShell.root_nodes_of_block? single found) (by rw [kind]; decide)
      List.filter_sublist (fun child listed lost => stands.leaf_of_unnamed listed lost) indent

def templateString : Text := "  \x60$\x7b'\\\n '\x7d\x60".toList

def templatePiece : Snippet := ⟨[⟨"\x60$\x7b'\\".toList, false⟩, ⟨" '\x7d\x60".toList, true⟩]⟩

set_option maxRecDepth 100000 in
theorem parse_templateString :
    (Program.parse templateString).toOption.map (fun program => (ofProgram program, program.stringRows)) =
      some (templatePiece, [⟨1, 2⟩], [(0, "'\\\n '".toList)]) ∧
    (Program.parse (FunctionShell.arrow.wrap templateString)).toOption.map (fun program =>
      (FunctionShell.arrow.bodyOf (.ok program)).toOption) = some (some templatePiece) := by
  decide +kernel

/-- A string that goes on behind a line feed, inside of a template that does so too, behind a tab in the place of spaces. -/
theorem strings_unchanged_template : ∃ program, Program.parse templateString = .ok program ∧
    parseStatements templateString = .ok templatePiece ∧ FunctionShell.arrow.parseBody templateString = .ok templatePiece ∧
      (program.steadyStrings program.root).map Node.text = ["'\\\n '".toList] ∧
      templatePiece.indented ['\t'] true = "\t\x60$\x7b'\\\n '\x7d\x60".toList ∧
      Text.InOrder ["'\\\n '".toList] (templatePiece.indented ['\t'] true) ∧
      ∃ shelled statement block, Program.parse (FunctionShell.arrow.wrap templateString) = .ok shelled ∧
        FunctionShell.arrow.block? statement = some block ∧
        Text.InOrder ((shelled.steadyStrings block).map Node.text) (templatePiece.indented ['\t'] true) := by
  obtain ⟨program, found, results⟩ := Option.map_eq_some_iff.mp parse_templateString.1
  have parsed := Except.ok_of_toOption found
  obtain ⟨piece, rows⟩ := Prod.mk.inj results
  have read : parseStatements templateString = .ok templatePiece := by
    rw [parseStatements, parsed, ← piece]
    rfl
  obtain ⟨shelled, found', body⟩ := Option.map_eq_some_iff.mp parse_templateString.2
  have body : FunctionShell.arrow.parseBody templateString = .ok templatePiece := by
    rw [FunctionShell.parseBody, Except.ok_of_toOption found']
    exact Except.ok_of_toOption body
  have texts : (program.steadyStrings program.root).map Node.text = ["'\\\n '".toList] := program.steadyStrings_of_rows rows rfl
  obtain ⟨statements, bodies⟩ := @strings_unchanged templateString templatePiece ['\t']
  obtain ⟨program', again, order⟩ := statements read
  cases parsed.symm.trans again
  obtain ⟨shelled, statement, block, again, -, inside, inner, -⟩ := bodies .arrow body
  rw [texts] at order
  exact ⟨program, parsed, read, body, texts, rfl, order, shelled, statement, block, again, inside, inner⟩

end Snippet
end Graft
