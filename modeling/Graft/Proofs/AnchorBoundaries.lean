import Graft.Proofs.SnippetLines
import Graft.Proofs.TopLevelNodes

/-! Insertions at the top level. The offset at which statements are inserted is never inside of a node, because nodes
stand one behind the other and a line for an interpreter is among the first of them. Between a statement and that offset
there is nothing but the rest of its last line. -/

namespace Graft

/-- The rest of the line on which a statement ends: spacing, and comments at the top level that start on its row. -/
structure Program.RestOfLine (program : Program) (statement : Node) (offset : Nat) : Prop where
  le : statement.stop ≤ offset
  rest : ∃ trees, Text.slice? statement.stop offset program.source = some (Forest.text trees) ∧
    ∀ node ∈ Node.place statement.stop trees,
      (∀ c ∈ node.text, isSpacing c = true) ∨
        node ∈ program.topLevel ∧ node.kind = .comment ∧
          rowAt program.source node.start = rowAt program.source statement.stop

theorem Anchor.endOf_rest {source : Text} {program : Program} {statement : Node}
    (read : Program.parse source = .ok program) (member : statement ∈ program.topLevel) :
    program.RestOfLine statement (endOf program statement) := by
  obtain ⟨left, right, split, start⟩ := Node.mem_place (Program.mem_topLevel.mp member).1
  rw [Nat.zero_add] at start
  have behind := Program.topLevel_behind read split start member
  have text : program.source = Forest.text left ++ (statement.text ++ Forest.text right) := by
    obtain ⟨-, forest, -, tree⟩ := Program.parse_ok read
    rw [← program.whole, tree, Tree.text, show forest = left ++ statement.tree :: right by rw [← split, tree]; rfl]
    simp [Forest.text, Node.text]
  have slice : ∀ {trees others : List Tree}, right = trees ++ others →
      Text.slice? statement.stop (statement.stop + Forest.bytes trees) program.source = some (Forest.text trees) := by
    rintro trees others rfl
    have stop : statement.stop = Text.bytes (Forest.text left ++ statement.text) := by
      rw [Node.stop_eq, start, Forest.bytes_eq, Text.bytes_append]
    rw [text, stop, Forest.bytes_eq, Forest.text_append, ← List.append_assoc]
    exact Text.slice?_append _ _ _
  refine ⟨stop_le_endOf program statement, ?_⟩
  unfold endOf
  cases last : (tailComments program statement).getLast? with
  | none =>
    refine ⟨[], ?_, by simp [Node.place]⟩
    have empty := slice (List.nil_append right).symm
    simpa [Forest.bytes] using empty
  | some comment =>
    obtain ⟨front, tail⟩ := List.getLast?_eq_some_iff.mp last
    -- the comments are a front of the named trees behind the statement, and the last of them is one of the trees
    obtain ⟨others, parts⟩ : ∃ others, front ++ [comment] ++ others = (Node.place statement.stop right).filter Node.isNamed := by
      rw [← tail, ← behind]
      exact ⟨_, List.takeWhile_append_dropWhile⟩
    obtain ⟨nodes, later, placed, kept, -⟩ := List.filter_eq_append_iff.mp parts.symm
    obtain ⟨first, rest, rfl, firsts, ends⟩ := List.filter_eq_append_iff.mp kept
    obtain ⟨blank, more, rfl, blanks, -, none⟩ := List.filter_eq_cons_iff.mp ends
    rw [show first ++ (blank ++ comment :: more) ++ later = (first ++ blank ++ [comment]) ++ (more ++ later) by simp]
      at placed
    obtain ⟨trees, others', rfl, here, -⟩ := Node.place_split placed
    have stop : comment.stop = statement.stop + Forest.bytes trees := Node.place_concat here.symm
    refine ⟨trees, ?_, ?_⟩
    · rw [Option.getD_some, stop]
      exact slice rfl
    · intro node inside
      have listed : node ∈ Node.place 0 program.tree.children := by
        rw [split, Node.place_append, Node.place, Node.place_append, Nat.zero_add, ← start]
        exact List.mem_append_right _ (List.mem_cons_of_mem _ (List.mem_append_left _ inside))
      cases named : node.isNamed with
      | false => exact .inl (Program.place_blank read listed named)
      | true =>
        refine .inr ?_
        have tailed : node ∈ tailComments program statement := by
          rw [tail]
          rw [← here] at inside
          rcases List.mem_append.mp inside with inside | inside
          · rcases List.mem_append.mp inside with inside | inside
            · exact List.mem_append_left _ (firsts ▸ List.mem_filter.mpr ⟨inside, named⟩)
            · exact absurd named (blanks node inside)
          · exact List.mem_append_right _ inside
        have comment := List.all_eq_true.mp List.all_takeWhile node tailed
        rw [Bool.and_eq_true, decide_eq_true_eq, decide_eq_true_eq] at comment
        exact ⟨Program.mem_topLevel.mpr ⟨listed, named⟩, comment⟩

/-! ### Rows -/

theorem le_lineStart_of_row {source : Text} {first last : Nat} (start : Text.Boundary source first)
    (stop : Text.Boundary source last) (ordered : first ≤ last) (rows : rowAt source first < rowAt source last) :
    first ≤ lineStart source last := by
  obtain ⟨front, middle, back, rfl, rfl, rfl⟩ := start.between stop ordered
  rw [← List.append_assoc, ← Text.bytes_append, rowAt_append, List.append_assoc, rowAt_append] at rows
  rw [lineStart, ← List.append_assoc, ← Text.bytes_append, Text.take?_append, Option.getD_some]
  have whole := Text.beforeLastLine_append_lastLine (front ++ middle)
  refine Nat.le_of_not_lt fun short => ?_
  -- otherwise both offsets are on the last line
  obtain ⟨inner, same, rest⟩ := Text.append_inj_of_bytes_le whole (Nat.le_of_lt short)
  have none : Text.rows (front ++ middle).lastLine = 0 := List.count_eq_zero.mpr (Text.newline_not_mem_lastLine _)
  rw [rest] at none
  rw [Text.rows, Text.rows, same] at rows
  simp only [Text.rows, List.count_append] at none rows
  omega

/-! ### Anchors -/

/-- Where new statements go behind a number of the old ones. -/
def Program.anchorAt (program : Program) : Nat → Anchor
  | 0 => .top
  | count + 1 =>
    match program.statements[count]? with
    | some statement => .after statement
    | none => .top

def Program.Clear (program : Program) (offset : Nat) : Prop :=
  ∀ node ∈ program.topLevel, node.stop ≤ offset ∨ offset ≤ node.start

namespace Anchor
variable {source : Text} {program : Program}

theorem endOf_clear {statement : Node} (member : statement ∈ program.topLevel) :
    program.Clear (endOf program statement) := by
  intro node inside
  have ordered := program.root.namedChildren_ordered
  obtain ⟨front, back, split⟩ := List.append_of_mem member
  rw [show program.root.namedChildren = front ++ statement :: back from split, List.pairwise_append] at ordered
  have past := stop_le_endOf program statement
  have wide := Node.Stands.start_le_stop statement
  rw [split] at inside
  rcases List.mem_append.mp inside with early | inside
  · have before := ordered.2.2 node early statement (List.mem_cons_self ..)
    exact .inl (by omega)
  · rcases List.mem_cons.mp inside with rfl | late
    · exact .inl past
    · have behind := (List.pairwise_cons.mp ordered.2.1).1 node late
      have follows : node ∈ program.topLevel.filter fun node => statement.stop ≤ node.start :=
        List.mem_filter.mpr ⟨by rw [split]; simp [late], decide_eq_true behind⟩
      have tails : (program.topLevel.filter fun node => statement.stop ≤ node.start).Pairwise
          fun first second => first.stop ≤ second.start := program.root.namedChildren_ordered.filter _
      unfold endOf
      cases last : (tailComments program statement).getLast? with
      | none => exact .inr behind
      | some comment =>
        -- the comments are a front of what follows the statement
        have parts : tailComments program statement ++ _ =
            program.topLevel.filter fun node => statement.stop ≤ node.start := List.takeWhile_append_dropWhile
        obtain ⟨first, tail⟩ := List.getLast?_eq_some_iff.mp last
        rw [← parts, tail] at tails follows
        rw [List.pairwise_append, List.pairwise_append] at tails
        rcases List.mem_append.mp follows with inner | rest
        · rcases List.mem_append.mp inner with inner | same
          · have before := tails.1.2.2 node inner comment (List.mem_singleton_self _)
            have wide := Node.Stands.start_le_stop comment
            exact .inl (by rw [Option.getD_some]; omega)
          · rw [List.mem_singleton.mp same]
            exact .inl (Nat.le_refl _)
        · exact .inr (tails.2.2 comment (by simp) node rest)

/-- Where the offset at the top is: before all that is no line for an interpreter, and behind such a line if that
comes first. -/
structure Top (program : Program) (offset : Nat) : Prop where
  clear : program.Clear offset
  others : ∀ node ∈ program.topLevel, node.kind ≠ .hashBangLine → offset < node.stop
  line : ∀ line ∈ program.topLevel, line.kind = .hashBangLine →
    (∀ node ∈ program.topLevel, line.start ≤ node.start) → line.stop ≤ offset

theorem top_of_line (read : Program.parse source = .ok program)
    (only : ∀ node ∈ program.topLevel, node.kind = .hashBangLine) (text : Text) :
    Top program (top.insertion program text).span.start := by
  have none : program.topLevel.find? (fun node => node.kind ≠ .hashBangLine) = none :=
    List.find?_eq_none.mpr fun node member => by simpa using only node member
  have same : ∀ {line}, program.topLevel.find? (fun node => node.kind = .hashBangLine) = some line →
      ∀ node ∈ program.topLevel, node = line := by
    intro line found node member
    have listed := Program.mem_topLevel.mp (List.mem_of_find?_eq_some found)
    have kind : line.kind = .hashBangLine := by simpa using List.find?_some found
    exact (Program.place_line read listed.1 kind node (Program.mem_topLevel.mp member).1).1 (only node member)
  have stop : ∀ node ∈ program.topLevel, node.stop ≤ (top.insertion program text).span.start := by
    intro node member
    rw [insertion, none]
    dsimp only
    cases found : program.topLevel.find? (fun node => node.kind = .hashBangLine) with
    | some line =>
      rw [same found node member]
      exact Nat.le_refl _
    | none => exact absurd (only node member) (by simpa using List.find?_eq_none.mp found node member)
  exact ⟨fun node member => .inl (stop node member), fun node member other => absurd (only node member) other,
    fun line member _ _ => stop line member⟩

theorem top_of_first (read : Program.parse source = .ok program) (alone : program.LineAlone) {first : Node}
    (found : program.topLevel.find? (fun node => node.kind ≠ .hashBangLine) = some first) (text : Text) :
    Top program (top.insertion program text).span.start := by
  have offset : (top.insertion program text).span.start = lineStart program.source first.start := by
    rw [insertion, found]
    rfl
  have listed := List.mem_of_find?_eq_some found
  have stands := program.topLevel_stands listed
  have early : lineStart program.source first.start ≤ first.start := stands.start_boundary.lineStart.2
  have wide := Program.topLevel_some read listed
  obtain ⟨-, front, back, split, lines⟩ := List.find?_eq_some_iff_append.mp found
  have ordered := program.root.namedChildren_ordered
  rw [show program.root.namedChildren = front ++ first :: back from split, List.pairwise_append] at ordered
  have before : ∀ line ∈ front, line.kind = .hashBangLine ∧ line.stop ≤ lineStart program.source first.start := by
    intro line member
    have kind : line.kind = .hashBangLine := by simpa using lines line member
    have member' : line ∈ program.topLevel := by rw [split]; exact List.mem_append_left _ member
    have ends := ordered.2.2 line member first (List.mem_cons_self ..)
    exact ⟨kind, le_lineStart_of_row (program.topLevel_stands member').stop_boundary stands.start_boundary ends
      (alone line member' kind first listed ends)⟩
  have behind : ∀ node ∈ first :: back, first.start ≤ node.start := by
    intro node member
    rcases List.mem_cons.mp member with rfl | member
    · exact Nat.le_refl _
    · have later := (List.pairwise_cons.mp ordered.2.1).1 node member
      omega
  rw [offset]
  refine ⟨fun node member => ?_, fun node member other => ?_, fun line member kind foremost => ?_⟩ <;>
    rw [split] at member <;> rcases List.mem_append.mp member with inside | inside
  · exact .inl (before node inside).2
  · have later := behind node inside
    exact .inr (by omega)
  · exact absurd (before node inside).1 other
  · have later := behind node inside
    have some := Program.topLevel_some read (split ▸ List.mem_append_right front inside)
    omega
  · exact (before line inside).2
  · -- a line that comes first is not behind another node
    have starts := foremost first listed
    rcases List.mem_cons.mp inside with rfl | inside
    · exact absurd kind (by simpa using List.find?_some found)
    · have later := (List.pairwise_cons.mp ordered.2.1).1 line inside
      omega

theorem top_top (read : Program.parse source = .ok program) (alone : program.LineAlone) (text : Text) :
    Top program (top.insertion program text).span.start := by
  cases found : program.topLevel.find? (fun node => node.kind ≠ .hashBangLine) with
  | some first => exact top_of_first read alone found text
  | none =>
    refine top_of_line read (fun node member => ?_) text
    simpa using List.find?_eq_none.mp found node member

end Anchor

/-! ### Operations -/

structure Program.Landing (program : Program) (count offset : Nat) : Prop where
  clear : program.Clear offset
  within : count ≤ program.statements.length
  seam : program.Seam (program.statements.take count) (program.statements.drop count) offset
  /-- Behind a statement there is only the rest of its last line. -/
  rest : ∀ statement, program.anchorAt count = .after statement → program.RestOfLine statement offset
  /-- At the top only a line for an interpreter stays before it. -/
  top : program.anchorAt count = .top → ∀ node ∈ program.topLevel, node.kind ≠ .hashBangLine → offset < node.stop

namespace Program
variable {source : Text} {program : Program}

theorem anchorAt_succ {front back : List Node} {statement : Node} (split : program.statements = front ++ statement :: back) :
    program.anchorAt (front.length + 1) = .after statement := by
  have here : program.statements[front.length]? = some statement := by simp [split]
  rw [anchorAt, here]

theorem anchorAt_within {count : Nat} (within : count + 1 ≤ program.statements.length) :
    ∃ front statement back, program.statements = front ++ statement :: back ∧ count = front.length ∧
      program.anchorAt (count + 1) = .after statement := by
  have split : program.statements =
      program.statements.take count ++ program.statements[count] :: program.statements.drop (count + 1) := by
    rw [List.getElem_cons_drop, List.take_append_drop]
  have counted : count = (program.statements.take count).length := by
    rw [List.length_take]
    omega
  refine ⟨_, _, _, split, counted, ?_⟩
  have anchor := anchorAt_succ split
  rwa [← counted] at anchor

/-- Statements land behind as many of the old ones as they are meant to. -/
theorem anchorAt_landing (read : Program.parse source = .ok program) (alone : program.LineAlone) {count : Nat}
    (within : count ≤ program.statements.length) (text : Text) :
    program.Landing count ((program.anchorAt count).insertion program text).span.start := by
  cases count with
  | zero =>
    have top := Anchor.top_top read alone text
    exact ⟨top.clear, within, Anchor.top_seam program text, fun statement never => (by cases never), fun _ => top.others⟩
  | succ count =>
    obtain ⟨front, statement, back, split, rfl, anchor⟩ := anchorAt_within within
    have listed : statement ∈ program.topLevel := by
      refine (mem_statements.mp ?_).1
      rw [split]
      simp
    rw [anchor]
    refine ⟨Anchor.endOf_clear listed, within, ?_, ?_, ?_⟩
    · have first : program.statements.take (front.length + 1) = front ++ [statement] := by
        rw [split, List.append_cons, List.take_left' (by simp)]
      have others : program.statements.drop (front.length + 1) = back := by
        rw [split, List.append_cons, List.drop_left' (by simp)]
      rw [first, others]
      exact Anchor.endOf_seam split
    · intro other same
      rw [anchor] at same
      cases same
      exact Anchor.endOf_rest read listed
    · intro never
      rw [anchor] at never
      cases never

theorem importOf?_plain (read : Program.parse source = .ok program) {statement : Node}
    (member : statement ∈ program.statements) (found : (importOf? statement).isSome = true) :
    statement.tree.IsPlainNode := by
  have kind : statement.kind = .importStatement := by
    obtain ⟨it, viewed⟩ := Option.isSome_iff_exists.mp found
    unfold importOf? at viewed
    split at viewed
    next other same =>
      unfold Node.construct at same
      split at same
      next kind => exact kind
      all_goals first | cases same | (split at same <;> cases same)
    next => cases viewed
  rcases place_cases read (mem_topLevel.mp (mem_statements.mp member).1).1 with (gap | ⟨text, same, -⟩) | plain
  · exact absurd kind (gap.kind_ne rfl)
  · rw [Node.kind, same] at kind
    cases kind
  · exact plain

theorem line_before_import (read : Program.parse source = .ok program) {statement line : Node}
    (member : statement ∈ program.statements) (found : (importOf? statement).isSome = true)
    (listed : line ∈ program.topLevel) (kind : line.kind = .hashBangLine) :
    line.stop ≤ Anchor.endOf program statement := by
  have here := mem_topLevel.mp (mem_statements.mp member).1
  have before := (place_line read (mem_topLevel.mp listed).1 kind statement here.1).2 (importOf?_plain read member found)
  have wide := Node.Stands.start_le_stop statement
  have past := Anchor.stop_le_endOf program statement
  omega

end Program

/-- How many statements stay before those that an operation inserts. -/
def Operation.keeps? (program : Program) : Operation → Option Nat
  | upsertImport module _ =>
    if program.importOfModule? module = none then some program.leadingImports.length else none
  | insertAfterLastImport _ => some program.countToLastImport
  | insertAtTop _ => some 0
  | _ => none

namespace Operation
variable {source : Text} {program : Program}

theorem anchorAt_leadingImports (program : Program) :
    program.leadingImports.length ≤ program.statements.length ∧
      program.anchorAt program.leadingImports.length =
        (match program.leadingImports.getLast? with
        | some statement => Anchor.after statement
        | none => .top) ∧
      ∀ statement, program.leadingImports.getLast? = some statement →
        statement ∈ program.statements ∧ (Program.importOf? statement).isSome = true := by
  obtain ⟨back, parts⟩ : ∃ back, program.leadingImports ++ back = program.statements :=
    ⟨_, List.takeWhile_append_dropWhile⟩
  refine ⟨by rw [← parts, List.length_append]; exact Nat.le_add_right _ _, ?_, fun statement last => ?_⟩
  · cases last : program.leadingImports.getLast? with
    | none => rw [List.getLast?_eq_none_iff.mp last]; rfl
    | some statement =>
      obtain ⟨front, same⟩ := List.getLast?_eq_some_iff.mp last
      rw [same, List.append_assoc] at parts
      rw [same, List.length_append]
      exact Program.anchorAt_succ parts.symm
  · have member := List.mem_of_mem_getLast? last
    exact ⟨List.takeWhile_subset _ member, List.all_eq_true.mp List.all_takeWhile statement member⟩

theorem anchorAt_countToLastImport (program : Program) :
    program.countToLastImport ≤ program.statements.length ∧
      program.anchorAt program.countToLastImport =
        (match program.lastImport? with
        | some statement => Anchor.after statement
        | none => .top) ∧
      ∀ statement, program.lastImport? = some statement →
        statement ∈ program.statements ∧ (Program.importOf? statement).isSome = true := by
  cases last : program.lastImport? with
  | some statement =>
    obtain ⟨front, back, split, counted⟩ := Program.lastImport?_split last
    refine ⟨?_, by rw [counted]; exact Program.anchorAt_succ split, ?_⟩
    · rw [counted, split, List.length_append, List.length_cons]
      omega
    · rintro other ⟨⟩
      have found := List.find?_some last
      exact ⟨by rw [split]; simp, found⟩
  | none =>
    rw [Program.countToLastImport_eq_zero last]
    exact ⟨Nat.zero_le _, rfl, by simp⟩

/-- Operations that insert statements do it behind a number of the old ones, the last of which is an import. -/
theorem keeps?_run {operation : Operation} {style : Style} {change : Change} {patch : Patch} {count : Nat}
    (keeps : operation.keeps? program = some count) (ran : operation.run style program = .ok change)
    (patched : change.patch = some patch) :
    count ≤ program.statements.length ∧ (∃ text, patch = (program.anchorAt count).insertion program text) ∧
      ∀ statement, program.anchorAt count = .after statement →
        statement ∈ program.statements ∧ (Program.importOf? statement).isSome = true := by
  have inserted : ∀ {anchor : Anchor} {text : Text}, program.insertStatements anchor text = .ok change →
      ∃ text, patch = anchor.insertion program text := by
    intro anchor text done
    obtain ⟨snippet, -, rfl⟩ := Program.insertStatements_ok done
    dsimp only at patched
    split at patched
    next => cases patched
    next => exact ⟨snippet.text, (Option.some.inj patched).symm⟩
  have behind : ∀ {found : Option Node} {count : Nat},
      program.anchorAt count = (match found with | some statement => Anchor.after statement | none => .top) →
      (∀ statement, found = some statement →
        statement ∈ program.statements ∧ (Program.importOf? statement).isSome = true) →
      ∀ statement, program.anchorAt count = .after statement →
        statement ∈ program.statements ∧ (Program.importOf? statement).isSome = true := by
    intro found count anchor imports statement same
    rw [anchor] at same
    split at same
    next other =>
      cases same
      exact imports statement rfl
    next => cases same
  cases operation with
  | upsertImport module specifiers =>
    rw [keeps?] at keeps
    split at keeps
    next absent =>
      cases keeps
      obtain ⟨within, anchor, imports⟩ := anchorAt_leadingImports program
      refine ⟨within, ?_, behind anchor imports⟩
      cases ran
      rw [Program.upsertImport, absent] at patched
      rw [anchor]
      exact ⟨_, (Option.some.inj patched).symm⟩
    next => cases keeps
  | insertAfterLastImport text =>
    cases keeps
    obtain ⟨within, anchor, imports⟩ := anchorAt_countToLastImport program
    refine ⟨within, ?_, behind anchor imports⟩
    rw [anchor]
    exact inserted ran
  | insertAtTop text =>
    cases keeps
    exact ⟨Nat.zero_le _, inserted ran, fun statement never => by cases never⟩
  | _ => cases keeps

/-- Statements are inserted between the old statements that stay before them and the others. No node at the top level is
cut; behind a statement the insertion skips only the rest of its last line, and at the top it skips only a line for an
interpreter that comes before everything else. -/
theorem insertion_lands (read : Program.parse source = .ok program) (alone : program.LineAlone) :
    (∀ count text, count ≤ program.statements.length →
      program.Landing count ((program.anchorAt count).insertion program text).span.start) ∧
    ∀ (operation : Operation) (style : Style) (change : Change) (patch : Patch) (count : Nat),
      operation.keeps? program = some count → operation.run style program = .ok change → change.patch = some patch →
      (∃ text, patch = (program.anchorAt count).insertion program text) ∧ patch.span.stop = patch.span.start ∧
        program.Landing count patch.span.start ∧
        ∀ line ∈ program.topLevel, line.kind = .hashBangLine →
          (count = 0 → ∀ node ∈ program.topLevel, line.start ≤ node.start) → line.stop ≤ patch.span.start := by
  refine ⟨fun count text within => program.anchorAt_landing read alone within text, ?_⟩
  intro operation style change patch count keeps ran patched
  obtain ⟨within, ⟨text, rfl⟩, imports⟩ := keeps?_run keeps ran patched
  refine ⟨⟨text, rfl⟩, ?_, program.anchorAt_landing read alone within text, ?_⟩
  · obtain ⟨before, after, -, same⟩ := (program.anchorAt count).insertion_breaks program text
    rw [same]
    rfl
  · intro line listed kind foremost
    cases count with
    | zero => exact (Anchor.top_top read alone text).line line listed kind (foremost rfl)
    | succ count =>
      obtain ⟨-, statement, -, -, -, anchor⟩ := Program.anchorAt_within within
      obtain ⟨member, found⟩ := imports statement anchor
      rw [anchor]
      exact Program.line_before_import read member found listed kind

end Operation

namespace Program

def commentedLine : Text := "//\n#!\n;".toList

def linedImport : Text := "#!\nimport'a';//\n;".toList

/-- Where lines for an interpreter end, how many imports a program starts with, and where one of a new module goes. -/
def importPlace (program : Program) : Bool × List Nat × Bool × Nat × Option Nat :=
  (decide program.LineAlone, (program.topLevel.filter fun node => node.kind = .hashBangLine).map Node.stop,
    (program.importOfModule? ['m']).isNone, program.leadingImports.length,
    (program.upsertImport {} ['m'] [['a']]).patch.map fun patch => patch.span.start)

set_option synthInstance.maxSize 1000 in
set_option maxRecDepth 100000 in
theorem importPlace_lined : (parse linedImport).toOption.map importPlace = some (true, [2], true, 1, some 15) ∧
    (parse commentedLine).toOption.map importPlace = some (true, [5], true, 0, some 0) := by
  decide +kernel

end Program

namespace Operation

theorem importPlace_run {stops : List Nat} {count offset : Nat}
    (place : program.importPlace = (true, stops, true, count, some offset)) :
    program.LineAlone ∧ (upsertImport ['m'] [['a']]).keeps? program = some count ∧
      (∃ change patch, (upsertImport ['m'] [['a']]).run {} program = .ok change ∧ change.patch = some patch ∧
        patch.span.start = offset) ∧
      (program.topLevel.filter fun node => node.kind = .hashBangLine).map Node.stop = stops := by
  simp only [Program.importPlace, Prod.mk.injEq, decide_eq_true_eq, Option.isNone_iff_eq_none] at place
  obtain ⟨alone, lines, absent, leading, patched⟩ := place
  obtain ⟨patch, patched, start⟩ := Option.map_eq_some_iff.mp patched
  exact ⟨alone, by rw [keeps?, if_pos absent, leading], ⟨_, patch, rfl, patched, start⟩, lines⟩

theorem insertion_lands_lined : ∃ program change patch line, Program.parse Program.linedImport = .ok program ∧
    program.LineAlone ∧ (upsertImport ['m'] [['a']]).keeps? program = some 1 ∧
    (upsertImport ['m'] [['a']]).run {} program = .ok change ∧ change.patch = some patch ∧ patch.span.start = 15 ∧
    program.Landing 1 patch.span.start ∧ line ∈ program.topLevel ∧ line.kind = .hashBangLine ∧
    line.stop ≤ patch.span.start := by
  obtain ⟨program, found, place⟩ := Option.map_eq_some_iff.mp Program.importPlace_lined.1
  have read := Except.ok_of_toOption found
  obtain ⟨alone, keeps, ⟨change, patch, ran, patched, start⟩, lines⟩ := importPlace_run place
  obtain ⟨line, inside⟩ : ∃ line, line ∈ program.topLevel.filter fun node => node.kind = .hashBangLine :=
    List.exists_mem_of_ne_nil _ fun none => by simp [none] at lines
  obtain ⟨listed, kind⟩ := List.mem_filter.mp inside
  obtain ⟨-, -, landing, behind⟩ := (insertion_lands read alone).2 _ _ change patch 1 keeps ran patched
  exact ⟨program, change, patch, line, read, alone, keeps, ran, patched, start, landing, listed, of_decide_eq_true kind,
    behind line listed (of_decide_eq_true kind) fun never => by cases never⟩

/-- Above a comment that stands before the line for an interpreter is above that line. -/
theorem insertion_above_line : ∃ program change patch line, Program.parse Program.commentedLine = .ok program ∧
    program.LineAlone ∧ (upsertImport ['m'] [['a']]).keeps? program = some 0 ∧
    (upsertImport ['m'] [['a']]).run {} program = .ok change ∧ change.patch = some patch ∧
    line ∈ program.topLevel ∧ line.kind = .hashBangLine ∧ ¬line.stop ≤ patch.span.start := by
  obtain ⟨program, found, place⟩ := Option.map_eq_some_iff.mp Program.importPlace_lined.2
  obtain ⟨alone, keeps, ⟨change, patch, ran, patched, start⟩, lines⟩ := importPlace_run place
  obtain ⟨line, inside, stop⟩ : ∃ line, line ∈ program.topLevel.filter (fun node => node.kind = .hashBangLine) ∧
      line.stop = 5 :=
    List.mem_map.mp (by rw [lines]; simp)
  obtain ⟨listed, kind⟩ := List.mem_filter.mp inside
  exact ⟨program, change, patch, line, Except.ok_of_toOption found, alone, keeps, ran, patched, listed,
    of_decide_eq_true kind, by omega⟩

end Operation
end Graft
