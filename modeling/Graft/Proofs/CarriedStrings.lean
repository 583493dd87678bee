import Graft.Proofs.CarriedLines
import Graft.Proofs.ShellFrame
import Graft.Proofs.StringNodes

/-! Strings in pieces of code. Only lines that templates go on in are verbatim, so strings are found again in what is
written if they are on one line, or go on in such lines. Other lines of a string are indented like code. -/

namespace Graft

/-- Whether a node goes on only in lines that templates go on in, which are verbatim. A node on one line does. -/
def Node.isSteady (node : Node) (source : Text) (root : Node) : Bool :=
  (List.range (Text.rows node.text)).all fun more => (templateRows source root).any fun rows =>
    rows.start ≤ rowAt source node.start + 1 + more && rowAt source node.start + 1 + more < rows.stop

/-- Nodes of a source behind each other that indentation leaves alone: they start with characters that are no blanks, and
go on only in verbatim lines. -/
structure AreSteady (source : Text) (root : Node) (nodes : List Node) : Prop where
  ordered : nodes.Pairwise fun first second => first.stop ≤ second.start
  stands : ∀ node ∈ nodes, node.Stands source
  solid : ∀ node ∈ nodes, ∃ c rest, node.text = c :: rest ∧ isBlank c = false
  steady : ∀ node ∈ nodes, node.isSteady source root = true

theorem AreSteady.cons {source : Text} {root node : Node} {nodes : List Node} (all : AreSteady source root (node :: nodes)) :
    node.Stands source ∧ (∃ c rest, node.text = c :: rest ∧ isBlank c = false) ∧ node.isSteady source root = true ∧
      (∀ other ∈ nodes, node.stop ≤ other.start) ∧ AreSteady source root nodes := by
  obtain ⟨next, ordered⟩ := List.pairwise_cons.mp all.ordered
  obtain ⟨stands, standing⟩ := List.forall_mem_cons.mp all.stands
  obtain ⟨solid, firm⟩ := List.forall_mem_cons.mp all.solid
  obtain ⟨steady, rows⟩ := List.forall_mem_cons.mp all.steady
  exact ⟨stands, solid, steady, next, ordered, standing, firm, rows⟩

theorem Node.bounds_of_ordered {nodes : List Node}
    (ordered : nodes.Pairwise fun first second => first.stop ≤ second.start) (filled : nodes ≠ []) :
    ∃ first last, nodes.head? = some first ∧ nodes.getLast? = some last ∧
      ∀ node ∈ nodes, first.start ≤ node.start ∧ node.stop ≤ last.stop := by
  induction nodes with
  | nil => exact absurd rfl filled
  | cons first nodes ih =>
    obtain ⟨behind, ordered⟩ := List.pairwise_cons.mp ordered
    have wide := Node.Stands.start_le_stop first
    cases nodes with
    | nil => exact ⟨first, first, rfl, rfl, by simp⟩
    | cons next nodes =>
      obtain ⟨_, last, -, final, bounds⟩ := ih ordered (List.cons_ne_nil _ _)
      have apart := behind next (List.mem_cons_self ..)
      have below := (bounds next (List.mem_cons_self ..)).2
      have long := Node.Stands.start_le_stop next
      refine ⟨first, last, rfl, by rw [List.getLast?_cons_cons, final], List.forall_mem_cons.mpr ⟨by omega, ?_⟩⟩
      intro node member
      have after := behind node member
      exact ⟨by omega, (bounds node member).2⟩

namespace Snippet

section
variable {source head middle back indent : Text} {root : Node} {width : Nat}

/-- Behind what is done of a region, the nodes that are still to come are carried over. -/
theorem carried_nodes (whole : source = head ++ (middle ++ back)) {nodes : List Node} (all : AreSteady source root nodes)
    (inside : ∀ node ∈ nodes, node.stop ≤ Text.bytes (head ++ middle)) {lead done rest : Text} {row : Nat}
    (split : middle = done ++ rest) (place : row + Text.rows lead = Text.rows (head ++ done) + 1)
    (behind : ∀ node ∈ nodes, Text.bytes (head ++ done) ≤ node.start)
    (wide : IsWide (templateRows source root) width row (lead ++ rest)) :
    Text.InOrder (nodes.map Node.text) (carried (templateRows source root) width indent row (lead ++ rest)) := by
  induction nodes generalizing lead done rest row with
  | nil => trivial
  | cons node nodes ih =>
    obtain ⟨stands, ⟨c, more, text, firm⟩, steady, next, others⟩ := all.cons
    obtain ⟨ends, within⟩ := List.forall_mem_cons.mp inside
    obtain ⟨start, -⟩ := List.forall_mem_cons.mp behind
    rw [split, ← List.append_assoc] at ends
    -- the text from what is done on: a gap, the node, and what is behind it
    have parts : source = (head ++ done) ++ (rest ++ back) := by simp [whole, split]
    obtain ⟨gap, outer, rfl, offset⟩ := stands.between parts start ends
    have line : rowAt source node.start = Text.rows (head ++ done ++ gap) := by
      have spelled : source = (head ++ done ++ gap) ++ (node.text ++ (outer ++ back)) := by simp [parts]
      rw [offset, spelled, rowAt_append]
    have moved : row + Text.rows (lead ++ gap) = rowAt source node.start + 1 := by
      rw [line, Text.rows_append, Text.rows_append (head ++ done)]
      omega
    have around : lead ++ (gap ++ (node.text ++ outer)) = (lead ++ gap) ++ c :: (more ++ outer) := by
      rw [text]
      simp
    rw [around] at wide ⊢
    obtain ⟨written, carries, wide⟩ := @carried_solid _ _ _ indent _ _ _ wide firm
    rw [← List.cons_append, ← text] at carries wide
    have covered : ∀ more < Text.rows node.text, (templateRows source root).any (fun rows =>
        rows.start ≤ row + Text.rows (lead ++ gap) + more && row + Text.rows (lead ++ gap) + more < rows.stop) = true := by
      rw [moved]
      exact fun more inside => List.all_eq_true.mp steady more (List.mem_range.mpr inside)
    obtain ⟨kept, wide⟩ := @carried_verbatim _ _ _ indent _ _ wide covered
    rw [← List.cons_append, ← text, carries, kept]
    refine ⟨written, _, rfl, ?_⟩
    refine @ih others within [] (done ++ gap ++ node.text) _ _ (by simp [split]) ?_ ?_ wide
    · rw [moved, line]
      simp only [Text.rows_append, ← List.append_assoc]
      have none : Text.rows [] = 0 := rfl
      omega
    · intro other member
      have apart := next other member
      rw [Node.stop_eq, offset] at apart
      simp only [Text.bytes_append] at apart ⊢
      omega

theorem indented_dedent (lines : List SnippetLine) (indent : Text) : (dedent lines).indented indent true =
    Text.join ['\n'] ((lines.map (SnippetLine.dedent (commonIndent lines))).map (indentLine indent)) := by
  rw [indented, indentedLines, dedent]
  cases lines <;> rfl

/-- The nodes of a region are found again in the piece of code that is cut out. -/
theorem indented_region (whole : source = head ++ (middle ++ back)) {nodes : List Node} (all : AreSteady source root nodes)
    (behind : ∀ node ∈ nodes, Text.bytes head ≤ node.start)
    (inside : ∀ node ∈ nodes, node.stop ≤ Text.bytes (head ++ middle)) :
    Text.InOrder (nodes.map Node.text)
      ((ofRegion source root ⟨Text.bytes head, Text.bytes head + Text.bytes middle⟩).indented indent true) := by
  rw [ofRegion_eq root whole, indented_dedent]
  generalize lines : flag (templateRows source root) (Text.rows head) (Text.splitOn '\n' (head.lastLine ++ middle)) = cut
  have solid : ∀ piece ∈ nodes.map Node.text, ∃ c rest, piece = c :: rest ∧ c ≠ '\n' := by
    intro piece member
    obtain ⟨node, listed, rfl⟩ := List.mem_map.mp member
    obtain ⟨c, rest, text, firm⟩ := all.solid node listed
    refine ⟨c, rest, text, ?_⟩
    rintro rfl
    cases firm
  have wide : IsWide (templateRows source root) (commonIndent cut) (Text.rows head) ('\n' :: head.lastLine ++ middle) := by
    rw [IsWide, List.cons_append, Text.splitOn, if_pos rfl, List.tail_cons, lines]
    exact fun line member counts => commonIndent_le (List.mem_filter.mpr ⟨member, counts⟩)
  have place : Text.rows head + Text.rows ('\n' :: head.lastLine) = Text.rows (head ++ []) + 1 := by
    have feed : Text.rows ('\n' :: head.lastLine) = Text.rows head.lastLine + 1 := List.count_cons_self ..
    rw [feed, Text.rows_lastLine, List.append_nil]
  have found := @carried_nodes _ _ _ _ indent _ _ whole _ all inside _ [] _ _ rfl place (by simpa using behind) wide
  rw [List.cons_append, carried_feed, rewritten, lines] at found
  exact Text.InOrder.of_newline solid found

theorem indented_ofNodes {outer nodes : List Node} (stands : ∀ node ∈ outer, node.Stands source)
    (ordered : outer.Pairwise fun first second => first.stop ≤ second.start) (all : AreSteady source root nodes)
    (inside : ∀ node ∈ nodes, ∃ around ∈ outer, around.start ≤ node.start ∧ node.stop ≤ around.stop) :
    Text.InOrder (nodes.map Node.text) ((ofNodes source root outer).indented indent true) := by
  cases nodes with
  | nil => trivial
  | cons node nodes =>
    obtain ⟨around, member, -⟩ := inside node (List.mem_cons_self ..)
    obtain ⟨first, last, top, bottom, bounds⟩ := Node.bounds_of_ordered ordered (List.ne_nil_of_mem member)
    have opens := stands first (List.mem_of_mem_head? top)
    have closes := stands last (List.mem_of_mem_getLast? bottom)
    have wide := (bounds first (List.mem_of_mem_head? top)).2
    obtain ⟨head, middle, back, whole, start, stop⟩ := opens.start_boundary.between closes.stop_boundary
      (Nat.le_trans (Node.Stands.start_le_stop first) wide)
    have region : ofNodes source root outer = ofRegion source root ⟨Text.bytes head, Text.bytes head + Text.bytes middle⟩ := by
      rw [ofNodes, top, bottom, stop, start]
    rw [region]
    refine indented_region whole all (fun it listed => ?_) (fun it listed => ?_)
    · obtain ⟨around, member, start', -⟩ := inside it listed
      exact start ▸ Nat.le_trans (bounds around member).1 start'
    · obtain ⟨around, member, -, stop'⟩ := inside it listed
      rw [Text.bytes_append, stop]
      exact Nat.le_trans stop' (bounds around member).2

end
end Snippet

/-! ### Strings of what is read -/

namespace Program
variable {source : Text} {program : Program}

/-- The strings of a node that are on one line, or go on only in lines that templates go on in. -/
def steadyStrings (program : Program) (node : Node) : List Node :=
  node.strings.filter fun string => string.isSteady program.source program.root

theorem steadyStrings_areSteady (read : Program.parse source = .ok program) {node : Node}
    (member : node ∈ program.root.nodes) : AreSteady program.source program.root (program.steadyStrings node) := by
  obtain ⟨flat, strings⟩ := strings_stand read
  have below : ∀ string ∈ program.steadyStrings node, string ∈ program.root.strings := by
    intro string listed
    obtain ⟨inner, kind⟩ := Node.mem_strings.mp (List.mem_filter.mp listed).1
    exact Node.mem_strings.mpr ⟨Node.mem_nodes_trans member inner, kind⟩
  have own : node.StringsAreFlat := fun inner listed => flat inner (Node.mem_nodes_trans member listed)
  refine ⟨(Node.strings_ordered own).filter _, fun string listed => ?_, fun string listed => ?_, fun string listed => ?_⟩
  · rw [(parse_ok read).1]
    exact (strings string (below string listed)).1
  · obtain ⟨-, quote, rest, text, rfl | rfl⟩ := strings string (below string listed)
    · exact ⟨'"', rest, text, rfl⟩
    · exact ⟨'\'', rest, text, rfl⟩
  · exact (List.mem_filter.mp listed).2

/-- A piece of code that is cut out with some children of a node has the strings of the node, if its other children are
leaves. -/
theorem indented_strings (read : Program.parse source = .ok program) {node : Node} {kept : List Node}
    (member : node ∈ program.root.nodes) (other : node.kind ≠ .string) (part : kept.Sublist node.children)
    (leaves : ∀ child ∈ node.children, child ∉ kept → child.tree.IsLeaf) (indent : Text) :
    Text.InOrder ((program.steadyStrings node).map Node.text)
      ((Snippet.ofNodes program.source program.root kept).indented indent true) := by
  have stands : node.Stands program.source := Node.nodes_keep (fun node stands child listed => (stands.child listed).1)
    program.root_stands node member
  refine Snippet.indented_ofNodes (fun child listed => (stands.child (part.subset listed)).1)
    (node.children_ordered.sublist part) (steadyStrings_areSteady read member) fun string listed => ?_
  have listed := (List.mem_filter.mp listed).1
  rw [Node.strings_eq other] at listed
  obtain ⟨child, here, inner⟩ := List.mem_flatMap.mp listed
  by_cases stays : child ∈ kept
  · exact ⟨child, stays, Node.nodes_inside string (Node.mem_strings.mp inner).1⟩
  · rw [Node.strings_of_isLeaf (leaves child here stays)] at inner
    cases inner

end Program
end Graft
