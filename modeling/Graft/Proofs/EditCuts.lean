import Graft.Proofs.EditTargets

/-! The cuts that edits make in texts. An edit that looks at the line of a node, at the inside of a list of
imports or at a region of a piece of code cuts a text at byte offsets. Here all these cuts are listed, and
each of them is shown to fall between two characters of its text. -/

namespace Graft

/-- A slice that is taken of a text. -/
structure Cut where
  text : Text
  span : Span

namespace Cut

def Lands (cut : Cut) : Prop := (Text.slice? cut.span.start cut.span.stop cut.text).isSome = true

def upTo (text : Text) (offset : Nat) : Cut := ⟨text, ⟨0, offset⟩⟩

theorem upTo_lands {text : Text} {offset : Nat} (edge : Text.Boundary text offset) : (upTo text offset).Lands :=
  (Text.boundary_zero text).slice? edge (Nat.zero_le _)

end Cut

/-- The inside of a quoted text. -/
def unquoteCuts (text : Text) : List Cut :=
  match text with
  | first :: rest =>
    if (first = '\'' || first = '"') && rest.getLast? = some first then [⟨text, ⟨1, Text.bytes text - 1⟩⟩] else []
  | [] => []

/-- Every line that takes part in indentation loses the indentation that all of them share. -/
def Snippet.lineCuts (lines : List SnippetLine) : List Cut :=
  (lines.filter SnippetLine.counts).map fun line => .upTo line.text (commonIndent lines)

/-- A region is cut out from the start of its first line on. -/
def Snippet.regionCuts (source : Text) (root : Node) (region : Span) : List Cut :=
  let before := ((Text.take? region.start source).getD []).beforeLastLine
  let text := (Text.slice? (Text.bytes before) region.stop source).getD []
  .upTo source region.start :: ⟨source, ⟨Text.bytes before, region.stop⟩⟩ ::
    lineCuts (flag (templateRows source root) (Text.rows before) (Text.splitOn '\n' text))

def Snippet.nodeCuts (source : Text) (root : Node) (nodes : List Node) : List Cut :=
  match nodes.head?, nodes.getLast? with
  | some first, some last => regionCuts source root ⟨first.start, last.stop⟩
  | _, _ => []

/-- The cuts that are made in a program, if it could be read. -/
def cutsOf (cuts : Program → List Cut) : Except ParseError Program → List Cut
  | .error _ => []
  | .ok program => cuts program

def FunctionShell.bodyCuts (shell : FunctionShell) (program : Program) : List Cut :=
  match program.single?.bind shell.block? with
  | none => []
  | some block => Snippet.nodeCuts program.source program.root block.namedChildren

def ParsedExpression.cuts (program : Program) : List Cut :=
  match program.single?.bind inside? with
  | none => []
  | some node => Snippet.regionCuts program.source program.root node.span

def statementCuts (program : Program) : List Cut :=
  Snippet.nodeCuts program.source program.root (program.topLevel.filter fun node => node.kind ≠ .hashBangLine)

namespace Anchor

/-- New statements at the top go to the start of the first line with code. -/
def cuts (program : Program) : Anchor → List Cut
  | after _ => []
  | top =>
    match program.topLevel.find? fun node => node.kind ≠ .hashBangLine with
    | some node => [.upTo program.source node.start]
    | none => []

end Anchor

namespace Import

def layoutCuts (source : Text) (list : Node) (present : List ImportSpecifier) : List Cut :=
  ⟨source, list.span⟩ :: .upTo source (list.stop - 1) ::
    (present.head?.toList.map fun first => .upTo source first.node.start) ++
    present.getLast?.toList.map fun last => ⟨source, ⟨last.node.stop, list.stop - 1⟩⟩

def cuts (it : Import) (source : Text) : List Cut :=
  (it.specifiers.flatMap fun specifier => ((specifier.node.child? .name).map Node.text).toList.flatMap unquoteCuts) ++
    match it.namedList? with
    | some list => layoutCuts source list it.specifiers
    | none => []

end Import

namespace Program

def searchCuts (program : Program) : List Cut :=
  (program.statements.filterMap importOf?).flatMap fun it =>
    (it.sourceNode?.map Node.text).toList.flatMap unquoteCuts

def upsertCuts (program : Program) (module : Text) : List Cut :=
  program.searchCuts ++
    match program.importOfModule? module with
    | some it => it.cuts program.source
    | none =>
      match program.leadingImports.getLast? with
      | some statement => (Anchor.after statement).cuts program
      | none => Anchor.top.cuts program

end Program

/-- All cuts that an operation makes before its patch is spliced in. -/
def Operation.cuts (program : Program) : Operation → List Cut
  | upsertImport module _ => program.upsertCuts module
  | updateFunctionBody name body =>
    match program.functionNamed? name with
    | none => []
    | some target => .upTo program.source target.body.start ::
      cutsOf target.shell.bodyCuts (Program.parse (target.shell.wrap body))
  | replaceElement tag replacement =>
    cutsOf ParsedExpression.cuts (Program.parse (ParsedExpression.wrap replacement)) ++
      (program.elementNamed? tag).toList.map fun span => .upTo program.source span.start
  | replaceAttributes tag _ =>
    (program.attributesOf? tag).toList.map fun slot => ⟨program.source, slot.span⟩
  | insertAfterLastImport text =>
    cutsOf statementCuts (Program.parse text) ++
      match program.lastImport? with
      | some statement => (Anchor.after statement).cuts program
      | none => Anchor.top.cuts program
  | insertAtTop text => cutsOf statementCuts (Program.parse text) ++ Anchor.top.cuts program

/-! ### Lines -/

namespace Text

theorem beforeLastLine_append_lastLine (text : Text) : text.beforeLastLine ++ text.lastLine = text := by
  rw [beforeLastLine, lastLine, ← List.reverse_append, List.takeWhile_append_dropWhile, List.reverse_reverse]

theorem Boundary.lineStart {text : Text} {offset : Nat} (edge : Boundary text offset) :
    Boundary text (Text.bytes ((Text.take? offset text).getD []).beforeLastLine) ∧
      Text.bytes ((Text.take? offset text).getD []).beforeLastLine ≤ offset := by
  obtain ⟨front, back, rfl, rfl⟩ := edge
  have whole := beforeLastLine_append_lastLine front
  have size := congrArg Text.bytes whole
  rw [take?_append, Option.getD_some]
  refine ⟨⟨front.beforeLastLine, front.lastLine ++ back, ?_, rfl⟩, ?_⟩
  · rw [← List.append_assoc, whole]
  · rw [bytes_append] at size
    omega

theorem bytes_of_indent {text : Text} (blank : ∀ c ∈ text, isIndent c = true) : Text.bytes text = text.length := by
  induction text with
  | nil => rfl
  | cons c rest ih =>
    have narrow : c.utf8Size = 1 := by
      have kind := blank c (by simp)
      simp only [isIndent, Bool.or_eq_true, decide_eq_true_eq] at kind
      rcases kind with rfl | rfl <;> rfl
    rw [Text.bytes, ih (fun other member => blank other (by simp [member])), narrow, List.length_cons]
    omega

/-- The start of an indentation is as many bytes as characters. -/
theorem indentation_boundary {text : Text} {width : Nat} (narrow : width ≤ text.indentation.length) :
    Boundary text width := by
  have blank : ∀ c ∈ text.indentation.take width, isIndent c = true := by
    intro c member
    exact List.all_eq_true.mp List.all_takeWhile c (List.mem_of_mem_take member)
  have whole : text = text.indentation ++ text.dropWhile isIndent := by
    rw [indentation, List.takeWhile_append_dropWhile]
  refine ⟨text.indentation.take width, text.indentation.drop width ++ text.dropWhile isIndent, ?_, ?_⟩
  · rw [← List.append_assoc, List.take_append_drop, ← whole]
  · rw [bytes_of_indent blank, List.length_take]
    omega

end Text

/-! ### All cuts land -/

theorem unquoteCuts_land (text : Text) : ∀ cut ∈ unquoteCuts text, cut.Lands := by
  intro cut member
  unfold unquoteCuts at member
  split at member
  next first rest =>
    split at member
    next quoted =>
      simp only [Bool.and_eq_true, Bool.or_eq_true, decide_eq_true_eq] at quoted
      obtain ⟨inner, same⟩ := List.getLast?_eq_some_iff.mp quoted.2
      have narrow : first.utf8Size = 1 := by rcases quoted.1 with rfl | rfl <;> rfl
      have slice := Text.slice?_append [first] inner [first]
      have stop : Text.bytes (first :: rest) - 1 = Text.bytes [first] + Text.bytes inner := by
        simp only [same, Text.bytes, Text.bytes_append, narrow]
        omega
      rw [List.mem_singleton.mp member, Cut.Lands, stop, same]
      simp only [Text.bytes, narrow, Nat.add_zero, List.singleton_append] at slice ⊢
      rw [slice]
      rfl
    next => simp at member
  next => simp at member

namespace Snippet

theorem commonIndent_le {lines : List SnippetLine} {line : SnippetLine}
    (member : line ∈ lines.filter SnippetLine.counts) : commonIndent lines ≤ line.text.indentation.length := by
  have inside : line.text.indentation.length ∈
      (lines.filter SnippetLine.counts).map fun line => line.text.indentation.length :=
    List.mem_map.mpr ⟨line, member, rfl⟩
  unfold commonIndent
  cases least : ((lines.filter SnippetLine.counts).map fun line => line.text.indentation.length).min? with
  | none => simp
  | some width => exact (List.min?_eq_some_iff.mp least).2 _ inside

theorem lineCuts_land (lines : List SnippetLine) : ∀ cut ∈ lineCuts lines, cut.Lands := by
  intro cut member
  obtain ⟨line, counted, rfl⟩ := List.mem_map.mp member
  exact Cut.upTo_lands (Text.indentation_boundary (commonIndent_le counted))

theorem regionCuts_land {source : Text} (root : Node) {region : Span} (fits : region.Fits source) :
    ∀ cut ∈ regionCuts source root region, cut.Lands := by
  obtain ⟨edge, before⟩ := fits.start.lineStart
  intro cut member
  rcases List.mem_cons.mp member with rfl | member
  · exact Cut.upTo_lands fits.start
  rcases List.mem_cons.mp member with rfl | member
  · exact edge.slice? fits.stop (Nat.le_trans before fits.ordered)
  · exact lineCuts_land _ cut member

/-- Nodes that stand in order in a text span a region of it. -/
theorem nodeCuts_land {source : Text} (root : Node) {nodes : List Node}
    (stand : ∀ node ∈ nodes, node.Stands source)
    (ordered : nodes.Pairwise fun first second => first.stop ≤ second.start) :
    ∀ cut ∈ nodeCuts source root nodes, cut.Lands := by
  unfold nodeCuts
  split
  next first last head tail =>
    have start := stand first (List.mem_of_mem_head? head)
    have stop := stand last (List.mem_of_mem_getLast? tail)
    refine regionCuts_land root ⟨start.start_boundary, stop.stop_boundary, ?_⟩
    obtain ⟨rest, rfl⟩ := List.head?_eq_some_iff.mp head
    rcases List.mem_cons.mp (List.mem_of_mem_getLast? tail) with rfl | later
    · exact Node.Stands.start_le_stop last
    · have before := (List.pairwise_cons.mp ordered).1 last later
      have opens := Node.Stands.start_le_stop first
      have closes := Node.Stands.start_le_stop last
      exact Nat.le_trans opens (Nat.le_trans before closes)
  next => simp

end Snippet

namespace Program

theorem single?_mem {program : Program} {statement : Node} (found : program.single? = some statement) :
    statement ∈ program.statements := by
  unfold single? at found
  split at found
  next only same =>
    cases found
    simp [same]
  next => cases found

end Program

theorem Node.firstValue?_stands {source : Text} {statement value : Node} (stands : statement.Stands source)
    (found : statement.firstValue? = some value) : value.Stands source := by
  unfold firstValue? at found
  split at found
  next =>
    obtain ⟨declarator, declared, child⟩ := Option.bind_eq_some_iff.mp found
    exact (stands.named (List.mem_of_find?_eq_some declared)).1.child? child
  next => cases found

theorem FunctionShell.block?_stands {source : Text} {shell : FunctionShell} {statement block : Node}
    (stands : statement.Stands source) (found : shell.block? statement = some block) : block.Stands source := by
  unfold block? at found
  obtain ⟨body, reached, same⟩ := Option.bind_eq_some_iff.mp found
  have body_stands : body.Stands source := by
    split at reached
    next =>
      split at reached
      next => exact stands.child? reached
      next => cases reached
    next =>
      split at reached
      next value valued =>
        split at reached
        next => exact (Node.firstValue?_stands stands valued).child? reached
        next => cases reached
      next => cases reached
  split at same
  next =>
    cases same
    exact body_stands
  next => cases same

theorem cutsOf_land {cuts : Program → List Cut} (land : ∀ program, ∀ cut ∈ cuts program, cut.Lands)
    (read : Except ParseError Program) : ∀ cut ∈ cutsOf cuts read, cut.Lands := by
  cases read with
  | error => simp [cutsOf]
  | ok program => exact land program

theorem FunctionShell.bodyCuts_land (shell : FunctionShell) (program : Program) :
    ∀ cut ∈ shell.bodyCuts program, cut.Lands := by
  unfold bodyCuts
  split
  next => simp
  next block found =>
    obtain ⟨statement, single, reached⟩ := Option.bind_eq_some_iff.mp found
    have stands := block?_stands (program.statement_stands (Program.single?_mem single)) reached
    exact Snippet.nodeCuts_land _ (fun node member => (stands.named member).1) block.namedChildren_ordered

theorem ParsedExpression.inside?_stands {source : Text} {statement inner : Node} (stands : statement.Stands source)
    (found : inside? statement = some inner) : inner.Stands source := by
  unfold inside? at found
  split at found
  next => cases found
  next value valued =>
    have outer := Node.firstValue?_stands stands valued
    split at found
    next =>
      split at found
      next only same =>
        cases found
        have member : only ∈ value.namedChildren.filter fun child => child.kind ≠ .comment := by
          rw [same]
          exact List.mem_singleton_self only
        exact (outer.named (List.mem_filter.mp member).1).1.bare
      next => cases found
    next => cases found

theorem ParsedExpression.cuts_land (program : Program) : ∀ cut ∈ ParsedExpression.cuts program, cut.Lands := by
  unfold ParsedExpression.cuts
  split
  next => simp
  next inner found =>
    obtain ⟨statement, single, reached⟩ := Option.bind_eq_some_iff.mp found
    have stands := inside?_stands (program.statement_stands (Program.single?_mem single)) reached
    exact Snippet.regionCuts_land _ stands.span_fits

theorem statementCuts_land (program : Program) : ∀ cut ∈ statementCuts program, cut.Lands := by
  apply Snippet.nodeCuts_land _ ?_ (program.root.namedChildren_ordered.filter _)
  intro node member
  exact program.topLevel_stands (List.mem_filter.mp member).1

theorem Anchor.cuts_land (program : Program) (anchor : Anchor) : ∀ cut ∈ anchor.cuts program, cut.Lands := by
  unfold Anchor.cuts
  split
  next => simp
  next =>
    split
    next node found =>
      intro cut member
      rw [List.mem_singleton.mp member]
      exact Cut.upTo_lands (program.topLevel_stands (List.mem_of_find?_eq_some found)).start_boundary
    next => simp

theorem Import.cuts_land {source : Text} {it : Import} (stands : it.node.Stands source) :
    ∀ cut ∈ it.cuts source, cut.Lands := by
  intro cut member
  rcases List.mem_append.mp member with names | layout
  · obtain ⟨specifier, _, names⟩ := List.mem_flatMap.mp names
    obtain ⟨name, _, inside⟩ := List.mem_flatMap.mp names
    exact unquoteCuts_land name cut inside
  · split at layout
    next list found =>
      obtain ⟨listed, kind⟩ := namedList?_stands stands found
      obtain ⟨edge, inside⟩ := listed.close_boundary kind
      simp only [layoutCuts, List.cons_append, List.mem_cons, List.mem_append, List.mem_map,
        Option.mem_toList] at layout
      rcases layout with rfl | rfl | ⟨first, head, rfl⟩ | ⟨last, tail, rfl⟩
      · exact listed.span_fits.lands
      · exact Cut.upTo_lands edge
      · exact Cut.upTo_lands (specifiers_stand stands found (List.mem_of_mem_head? head)).1.start_boundary
      · obtain ⟨entry, child, entryKind⟩ := specifiers_stand stands found (List.mem_of_mem_getLast? tail)
        have before := inside last.node child (by simp [entryKind])
        exact entry.stop_boundary.slice? edge before
    next => simp at layout

theorem Program.upsertCuts_land (program : Program) (module : Text) : ∀ cut ∈ program.upsertCuts module, cut.Lands := by
  intro cut member
  rcases List.mem_append.mp member with search | found
  · obtain ⟨it, _, sources⟩ := List.mem_flatMap.mp search
    obtain ⟨source, _, inside⟩ := List.mem_flatMap.mp sources
    exact unquoteCuts_land source cut inside
  · split at found
    next it located => exact Import.cuts_land (importOfModule?_stands located) cut found
    next =>
      split at found
      next => exact Anchor.cuts_land program _ cut found
      next => exact Anchor.cuts_land program _ cut found

/-- No cut that an operation makes in a text falls inside a character or behind the end. -/
theorem Operation.cuts_land (program : Program) (operation : Operation) :
    ∀ cut ∈ operation.cuts program, cut.Lands := by
  intro cut member
  cases operation with
  | upsertImport module specifiers => exact program.upsertCuts_land module cut member
  | updateFunctionBody name body =>
    simp only [cuts] at member
    split at member
    next => simp at member
    next target found =>
      rcases List.mem_cons.mp member with rfl | member
      · exact Cut.upTo_lands (Program.functionNamed?_stands found).start_boundary
      · exact cutsOf_land target.shell.bodyCuts_land _ cut member
  | replaceElement tag replacement =>
    rcases List.mem_append.mp member with read | found
    · exact cutsOf_land ParsedExpression.cuts_land _ cut read
    · obtain ⟨span, located, rfl⟩ := List.mem_map.mp found
      exact Cut.upTo_lands (Program.elementNamed?_fits (Option.mem_toList.mp located)).start
  | replaceAttributes tag attributes =>
    obtain ⟨slot, located, rfl⟩ := List.mem_map.mp member
    exact (Program.attributesOf?_fits (Option.mem_toList.mp located)).lands
  | insertAfterLastImport text =>
    rcases List.mem_append.mp member with read | found
    · exact cutsOf_land statementCuts_land _ cut read
    · split at found
      next => exact Anchor.cuts_land program _ cut found
      next => exact Anchor.cuts_land program _ cut found
  | insertAtTop text =>
    rcases List.mem_append.mp member with read | found
    · exact cutsOf_land statementCuts_land _ cut read
    · exact Anchor.cuts_land program _ cut found

end Graft
