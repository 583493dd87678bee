import Graft.Proofs.BodyTexts
import Graft.Proofs.OpeningMarks
import Graft.Proofs.SnippetIndents
import Graft.Proofs.WalkOrder

/-! Templates in pieces of code. A template starts with its backquote and the lines that it goes on with stay as they
are, so its text is found unchanged in a piece of code, whatever indentation that is given. -/

namespace Graft

/-! ### Lines around a text -/

namespace Text

/-- Where a text is split at line feeds, the lines that it starts with do not depend on what follows. -/
theorem splitOn_lead (lead : Text) : ∃ front last, front.length = rows lead ∧ ∀ {rest first : Text} {others : List Text},
    splitOn '\n' rest = first :: others → splitOn '\n' (lead ++ rest) = front ++ (last ++ first) :: others := by
  induction lead with
  | nil => exact ⟨[], [], rfl, id⟩
  | cons c lead ih =>
    obtain ⟨front, last, count, ih⟩ := ih
    by_cases feed : c = '\n'
    · refine ⟨[] :: front, last, by simp [rows, feed, count], fun split => ?_⟩
      rw [List.cons_append, splitOn, if_pos feed, ih split, List.cons_append]
    · have same : rows (c :: lead) = rows lead := List.count_cons_of_ne feed
      cases front with
      | nil =>
        refine ⟨[], c :: last, by rw [same, ← count], fun split => ?_⟩
        simp [splitOn, feed, ih split]
      | cons line front =>
        refine ⟨(c :: line) :: front, last, by rw [same, ← count]; rfl, fun split => ?_⟩
        simp [splitOn, feed, ih split]

theorem join_lead (front : List Text) (last first : Text) (others : List Text) :
    join ['\n'] (front ++ (last ++ first) :: others) =
      front.flatMap (· ++ ['\n']) ++ last ++ join ['\n'] (first :: others) := by
  induction front with
  | nil => cases others <;> simp [join]
  | cons line front ih =>
    have some : front ++ (last ++ first) :: others ≠ [] := by simp
    obtain ⟨next, later, same⟩ := List.exists_cons_of_ne_nil some
    rw [same] at ih
    have joined : join ['\n'] (line :: next :: later) = line ++ ['\n'] ++ join ['\n'] (next :: later) := rfl
    rw [List.cons_append, same, joined, ih, List.flatMap_cons]
    simp only [List.append_assoc]

theorem rows_lead {front : List Text} {last : Text} (plain : ∀ line ∈ front, '\n' ∉ line) (ending : '\n' ∉ last) :
    rows (front.flatMap (· ++ ['\n']) ++ last) = front.length := by
  rw [rows_append, rows_of_absent ending, Nat.add_zero]
  induction front with
  | nil => rfl
  | cons line front ih =>
    obtain ⟨here, later⟩ := List.forall_mem_cons.mp plain
    rw [List.flatMap_cons, rows_append, rows_append, rows_of_absent here, ih later, List.length_cons]
    exact Nat.add_comm ..

theorem join_prefix {text outer first : Text} {others kept : List Text} (split : splitOn '\n' (text ++ outer) = first :: others)
    (same : kept.take (rows text) = others.take (rows text)) : ∃ after, join ['\n'] (first :: kept) = text ++ after := by
  induction text generalizing first others kept with
  | nil => exact ⟨_, rfl⟩
  | cons c text ih =>
    rw [List.cons_append, splitOn] at split
    by_cases feed : c = '\n'
    · rw [if_pos feed] at split
      obtain ⟨rfl, rfl⟩ := List.cons_eq_cons.mp split
      have more : rows (c :: text) = rows text + 1 := by simp [rows, feed]
      obtain ⟨later, next⟩ := splitOn_firstLine (text ++ outer)
      rw [more, next, List.take_succ_cons] at same
      cases kept with
      | nil => cases same
      | cons line kept =>
        rw [List.take_succ_cons] at same
        obtain ⟨rfl, tails⟩ := List.cons_eq_cons.mp same
        obtain ⟨after, joined⟩ := ih next tails
        refine ⟨after, ?_⟩
        have behind : join ['\n'] ([] :: firstLine (text ++ outer) :: kept) =
            '\n' :: join ['\n'] (firstLine (text ++ outer) :: kept) := rfl
        rw [behind, joined, feed, List.cons_append]
    · rw [if_neg feed] at split
      have count : rows (c :: text) = rows text := List.count_cons_of_ne feed
      rw [count] at same
      split at split
      next none =>
        obtain ⟨_, next⟩ := splitOn_firstLine (text ++ outer)
        rw [none] at next
        cases next
      next line later next =>
        obtain ⟨rfl, rfl⟩ := List.cons_eq_cons.mp split
        obtain ⟨after, joined⟩ := ih next same
        refine ⟨after, ?_⟩
        rw [List.cons_append, ← joined]
        cases kept <;> rfl

end Text

/-! ### Where templates start -/

set_option maxRecDepth 10000 in
theorem template_opens : Kind.templateString.Opens [] [.backquote] :=
  ⟨rfl, by decide, by decide⟩

theorem Program.node_template {source : Text} {program : Program} (read : Program.parse source = .ok program) :
    ∀ node ∈ program.root.nodes, node.Stands source ∧
      (node.kind = .templateString → ∃ rest, node.text = '\x60' :: rest) := by
  intro node member
  obtain ⟨⟨stands, -⟩, opening⟩ := nodes_open template_opens nofun read node member
  refine ⟨stands, fun same => ?_⟩
  obtain ⟨mark, listed, rest, text⟩ := opening same
  cases List.mem_singleton.mp listed
  exact ⟨rest, text.symm⟩

/-! ### Lines that a template covers -/

theorem SnippetLine.dedent_behind {last first : Text} {verbatim : Bool} {c : Char} (head : first.head? = some c)
    (solid : Graft.isBlank c = false) {width : Nat}
    (narrow : (⟨last ++ first, verbatim⟩ : SnippetLine).counts = true → width ≤ (last ++ first).indentation.length) :
    ∃ kept, ((⟨last ++ first, verbatim⟩ : SnippetLine).dedent width).text = kept ++ first := by
  obtain ⟨rest, rfl⟩ := List.head?_eq_some_iff.mp head
  have dedented := dedent_dedented narrow
  cases flag : verbatim with
  | true =>
    subst flag
    exact ⟨last, rfl⟩
  | false =>
    have counted : (⟨last ++ c :: rest, verbatim⟩ : SnippetLine).counts = true := by
      simp [counts, isBlank, Text.isBlank, flag, solid]
    obtain ⟨lead, whole, indent, -⟩ := dedented.cut counted
    rw [flag] at whole
    rcases List.append_eq_append_iff.mp whole with ⟨middle, longer, back⟩ | ⟨middle, longer, text⟩
    · cases middle with
      | nil => exact ⟨[], back.symm⟩
      | cons d middle =>
        obtain ⟨rfl, -⟩ := List.cons_eq_cons.mp back
        have blank := indent c (by rw [longer]; simp)
        exact absurd (isBlank_of_isIndent blank) (Bool.eq_false_iff.mp solid)
    · exact ⟨middle, text⟩

namespace Snippet

theorem flag_append (verbatim : List Span) (row : Nat) (first second : List Text) :
    flag verbatim row (first ++ second) = flag verbatim row first ++ flag verbatim (row + first.length) second := by
  induction first generalizing row with
  | nil => rfl
  | cons text first ih =>
    rw [List.cons_append, flag, flag, ih, List.cons_append, List.length_cons, Nat.add_right_comm, Nat.add_assoc]

theorem length_flag (verbatim : List Span) (row : Nat) (texts : List Text) :
    (flag verbatim row texts).length = texts.length := by
  rw [← List.length_map SnippetLine.text, flag_text]

theorem covered_succ {verbatim : List Span} {row count : Nat}
    (covered : ∀ more < count + 1, verbatim.any (fun rows => rows.start ≤ row + more && row + more < rows.stop) = true) :
    verbatim.any (fun rows => rows.start ≤ row && row < rows.stop) = true ∧
      ∀ more < count, verbatim.any (fun rows => rows.start ≤ row + 1 + more && row + 1 + more < rows.stop) = true := by
  refine ⟨covered 0 (Nat.succ_pos count), fun more inside => ?_⟩
  rw [Nat.add_assoc, Nat.add_comm 1]
  exact covered (more + 1) (Nat.succ_lt_succ inside)

theorem take_flag {verbatim : List Span} {row count : Nat} {texts : List Text}
    (covered : ∀ more < count, verbatim.any (fun rows => rows.start ≤ row + more && row + more < rows.stop) = true)
    (width : Nat) (indent : Text) :
    (((flag verbatim row texts).map (SnippetLine.dedent width)).map (indentLine indent)).take count = texts.take count := by
  induction texts generalizing row count with
  | nil => rfl
  | cons text texts ih =>
    cases count with
    | zero => rfl
    | succ count =>
      obtain ⟨here, below⟩ := covered_succ covered
      rw [flag, List.map_cons, List.map_cons, List.take_succ_cons, List.take_succ_cons, ih below]
      simp [here, SnippetLine.dedent, indentLine]

theorem indentedLines_split {snippet : Snippet} {front others : List SnippetLine} {line : SnippetLine}
    (lines : snippet.lines = front ++ line :: others) (indent : Text) (first : Bool) :
    ∃ lead put, snippet.indentedLines indent first =
      lead ++ (if put = true then indentLine indent line else line.text) :: others.map (indentLine indent) ∧
        lead.length = front.length := by
  unfold indentedLines
  cases front with
  | nil =>
    rw [lines]
    exact ⟨[], first, rfl, rfl⟩
  | cons top front =>
    rw [lines]
    refine ⟨(if first then indentLine indent top else top.text) :: front.map (indentLine indent), true, ?_, ?_⟩
    · simp
    · simp

theorem newline_not_mem_indentedLines {snippet : Snippet} {indent : Text} (plain : ∀ line ∈ snippet.lines, '\n' ∉ line.text)
    (level : '\n' ∉ indent) (first : Bool) : ∀ text ∈ snippet.indentedLines indent first, '\n' ∉ text := by
  have written : ∀ line ∈ snippet.lines, '\n' ∉ indentLine indent line :=
    fun line member => newline_not_mem_indentLine (plain line member) level
  unfold indentedLines
  split
  next => simp
  next line lines same =>
    rw [same] at plain written
    obtain ⟨here, later⟩ := List.forall_mem_cons.mp written
    refine List.forall_mem_cons.mpr ⟨?_, List.forall_mem_map.mpr later⟩
    cases first with
    | true => exact here
    | false => exact plain line (List.mem_cons_self ..)

theorem indentLine_behind {line : SnippetLine} {kept first : Text} (text : line.text = kept ++ first) (indent : Text)
    (put : Bool) : ∃ lead, (if put = true then indentLine indent line else line.text) = lead ++ first := by
  cases put with
  | false => exact ⟨kept, text⟩
  | true =>
    rw [if_pos rfl, indentLine]
    split
    next => exact ⟨kept, text⟩
    next => exact ⟨indent ++ kept, by rw [text, List.append_assoc]⟩

/-- A text whose lines after the first are verbatim is found unchanged among the lines that are written. -/
theorem indented_covered {verbatim : List Span} {row : Nat} {front others : List Text} {last text outer first : Text} {c : Char}
    (split : Text.splitOn '\n' (text ++ outer) = first :: others) (head : first.head? = some c)
    (solid : Graft.isBlank c = false) (plain : ∀ line ∈ front ++ (last ++ first) :: others, '\n' ∉ line)
    (covered : ∀ more < Text.rows text, verbatim.any (fun rows =>
      rows.start ≤ row + front.length + 1 + more && row + front.length + 1 + more < rows.stop) = true)
    {indent : Text} (level : '\n' ∉ indent) (put : Bool) :
    ∃ before after, (dedent (flag verbatim row (front ++ (last ++ first) :: others))).indented indent put =
      before ++ text ++ after ∧ Text.rows before = front.length := by
  generalize within : flag verbatim row (front ++ (last ++ first) :: others) = lines
  have texts : ∀ line ∈ (dedent lines).lines, '\n' ∉ line.text := by
    intro line member inside
    obtain ⟨raw, listed, rfl⟩ := List.mem_map.mp member
    have piece := List.mem_map_of_mem (f := SnippetLine.text) listed
    rw [← within, flag_text] at piece
    exact plain _ piece (SnippetLine.dedent_subset _ raw inside)
  have written := newline_not_mem_indentedLines texts level put
  have narrow : ∀ line ∈ lines, line.counts = true → commonIndent lines ≤ line.text.indentation.length :=
    fun line member counted => commonIndent_le (mem_counting.mpr ⟨member, counted⟩)
  obtain ⟨flagged, parts⟩ : ∃ flagged, lines = flag verbatim row front ++ ⟨last ++ first, flagged⟩ ::
      flag verbatim (row + front.length + 1) others := ⟨_, by rw [← within, flag_append, flag]⟩
  obtain ⟨kept, behind⟩ := SnippetLine.dedent_behind head solid (narrow ⟨last ++ first, flagged⟩ (by simp [parts]))
  have written_lines : (dedent lines).lines = (flag verbatim row front).map (SnippetLine.dedent (commonIndent lines)) ++
      SnippetLine.dedent (commonIndent lines) ⟨last ++ first, flagged⟩ ::
        (flag verbatim (row + front.length + 1) others).map (SnippetLine.dedent (commonIndent lines)) := by
    rw [dedent, ← List.map_cons, ← List.map_append, ← parts]
  obtain ⟨lead, placed, whole, count⟩ := indentedLines_split written_lines indent put
  obtain ⟨ahead, spelled⟩ := indentLine_behind behind indent placed
  rw [spelled] at whole
  rw [List.length_map, length_flag] at count
  obtain ⟨after, joined⟩ := Text.join_prefix split (take_flag covered (commonIndent lines) indent)
  rw [whole] at written
  refine ⟨lead.flatMap (· ++ ['\n']) ++ ahead, after, ?_, ?_⟩
  · rw [indented, whole, Text.join_lead, joined, ← List.append_assoc]
  · rw [Text.rows_lead (fun line member => written line (List.mem_append_left _ member)), count]
    exact fun inside => written _ (List.mem_append_right _ (List.mem_cons_self ..)) (List.mem_append_left _ inside)

/-- The rows that a template goes on with are verbatim. -/
theorem templateRows_cover {source before after : Text} {root node : Node} (member : node ∈ root.nodes)
    (template : node.kind = .templateString) (whole : source = before ++ (node.text ++ after))
    (start : Text.bytes before = node.start) : ∀ more < Text.rows node.text,
      (templateRows source root).any (fun rows => rows.start ≤ Text.rows before + 1 + more &&
        Text.rows before + 1 + more < rows.stop) = true := by
  intro more inside
  have first : rowAt source node.start = Text.rows before := by rw [whole, ← start, rowAt_append]
  have last : rowAt source node.stop = Text.rows before + Text.rows node.text := by
    rw [whole, Node.stop_eq, ← start, ← Text.bytes_append, ← List.append_assoc, rowAt_append, Text.rows_append]
  have named : node.isNamed = true := by rw [Node.isNamed, template]; rfl
  have found : ⟨Text.rows before + 1, Text.rows before + Text.rows node.text + 1⟩ ∈ templateRows source root := by
    rw [templateRows, Node.findAll_eq]
    refine List.mem_filterMap.mpr ⟨node, List.mem_filter.mpr ⟨member, named⟩, ?_⟩
    rw [if_pos template, first, last]
    exact if_pos (by omega)
  refine List.any_eq_true.mpr ⟨_, found, ?_⟩
  simp only [Bool.and_eq_true, decide_eq_true_eq]
  omega

/-- The text of a template inside of a region is found unchanged, and on its line, where the region is written with
another indentation. -/
theorem indented_template {source head middle back : Text} {root node : Node} (whole : source = head ++ (middle ++ back))
    (member : node ∈ root.nodes) (template : node.kind = .templateString) (stands : node.Stands source)
    (opening : ∃ rest, node.text = '\x60' :: rest) (start : Text.bytes head ≤ node.start)
    (stop : node.stop ≤ Text.bytes head + Text.bytes middle) {indent : Text} (level : '\n' ∉ indent) (first : Bool) :
    ∃ before after, (ofRegion source root ⟨Text.bytes head, Text.bytes head + Text.bytes middle⟩).indented indent first =
        before ++ node.text ++ after ∧
      rowAt source node.start = Text.rows head + Text.rows before := by
  obtain ⟨inner, outer, rfl, place⟩ := stands.between whole start (by rwa [Text.bytes_append])
  have spelled : source = (head ++ inner) ++ (node.text ++ (outer ++ back)) := by simp [whole]
  have row : rowAt source node.start = Text.rows head + Text.rows inner := by
    rw [place, spelled, rowAt_append, Text.rows_append]
  have count : Text.rows (head.lastLine ++ inner) = Text.rows inner := by
    rw [Text.rows_append, Text.rows_lastLine, Nat.zero_add]
  have covered := templateRows_cover member template spelled place.symm
  -- the lines of the region, with the place where the template starts
  obtain ⟨front, last, length, apart⟩ := Text.splitOn_lead (head.lastLine ++ inner)
  obtain ⟨others, split⟩ := Text.splitOn_firstLine (node.text ++ outer)
  have texts : Text.splitOn '\n' (head.lastLine ++ (inner ++ (node.text ++ outer))) =
      front ++ (last ++ (node.text ++ outer).firstLine) :: others := by
    rw [← apart split, List.append_assoc]
  rw [ofRegion_eq root whole, row, texts]
  have plain : ∀ line ∈ front ++ (last ++ (node.text ++ outer).firstLine) :: others, '\n' ∉ line := by
    rw [← texts]
    exact Text.separator_not_mem_splitOn
  obtain ⟨text, opening⟩ := opening
  have lines : front.length = Text.rows inner := length.trans count
  have rows : Text.rows (head ++ inner) = Text.rows head + front.length := by rw [lines, Text.rows_append]
  rw [rows] at covered
  have first_char : (node.text ++ outer).firstLine.head? = some '\x60' := by
    rw [opening]
    rfl
  obtain ⟨written, after, joined, same⟩ := indented_covered split first_char (by decide) plain covered level first
  exact ⟨written, after, joined, by rw [same, lines]⟩

/-! ### Regions -/

/-- Cutting a region out of a source takes the same indentation off all its lines that are neither blank nor verbatim, and
leaves one of them without any. What is written with another indentation is the same piece of code again when that is taken
off, and the templates of a program inside of the region keep their texts and lines. -/
theorem ofRegion_indentation {source head middle back : Text} (whole : source = head ++ (middle ++ back)) (root : Node)
    {raw : List SnippetLine}
    (lines : raw = flag (templateRows source root) (Text.rows head) (Text.splitOn '\n' (head.lastLine ++ middle)))
    {snippet : Snippet} (cut : snippet = ofRegion source root ⟨Text.bytes head, Text.bytes head + Text.bytes middle⟩) :
    (∃ width, List.Forall₂ (SnippetLine.Dedented width) raw snippet.lines) ∧
      ((∃ line ∈ raw, line.counts = true) → ∃ line ∈ snippet.lines, line.counts = true ∧ line.text.indentation = []) ∧
      ∀ indent : Text, (∀ c ∈ indent, isIndent c = true) →
        ((Text.splitOn '\n' (snippet.indented indent true)).length = snippet.lines.length ∧
          dedent (List.zipWith SnippetLine.mk (Text.splitOn '\n' (snippet.indented indent true))
            (snippet.lines.map SnippetLine.verbatim)) = snippet) ∧
        ∀ program, Program.parse source = .ok program → root ∈ program.root.nodes →
          ∀ node ∈ root.nodes, node.kind = .templateString → Text.bytes head ≤ node.start →
            node.stop ≤ Text.bytes head + Text.bytes middle → ∀ first, ∃ before after,
              snippet.indented indent first = before ++ node.text ++ after ∧
                rowAt source node.start = Text.rows head + Text.rows before := by
  have dedented : snippet = dedent raw := by rw [cut, lines, ofRegion_eq root whole]
  have texts : raw.map SnippetLine.text = Text.splitOn '\n' (head.lastLine ++ middle) := by rw [lines, flag_text]
  have plain : ∀ line ∈ raw, '\n' ∉ line.text := by
    intro line member
    have piece := List.mem_map_of_mem (f := SnippetLine.text) member
    rw [texts] at piece
    exact Text.separator_not_mem_splitOn _ piece
  have some : raw ≠ [] := by
    obtain ⟨others, split⟩ := Text.splitOn_firstLine (head.lastLine ++ middle)
    rintro rfl
    rw [split] at texts
    cases texts
  refine ⟨⟨_, dedented ▸ dedent_lines raw⟩, fun counted => dedented ▸ dedent_bare counted, fun indent blank => ⟨?_, ?_⟩⟩
  · obtain ⟨split, back⟩ := dedent_indented blank some plain
    rw [dedented, split]
    refine ⟨List.length_map .., ?_⟩
    have paired : List.zipWith SnippetLine.mk ((dedent raw).lines.map (indentLine indent))
        ((dedent raw).lines.map SnippetLine.verbatim) = (dedent raw).lines.map (SnippetLine.reindent indent) :=
      List.zipWith_map .. |>.trans List.zipWith_self
    rw [paired, back]
  · intro program read within node member template start stop first
    obtain ⟨stands, opening⟩ := Program.node_template read node (Node.mem_nodes_trans within member)
    have level : '\n' ∉ indent := fun inside => absurd (blank _ inside) (by decide)
    rw [cut]
    exact indented_template whole member template stands (opening template) start stop level first

/-- A template that goes on in a second line, behind spaces. -/
def brokenTemplate : Text := "  \x60a\n \x60".toList

def firstTemplate? (program : Program) : Option (Span × Text) :=
  program.root.findFirst? fun node => if node.kind = .templateString then some (node.span, node.text) else none

set_option maxRecDepth 100000 in
theorem firstTemplate?_broken :
    (Program.parse brokenTemplate).toOption.map firstTemplate? = some (some (⟨2, 7⟩, "\x60a\n \x60".toList)) := by
  decide +kernel

theorem ofRegion_indentation_template : ∃ program node, Program.parse brokenTemplate = .ok program ∧
    node ∈ program.root.nodes ∧ node.text = "\x60a\n \x60".toList ∧
    (ofRegion brokenTemplate program.root ⟨0, 7⟩).lines.length = 2 ∧
    ∀ first, ∃ before after,
      (ofRegion brokenTemplate program.root ⟨0, 7⟩).indented ['\t'] first = before ++ node.text ++ after ∧
        Text.rows before = 0 := by
  obtain ⟨program, found, template⟩ := Option.map_eq_some_iff.mp firstTemplate?_broken
  have read := Except.ok_of_toOption found
  rw [firstTemplate?, Node.findFirst?_eq] at template
  obtain ⟨node, listed, this⟩ := List.exists_of_findSome?_eq_some template
  split at this
  next kind =>
    obtain ⟨span, text⟩ := Prod.mk.inj (Option.some.inj this)
    have member := (List.mem_filter.mp listed).1
    have start : node.start = 2 := congrArg Span.start span
    have stop : node.stop = 7 := congrArg Span.stop span
    have whole : brokenTemplate = [] ++ (brokenTemplate ++ []) := (List.append_nil _).symm
    have cut : ofRegion brokenTemplate program.root ⟨0, 7⟩ =
        ofRegion brokenTemplate program.root ⟨Text.bytes [], Text.bytes [] + Text.bytes brokenTemplate⟩ := rfl
    obtain ⟨⟨width, lines⟩, -, written⟩ := ofRegion_indentation whole program.root rfl cut
    have blank : ∀ c ∈ ['\t'], isIndent c = true := List.forall_mem_singleton.mpr rfl
    obtain ⟨-, templates⟩ := written ['\t'] blank
    refine ⟨program, node, read, member, text, ?_, fun first => ?_⟩
    · rw [← lines.length_eq, length_flag]
      rfl
    · obtain ⟨before, after, same, row⟩ := templates program read program.root.mem_nodes node member kind
        (by rw [start]; decide) (by rw [stop]; decide) first
      refine ⟨before, after, same, ?_⟩
      rw [start] at row
      exact (Nat.zero_add _).symm.trans row.symm
  next => cases this

end Snippet
end Graft
