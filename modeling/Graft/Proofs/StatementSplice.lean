import Graft.Proofs.InsertionSeams

/-! Inserting statements. The old statements keep their texts and their order: those before the seam stay where they
are, those behind it move by the size of what is inserted. That says nothing of how the new text is read. The new text
starts on a line of its own, but it is followed by whatever stood behind the seam, and a statement that shared the last
line of an import comes to share the last line of the new text, where a comment may swallow it. -/

namespace Graft

/-! ### Texts around an insertion -/

namespace Node.Stands
variable {before after : Text} {node : Node}

theorem of_before (inserted : Text) (stands : node.Stands (before ++ after)) (early : node.stop ≤ Text.bytes before) :
    node.Stands (before ++ inserted ++ after) := by
  obtain ⟨front, back, whole, start⟩ := stands.place
  rw [← List.append_assoc] at whole
  have shorter : Text.bytes (front ++ node.text) ≤ Text.bytes before := by
    rw [Text.bytes_append, start, ← stop_eq]
    exact early
  obtain ⟨middle, rfl, _⟩ := Text.append_inj_of_bytes_le whole.symm shorter
  exact ⟨⟨front, middle ++ inserted ++ after, by simp, start⟩, stands.sound⟩

theorem of_behind (inserted : Text) (stands : node.Stands (before ++ after)) (late : Text.bytes before ≤ node.start) :
    Stands (before ++ inserted ++ after) ⟨node.start + Text.bytes inserted, node.tree⟩ := by
  obtain ⟨front, back, whole, start⟩ := stands.place
  obtain ⟨middle, rfl, rfl⟩ := Text.append_inj_of_bytes_le whole (start ▸ late)
  refine ⟨⟨before ++ inserted ++ middle, back, by simp [text], ?_⟩, stands.sound⟩
  simp only [Text.bytes_append] at start ⊢
  omega

end Node.Stands

/-- Two offsets behind an insertion are on one row just if they were before. -/
theorem rowAt_insert (before inserted middle after : Text) :
    rowAt (before ++ inserted ++ (middle ++ after)) (Text.bytes (before ++ inserted ++ middle)) =
        rowAt (before ++ inserted ++ (middle ++ after)) (Text.bytes (before ++ inserted)) ↔
      rowAt (before ++ (middle ++ after)) (Text.bytes (before ++ middle)) =
        rowAt (before ++ (middle ++ after)) (Text.bytes before) := by
  rw [rowAt_append, rowAt_append, ← List.append_assoc, ← List.append_assoc, rowAt_append, rowAt_append]
  simp only [Text.rows_append]
  omega

/-! ### Statements around an insertion -/

namespace Program

def countToLastImport (program : Program) : Nat :=
  (program.statements.reverse.dropWhile fun statement => (importOf? statement).isNone).length

theorem lastImport?_split {program : Program} {statement : Node} (last : program.lastImport? = some statement) :
    ∃ front back, program.statements = front ++ statement :: back ∧ program.countToLastImport = front.length + 1 := by
  obtain ⟨found, others, front, same, passed⟩ := List.find?_eq_some_iff_append.mp last
  refine ⟨front.reverse, others.reverse, ?_, ?_⟩
  · rw [← List.reverse_inj, same]
    simp
  · rw [countToLastImport, same, List.dropWhile_append_of_pos, List.dropWhile_cons_of_neg]
    · simp
    · simpa [Option.isSome_iff_ne_none] using found
    · intro other member
      simpa using passed other member

theorem countToLastImport_eq_zero {program : Program} (last : program.lastImport? = none) :
    program.countToLastImport = 0 := by
  have passed : ∀ other ∈ program.statements.reverse, (importOf? other).isNone = true := by
    intro other member
    simpa using List.find?_eq_none.mp last other member
  rw [countToLastImport, ← List.append_nil program.statements.reverse, List.dropWhile_append_of_pos passed]
  rfl

theorem lastImport_seam (program : Program) (text : Text) :
    ∃ front back, front.length = program.countToLastImport ∧
      program.Seam front back
        ((match program.lastImport? with
          | some statement => Anchor.after statement
          | none => .top).insertion program text).span.start := by
  cases last : program.lastImport? with
  | some statement =>
    obtain ⟨front, back, split, counted⟩ := lastImport?_split last
    exact ⟨front ++ [statement], back, by simp [counted], Anchor.endOf_seam split⟩
  | none => exact ⟨[], program.statements, (countToLastImport_eq_zero last).symm, Anchor.top_seam program text⟩

end Program

/-- The text that an operation inserts, and how many statements stay before it. -/
def Operation.inserts? (program : Program) : Operation → Option (Text × Nat)
  | insertAtTop text => some (text, 0)
  | insertAfterLastImport text => some (text, program.countToLastImport)
  | _ => none

/-- Where the old statements are after an insertion. -/
structure Spliced (program : Program) (front back : List Node) (before inserted after : Text) : Prop where
  split : program.statements = front ++ back
  source : program.source = before ++ after
  kept : ∀ statement ∈ front, statement.stop ≤ Text.bytes before ∧
    Text.slice? statement.start statement.stop (before ++ inserted ++ after) = some statement.text
  moved : ∀ statement ∈ back, Text.bytes before ≤ statement.start ∧
    Text.slice? (statement.start + Text.bytes inserted) (statement.stop + Text.bytes inserted)
      (before ++ inserted ++ after) = some statement.text
  /-- An old statement shares the row on which the insertion ends just if it was on the row of the seam. -/
  shared : ∀ statement ∈ back,
    rowAt (before ++ inserted ++ after) (statement.start + Text.bytes inserted) =
        rowAt (before ++ inserted ++ after) (Text.bytes (before ++ inserted)) ↔
      rowAt program.source statement.start = rowAt program.source (Text.bytes before)

theorem Program.Seam.spliced {program : Program} {front back : List Node} {before after : Text}
    (seam : program.Seam front back (Text.bytes before)) (source : program.source = before ++ after) (inserted : Text) :
    Spliced program front back before inserted after := by
  have stands : ∀ statement ∈ front ++ back, statement.Stands (before ++ after) := by
    intro statement member
    rw [← source]
    exact program.statement_stands (seam.split ▸ member)
  refine ⟨seam.split, source, ?_, ?_, ?_⟩
  · intro statement member
    have early := seam.before statement member
    exact ⟨early, ((stands statement (List.mem_append_left _ member)).of_before inserted early).slice⟩
  · intro statement member
    have late := seam.behind statement member
    have moved := ((stands statement (List.mem_append_right _ member)).of_behind inserted late).slice
    refine ⟨late, ?_⟩
    rw [Node.stop, Nat.add_right_comm]
    exact moved
  · intro statement member
    obtain ⟨front, back, whole, start⟩ := (stands statement (List.mem_append_right _ member)).place
    obtain ⟨middle, rfl, rfl⟩ := Text.append_inj_of_bytes_le whole (start ▸ seam.behind statement member)
    have rows := rowAt_insert before inserted middle (statement.text ++ back)
    rw [source, ← start]
    have size : Text.bytes (before ++ middle) + Text.bytes inserted = Text.bytes (before ++ inserted ++ middle) := by
      simp only [Text.bytes_append]
      omega
    rw [size]
    exact rows

theorem Program.insertStatements_ok {program : Program} {anchor : Anchor} {text : Text} {change : Change}
    (done : program.insertStatements anchor text = .ok change) :
    ∃ snippet, parseStatements text = .ok snippet ∧
      change = ⟨true, if snippet.isEmpty then none else some (anchor.insertion program snippet.text)⟩ := by
  obtain ⟨snippet, piece, made⟩ := Except.ok_of_bind done
  exact ⟨snippet, Operation.readPiece_eq_ok.mp piece, (Except.ok.inj made).symm⟩

theorem Operation.inserts?_run {operation : Operation} {style : Style} {program : Program} {change : Change} {text : Text}
    {count : Nat} (inserts : operation.inserts? program = some (text, count))
    (ran : operation.run style program = .ok change) :
    ∃ anchor : Anchor, anchor.Stands program ∧ program.insertStatements anchor text = .ok change ∧ ∀ piece, ∃ front back,
      front.length = count ∧ program.Seam front back (anchor.insertion program piece).span.start := by
  cases operation with
  | insertAtTop =>
    cases inserts
    exact ⟨.top, trivial, ran, fun piece => ⟨[], _, rfl, Anchor.top_seam program piece⟩⟩
  | insertAfterLastImport =>
    cases inserts
    exact ⟨_, Anchor.after_or_top_stands program _ fun _ last => Program.lastImport?_stands last, ran,
      program.lastImport_seam⟩
  | _ => cases inserts

/-- A successful insertion keeps the text of every old statement, the first of them before what is inserted and the
others behind it. What is inserted is the piece of code that was read, between line breaks. -/
theorem Config.edit_spliced (config : Config) (request : Request) (outcome : Outcome) {operation : Operation}
    {program : Program} {text : Text} {count : Nat} (done : config.edit request = .ok outcome)
    (asked : Operation.ofRequest request = .ok operation) (read : Program.parse request.content = .ok program)
    (inserts : operation.inserts? program = some (text, count)) :
    ∃ snippet front back before inserted after, parseStatements text = .ok snippet ∧ front.length = count ∧
      outcome.code = before ++ inserted ++ after ∧ Spliced program front back before inserted after ∧
      if snippet.isEmpty then inserted = []
      else ∃ lead tail, (∀ c ∈ lead ++ tail, c = '\n') ∧
        inserted = LineEnding.normalize (LineEnding.detect request.content) (lead ++ snippet.text ++ tail) := by
  obtain ⟨program', operation', change, framed⟩ := edit_framed config request outcome done
  cases Except.ok.inj (read.symm.trans framed.read)
  cases Except.ok.inj (asked.symm.trans framed.asked)
  have source := (Program.parse_ok read).1
  obtain ⟨anchor, stands, ran, seams⟩ := Operation.inserts?_run inserts framed.ran
  obtain ⟨snippet, piece, changed⟩ := Program.insertStatements_ok ran
  obtain ⟨front, back, counted, seam⟩ := seams snippet.text
  cases empty : snippet.isEmpty with
  | true =>
    have patched : change.patch = none := by rw [changed, empty]; rfl
    obtain ⟨before, after, split, start⟩ := (Anchor.insertion_fits stands snippet.text).1.start
    rw [← start] at seam
    refine ⟨snippet, front, back, before, [], after, piece, counted, ?_, seam.spliced split [], by simp [empty]⟩
    rw [framed.untouched patched, ← source, split, List.append_nil]
  | false =>
    have patched : change.patch = some (anchor.insertion program snippet.text) := by rw [changed, empty]; rfl
    obtain ⟨-, -, -, before, after, taken, dropped, code⟩ := framed.replaced _ patched
    obtain ⟨lead, tail, breaks, same⟩ := anchor.insertion_breaks program snippet.text
    obtain ⟨fits, short⟩ := Anchor.insertion_fits stands snippet.text
    obtain ⟨front', back', split, start⟩ := fits.start
    rw [← source, ← start, split, Text.take?_append] at taken
    rw [← source, ← short, ← start, split, Text.drop?_append] at dropped
    cases taken
    cases dropped
    rw [← start] at seam
    refine ⟨snippet, front, back, before, _, after, piece, counted, code, seam.spliced split _, ?_⟩
    rw [empty, if_neg Bool.false_ne_true]
    refine ⟨lead, tail, breaks, ?_⟩
    rw [same]
    rfl

/-- A request for a statement and a comment behind an import, where another statement is on the line of the import. -/
def sharedLine : Request where
  action := .insertAfterLastImport
  payload := some { insertText := some "c//".toList }
  content := "import'a';b".toList

set_option maxRecDepth 100000 in
theorem sharedLine_code : (Config.edit {} sharedLine).toOption.map Outcome.code = some "import'a';\nc//b".toList := by
  decide +kernel

/-- What stands behind the import on its line comes to stand in the comment that is inserted. -/
theorem Config.edit_spliced_shared : ∃ outcome program snippet front back before inserted after,
    Config.edit {} sharedLine = .ok outcome ∧ outcome.code = "import'a';\nc//b".toList ∧
      Program.parse sharedLine.content = .ok program ∧ parseStatements "c//".toList = .ok snippet ∧
      front.length = program.countToLastImport ∧ outcome.code = before ++ inserted ++ after ∧
      Spliced program front back before inserted after := by
  obtain ⟨outcome, made, code⟩ := Option.map_eq_some_iff.mp sharedLine_code
  have done := Except.ok_of_toOption made
  obtain ⟨program, operation, _, _, read, asked, _⟩ := edit_ok.mp done
  cases asked
  obtain ⟨snippet, front, back, before, inserted, after, piece, counted, whole, spliced, _⟩ :=
    edit_spliced {} sharedLine outcome done rfl read rfl
  exact ⟨outcome, program, snippet, front, back, before, inserted, after, done, code, read, piece, counted, whole, spliced⟩

end Graft
