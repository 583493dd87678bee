import Graft.Proofs.EditCuts
import Graft.Proofs.EqualReport

/-! The frame of an edit. A successful edit is made of a text that is not too large and can be read, an operation that
the request asks for, and the change that the operation makes. An operation makes at most one patch, and the span of the
patch is that of what the operation is about. Splicing it in copies everything outside of the span, byte for byte. -/

namespace Graft

theorem Config.edit_ok {config : Config} {request : Request} {outcome : Outcome} :
    config.edit request = .ok outcome ↔
      ∃ program operation change, Text.bytes request.content ≤ config.maxBytes ∧
        Program.parse request.content = .ok program ∧ Operation.ofRequest request = .ok operation ∧
        operation.run config.style program = .ok change ∧ outcome = .ofChange config program change := by
  constructor
  · intro done
    obtain ⟨_, sized, rest⟩ := Except.ok_of_bind done
    have small : Text.bytes request.content ≤ config.maxBytes := by
      unfold checkSize at sized
      split at sized
      next => cases sized
      next small => exact Nat.not_lt.mp small
    split at rest
    next => cases rest
    next program read =>
      obtain ⟨operation, asked, rest⟩ := Except.ok_of_bind rest
      obtain ⟨change, ran, made⟩ := Except.ok_of_bind rest
      cases made
      exact ⟨program, operation, change, small, read, asked, ran, rfl⟩
  · rintro ⟨program, operation, change, small, read, asked, ran, rfl⟩
    have sized : config.checkSize (Text.bytes request.content) = .ok () := if_neg (Nat.not_lt.mpr small)
    simp only [edit, sized, read, asked]
    exact congrArg (fun made => made >>= fun change => pure (Outcome.ofChange config program change)) ran

/-- What an operation may put a text in the place of. Both ways to insert statements leave all of the
program as it is; imports are brought in at some offset or by writing a list of names anew. -/
def Operation.Selects (program : Program) (span : Span) : Operation → Prop
  | upsertImport module _ =>
    (∃ it list, program.importOfModule? module = some it ∧ it.namedList? = some list ∧ span = list.span) ∨
      span.start = span.stop
  | updateFunctionBody name _ => ∃ target, program.functionNamed? name = some target ∧ span = target.body.span
  | replaceElement tag _ => program.elementNamed? tag = some span
  | replaceAttributes tag _ => ∃ slot, program.attributesOf? tag = some slot ∧ span = slot.span
  | insertAfterLastImport _ => span.start = span.stop
  | insertAtTop _ => span.start = span.stop

/-! ### Insertions -/

namespace Anchor

def Stands (program : Program) : Anchor → Prop
  | after statement => statement.Stands program.source
  | top => True

theorem endOf_boundary {program : Program} {statement : Node} (stands : statement.Stands program.source) :
    Text.Boundary program.source (endOf program statement) := by
  unfold endOf
  cases last : (tailComments program statement).getLast? with
  | none => exact stands.stop_boundary
  | some comment =>
    have member := List.takeWhile_subset _ (List.mem_of_mem_getLast? last)
    exact (program.topLevel_stands (List.mem_filter.mp member).1).stop_boundary

theorem insertion_fits {program : Program} {anchor : Anchor} (stands : anchor.Stands program) (text : Text) :
    (anchor.insertion program text).span.Fits program.source ∧
      (anchor.insertion program text).span.start = (anchor.insertion program text).span.stop := by
  cases anchor with
  | after statement => exact ⟨Patch.insertion_fits (endOf_boundary stands) _, rfl⟩
  | top =>
    simp only [insertion]
    split
    next node found =>
      have first := program.topLevel_stands (List.mem_of_find?_eq_some found)
      exact ⟨Patch.insertion_fits first.start_boundary.lineStart.1 _, rfl⟩
    next =>
      split
      next line found =>
        have first := program.topLevel_stands (List.mem_of_find?_eq_some found)
        exact ⟨Patch.insertion_fits first.stop_boundary _, rfl⟩
      next => exact ⟨Patch.insertion_fits (Text.boundary_zero _) _, rfl⟩

theorem after_or_top_stands (program : Program) (found : Option Node) :
    (∀ statement, found = some statement → statement.Stands program.source) →
      Anchor.Stands program (match found with | some statement => .after statement | none => .top) := by
  intro stand
  cases found with
  | none => trivial
  | some statement => exact stand statement rfl

end Anchor

theorem Program.leadingImports_stand {program : Program} {statement : Node}
    (last : program.leadingImports.getLast? = some statement) : statement.Stands program.source :=
  program.statement_stands (List.takeWhile_subset _ (List.mem_of_mem_getLast? last))

theorem Program.lastImport?_stands {program : Program} {statement : Node}
    (last : program.lastImport? = some statement) : statement.Stands program.source :=
  program.statement_stands (List.mem_reverse.mp (List.mem_of_find?_eq_some last))

/-! ### Patches -/

/-- The patch of a change, if there is one, fits and has a span of the given kind. -/
def Change.Keeps (change : Change) (source : Text) (selected : Span → Prop) : Prop :=
  ∀ patch, change.patch = some patch → patch.span.Fits source ∧ selected patch.span

theorem Change.done_keeps {source : Text} {selected : Span → Prop} {patch : Patch}
    (fits : patch.span.Fits source) (chosen : selected patch.span) : (Change.done patch).Keeps source selected := by
  intro other same
  cases same
  exact ⟨fits, chosen⟩

theorem Change.miss_keeps (source : Text) (selected : Span → Prop) : Change.miss.Keeps source selected := by
  intro patch same
  cases same

theorem Import.extend_keeps {program : Program} {it : Import} (stands : it.node.Stands program.source)
    (style : Style) (requested : List Text) :
    (it.extend style program requested).Keeps program.source fun span =>
      (∃ list, it.namedList? = some list ∧ span = list.span) ∨ span.start = span.stop := by
  intro patch same
  simp only [extend] at same
  split at same
  next list found =>
    split at same
    next => cases same
    next =>
      cases same
      exact ⟨(namedList?_stands stands found).1.span_fits, .inl ⟨list, found, rfl⟩⟩
  next =>
    split at same
    next => cases same
    next =>
      split at same
      next clause child =>
        split at same
        next =>
          cases same
          have anchored : (Anchor.after it.node).Stands program := stands
          obtain ⟨fits, empty⟩ := Anchor.insertion_fits anchored _
          exact ⟨fits, .inr empty⟩
        next =>
          cases same
          exact ⟨Patch.insertion_fits (stands.childOfKind? child).stop_boundary _, .inr rfl⟩
      next =>
        obtain ⟨source, child, rfl⟩ := Option.map_eq_some_iff.mp same
        exact ⟨Patch.insertion_fits (stands.child? child).start_boundary _, .inr rfl⟩

theorem Program.upsertImport_keeps (program : Program) (style : Style) (module : Text) (requested : List Text) :
    (program.upsertImport style module requested).Keeps program.source fun span =>
      (Operation.upsertImport module requested).Selects program span := by
  intro patch same
  unfold upsertImport at same
  split at same
  next it found =>
    obtain ⟨fits, chosen⟩ := Import.extend_keeps (importOfModule?_stands found) style requested patch same
    refine ⟨fits, ?_⟩
    rcases chosen with ⟨list, listed, span⟩ | empty
    · exact .inl ⟨it, list, found, listed, span⟩
    · exact .inr empty
  next =>
    cases same
    have stands := Anchor.after_or_top_stands program _ fun _ last => leadingImports_stand last
    obtain ⟨fits, empty⟩ := Anchor.insertion_fits stands
      (style.quote.importDeclaration module (Names.sort (Names.unique requested)))
    exact ⟨fits, .inr empty⟩

theorem Program.updateFunctionBody_keeps {program : Program} {style : Style} {name body : Text} {change : Change}
    (done : program.updateFunctionBody style name body = .ok change) :
    (change.Keeps program.source fun span => (Operation.updateFunctionBody name body).Selects program span) ∧
      (change.applied = false → change.patch = none) := by
  unfold updateFunctionBody at done
  split at done
  next =>
    cases done
    exact ⟨Change.miss_keeps _ _, fun _ => rfl⟩
  next target found =>
    obtain ⟨snippet, _, made⟩ := Except.ok_of_bind done
    cases made
    exact ⟨Change.done_keeps (functionNamed?_stands found).span_fits ⟨target, found, rfl⟩, fun missed => by cases missed⟩

theorem Program.replaceElement_keeps {program : Program} {tag replacement : Text} {change : Change}
    (done : program.replaceElement tag replacement = .ok change) :
    (change.Keeps program.source fun span => (Operation.replaceElement tag replacement).Selects program span) ∧
      (change.applied = false → change.patch = none) := by
  obtain ⟨expression, _, made⟩ := Except.ok_of_bind done
  split at made
  next =>
    split at made
    next =>
      cases made
      exact ⟨Change.miss_keeps _ _, fun _ => rfl⟩
    next span found =>
      cases made
      exact ⟨Change.done_keeps (elementNamed?_fits found) found, fun missed => by cases missed⟩
  next => cases made

theorem Program.replaceAttributes_keeps (program : Program) (style : Style) (tag : Text) (attributes : Json.Members) :
    ((program.replaceAttributes style tag attributes).Keeps program.source fun span =>
        (Operation.replaceAttributes tag attributes).Selects program span) ∧
      ((program.replaceAttributes style tag attributes).applied = false →
        (program.replaceAttributes style tag attributes).patch = none) := by
  unfold replaceAttributes
  split
  next => exact ⟨Change.miss_keeps _ _, fun _ => rfl⟩
  next slot found =>
    exact ⟨Change.done_keeps (attributesOf?_fits found) ⟨slot, found, rfl⟩, fun missed => by cases missed⟩

theorem Program.insertStatements_keeps {program : Program} {anchor : Anchor} {text : Text} {change : Change}
    (stands : anchor.Stands program) (done : program.insertStatements anchor text = .ok change) :
    (change.Keeps program.source fun span => span.start = span.stop) ∧ change.applied = true := by
  obtain ⟨snippet, _, made⟩ := Except.ok_of_bind done
  cases made
  refine ⟨?_, rfl⟩
  intro patch same
  dsimp only at same
  split at same
  next => cases same
  next =>
    cases same
    exact Anchor.insertion_fits stands _

/-- The patch of an operation replaces what the operation is about. Only bringing in imports can have a
patch without being applied. -/
theorem Operation.run_keeps {operation : Operation} {style : Style} {program : Program} {change : Change}
    (done : operation.run style program = .ok change) :
    (change.Keeps program.source fun span => operation.Selects program span) ∧
      ((∀ module specifiers, operation ≠ .upsertImport module specifiers) → change.applied = false →
        change.patch = none) := by
  cases operation with
  | upsertImport module specifiers =>
    cases done
    exact ⟨program.upsertImport_keeps style module specifiers, fun other => absurd rfl (other module specifiers)⟩
  | updateFunctionBody name body =>
    obtain ⟨keeps, misses⟩ := Program.updateFunctionBody_keeps done
    exact ⟨keeps, fun _ => misses⟩
  | replaceElement tag replacement =>
    obtain ⟨keeps, misses⟩ := Program.replaceElement_keeps done
    exact ⟨keeps, fun _ => misses⟩
  | replaceAttributes tag attributes =>
    cases done
    obtain ⟨keeps, misses⟩ := program.replaceAttributes_keeps style tag attributes
    exact ⟨keeps, fun _ => misses⟩
  | insertAfterLastImport text =>
    have stands := Anchor.after_or_top_stands program _ fun _ last => Program.lastImport?_stands last
    obtain ⟨keeps, applied⟩ := Program.insertStatements_keeps stands done
    exact ⟨keeps, fun _ missed => by rw [applied] at missed; cases missed⟩
  | insertAtTop text =>
    have stands : Anchor.Stands program .top := trivial
    obtain ⟨keeps, applied⟩ := Program.insertStatements_keeps stands done
    exact ⟨keeps, fun _ missed => by rw [applied] at missed; cases missed⟩

/-! ### Outcomes -/

theorem Change.print_none (program : Program) : Document.print ⟨program, ⟨[]⟩⟩ = some program.source :=
  PatchSet.applyWith_empty _ _

theorem Operation.ofRequest_other {request : Request} {operation : Operation}
    (asked : Operation.ofRequest request = .ok operation) (other : request.action ≠ .upsertImport)
    (module : Text) (specifiers : List Text) : operation ≠ .upsertImport module specifiers := by
  intro same
  subst same
  unfold ofRequest at asked
  dsimp only at asked
  split at asked
  next action => exact other action
  all_goals
    obtain ⟨_, _, asked⟩ := Except.ok_of_bind asked
    first
    | cases asked
    | (obtain ⟨_, _, asked⟩ := Except.ok_of_bind asked; cases asked)

/-- What a successful edit does to its text, and what it leaves alone. -/
structure Framed (config : Config) (request : Request) (outcome : Outcome) (program : Program)
    (operation : Operation) (change : Change) : Prop where
  read : Program.parse request.content = .ok program
  asked : Operation.ofRequest request = .ok operation
  ran : operation.run config.style program = .ok change
  applied : outcome.applied = change.applied
  /-- Every slice that is taken on the way exists. -/
  cuts : ∀ cut ∈ operation.cuts program, cut.Lands
  /-- The patch, of which there is at most one, is spliced in and not dropped. -/
  printed : Document.print ⟨program, ⟨change.patch.toList⟩⟩ = some outcome.code
  untouched : change.patch = none → outcome.code = request.content
  replaced : ∀ patch, change.patch = some patch →
    operation.Selects program patch.span ∧ patch.span.start ≤ patch.span.stop ∧
      patch.span.stop ≤ Text.bytes request.content ∧
      ∃ front back, Text.take? patch.span.start request.content = some front ∧
        Text.drop? patch.span.stop request.content = some back ∧
        outcome.code = front ++ LineEnding.normalize (LineEnding.detect request.content) patch.text ++ back
  missed : request.action ≠ .upsertImport → outcome.applied = false →
    outcome.code = request.content ∧ outcome.edits = []

/-- Every successful edit puts one text in the place of one span of what the operation is about, and copies
all that stands outside of the span. -/
theorem Config.edit_framed (config : Config) (request : Request) (outcome : Outcome)
    (done : config.edit request = .ok outcome) :
    ∃ program operation change, Framed config request outcome program operation change := by
  obtain ⟨program, operation, change, _, read, asked, ran, rfl⟩ := edit_ok.mp done
  obtain ⟨keeps, misses⟩ := Operation.run_keeps ran
  have source := (Program.parse_ok read).1
  -- without a patch the text is printed as it is
  have untouched : change.patch = none → change.code program = request.content := by
    intro empty
    simp only [Change.code, empty, Option.toList_none, Change.print_none, Option.getD_some]
    exact source
  refine ⟨program, operation, change, read, asked, ran, rfl, operation.cuts_land program, ?_, untouched, ?_, ?_⟩
  · cases patched : change.patch with
    | none => simp [Outcome.ofChange, Change.code, patched, Change.print_none]
    | some patch =>
      obtain ⟨front, back, _, _, printed⟩ :=
        PatchSet.applyWith_single (LineEnding.detect program.source) (keeps patch patched).1
      have spliced : Document.print ⟨program, ⟨[patch]⟩⟩ = _ := printed
      simp [Outcome.ofChange, Change.code, patched, spliced]
  · intro patch patched
    obtain ⟨fits, selected⟩ := keeps patch patched
    obtain ⟨front, back, taken, dropped, printed⟩ :=
      PatchSet.applyWith_single (LineEnding.detect program.source) fits
    have spliced : Document.print ⟨program, ⟨[patch]⟩⟩ = _ := printed
    rw [source] at fits taken dropped
    refine ⟨selected, fits.ordered, fits.stop.le, front, back, taken, dropped, ?_⟩
    simp [Outcome.ofChange, Change.code, patched, spliced, source]
  · intro other missed
    have same := untouched (misses (Operation.ofRequest_other asked other) missed)
    refine ⟨same, ?_⟩
    simp only [Outcome.ofChange, same, source]
    exact Diff.report_self _ _

/-- A request for a new function body, in a text with a wide character and line breaks of two characters. -/
def bodyRequest : Request where
  action := .updateFunctionBody
  selector := some { functionName := some ['f'] }
  payload := some { functionBody := some "g();\nh();".toList }
  content := "// é\r\nfunction f() \x7b\x7d".toList

set_option maxRecDepth 100000 in
theorem bodyRequest_code : (Config.edit {} bodyRequest).toOption.map Outcome.code =
    some "// é\r\nfunction f() \x7b\r\n  g();\r\n  h();\r\n\x7d".toList := by
  decide +kernel

theorem Config.edit_framed_body : ∃ outcome, Config.edit {} bodyRequest = .ok outcome ∧
    outcome.code = "// é\r\nfunction f() \x7b\r\n  g();\r\n  h();\r\n\x7d".toList ∧
    ∃ program operation change, Framed {} bodyRequest outcome program operation change := by
  obtain ⟨outcome, found, code⟩ := Option.map_eq_some_iff.mp bodyRequest_code
  have done := Except.ok_of_toOption found
  exact ⟨outcome, done, code, Config.edit_framed {} bodyRequest outcome done⟩

end Graft
