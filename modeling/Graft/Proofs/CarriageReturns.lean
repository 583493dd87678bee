import Graft.Proofs.EditFrame
import Graft.Proofs.ImportViews
import Graft.Proofs.ShellFrame
import Graft.Proofs.StatementSplice
import Mathlib.Data.List.TakeWhile
import Mathlib.Tactic.SplitIfs

/-! Where carriage returns come from. What is printed has none of its own, so the patch to a text without carriage
returns has only those that a request brings. These are not taken out: line feeds are not rewritten, and a patch to
such a text is spliced in as it is. -/

namespace Graft

def Text.IsLf (text : Text) : Prop := '\r' ∉ text

instance (text : Text) : Decidable text.IsLf := inferInstanceAs (Decidable ('\r' ∉ text))

/-! ### Parts of texts -/

namespace Text

@[simp] theorem isLf_nil : IsLf [] := List.not_mem_nil

@[simp] theorem isLf_cons {c : Char} {text : Text} : IsLf (c :: text) ↔ c ≠ '\r' ∧ text.IsLf := by
  simp [IsLf, eq_comm]

@[simp] theorem isLf_append {first second : Text} : IsLf (first ++ second) ↔ first.IsLf ∧ second.IsLf := by
  simp [IsLf]

theorem IsLf.of_subset {text part : Text} (lf : text.IsLf) (inside : part ⊆ text) : part.IsLf :=
  fun member => lf (inside member)

theorem IsLf.take? {text front : Text} {size : Nat} (lf : text.IsLf) (taken : Text.take? size text = some front) :
    front.IsLf := by
  obtain ⟨⟨_, back⟩, cut, rfl⟩ := Option.map_eq_some_iff.mp taken
  rw [(splitAt?_eq_some cut).1, isLf_append] at lf
  exact lf.1

theorem IsLf.drop? {text back : Text} {size : Nat} (lf : text.IsLf) (dropped : Text.drop? size text = some back) :
    back.IsLf := by
  obtain ⟨⟨front, _⟩, cut, rfl⟩ := Option.map_eq_some_iff.mp dropped
  rw [(splitAt?_eq_some cut).1, isLf_append] at lf
  exact lf.2

theorem IsLf.slice {text : Text} (lf : text.IsLf) (start stop : Nat) : ((slice? start stop text).getD []).IsLf := by
  cases cut : slice? start stop text with
  | none => exact isLf_nil
  | some part =>
    unfold slice? at cut
    split at cut
    next =>
      obtain ⟨rest, dropped, taken⟩ := Option.bind_eq_some_iff.mp cut
      exact (lf.drop? dropped).take? taken
    next => cases cut

theorem join_isLf {separator : Text} {pieces : List Text} (between : separator.IsLf)
    (lf : ∀ piece ∈ pieces, piece.IsLf) : (join separator pieces).IsLf := by
  induction pieces with
  | nil => exact isLf_nil
  | cons piece pieces ih =>
    obtain ⟨here, later⟩ := List.forall_mem_cons.mp lf
    cases pieces with
    | nil => exact here
    | cons next pieces =>
      simp only [join, isLf_append]
      exact ⟨⟨here, between⟩, ih later⟩

theorem splitOn_isLf {separator : Char} {text : Text} (lf : text.IsLf) : ∀ piece ∈ splitOn separator text, piece.IsLf := by
  induction text with
  | nil => simp [splitOn]
  | cons c text ih =>
    rw [isLf_cons] at lf
    have pieces := ih lf.2
    rw [splitOn]
    split
    next => exact List.forall_mem_cons.mpr ⟨isLf_nil, pieces⟩
    next =>
      split
      next => simpa using lf.1
      next piece others same =>
        rw [same] at pieces
        obtain ⟨first, later⟩ := List.forall_mem_cons.mp pieces
        exact List.forall_mem_cons.mpr ⟨isLf_cons.mpr ⟨lf.1, first⟩, later⟩

theorem indentation_isLf (text : Text) : text.indentation.IsLf := by
  intro member
  have indents := List.mem_takeWhile_imp member
  cases indents

end Text

theorem LineEnding.detect_of_isLf {text : Text} (lf : text.IsLf) : detect text = LineEnding.lf := by
  induction text with
  | nil => rfl
  | cons c text ih =>
    rw [Text.isLf_cons] at lf
    unfold detect
    split
    next => rfl
    next same => cases same; exact absurd rfl lf.1
    next => rfl
    next same => cases same; exact ih lf.2

theorem LineEnding.normalize_lf (text : Text) : normalize lf text = text := if_pos rfl

theorem Node.Stands.text_isLf {source : Text} {node : Node} (stands : node.Stands source) (lf : source.IsLf) :
    node.text.IsLf := by
  obtain ⟨before, after, whole, _⟩ := stands.place
  rw [whole, Text.isLf_append, Text.isLf_append] at lf
  exact lf.2.1

/-! ### Pieces of code -/

def Snippet.IsLf (snippet : Snippet) : Prop := ∀ line ∈ snippet.lines, line.text.IsLf

theorem lineIndent_isLf (source : Text) (offset : Nat) : (lineIndent source offset).IsLf := by
  unfold lineIndent
  split
  next => exact Text.isLf_nil
  next => exact Text.indentation_isLf _

theorem SnippetLine.dedent_subset (width : Nat) (line : SnippetLine) : (line.dedent width).text ⊆ line.text := by
  unfold dedent
  split
  next => exact List.Subset.refl _
  next =>
    split
    next => exact List.nil_subset _
    next => exact List.drop_subset ..

namespace Snippet

theorem flag_text (verbatim : List Span) (row : Nat) (texts : List Text) :
    (flag verbatim row texts).map SnippetLine.text = texts := by
  induction texts generalizing row with
  | nil => rfl
  | cons text texts ih => rw [flag, List.map_cons, ih]

theorem ofRegion_isLf {source : Text} (lf : source.IsLf) (root : Node) (region : Span) :
    (ofRegion source root region).IsLf := by
  intro line member
  -- a line is left over from a piece of the source that was split at its line feeds
  obtain ⟨whole, inside, rfl⟩ := List.mem_map.mp member
  have piece := List.mem_map_of_mem (f := SnippetLine.text) inside
  rw [flag_text] at piece
  exact (Text.splitOn_isLf (lf.slice _ _) _ piece).of_subset (SnippetLine.dedent_subset _ whole)

theorem ofNodes_isLf {source : Text} (lf : source.IsLf) (root : Node) (nodes : List Node) :
    (ofNodes source root nodes).IsLf := by
  unfold ofNodes
  split
  next => exact ofRegion_isLf lf root _
  next => intro line member; cases member

theorem indented_isLf {snippet : Snippet} {indent : Text} (lf : snippet.IsLf) (blank : indent.IsLf) (first : Bool) :
    (snippet.indented indent first).IsLf := by
  have indentLine_isLf : ∀ line ∈ snippet.lines, (indentLine indent line).IsLf := by
    intro line member
    unfold indentLine
    split
    next => exact lf line member
    next => exact Text.isLf_append.mpr ⟨blank, lf line member⟩
  refine Text.join_isLf (by decide) ?_
  unfold indentedLines
  split
  next => simp
  next line lines same =>
    rw [same] at indentLine_isLf
    obtain ⟨here, later⟩ := List.forall_mem_cons.mp indentLine_isLf
    refine List.forall_mem_cons.mpr ⟨?_, List.forall_mem_map.mpr later⟩
    cases first with
    | true => exact here
    | false => exact lf line (by rw [same]; exact List.mem_cons_self ..)

end Snippet

theorem FunctionShell.bodyOf_isLf {shell : FunctionShell} {read : Except ParseError Program} {snippet : Snippet}
    (lf : ∀ program, read = .ok program → program.source.IsLf) (done : shell.bodyOf read = .ok snippet) : snippet.IsLf := by
  unfold bodyOf at done
  split at done
  next => cases done
  next program =>
    split at done
    next => cases done
    next =>
      cases done
      exact Snippet.ofNodes_isLf (lf program rfl) _ _

theorem ParsedExpression.ofShell_isLf {read : Except ParseError Program} {expression : ParsedExpression}
    (lf : ∀ program, read = .ok program → program.source.IsLf) (done : ofShell read = .ok expression) :
    expression.snippet.IsLf := by
  unfold ofShell at done
  split at done
  next => cases done
  next program =>
    split at done
    next => cases done
    next =>
      cases done
      exact Snippet.ofRegion_isLf (lf program rfl) _ _

theorem Program.parse_isLf {text : Text} (lf : text.IsLf) {program : Program} (read : Program.parse text = .ok program) :
    program.source.IsLf := by
  rw [(Program.parse_ok read).1]
  exact lf

theorem FunctionShell.parseBody_isLf {shell : FunctionShell} {body : Text} {snippet : Snippet} (lf : body.IsLf)
    (read : shell.parseBody body = .ok snippet) : snippet.IsLf := by
  have wrapped : (shell.wrap body).IsLf := by
    cases shell with
    | declaration => exact Text.isLf_append.mpr ⟨Text.isLf_append.mpr ⟨by decide, lf⟩, by decide⟩
    | arrow => exact Text.isLf_append.mpr ⟨Text.isLf_append.mpr ⟨by decide, lf⟩, by decide⟩
  exact bodyOf_isLf (fun _ => Program.parse_isLf wrapped) read

theorem ParsedExpression.parse_isLf {text : Text} {expression : ParsedExpression} (lf : text.IsLf)
    (read : parse text = .ok expression) : expression.snippet.IsLf := by
  have wrapped : (wrap text).IsLf := Text.isLf_append.mpr ⟨Text.isLf_append.mpr ⟨by decide, lf⟩, by decide⟩
  exact ofShell_isLf (fun _ => Program.parse_isLf wrapped) read

theorem parseStatements_isLf {text : Text} {snippet : Snippet} (lf : text.IsLf)
    (read : parseStatements text = .ok snippet) : snippet.IsLf := by
  unfold parseStatements at read
  cases parsed : Program.parse text with
  | error error => rw [parsed] at read; cases read
  | ok program =>
    rw [parsed] at read
    cases read
    exact Snippet.ofNodes_isLf (Program.parse_isLf lf parsed) _ _

/-! ### Printed code -/

theorem Style.block_isLf (style : Style) {body : Snippet} {indent : Text} (lf : body.IsLf) (blank : indent.IsLf) :
    (style.block body indent).IsLf := by
  have unit : style.indentUnit.IsLf := fun member => absurd (List.eq_of_mem_replicate member) (by decide)
  have inside := Snippet.indented_isLf lf (Text.isLf_append.mpr ⟨blank, unit⟩) true
  unfold block
  split
  next => decide
  next =>
    simp only [Text.isLf_append, Text.isLf_cons]
    exact ⟨⟨⟨by decide, inside⟩, by decide, blank⟩, by decide⟩

namespace Quote

theorem char_ne (quote : Quote) : quote.char ≠ '\r' := by
  cases quote <;> decide

theorem alternate_ne (quote : Quote) : quote.alternate ≠ '\r' := by
  cases quote <;> decide

/-- Carriage returns are escaped in literals. -/
theorem literal_isLf (quote : Quote) (text : Text) : (quote.literal text).IsLf := by
  have escaped : ∀ c, (quote.escape c).IsLf := by
    intro c
    by_cases same : c = '\r'
    · subst same
      cases quote <;> decide
    · unfold escape
      split_ifs <;> simp [same]
  have inside : Text.IsLf (text.flatMap quote.escape) := by
    intro member
    obtain ⟨c, _, found⟩ := List.mem_flatMap.mp member
    exact escaped c found
  simp only [literal, Text.isLf_append, Text.isLf_cons]
  exact ⟨⟨quote.char_ne, inside⟩, quote.char_ne, Text.isLf_nil⟩

end Quote

def ListLayout.IsLf : ListLayout → Prop
  | inline => True
  | lines itemIndent closeIndent _ => itemIndent.IsLf ∧ closeIndent.IsLf

theorem namedImports_isLf {names : List Text} {layout : ListLayout} (lf : ∀ name ∈ names, name.IsLf) (laid : layout.IsLf) :
    (namedImports names layout).IsLf := by
  unfold namedImports
  split
  next => decide
  next =>
    split
    next =>
      have joined : (Text.join ", ".toList names).IsLf := Text.join_isLf (by decide) lf
      simp only [Text.isLf_append]
      exact ⟨⟨by decide, joined⟩, by decide⟩
    next itemIndent closeIndent trailingComma =>
      have indented : ∀ name ∈ names.map (itemIndent ++ ·), name.IsLf :=
        List.forall_mem_map.mpr fun name member => Text.isLf_append.mpr ⟨laid.1, lf name member⟩
      have joined : (Text.join ",\n".toList (names.map (itemIndent ++ ·))).IsLf := Text.join_isLf (by decide) indented
      have comma : Text.IsLf (if trailingComma then [','] else []) := by split <;> decide
      simp only [Text.isLf_append, Text.isLf_cons]
      exact ⟨⟨⟨⟨by decide, joined⟩, comma⟩, by decide, laid.2⟩, by decide⟩

theorem Import.layout_isLf (source : Text) (list : Node) (present : List ImportSpecifier) :
    (layout source list present).IsLf := by
  unfold layout
  split
  next =>
    refine ⟨?_, lineIndent_isLf _ _⟩
    split
    next => exact lineIndent_isLf _ _
    next => exact Text.isLf_append.mpr ⟨lineIndent_isLf _ _, by decide⟩
  next => trivial

theorem Quote.importDeclaration_isLf (quote : Quote) (module : Text) {names : List Text} (lf : ∀ name ∈ names, name.IsLf) :
    (quote.importDeclaration module names).IsLf := by
  have listed : (namedImports names .inline).IsLf := namedImports_isLf lf trivial
  have literal := quote.literal_isLf module
  unfold importDeclaration
  split
  next =>
    simp only [Text.isLf_append]
    exact ⟨⟨by decide, literal⟩, by decide⟩
  next =>
    simp only [Text.isLf_append]
    exact ⟨⟨⟨⟨by decide, listed⟩, by decide⟩, literal⟩, by decide⟩

theorem Quote.attributeString_isLf (quote : Quote) {text : Text} (lf : text.IsLf) : (quote.attributeString text).IsLf := by
  unfold attributeString
  split
  next =>
    simp only [Text.isLf_append, Text.isLf_cons]
    exact ⟨⟨quote.char_ne, lf⟩, quote.char_ne, Text.isLf_nil⟩
  next =>
    split
    next =>
      simp only [Text.isLf_append, Text.isLf_cons]
      exact ⟨⟨quote.alternate_ne, lf⟩, quote.alternate_ne, Text.isLf_nil⟩
    next =>
      simp only [Text.isLf_append, Text.isLf_cons]
      exact ⟨⟨by decide, quote.literal_isLf text⟩, by decide, Text.isLf_nil⟩

theorem Quote.tagAttribute_isLf (quote : Quote) {name : Text} {value : Json.Value} (named : name.IsLf)
    (spoken : value.spoken.IsLf) : (quote.tagAttribute name value).IsLf := by
  unfold tagAttribute
  split
  next => exact named
  next => exact Text.isLf_append.mpr ⟨named, by decide⟩
  next value =>
    simp only [Text.isLf_append]
    exact ⟨⟨⟨named, by decide⟩, spoken⟩, by decide⟩
  next =>
    simp only [Text.isLf_append, Text.isLf_cons]
    exact ⟨named, by decide, quote.attributeString_isLf spoken⟩

/-! ### Changes -/

/-- The texts that an operation has for the program. The module of an import is left out: it is written as a literal. -/
def Operation.brought : Operation → List Text
  | upsertImport _ specifiers => specifiers
  | updateFunctionBody _ body => [body]
  | replaceElement _ replacement => [replacement]
  | replaceAttributes _ attributes => attributes.flatMap fun (name, value) => [name, value.spoken]
  | insertAfterLastImport text => [text]
  | insertAtTop text => [text]

def Change.IsLf (change : Change) : Prop := ∀ patch, change.patch = some patch → patch.text.IsLf

theorem Change.miss_isLf : Change.miss.IsLf := by
  intro patch same
  cases same

theorem Change.done_isLf {span : Span} {text : Text} (lf : text.IsLf) : (Change.done ⟨span, text⟩).IsLf := by
  intro patch same
  cases same
  exact lf

theorem Anchor.insertion_isLf (anchor : Anchor) (program : Program) {text : Text} (lf : text.IsLf) :
    (anchor.insertion program text).text.IsLf := by
  obtain ⟨before, after, breaks, same⟩ := anchor.insertion_breaks program text
  have feeds : (before ++ after).IsLf := fun member => absurd (breaks _ member) (by decide)
  obtain ⟨front, back⟩ := Text.isLf_append.mp feeds
  rw [same]
  exact Text.isLf_append.mpr ⟨Text.isLf_append.mpr ⟨front, lf⟩, back⟩

theorem Entry.additions_isLf {requested : List Text} (lf : ∀ name ∈ requested, name.IsLf) (present : List Entry) :
    ∀ name ∈ additions present requested, name.IsLf := by
  intro name member
  rw [additions_eq] at member
  exact lf name (Names.mem_additions.mp member).1

theorem Import.extend_isLf {it : Import} {program : Program} {requested : List Text}
    (stands : it.node.Stands program.source) (source : program.source.IsLf) (lf : ∀ name ∈ requested, name.IsLf)
    (style : Style) : (it.extend style program requested).IsLf := by
  have added := Entry.additions_isLf lf (it.specifiers.map Entry.ofSpecifier)
  intro patch same
  simp only [extend] at same
  split at same
  next list found =>
    split at same
    next => cases same
    next =>
      cases same
      refine namedImports_isLf (List.forall_mem_map.mpr fun entry member => ?_) (layout_isLf _ _ _)
      -- an entry that was there is a stretch of the source, and a new one is written as the name that was asked for
      rcases List.mem_append.mp (mem_sortBy.mp member) with old | new
      · obtain ⟨specifier, inside, rfl⟩ := List.mem_map.mp old
        exact (specifiers_stand stands found inside).1.text_isLf source
      · obtain ⟨name, inside, rfl⟩ := List.mem_map.mp new
        exact added name inside
  next =>
    have listed : (namedImports (Entry.additions (it.specifiers.map Entry.ofSpecifier) requested) .inline).IsLf :=
      namedImports_isLf added trivial
    split at same
    next => cases same
    next =>
      split at same
      next clause child =>
        split at same
        next =>
          cases same
          exact Anchor.insertion_isLf _ _ (style.quote.importDeclaration_isLf _ added)
        next =>
          cases same
          exact Text.isLf_append.mpr ⟨by decide, listed⟩
      next =>
        obtain ⟨module, _, rfl⟩ := Option.map_eq_some_iff.mp same
        exact Text.isLf_append.mpr ⟨listed, by decide⟩

namespace Program
variable {program : Program}

theorem upsertImport_isLf {requested : List Text} (source : program.source.IsLf) (lf : ∀ name ∈ requested, name.IsLf)
    (style : Style) (module : Text) : (program.upsertImport style module requested).IsLf := by
  unfold upsertImport
  split
  next it found => exact Import.extend_isLf (importOfModule?_stands found) source lf style
  next =>
    intro patch same
    cases same
    refine Anchor.insertion_isLf _ _ (style.quote.importDeclaration_isLf _ fun name member => ?_)
    exact lf name (Names.mem_unique.mp (mem_sortBy.mp member))

theorem updateFunctionBody_isLf {style : Style} {name body : Text} {change : Change} (lf : body.IsLf)
    (done : program.updateFunctionBody style name body = .ok change) : change.IsLf := by
  unfold updateFunctionBody at done
  split at done
  next =>
    cases done
    exact Change.miss_isLf
  next target _ =>
    obtain ⟨snippet, read, made⟩ := Except.ok_of_bind done
    cases made
    have piece := FunctionShell.parseBody_isLf lf (Operation.readPiece_eq_ok.mp read)
    exact Change.done_isLf (style.block_isLf piece (lineIndent_isLf _ _))

theorem replaceElement_isLf {tag replacement : Text} {change : Change} (lf : replacement.IsLf)
    (done : program.replaceElement tag replacement = .ok change) : change.IsLf := by
  obtain ⟨expression, read, made⟩ := Except.ok_of_bind done
  have piece := ParsedExpression.parse_isLf lf (Operation.readPiece_eq_ok.mp read)
  split at made
  next =>
    split at made
    next =>
      cases made
      exact Change.miss_isLf
    next =>
      cases made
      exact Change.done_isLf (Snippet.indented_isLf piece (lineIndent_isLf _ _) false)
  next => cases made

theorem attributeText_isLf (style : Style) {attributes : Json.Members}
    (lf : ∀ text ∈ attributes.flatMap (fun (name, value) => [name, value.spoken]), text.IsLf) :
    (attributeText style attributes).IsLf := by
  have each : ∀ text ∈ attributes.map (fun (name, value) => style.quote.tagAttribute name value), text.IsLf := by
    refine List.forall_mem_map.mpr fun (name, value) member => ?_
    have named := lf name (List.mem_flatMap.mpr ⟨_, member, List.mem_cons_self ..⟩)
    have spoken := lf value.spoken (List.mem_flatMap.mpr ⟨_, member, List.mem_cons_of_mem _ (List.mem_singleton_self _)⟩)
    exact style.quote.tagAttribute_isLf named spoken
  unfold attributeText
  split
  next => exact Text.isLf_nil
  next => exact Text.isLf_cons.mpr ⟨by decide, Text.join_isLf (by decide) each⟩

theorem replaceAttributes_isLf {attributes : Json.Members}
    (lf : ∀ text ∈ attributes.flatMap (fun (name, value) => [name, value.spoken]), text.IsLf) (style : Style) (tag : Text) :
    (program.replaceAttributes style tag attributes).IsLf := by
  unfold replaceAttributes
  split
  next => exact Change.miss_isLf
  next =>
    refine Change.done_isLf (Text.isLf_append.mpr ⟨attributeText_isLf style lf, ?_⟩)
    split <;> decide

theorem insertStatements_isLf {anchor : Anchor} {text : Text} {change : Change} (lf : text.IsLf)
    (done : program.insertStatements anchor text = .ok change) : change.IsLf := by
  obtain ⟨snippet, read, rfl⟩ := insertStatements_ok done
  intro patch same
  dsimp only at same
  split at same
  next => cases same
  next =>
    cases same
    exact anchor.insertion_isLf program (Snippet.indented_isLf (parseStatements_isLf lf read) Text.isLf_nil true)

end Program

theorem Operation.run_isLf {operation : Operation} {style : Style} {program : Program} {change : Change}
    (source : program.source.IsLf) (lf : ∀ text ∈ operation.brought, text.IsLf)
    (done : operation.run style program = .ok change) : change.IsLf := by
  cases operation with
  | upsertImport module specifiers =>
    cases done
    exact Program.upsertImport_isLf source lf style module
  | updateFunctionBody name body => exact Program.updateFunctionBody_isLf (lf body (List.mem_singleton_self _)) done
  | replaceElement tag replacement => exact Program.replaceElement_isLf (lf replacement (List.mem_singleton_self _)) done
  | replaceAttributes tag attributes =>
    cases done
    exact Program.replaceAttributes_isLf lf style tag
  | insertAfterLastImport text => exact Program.insertStatements_isLf (lf text (List.mem_singleton_self _)) done
  | insertAtTop text => exact Program.insertStatements_isLf (lf text (List.mem_singleton_self _)) done

/-- In a text without carriage returns a patch is written as it is. -/
theorem Change.code_isLf {change : Change} {program : Program} (lf : program.source.IsLf)
    (fits : ∀ patch, change.patch = some patch → patch.span.Fits program.source) :
    PatchSet.apply ⟨change.patch.toList⟩ program.source = some (change.code program) ∧
      (change.IsLf → (change.code program).IsLf) := by
  have print : Document.print ⟨program, ⟨change.patch.toList⟩⟩ = PatchSet.apply ⟨change.patch.toList⟩ program.source := by
    rw [Document.print, LineEnding.detect_of_isLf lf, PatchSet.apply]
  rw [code, print]
  cases patched : change.patch with
  | none =>
    rw [Option.toList_none, PatchSet.apply, PatchSet.applyWith_empty]
    exact ⟨rfl, fun _ => lf⟩
  | some patch =>
    -- this is the way of one of the two line endings only: the other rewrites the text of the patch
    obtain ⟨front, back, taken, dropped, spliced⟩ := PatchSet.applyWith_single LineEnding.lf (fits patch patched)
    rw [LineEnding.normalize_lf] at spliced
    rw [Option.toList_some, PatchSet.apply, spliced]
    refine ⟨rfl, fun made => ?_⟩
    exact Text.isLf_append.mpr ⟨Text.isLf_append.mpr ⟨lf.take? taken, made patch patched⟩, lf.drop? dropped⟩

/-- An edit of a text without carriage returns splices its patch in as it is, so the carriage returns in what comes out
are those that the request brought. -/
theorem Config.edit_isLf (config : Config) (request : Request) (outcome : Outcome) (lf : request.content.IsLf)
    (done : config.edit request = .ok outcome) :
    ∃ program operation change, Program.parse request.content = .ok program ∧
      Operation.ofRequest request = .ok operation ∧ operation.run config.style program = .ok change ∧
      PatchSet.apply ⟨change.patch.toList⟩ request.content = some outcome.code ∧
      ((∀ text ∈ operation.brought, text.IsLf) → outcome.code.IsLf) := by
  obtain ⟨program, operation, change, _, read, asked, ran, rfl⟩ := edit_ok.mp done
  have source := (Program.parse_ok read).1
  rw [← source] at lf
  obtain ⟨printed, kept⟩ := Change.code_isLf lf fun patch patched => ((Operation.run_keeps ran).1 patch patched).1
  rw [source] at printed
  exact ⟨program, operation, change, read, asked, ran, printed, fun brought => kept (Operation.run_isLf lf brought ran)⟩

def nameRequest : Request where
  action := .upsertImport
  payload := some { imports := some ⟨['m'], [['b']]⟩ }
  content := FunctionShell.arrow.wrap FunctionShell.escapingBody

theorem Config.edit_isLf_name : nameRequest.content.IsLf ∧ ∃ outcome, Config.edit {} nameRequest = .ok outcome ∧
    outcome.code.IsLf := by
  have lf : nameRequest.content.IsLf := by decide
  obtain ⟨program, found, _⟩ := Option.map_eq_some_iff.mp parse_escaping.1
  have read : Program.parse nameRequest.content = .ok program := Except.ok_of_toOption found
  have done : Config.edit {} nameRequest = .ok (.ofChange {} program (program.upsertImport {} ['m'] [['b']])) :=
    edit_ok.mpr ⟨program, .upsertImport ['m'] [['b']], _, by decide, read, rfl, rfl, rfl⟩
  obtain ⟨_, operation, _, _, asked, _, _, kept⟩ := Config.edit_isLf {} nameRequest _ lf done
  cases asked
  exact ⟨lf, _, done, kept (by decide)⟩

end Graft
