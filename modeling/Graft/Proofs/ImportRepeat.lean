import Graft.Proofs.ImportWrites
import Graft.Proofs.RequestedNames

/-! Bringing in names that have been brought in. The second time there is nothing to do, unless the first time the
names went to a declaration that is not looked at, or to one of a module that is not found again. -/

namespace Graft

namespace ImportView

theorem find?_insert {module : Text} {front back : List ImportView}
    (none : (front ++ back).find? (fun view => view.source = some module) = none) (view : ImportView) :
    (front ++ view :: back).find? (fun view => view.source = some module) =
      if view.source = some module then some view else .none := by
  rw [List.find?_append, Option.or_eq_none_iff] at none
  rw [List.find?_append, none.1, Option.none_or, List.find?_cons, none.2]
  by_cases same : view.source = some module
  · rw [decide_eq_true same, if_pos same]
  · rw [decide_eq_false same, if_neg same]

end ImportView

namespace Program

/-- What is taken for granted of the parser: the imports that a patch writes into a program are read from the new
text. -/
def ReadsBack (program : Program) (change : Change) (views : List ImportView) : Prop :=
  program.Writes change.patch views →
    ∀ again, Program.parse (change.code program) = .ok again → again.imports = views

/-- Whether names that have been brought in are found again. They are not if the import of the module leaves no room
for a list, nor if there was none and the name of the module is not read as it was written. -/
def FindsAgain (program : Program) (quote : Quote) (module : Text) (requested : List Text) : Prop :=
  match program.viewOf? module with
  | some view => view.splits requested = false
  | none => quote.Plain module

theorem upsertImport_applied {program : Program} (style : Style) {module : Text} {requested : List Text}
    (lacking : ∀ view, program.viewOf? module = some view → view.lacks requested ≠ []) :
    (program.upsertImport style module requested).applied = true := by
  rw [viewOf?_eq] at lacking
  unfold upsertImport
  cases found : program.importOfModule? module with
  | none => rfl
  | some it =>
    rw [found] at lacking
    have missing := lacking it.view rfl
    simpa [Import.extend, Import.additions_view] using missing

variable {program again : Program} {quote : Quote} {module : Text} {requested : List Text}

/-- A new import is the first of its module if the module is read as it was written. -/
theorem viewOf?_created (after : again.imports = program.importsAfter quote module requested)
    (none : program.viewOf? module = none) :
    again.viewOf? module =
      if quote.Plain module then some (.created quote module (Names.sort (Names.unique requested))) else .none := by
  rw [importsAfter, ImportView.extendFirst_eq_none none, Option.getD_none] at after
  rw [viewOf?, imports, (program.leadingImports_seam []).split, importsAmong_append] at none
  rw [viewOf?, after, ImportView.find?_insert none]
  have named : (ImportView.created quote module (Names.sort (Names.unique requested))).source = some module ↔ quote.Plain module := by
    rw [← Quote.unquote_literal_eq_self]
    exact Option.some_inj
  simp only [named]

/-- The first import of a module is settled once names have been brought in, if they are found again. -/
theorem viewOf?_settled (after : again.imports = program.importsAfter quote module requested)
    (finds : program.FindsAgain quote module requested) :
    ∃ view, again.viewOf? module = some view ∧ view.Settled requested := by
  unfold FindsAgain at finds
  split at finds
  next view found =>
    obtain ⟨others, first, grown, kept, settled, _⟩ := ImportView.find?_extendFirst quote requested found
    rw [importsAfter, grown, Option.getD_some] at after
    exact ⟨first, by rw [viewOf?, after, kept], settled finds⟩
  next none =>
    refine ⟨_, (viewOf?_created after none).trans (if_pos finds), ?_⟩
    apply ImportView.created_settled (Names.sort_sort _)
    intro name
    rw [Names.mem_sort, Names.mem_unique]

theorem viewOf?_lacks (after : again.imports = program.importsAfter quote module requested)
    (loses : ¬program.FindsAgain quote module requested) :
    ∀ view, again.viewOf? module = some view → view.lacks requested ≠ [] := by
  intro other here
  unfold FindsAgain at loses
  split at loses
  next view found =>
    obtain ⟨others, first, grown, kept, _, lacking⟩ := ImportView.find?_extendFirst quote requested found
    rw [importsAfter, grown, Option.getD_some] at after
    rw [viewOf?, after, kept] at here
    cases here
    exact lacking (Bool.not_eq_false _ ▸ loses)
  next none =>
    rw [viewOf?_created after none, if_neg loses] at here
    cases here

/-- The name of a module is read with its escapes: where a declaration for the module has been written, the name that
is read is the one that was written just if no character of it had to be escaped. Only then is the module found again,
if it was not imported before. -/
theorem importOfModule?_literal {front back : List Node} {statement node : Node} {it : Import}
    (split : program.statements = front ++ statement :: back) (found : importOf? statement = some it)
    (named : it.sourceNode? = some node) (printed : node.text = quote.literal module) :
    (∀ names, ∃ head, quote.importDeclaration module names = head ++ node.text ++ [';']) ∧
      it.source? = some (module.flatMap quote.escape) ∧
      (it.source? = some module ↔
        ∀ c ∈ module, c ≠ '\\' ∧ c ≠ '\n' ∧ c ≠ '\r' ∧ c ≠ '\t' ∧ c ≠ quote.char) ∧
      ((∀ view ∈ importsAmong front, view.source ≠ some module) →
        (program.importOfModule? module = some it ↔ it.source? = some module)) := by
  have source : it.source? = some (module.flatMap quote.escape) := by
    rw [Import.source?, named, Option.map_some, printed, Quote.unquote_literal]
  refine ⟨fun names => printed ▸ quote.importDeclaration_literal module names, source, ?_, fun fresh => ⟨?_, ?_⟩⟩
  · rw [source, Option.some_inj, ← Quote.unquote_literal, Quote.unquote_literal_eq_self]
    exact forall₂_congr fun c _ => Quote.escape_eq_self
  · intro first
    obtain ⟨_, _, _, _, _, same, _⟩ := importOfModule?_split first
    exact same
  · intro same
    have passed : ∀ other ∈ front,
        ((importOf? other).bind fun it => if it.source? = some module then some it else none) = none := by
      intro other member
      cases earlier : importOf? other with
      | none => rfl
      | some first =>
        exact if_neg (fresh first.view (List.mem_filterMap.mpr ⟨other, member, by rw [earlier]; rfl⟩))
    rw [importOfModule?, split, List.findSome?_append, List.findSome?_eq_none_iff.mpr passed, Option.none_or,
      List.findSome?_cons, found, Option.bind_some, if_pos same]

def quotedImport : Text := Quote.single.importDeclaration "it's".toList [['a']]

/-- An import of a default, and what it becomes with a list of one name. -/
def defaultImport : Text := "import a from'm'".toList

def listedImport : Text := "import a, \x7b b \x7d from'm'".toList

/-- An import that binds its module as a whole, and what it becomes with a declaration for one name. -/
def wholeImport : Text := "import*as a from'm'".toList

def dividedImport : Text := "import*as a from'm'\nimport \x7b b \x7d from 'm';".toList

def importLiterals (program : Program) : List (Option Text) :=
  program.statements.map fun statement => ((importOf? statement).bind Import.sourceNode?).map Node.text

def withImport (program : Program) : List ImportView × Text :=
  (program.imports, (program.upsertImport {} ['m'] [['b']]).code program)

/-- What imports are read as, and what becomes of them. -/
structure ImportReadings : Prop where
  quoted : (parse quotedImport).toOption.map importLiterals = some [some (Quote.single.literal "it's".toList)]
  default : (parse defaultImport).toOption.map withImport = some ([⟨some ['m'], none, false⟩], listedImport)
  listed : (parse listedImport).toOption.map imports = some [⟨some ['m'], some [['b']], false⟩]
  whole : (parse wholeImport).toOption.map withImport = some ([⟨some ['m'], none, true⟩], dividedImport)
  divided : (parse dividedImport).toOption.map imports =
    some [⟨some ['m'], none, true⟩, ⟨some ['m'], some [['b']], false⟩]

set_option synthInstance.maxSize 1000 in
instance : Decidable ImportReadings :=
  decidable_of_iff (_ ∧ _ ∧ _ ∧ _ ∧ _)
    ⟨fun ⟨quoted, default, listed, whole, divided⟩ => ⟨quoted, default, listed, whole, divided⟩,
      fun all => ⟨all.quoted, all.default, all.listed, all.whole, all.divided⟩⟩

set_option maxRecDepth 100000 in
theorem import_readings : ImportReadings := by
  decide +kernel

/-- A module with a quote in its name is not found. -/
theorem importOfModule?_literal_escaped : ∃ program it node, Program.parse quotedImport = .ok program ∧
    quotedImport = "import \x7b a \x7d from 'it\\'s';".toList ∧ it ∈ program.statements.filterMap importOf? ∧
    it.sourceNode? = some node ∧ node.text = Quote.single.literal "it's".toList ∧
    it.source? = some "it\\'s".toList ∧ program.importOfModule? "it's".toList ≠ some it := by
  obtain ⟨program, found, literals⟩ := Option.map_eq_some_iff.mp import_readings.quoted
  obtain ⟨statement, alone, literal⟩ := List.map_eq_singleton_iff.mp literals
  obtain ⟨node, bound, printed⟩ := Option.map_eq_some_iff.mp literal
  obtain ⟨it, imported, named⟩ := Option.bind_eq_some_iff.mp bound
  have split : program.statements = [] ++ statement :: [] := alone
  obtain ⟨-, source, reads, finds⟩ := importOfModule?_literal split imported named printed
  refine ⟨program, it, node, Except.ok_of_toOption found, rfl, ?_, named, printed, source, fun first => ?_⟩
  · rw [alone, List.filterMap_cons_some imported]
    exact List.mem_cons_self ..
  · have same := reads.mp ((finds (by simp [importsAmong])).mp first)
    exact absurd rfl (same '\'' (by decide)).2.2.2.2

end Program

theorem Outcome.ofChange_miss (config : Config) (program : Program) :
    (Outcome.ofChange config program .miss).code = program.source ∧ (Outcome.ofChange config program .miss).edits = [] := by
  have same : Change.code .miss program = program.source := by
    simp only [Change.code, Change.miss, Option.toList_none, Change.print_none, Option.getD_some]
  refine ⟨same, ?_⟩
  simp only [Outcome.ofChange, same]
  exact Diff.report_self _ _

def importRequest (content : Text) : Request := Request.bringing { action := .upsertImport, content } ['m'] [['b']]

theorem importRequest_readsBack {content code : Text} {before after : List ImportView}
    (small : Text.bytes content ≤ ({} : Config).maxBytes)
    (reads : (Program.parse content).toOption.map Program.withImport = some (before, code))
    (rereads : (Program.parse code).toOption.map Program.imports = some after)
    (grown : ImportView.extendFirst .single ['m'] [['b']] before = some after) :
    ∃ outcome program again, Config.edit {} (importRequest content) = .ok outcome ∧ outcome.code = code ∧
      Program.parse content = .ok program ∧ program.imports = before ∧ Program.parse code = .ok again ∧
      program.ReadsBack (program.upsertImport {} ['m'] [['b']]) (program.importsAfter .single ['m'] [['b']]) := by
  obtain ⟨program, found, results⟩ := Option.map_eq_some_iff.mp reads
  obtain ⟨imports, written⟩ := Prod.mk.inj results
  obtain ⟨again, refound, views⟩ := Option.map_eq_some_iff.mp rereads
  have read := Except.ok_of_toOption found
  have done : Config.edit {} (importRequest content) =
      .ok (.ofChange {} program (program.upsertImport {} ['m'] [['b']])) :=
    Config.edit_ok.mpr ⟨program, .upsertImport ['m'] [['b']], _, small, read, rfl, rfl, rfl⟩
  refine ⟨_, program, again, done, written, read, imports, Except.ok_of_toOption refound, fun _ other reread => ?_⟩
  rw [written, Except.ok_of_toOption refound] at reread
  cases reread
  rw [views, Program.importsAfter, imports, grown, Option.getD_some]

/-- The second time there is nothing to do just if the new text is not too large, can be read, and the names are found
again in it. -/
theorem Config.upsertImport_twice_iff (config : Config) (request : Request) {module : Text} {requested : List Text}
    {outcome : Outcome} {program : Program}
    (asked : Operation.ofRequest request = .ok (.upsertImport module requested))
    (done : config.edit request = .ok outcome) (read : Program.parse request.content = .ok program)
    (faithful : program.ReadsBack (program.upsertImport config.style module requested)
      (program.importsAfter config.style.quote module requested)) :
    (∃ second, config.edit { request with content := outcome.code } = .ok second ∧
        second.applied = false ∧ second.edits = [] ∧ second.code = outcome.code) ↔
      Text.bytes outcome.code ≤ config.maxBytes ∧ (∃ again, Program.parse outcome.code = .ok again) ∧
        program.FindsAgain config.style.quote module requested := by
  have code : outcome.code = (program.upsertImport config.style module requested).code program := by
    obtain ⟨other, operation, change, _, reread, same, ran, rfl⟩ := edit_ok.mp done
    cases Except.ok.inj (read.symm.trans reread)
    cases Except.ok.inj (asked.symm.trans same)
    cases ran
    rfl
  have after : ∀ again, Program.parse outcome.code = .ok again →
      again.imports = program.importsAfter config.style.quote module requested := by
    rw [code]
    exact faithful (program.upsertImport_writes config.style module requested)
  constructor
  · rintro ⟨second, repeated, missed, _⟩
    obtain ⟨again, operation, change, small, reread, same, ran, made⟩ := edit_ok.mp repeated
    refine ⟨small, ⟨again, reread⟩, ?_⟩
    cases Except.ok.inj (asked.symm.trans same)
    cases ran
    -- had they been lost, there would be something to bring in
    apply Classical.byContradiction
    intro loses
    have applied := Program.upsertImport_applied config.style (Program.viewOf?_lacks (after again reread) loses)
    rw [made] at missed
    exact Bool.false_ne_true (missed.symm.trans applied)
  · rintro ⟨small, ⟨again, reread⟩, finds⟩
    have miss : again.upsertImport config.style module requested = .miss :=
      Program.upsertImport_eq_miss.mpr (Program.viewOf?_settled (after again reread) finds)
    obtain ⟨same, edits⟩ := Outcome.ofChange_miss config again
    refine ⟨_, edit_ok.mpr ⟨again, _, .miss, small, reread, asked, congrArg Except.ok miss, rfl⟩, rfl, edits, ?_⟩
    rw [same]
    exact (Program.parse_ok reread).1

/-- A list of names beside a default is found again, and a declaration beside one that binds its module is not. -/
theorem Config.upsertImport_twice_iff_divided :
    (∃ outcome second, Config.edit {} (importRequest Program.defaultImport) = .ok outcome ∧
      outcome.code = Program.listedImport ∧ Config.edit {} (importRequest Program.listedImport) = .ok second ∧
      second.applied = false ∧ second.edits = [] ∧ second.code = Program.listedImport) ∧
    ∃ outcome, Config.edit {} (importRequest Program.wholeImport) = .ok outcome ∧
      outcome.code = Program.dividedImport ∧ ¬∃ second, Config.edit {} (importRequest Program.dividedImport) = .ok second ∧
      second.applied = false ∧ second.edits = [] ∧ second.code = Program.dividedImport := by
  constructor
  · obtain ⟨outcome, program, again, done, code, read, imports, reread, faithful⟩ :=
      importRequest_readsBack (by decide) Program.import_readings.default Program.import_readings.listed rfl
    have twice := upsertImport_twice_iff {} (importRequest Program.defaultImport) rfl done read faithful
    have finds : program.FindsAgain .single ['m'] [['b']] := by
      simp only [Program.FindsAgain, Program.viewOf?, imports]
      rfl
    rw [code] at twice
    obtain ⟨second, repeated, rest⟩ := twice.mpr ⟨by decide, ⟨again, reread⟩, finds⟩
    exact ⟨outcome, second, done, code, repeated, rest⟩
  · obtain ⟨outcome, program, again, done, code, read, imports, reread, faithful⟩ :=
      importRequest_readsBack (by decide) Program.import_readings.whole Program.import_readings.divided rfl
    have twice := upsertImport_twice_iff {} (importRequest Program.wholeImport) rfl done read faithful
    have loses : ¬program.FindsAgain .single ['m'] [['b']] := by
      intro finds
      simp only [Program.FindsAgain, Program.viewOf?, imports] at finds
      cases finds
    rw [code] at twice
    exact ⟨outcome, done, code, fun again => loses (twice.mp again).2.2⟩

end Graft
