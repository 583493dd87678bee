import Graft.Proofs.ImportViews
import Graft.Proofs.InsertionSeams

/-! What is written when names are brought in. The text of the patch spells the imports that the program is left
with: a declaration on lines of its own between two statements, or a list of names in a place of an import that is
one for a list. -/

namespace Graft

/-- A patch writes imports into a program. -/
inductive Program.Writes (program : Program) : Option Patch → List ImportView → Prop
  | nothing : program.Writes none program.imports
  /-- A declaration between two statements, with nothing but line breaks around it. -/
  | declaration {front back : List Node} {offset : Nat} {before after : Text} (quote : Quote) (module : Text)
      (names : List Text) (seam : program.Seam front back offset) (breaks : ∀ c ∈ before ++ after, c = '\n') :
      program.Writes (some (.insertion offset (before ++ quote.importDeclaration module names ++ after)))
        (importsAmong front ++ .created quote module names :: importsAmong back)
  /-- Another list in the place of the list of an import. An entry is one of the old or spells its name. -/
  | list {front back : List Node} {statement list : Node} {it : Import} (entries : List Entry) (layout : ListLayout)
      (split : program.statements = front ++ statement :: back) (found : importOf? statement = some it)
      (listed : it.namedList? = some list)
      (spelled : ∀ entry ∈ entries, entry ∈ it.specifiers.map Entry.ofSpecifier ∨ entry.text = entry.name) :
      program.Writes (some ⟨list.span, namedImports (entries.map Entry.text) layout⟩)
        (importsAmong front ++ it.view.withNames (entries.map Entry.name) :: importsAmong back)
  /-- A list behind the default of an import. -/
  | behindClause {front back : List Node} {statement clause : Node} {it : Import} (names : List Text)
      (split : program.statements = front ++ statement :: back) (found : importOf? statement = some it)
      (bare : it.namedList? = none) (clausal : it.clause? = some clause) (narrow : Import.bindsModule clause = false) :
      program.Writes (some (.insertion clause.stop (", ".toList ++ namedImports names .inline)))
        (importsAmong front ++ it.view.withNames names :: importsAmong back)
  /-- A list before the module of an import for its effects. -/
  | beforeModule {front back : List Node} {statement module : Node} {it : Import} (names : List Text)
      (split : program.statements = front ++ statement :: back) (found : importOf? statement = some it)
      (bare : it.namedList? = none) (clauseless : it.clause? = none) (named : it.sourceNode? = some module) :
      program.Writes (some (.insertion module.start (namedImports names .inline ++ " from ".toList)))
        (importsAmong front ++ it.view.withNames names :: importsAmong back)

namespace Program
variable {program : Program}

theorem importsAmong_append (front back : List Node) :
    importsAmong (front ++ back) = importsAmong front ++ importsAmong back :=
  List.filterMap_append

theorem importsAmong_cons {statement : Node} {it : Import} (found : importOf? statement = some it) (back : List Node) :
    importsAmong (statement :: back) = it.view :: importsAmong back := by
  rw [importsAmong, List.filterMap_cons, found]
  rfl

/-- The first import of a module, and what stands before and behind it. -/
theorem importOfModule?_split {module : Text} {it : Import} (found : program.importOfModule? module = some it) :
    ∃ front statement back, program.statements = front ++ statement :: back ∧ importOf? statement = some it ∧
      it.source? = some module ∧ ∀ view ∈ importsAmong front, view.source ≠ some module := by
  obtain ⟨front, statement, back, split, chosen, passed⟩ := List.findSome?_eq_some_iff.mp found
  obtain ⟨other, here, same⟩ := Option.bind_eq_some_iff.mp chosen
  split at same
  next named =>
    cases same
    refine ⟨front, statement, back, split, here, named, ?_⟩
    intro view member again
    obtain ⟨earlier, inside, viewed⟩ := List.mem_filterMap.mp member
    obtain ⟨other, first, rfl⟩ := Option.map_eq_some_iff.mp viewed
    have none := passed earlier inside
    rw [first, Option.bind_some, if_pos (show other.source? = some module from again)] at none
    cases none
  next => cases same

theorem extendFirst_split {quote : Quote} {module : Text} {requested : List Text} {front back : List ImportView}
    {view : ImportView} (named : view.source = some module) (fresh : ∀ other ∈ front, other.source ≠ some module) :
    ImportView.extendFirst quote module requested (front ++ view :: back) =
      some (front ++ view.extended quote module requested ++ back) := by
  induction front with
  | nil => rw [List.nil_append, ImportView.extendFirst, if_pos named, List.nil_append]
  | cons first front ih =>
    obtain ⟨new, rest⟩ := List.forall_mem_cons.mp fresh
    rw [List.cons_append, ImportView.extendFirst, if_neg new, ih rest]
    rfl

theorem insertion_writes {anchor : Anchor} {front back : List Node} {quote : Quote} {module : Text} {names : List Text}
    (seam : program.Seam front back (anchor.insertion program (quote.importDeclaration module names)).span.start) :
    program.Writes (some (anchor.insertion program (quote.importDeclaration module names)))
      (importsAmong front ++ .created quote module names :: importsAmong back) := by
  obtain ⟨before, after, breaks, same⟩ := anchor.insertion_breaks program (quote.importDeclaration module names)
  rw [same]
  exact .declaration quote module names seam breaks

theorem leadingImports_seam (program : Program) (text : Text) :
    program.Seam program.leadingImports (program.statements.drop program.leadingImports.length)
      ((match program.leadingImports.getLast? with
        | some statement => Anchor.after statement
        | none => .top).insertion program text).span.start := by
  obtain ⟨back, parts⟩ : ∃ back, program.leadingImports ++ back = program.statements :=
    ⟨_, List.takeWhile_append_dropWhile⟩
  rw [← parts, List.drop_left]
  split
  next statement last =>
    obtain ⟨front, same⟩ := List.getLast?_eq_some_iff.mp last
    rw [same, List.append_assoc] at parts
    rw [same]
    exact Anchor.endOf_seam parts.symm
  next none =>
    rw [List.getLast?_eq_none_iff.mp none, List.nil_append] at parts
    rw [List.getLast?_eq_none_iff.mp none, parts]
    exact Anchor.top_seam program text

end Program

namespace Import
variable {program : Program} {it : Import} {front back : List Node} {statement : Node}

theorem names_merge (it : Import) (requested : List Text) :
    (Entry.merge (it.specifiers.map Entry.ofSpecifier) requested).map Entry.name =
      Names.sort (it.view.names.getD [] ++ it.view.lacks requested) := by
  rw [Entry.merge, map_sortBy, List.map_append, additions_view, ← names_view, List.map_map]
  congr 2
  exact List.map_id _

theorem merge_spelled (present : List Entry) (requested : List Text) :
    ∀ entry ∈ Entry.merge present requested, entry ∈ present ∨ entry.text = entry.name := by
  intro entry member
  rcases List.mem_append.mp (mem_sortBy.mp member) with old | new
  · exact .inl old
  · obtain ⟨name, _, rfl⟩ := List.mem_map.mp new
    exact .inr rfl

/-- Bringing names into an import writes what the import becomes. -/
theorem extend_writes (style : Style) (requested : List Text) (split : program.statements = front ++ statement :: back)
    (found : Program.importOf? statement = some it) {module : Text} (named : it.source? = some module) :
    program.Writes (it.extend style program requested).patch
      (Program.importsAmong front ++ it.view.extended style.quote module requested ++ Program.importsAmong back) := by
  have imports : program.imports = Program.importsAmong front ++ [it.view] ++ Program.importsAmong back := by
    rw [Program.imports, split, Program.importsAmong_append, Program.importsAmong_cons found, List.append_assoc,
      List.singleton_append]
  unfold extend ImportView.extended
  dsimp only
  rw [additions_view]
  cases listed : it.namedList? with
  | some list =>
    have names : it.view.names = some (it.specifiers.map ImportSpecifier.imported) := by rw [view, listed]; rfl
    have merged := it.names_merge requested
    rw [names, Option.getD_some] at merged
    rw [names]
    dsimp only
    rw [← merged]
    split
    next same =>
      -- entries that are the same have the same names
      have kept : it.view.withNames ((it.specifiers.map Entry.ofSpecifier).map Entry.name) = it.view := by
        rw [← names_view, names, ImportView.withNames, Option.getD_some, ← names]
      rw [same, kept, ← imports]
      exact .nothing
    next =>
      rw [List.append_assoc, List.singleton_append]
      exact .list _ _ split found listed (merge_spelled _ _)
  | none =>
    have names : it.view.names = none := by rw [view, listed]; rfl
    rw [names]
    dsimp only
    split
    next =>
      rw [← imports]
      exact .nothing
    next =>
      cases clausal : it.clause? with
      | some clause =>
        have binds : it.view.bindsModule = bindsModule clause := by rw [view, clausal]; rfl
        rw [binds]
        dsimp only
        split
        next =>
          rw [named, Option.getD_some]
          rw [← Program.importOf?_node found] at split
          have views : Program.importsAmong (front ++ [it.node]) = Program.importsAmong front ++ [it.view] := by
            rw [Program.importsAmong_append, Program.importsAmong_cons (Program.importOf?_node found ▸ found)]
            rfl
          rw [List.append_assoc, List.cons_append, List.append_cons, ← views]
          apply Program.insertion_writes
          exact Anchor.endOf_seam split
        next narrow =>
          rw [List.append_assoc, List.singleton_append]
          exact .behindClause _ split found listed clausal (Bool.eq_false_iff.mpr narrow)
      | none =>
        obtain ⟨source, sourced, _⟩ := Option.map_eq_some_iff.mp named
        have binds : it.view.bindsModule = false := by rw [view, clausal]; rfl
        rw [sourced, binds, List.append_assoc]
        dsimp only [Option.map_some]
        exact .beforeModule _ split found listed clausal sourced

end Import

namespace Program

/-- Bringing names into a program writes the imports that it is left with. -/
theorem upsertImport_writes (program : Program) (style : Style) (module : Text) (requested : List Text) :
    program.Writes (program.upsertImport style module requested).patch
      (program.importsAfter style.quote module requested) := by
  unfold upsertImport
  cases found : program.importOfModule? module with
  | some it =>
    obtain ⟨front, statement, back, split, here, named, fresh⟩ := importOfModule?_split found
    have views : program.imports = importsAmong front ++ it.view :: importsAmong back := by
      rw [imports, split, importsAmong_append, importsAmong_cons here]
    rw [importsAfter, views, extendFirst_split named fresh, Option.getD_some]
    exact it.extend_writes style requested split here named
  | none =>
    have none : program.viewOf? module = none := by
      rw [viewOf?_eq, found]
      rfl
    rw [importsAfter, ImportView.extendFirst_eq_none none, Option.getD_none]
    exact insertion_writes (program.leadingImports_seam _)

end Program
end Graft
