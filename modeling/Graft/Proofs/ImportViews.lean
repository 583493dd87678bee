import Graft.Proofs.NameOrder

/-! What bringing names into a program does to its imports. All that it looks at in an import is the module, the
names in braces, and whether the module is bound as a whole; so the imports that a program is left with can be said
in these terms, and so can whether there would be anything left to do. -/

namespace Graft

/-- What is looked at in an import. -/
structure ImportView where
  source : Option Text
  /-- The names in braces, if there are braces. -/
  names : Option (List Text)
  bindsModule : Bool
  deriving DecidableEq

namespace Import

def view (it : Import) : ImportView :=
  ⟨it.source?, it.namedList?.map fun _ => it.specifiers.map ImportSpecifier.imported, it.clause?.any bindsModule⟩

end Import

namespace Program

def importsAmong (statements : List Node) : List ImportView :=
  statements.filterMap fun statement => (importOf? statement).map Import.view

def imports (program : Program) : List ImportView := importsAmong program.statements

def viewOf? (program : Program) (module : Text) : Option ImportView :=
  program.imports.find? fun view => view.source = some module

theorem viewOf?_eq (program : Program) (module : Text) :
    program.viewOf? module = (program.importOfModule? module).map Import.view := by
  rw [viewOf?, imports, importOfModule?]
  induction program.statements with
  | nil => rfl
  | cons statement statements ih =>
    rw [importsAmong, List.filterMap_cons, List.findSome?_cons]
    cases importOf? statement with
    | none => exact ih
    | some it =>
      simp only [Option.map_some, List.find?_cons, Option.bind_some]
      by_cases same : it.source? = some module
      · rw [if_pos same, decide_eq_true (show it.view.source = some module from same)]
        rfl
      · rw [if_neg same, decide_eq_false (show ¬it.view.source = some module from same)]
        exact ih

end Program

/-! ### When nothing is left to do -/

namespace ImportView

def lacks (view : ImportView) (requested : List Text) : List Text := Names.additions (view.names.getD []) requested

/-- An import has the requested names, and its list is in order. -/
def Settled (view : ImportView) (requested : List Text) : Prop :=
  view.lacks requested = [] ∧ ∀ names, view.names = some names → Names.sort names = names

end ImportView

namespace Entry

theorem additions_eq (present : List Entry) (requested : List Text) :
    additions present requested = Names.additions (present.map name) requested := by
  rw [additions, Names.additions]
  congr 2
  funext name
  congr 1
  rw [List.any_eq, List.contains_eq_mem, Bool.eq_iff_iff]
  simp only [decide_eq_true_eq, List.mem_map]

theorem merge_eq_self {present : List Entry} {requested : List Text} :
    merge present requested = present ↔
      additions present requested = [] ∧ Names.sort (present.map name) = present.map name := by
  constructor
  · intro same
    have none : additions present requested = [] := by
      have sizes := congrArg List.length same
      rw [merge, sortBy_eq_insertionSort, List.length_insertionSort, List.length_append, List.length_map] at sizes
      exact List.length_eq_zero_iff.mp (by omega)
    refine ⟨none, ?_⟩
    rw [merge, none, List.map_nil, List.append_nil] at same
    rw [Names.sort, ← map_sortBy, same]
  · rintro ⟨none, sorted⟩
    rw [merge, none, List.map_nil, List.append_nil]
    refine sortBy_of_pairwise ?_
    have pairwise := Names.sort_pairwise (present.map name)
    rw [sorted, List.pairwise_map] at pairwise
    exact pairwise

end Entry

namespace Import

theorem names_view (it : Import) : it.view.names.getD [] = (it.specifiers.map Entry.ofSpecifier).map Entry.name := by
  have names : (it.specifiers.map Entry.ofSpecifier).map Entry.name = it.specifiers.map ImportSpecifier.imported := by
    rw [List.map_map]
    rfl
  rw [names, view]
  cases list : it.namedList? with
  | none => simp [specifiers, list]
  | some list => rfl

theorem additions_view (it : Import) (requested : List Text) :
    Entry.additions (it.specifiers.map Entry.ofSpecifier) requested = it.view.lacks requested := by
  rw [Entry.additions_eq, ImportView.lacks, names_view]

theorem extend_eq_miss {it : Import} {style : Style} {program : Program} {requested : List Text} :
    it.extend style program requested = .miss ↔ it.view.Settled requested := by
  rw [extend, additions_view]
  dsimp only
  cases lacks : (it.view.lacks requested).isEmpty with
  | false =>
    refine ⟨fun same => ?_, fun settled => ?_⟩
    · cases congrArg Change.applied same
    · rw [settled.1] at lacks
      cases lacks
  | true =>
    have none := List.isEmpty_iff.mp lacks
    cases list : it.namedList? with
    | none =>
      refine ⟨fun _ => ⟨none, fun names listed => ?_⟩, fun _ => rfl⟩
      simp [view, list] at listed
    | some node =>
      have names : it.view.names = some ((it.specifiers.map Entry.ofSpecifier).map Entry.name) := by
        rw [← names_view, view, list]
        rfl
      have merged : Entry.merge (it.specifiers.map Entry.ofSpecifier) requested = it.specifiers.map Entry.ofSpecifier ↔ _ :=
        Entry.merge_eq_self
      rw [additions_view] at merged
      constructor
      · intro same
        have kept : Entry.merge (it.specifiers.map Entry.ofSpecifier) requested = it.specifiers.map Entry.ofSpecifier := by
          have patch := congrArg Change.patch same
          dsimp only [Change.miss] at patch
          split at patch
          next kept => exact kept
          next => cases patch
        refine ⟨none, fun others listed => ?_⟩
        cases names.symm.trans listed
        exact (merged.mp kept).2
      · intro settled
        dsimp only
        rw [if_pos (merged.mpr ⟨none, settled.2 _ names⟩)]
        rfl

end Import

/-- Nothing is brought in if the first import of the module has it all. -/
theorem Program.upsertImport_eq_miss {program : Program} {style : Style} {module : Text} {requested : List Text} :
    program.upsertImport style module requested = .miss ↔
      ∃ view, program.viewOf? module = some view ∧ view.Settled requested := by
  rw [upsertImport, viewOf?_eq]
  cases program.importOfModule? module with
  | none =>
    refine ⟨fun same => ?_, by simp⟩
    cases congrArg Change.applied same
  | some it =>
    rw [Option.map_some]
    exact Import.extend_eq_miss.trans ⟨fun settled => ⟨_, rfl, settled⟩, fun ⟨_, same, settled⟩ => by cases same; exact settled⟩

/-! ### The imports afterwards -/

namespace ImportView

/-- A new import, as it is read from what is printed. -/
def created (quote : Quote) (module : Text) (names : List Text) : ImportView :=
  ⟨some (unquote (quote.literal module)), if names.isEmpty then none else some names, false⟩

def withNames (view : ImportView) (names : List Text) : ImportView := { view with names := some names }

def extended (quote : Quote) (module : Text) (requested : List Text) (view : ImportView) : List ImportView :=
  match view.names with
  | some names => [view.withNames (Names.sort (names ++ view.lacks requested))]
  | none =>
    if (view.lacks requested).isEmpty then [view]
    else if view.bindsModule then [view, created quote module (view.lacks requested)]
    else [view.withNames (view.lacks requested)]

/-- Whether names go to a declaration of their own because the import binds the module as a whole. -/
def splits (view : ImportView) (requested : List Text) : Bool :=
  view.names.isNone && view.bindsModule && !requested.isEmpty

/-- Bring names into the first import of a module, if there is one. -/
def extendFirst (quote : Quote) (module : Text) (requested : List Text) : List ImportView → Option (List ImportView)
  | [] => none
  | view :: views =>
    if view.source = some module then some (view.extended quote module requested ++ views)
    else (extendFirst quote module requested views).map (view :: ·)

end ImportView

def Program.importsAfter (program : Program) (quote : Quote) (module : Text) (requested : List Text) : List ImportView :=
  (ImportView.extendFirst quote module requested program.imports).getD
    (importsAmong program.leadingImports ++ .created quote module (Names.sort (Names.unique requested)) ::
      importsAmong (program.statements.drop program.leadingImports.length))

namespace ImportView
variable {quote : Quote} {module : Text} {requested : List Text}

theorem lacks_none {view : ImportView} (bare : view.names = none) : view.lacks requested = [] ↔ requested = [] := by
  rw [lacks, bare, Option.getD_none, Names.additions_eq_nil]
  simp [List.eq_nil_iff_forall_not_mem]

theorem settled_of_names {view : ImportView} {names : List Text} (listed : view.names = some names)
    (sorted : Names.sort names = names) (all : ∀ name ∈ requested, name ∈ names) : view.Settled requested := by
  refine ⟨?_, fun others same => ?_⟩
  · rw [lacks, listed, Option.getD_some, Names.additions_eq_nil]
    exact all
  · cases listed.symm.trans same
    exact sorted

theorem created_settled {names : List Text} (sorted : Names.sort names = names)
    (same : ∀ name, name ∈ requested ↔ name ∈ names) : (created quote module names).Settled requested := by
  cases names with
  | nil =>
    refine ⟨(lacks_none rfl).mpr ?_, fun _ never => by cases never⟩
    exact List.eq_nil_iff_forall_not_mem.mpr fun name here => by cases (same name).mp here
  | cons first others => exact settled_of_names rfl sorted fun name here => (same name).mp here

/-- The first of the imports that one becomes is settled, unless names go to a declaration of their own. -/
theorem extended_head (quote : Quote) (module : Text) (requested : List Text) (view : ImportView) :
    ∃ first others, view.extended quote module requested = first :: others ∧ first.source = view.source ∧
      (view.splits requested = false → first.Settled requested) ∧
      (view.splits requested = true → first.lacks requested ≠ []) := by
  rw [extended, splits]
  cases listed : view.names with
  | some names =>
    refine ⟨_, _, rfl, rfl, fun _ => settled_of_names rfl (Names.sort_sort _) fun name here => ?_, fun never => by cases never⟩
    rw [Names.mem_sort, List.mem_append, lacks, listed, Option.getD_some, Names.mem_additions]
    by_cases there : name ∈ names
    · exact .inl there
    · exact .inr ⟨here, there⟩
  | none =>
    have missing : (view.lacks requested).isEmpty = requested.isEmpty := by
      rw [Bool.eq_iff_iff, List.isEmpty_iff, List.isEmpty_iff]
      exact lacks_none listed
    have sorted : Names.sort (view.lacks requested) = view.lacks requested := Names.sort_sort _
    dsimp only
    rw [missing]
    cases empty : requested.isEmpty with
    | true =>
      refine ⟨view, [], rfl, rfl, fun _ => ⟨?_, fun names same => ?_⟩, fun never => by simp at never⟩
      · exact (lacks_none listed).mpr (List.isEmpty_iff.mp empty)
      · cases listed.symm.trans same
    | false =>
      cases binds : view.bindsModule with
      | true =>
        refine ⟨view, _, rfl, rfl, (fun never => by cases never), fun _ none => ?_⟩
        rw [(lacks_none listed).mp none] at empty
        cases empty
      | false =>
        refine ⟨_, [], rfl, rfl, fun _ => settled_of_names rfl sorted fun name here => ?_, fun never => by cases never⟩
        rw [lacks, listed, Option.getD_none, Names.mem_additions]
        exact ⟨here, by simp⟩

/-- Bringing names into the first import of a module keeps it the first. -/
theorem find?_extendFirst (quote : Quote) {module : Text} (requested : List Text) {views : List ImportView}
    {view : ImportView} (found : views.find? (fun view => view.source = some module) = some view) :
    ∃ others first, extendFirst quote module requested views = some others ∧
      others.find? (fun view => view.source = some module) = some first ∧
      (view.splits requested = false → first.Settled requested) ∧
      (view.splits requested = true → first.lacks requested ≠ []) := by
  induction views with
  | nil => cases found
  | cons here views ih =>
    rw [extendFirst]
    rw [List.find?_cons] at found
    by_cases same : here.source = some module
    · rw [decide_eq_true same] at found
      rw [← Option.some.inj found]
      obtain ⟨first, others, grown, kept, settled⟩ := extended_head quote module requested here
      refine ⟨_, first, if_pos same, ?_, settled⟩
      rw [grown, List.cons_append, List.find?_cons, decide_eq_true (kept.trans same)]
    · rw [decide_eq_false same] at found
      obtain ⟨others, first, grown, kept, settled⟩ := ih found
      rw [if_neg same, grown]
      refine ⟨here :: others, first, rfl, ?_, settled⟩
      rw [List.find?_cons, decide_eq_false same]
      exact kept

theorem extendFirst_eq_none {quote : Quote} {module : Text} {requested : List Text} {views : List ImportView}
    (none : views.find? (fun view => view.source = some module) = none) :
    extendFirst quote module requested views = .none := by
  induction views with
  | nil => rfl
  | cons here views ih =>
    rw [List.find?_cons] at none
    by_cases same : here.source = some module
    · rw [decide_eq_true same] at none
      cases none
    · rw [decide_eq_false same] at none
      rw [extendFirst, if_neg same, ih none, Option.map_none]

end ImportView

/-! ### Names of modules -/

namespace Quote

theorem unquote_literal (quote : Quote) (text : Text) : unquote (quote.literal text) = text.flatMap quote.escape := by
  have mark : (decide (quote.char = '\'') || decide (quote.char = '"')) = true := by cases quote <;> rfl
  rw [literal, List.cons_append, unquote, mark, List.getLast?_concat, decide_eq_true rfl]
  exact List.dropLast_concat

/-- A text that nothing has to be escaped in. -/
def Plain (quote : Quote) (text : Text) : Prop := ∀ c ∈ text, quote.escape c = [c]

instance (quote : Quote) (text : Text) : Decidable (quote.Plain text) :=
  inferInstanceAs (Decidable (∀ c ∈ text, quote.escape c = [c]))

theorem escape_length (quote : Quote) (c : Char) : quote.escape c = [c] ∨ 2 ≤ (quote.escape c).length := by
  unfold escape
  repeat' split
  all_goals simp

theorem length_flatMap_escape (quote : Quote) (text : Text) : text.length ≤ (text.flatMap quote.escape).length := by
  induction text with
  | nil => exact Nat.le_refl _
  | cons c text ih =>
    rw [List.flatMap_cons, List.length_append, List.length_cons]
    rcases quote.escape_length c with same | longer
    · rw [same, List.length_singleton]
      omega
    · omega

/-- Only plain texts are read as they were written. -/
theorem unquote_literal_eq_self {quote : Quote} {text : Text} : unquote (quote.literal text) = text ↔ quote.Plain text := by
  rw [unquote_literal]
  constructor
  · intro same
    induction text with
    | nil => exact fun _ never => by cases never
    | cons c text ih =>
      rw [List.flatMap_cons] at same
      rcases quote.escape_length c with plain | longer
      · rw [plain, List.singleton_append, List.cons.injEq] at same
        exact List.forall_mem_cons.mpr ⟨plain, ih same.2⟩
      · -- an escaped character makes the literal longer than the text
        have sizes := congrArg List.length same
        have rest := quote.length_flatMap_escape text
        rw [List.length_append, List.length_cons] at sizes
        omega
  · intro plain
    induction text with
    | nil => rfl
    | cons c text ih =>
      obtain ⟨first, rest⟩ := List.forall_mem_cons.mp plain
      rw [List.flatMap_cons, first, ih rest, List.singleton_append]

theorem escape_eq_self {quote : Quote} {c : Char} :
    quote.escape c = [c] ↔ c ≠ '\\' ∧ c ≠ '\n' ∧ c ≠ '\r' ∧ c ≠ '\t' ∧ c ≠ quote.char := by
  unfold escape
  constructor
  · intro same
    refine ⟨?_, ?_, ?_, ?_, ?_⟩
    all_goals
      rintro rfl
      cases quote <;> exact absurd same (by decide)
  · rintro ⟨slash, feed, carriage, tab, mark⟩
    rw [if_neg slash, if_neg feed, if_neg carriage, if_neg tab, if_neg mark]

theorem importDeclaration_literal (quote : Quote) (module : Text) (names : List Text) :
    ∃ front, quote.importDeclaration module names = front ++ quote.literal module ++ [';'] := by
  unfold importDeclaration
  split
  next => exact ⟨_, rfl⟩
  next => exact ⟨_, rfl⟩

end Quote

end Graft
