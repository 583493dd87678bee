import Graft.Proofs.SpecifierMerge
import Graft.Edit.Run

/-! The names that a request asks for are a set. They are brought in sorted and without repetitions on every way that
an import can be written, and no two names stand equal in their order, so neither the order of a request nor its
repetitions can be seen in what comes out. -/

namespace Graft

/-- A request to bring in names of a module, with the same selector, content and other payload. -/
def Request.bringing (request : Request) (module : Text) (names : List Text) : Request :=
  { request with
    action := .upsertImport
    payload := some { request.payload.getD {} with imports := some ⟨module, names⟩ } }

section
variable {first second : List Text} (same : ∀ name, name ∈ first ↔ name ∈ second)
include same

namespace Names

theorem additions_congr (present : List Text) : additions present first = additions present second := by
  have antisymm : ∀ one two : Text, one ∈ additions present first → two ∈ additions present second →
      le one two = true → le two one = true → one = two :=
    fun one two _ _ => le_antisymm one two
  apply List.Perm.eq_of_pairwise antisymm (sort_pairwise _) (sort_pairwise _)
  apply (List.perm_ext_iff_of_nodup (additions_nodup present first) (additions_nodup present second)).mpr
  intro name
  rw [mem_additions, mem_additions, same]

theorem sort_unique_congr : sort (unique first) = sort (unique second) := by
  have all : ∀ names, additions [] names = sort (unique names) := by
    intro names
    exact congrArg sort (List.filter_eq_self.mpr fun _ _ => rfl)
  rw [← all, ← all, additions_congr same]

end Names

theorem Import.extend_congr (it : Import) (style : Style) (program : Program) :
    it.extend style program first = it.extend style program second := by
  have additions : ∀ present, Entry.additions present first = Entry.additions present second := by
    intro present
    rw [Entry.additions_eq, Entry.additions_eq, Names.additions_congr same]
  simp only [extend, additions, Entry.merge_congr _ same]

theorem Program.upsertImport_congr (program : Program) (style : Style) (module : Text) :
    program.upsertImport style module first = program.upsertImport style module second := by
  unfold upsertImport
  rw [Names.sort_unique_congr same]
  cases program.importOfModule? module with
  | none => rfl
  | some it => exact it.extend_congr same style program

end

theorem Operation.ofRequest_bringing (request : Request) (module : Text) (names : List Text) :
    ofRequest (request.bringing module names) = if module = [] then .error (.invalid (.lacks .upsertImport .module))
      else .ok (.upsertImport module names) := by
  cases module <;> rfl

/-- Two requests for the same set of names have the same outcome, or fail alike. -/
theorem Config.edit_bringing_congr (config : Config) (request : Request) (module : Text) {first second : List Text}
    (same : ∀ name, name ∈ first ↔ name ∈ second) :
    config.edit (request.bringing module first) = config.edit (request.bringing module second) := by
  have content : ∀ names, (request.bringing module names).content = request.content := fun _ => rfl
  unfold edit
  simp only [content, Operation.ofRequest_bringing]
  split
  next => rfl
  next program _ =>
    split
    next => rfl
    next =>
      have ran : (Operation.upsertImport module first).run config.style program =
          (Operation.upsertImport module second).run config.style program :=
        congrArg Except.ok (program.upsertImport_congr same config.style module)
      simp only [bind, Except.bind, ran]

def oneImport : Request := { action := .upsertImport, content := "import \x7b b \x7d from 'm';".toList }

theorem Config.edit_bringing_congr_case :
    (∀ name, name ∈ ["b".toList, "a".toList, "A".toList, "b".toList] ↔ name ∈ ["A".toList, "b".toList, "a".toList]) ∧
      Config.edit {} (oneImport.bringing ['m'] ["b".toList, "a".toList, "A".toList, "b".toList]) =
        Config.edit {} (oneImport.bringing ['m'] ["A".toList, "b".toList, "a".toList]) := by
  have same : ∀ name, name ∈ ["b".toList, "a".toList, "A".toList, "b".toList] ↔
      name ∈ ["A".toList, "b".toList, "a".toList] := by
    intro name
    simp only [List.mem_cons, List.not_mem_nil, or_false]
    grind
  exact ⟨same, Config.edit_bringing_congr {} oneImport ['m'] same⟩

end Graft
