import Graft.Proofs.ImportViews

/-! Merging names into the entries of a list of imports. What the merged list is can be said without a sort: it is in
order, it has the old entries and one for each name that was missing, and old entries of one name stay in their order.
A list is settled by that, and from this follow the laws of merging: names are merged in as a set is joined to
another. -/

namespace Graft

namespace Entry

/-- What a list of entries is to become when names are brought in. -/
structure Merged (present : List Entry) (requested : List Text) (merged : List Entry) : Prop where
  sorted : merged.Pairwise fun one two => Names.le one.name two.name = true
  grown : ∃ missing : List Text, missing.Nodup ∧
    (∀ name, name ∈ missing ↔ name ∈ requested ∧ name ∉ present.map Entry.name) ∧
    merged.Perm (present ++ missing.map ofName)
  kept : ∀ name ∈ present.map Entry.name,
    merged.filter (fun entry => entry.name = name) = present.filter fun entry => entry.name = name

theorem mem_name {entries : List Entry} {entry : Entry} (member : entry ∈ entries) {name : Text}
    (same : decide (entry.name = name) = true) : name ∈ entries.map Entry.name := by
  rw [← of_decide_eq_true same]
  exact List.mem_map_of_mem member

theorem merge_merged (present : List Entry) (requested : List Text) : Merged present requested (merge present requested) := by
  have total : ∀ one two : Entry, Names.le one.name two.name = true ∨ Names.le two.name one.name = true :=
    fun one two => Names.le_total one.name two.name
  have trans : ∀ one two three : Entry, Names.le one.name two.name = true → Names.le two.name three.name = true →
      Names.le one.name three.name = true :=
    fun one two three => Names.le_trans one.name two.name three.name
  refine ⟨sortBy_pairwise total trans _, ⟨additions present requested, ?_, ?_, sortBy_perm _⟩, ?_⟩
  · rw [additions_eq]
    exact Names.additions_nodup _ _
  · intro name
    rw [additions_eq, Names.mem_additions]
  · intro name there
    have alike : ∀ one two : Entry, decide (one.name = name) = true → decide (two.name = name) = true →
        Names.le one.name two.name = true := by
      intro one two first second
      rw [of_decide_eq_true first, of_decide_eq_true second]
      exact Names.le_refl name
    have none : ((additions present requested).map ofName).filter (fun entry => entry.name = name) = [] := by
      apply List.filter_eq_nil_iff.mpr
      intro entry new same
      obtain ⟨added, member, rfl⟩ := List.mem_map.mp new
      rw [additions_eq, Names.mem_additions] at member
      cases of_decide_eq_true same
      exact member.2 there
    rw [merge, filter_sortBy alike, List.filter_append, none, List.append_nil]

namespace Merged
variable {present merged other : List Entry} {requested again : List Text}

theorem mem_names (it : Merged present requested merged) {name : Text} :
    name ∈ merged.map Entry.name ↔ name ∈ present.map Entry.name ∨ name ∈ requested := by
  obtain ⟨missing, -, lacking, perm⟩ := it.grown
  have names := (perm.map Entry.name).mem_iff (a := name)
  have added : (missing.map ofName).map Entry.name = missing := by
    rw [List.map_map]
    exact List.map_id missing
  rw [names, List.map_append, List.mem_append, added, lacking]
  by_cases there : name ∈ present.map Entry.name
  · simp only [there, true_or]
  · simp only [there, false_or, not_false_eq_true, and_true]

/-- A name that was missing has one entry if it was requested, and none otherwise. -/
theorem filter_missing (it : Merged present requested merged) {name : Text} (lacking : name ∉ present.map Entry.name) :
    merged.filter (fun entry => entry.name = name) = if name ∈ requested then [ofName name] else [] := by
  obtain ⟨missing, distinct, members, perm⟩ := it.grown
  have old : present.filter (fun entry => entry.name = name) = [] :=
    List.filter_eq_nil_iff.mpr fun entry member same => lacking (mem_name member same)
  have asked : name ∈ missing ↔ name ∈ requested := (members name).trans (and_iff_left lacking)
  have new : (missing.map ofName).filter (fun entry => entry.name = name) =
      (missing.filter fun other => other = name).map ofName := List.filter_map
  rw [List.filter_eq, distinct.count] at new
  have parts := perm.filter fun entry => decide (entry.name = name)
  rw [List.filter_append, old, List.nil_append, new] at parts
  by_cases member : name ∈ requested
  · rw [if_pos (asked.mpr member)] at parts
    rw [if_pos member]
    exact List.perm_singleton.mp parts
  · rw [if_neg (mt asked.mp member)] at parts
    rw [if_neg member]
    exact List.perm_nil.mp parts

theorem unique (one : Merged present requested merged) (two : Merged present requested other) : merged = other := by
  apply eq_of_sorted_of_filter Names.le_antisymm one.sorted two.sorted
  intro name
  -- a name that was there keeps its entries in their order, any other has one entry or none
  by_cases there : name ∈ present.map Entry.name
  · rw [one.kept name there, two.kept name there]
  · rw [one.filter_missing there, two.filter_missing there]

theorem congr (it : Merged present requested merged) (same : ∀ name, name ∈ requested ↔ name ∈ again) :
    Merged present again merged := by
  obtain ⟨missing, distinct, members, perm⟩ := it.grown
  exact ⟨it.sorted, ⟨missing, distinct, fun name => by rw [members, same], perm⟩, it.kept⟩

/-- Names that are merged in one after the other are merged in together. -/
theorem trans (one : Merged present requested merged) (two : Merged merged again other) :
    Merged present (requested ++ again) other := by
  obtain ⟨first, distinct, early, grown⟩ := one.grown
  obtain ⟨second, separate, late, regrown⟩ := two.grown
  -- what the second list still misses is what neither the old entries nor the first list have
  refine ⟨two.sorted, ⟨first ++ second, ?_, ?_, ?_⟩, ?_⟩
  · apply List.nodup_append.mpr ⟨distinct, separate, ?_⟩
    rintro name before _ behind rfl
    exact ((late name).mp behind).2 (one.mem_names.mpr (.inr ((early name).mp before).1))
  · intro name
    rw [List.mem_append, early, late, one.mem_names, List.mem_append]
    by_cases there : name ∈ present.map Entry.name
    · simp [there]
    · by_cases asked : name ∈ requested <;> simp [there, asked]
  · rw [List.map_append, ← List.append_assoc]
    exact regrown.trans (grown.append_right _)
  · intro name there
    rw [two.kept name (one.mem_names.mpr (.inl there)), one.kept name there]

end Merged

theorem merge_merge (present : List Entry) (first second : List Text) :
    merge (merge present first) second = merge present (first ++ second) :=
  ((merge_merged present first).trans (merge_merged _ second)).unique (merge_merged present (first ++ second))

theorem merge_congr (present : List Entry) {first second : List Text} (same : ∀ name, name ∈ first ↔ name ∈ second) :
    merge present first = merge present second :=
  ((merge_merged present first).congr same).unique (merge_merged present second)

end Entry

namespace Import
variable {it : Import} {style : Style} {program : Program} {requested : List Text}

/-- An import is left as it is if merging leaves its entries as they are. -/
theorem extend_eq_miss_iff_merge : it.extend style program requested = .miss ↔
    Entry.merge (it.specifiers.map Entry.ofSpecifier) requested = it.specifiers.map Entry.ofSpecifier := by
  have names := it.names_view
  rw [extend_eq_miss, Entry.merge_eq_self, additions_view, ← names, ImportView.Settled]
  apply and_congr_right
  intro _
  cases it.view.names with
  | none => exact ⟨fun _ => rfl, fun _ _ never => by cases never⟩
  | some listed => exact ⟨fun sorted => sorted listed rfl, fun sorted _ same => by cases same; exact sorted⟩

theorem extend_applied_iff : (it.extend style program requested).applied = true ↔
    ∃ name ∈ requested, name ∉ (it.specifiers.map Entry.ofSpecifier).map Entry.name := by
  have applied : (it.extend style program requested).applied =
      !(Entry.additions (it.specifiers.map Entry.ofSpecifier) requested).isEmpty := rfl
  rw [applied, Bool.not_eq_true', ← Bool.not_eq_true, List.isEmpty_iff, Entry.additions_eq, Names.additions_eq_nil]
  simp only [Classical.not_forall, exists_prop]

end Import

namespace Entry

/-- Merging names into a list of entries is an action of sets of names. What is merged in once is not merged in again,
and an import is extended just if it lacks a name. -/
theorem merge_action (present : List Entry) (first second : List Text) :
    Merged present first (merge present first) ∧
      merge (merge present first) second = merge present (first ++ second) ∧
      merge (merge present second) first = merge present (first ++ second) ∧
      additions (merge present first) first = [] ∧ merge (merge present first) first = merge present first ∧
      ∀ (it : Import) (style : Style) (program : Program),
        (it.specifiers.map ofSpecifier = merge present first → it.extend style program first = .miss) ∧
        (it.specifiers.map ofSpecifier = present →
          ((it.extend style program first).applied = true ↔ ∃ name ∈ first, name ∉ present.map Entry.name)) := by
  have again : merge (merge present first) first = merge present first := by
    rw [merge_merge]
    exact merge_congr present fun name => by simp
  have swapped : merge (merge present second) first = merge present (first ++ second) := by
    rw [merge_merge]
    exact merge_congr present fun name => by simp [or_comm]
  refine ⟨merge_merged present first, merge_merge present first second, swapped, (merge_eq_self.mp again).1, again, ?_⟩
  intro it style program
  constructor
  · intro merged
    rw [Import.extend_eq_miss_iff_merge, merged]
    exact again
  · rintro rfl
    exact Import.extend_applied_iff

/-- `b as c` -/
def aliased : Tree :=
  .node none .importSpecifier [.leaf (some .name) .identifier ['b'], .leaf none .spacing [' '],
    .leaf none .symbol ['a', 's'], .leaf none .spacing [' '], .leaf (some .rename) .identifier ['c']]

def importing (entries : List Tree) : Tree :=
  .node none .importStatement [.leaf none .symbol "import".toList,
    .node none .importClause [.node none .namedImports (.leaf none .symbol ['\x7b'] :: entries ++ [.leaf none .symbol ['\x7d']])],
    .leaf none .symbol "from".toList,
    .node (some .source) .string [.leaf none .symbol ['\''], .leaf none .stringFragment ['m'], .leaf none .symbol ['\'']]]

def oneName : Program :=
  ⟨"import\x7bb as c\x7dfrom'm'".toList, .node none .program [importing [aliased]], by decide, by decide⟩

def twoNames : Program :=
  ⟨"import\x7bB,b as c\x7dfrom'm'".toList, .node none .program [importing
    [.node none .importSpecifier [.leaf (some .name) .identifier ['B']], .leaf none .symbol [','], aliased]],
    by decide, by decide⟩

theorem merge_action_alias : ∃ one two : Import,
    oneName.importOfModule? ['m'] = some one ∧ twoNames.importOfModule? ['m'] = some two ∧
      one.specifiers.map ofSpecifier = [⟨['b'], "b as c".toList⟩] ∧
      two.specifiers.map ofSpecifier = merge [⟨['b'], "b as c".toList⟩] [['B'], ['b']] ∧
      (one.extend {} oneName [['B'], ['b']]).applied = true ∧ two.extend {} twoNames [['B'], ['b']] = .miss := by
  obtain ⟨-, -, -, -, -, imports⟩ := merge_action [⟨['b'], "b as c".toList⟩] [['B'], ['b']] []
  have before : oneName.importOfModule? ['m'] = some ⟨⟨0, importing [aliased]⟩⟩ := rfl
  have after : twoNames.importOfModule? ['m'] = some ⟨⟨0, importing
      [.node none .importSpecifier [.leaf (some .name) .identifier ['B']], .leaf none .symbol [','], aliased]⟩⟩ := rfl
  refine ⟨_, _, before, after, by decide, by decide, ?_, ?_⟩
  · refine ((imports _ {} oneName).2 (by decide)).mpr ⟨['B'], by decide, by decide⟩
  · exact (imports _ {} twoNames).1 (by decide)

end Entry
end Graft
