import Graft.Edit.Import
import Graft.Proofs.Sorting

/-! The order of imported names. Names are ordered by their lower case and then as they are, which is a total order
of texts; sorting by it is stable, so a sorted list stays as it is, and names that have been brought in are not
brought in again. -/

namespace Graft

theorem Text.compare_eq (one two : Text) :
    Text.compare one two = Ord.compare (one.map Char.toNat) (two.map Char.toNat) := by
  induction one generalizing two with
  | nil => cases two <;> rfl
  | cons c one ih =>
    cases two with
    | nil => rfl
    | cons d two =>
      have next : Ord.compare ((c :: one).map Char.toNat) ((d :: two).map Char.toNat) =
          (Ord.compare c.toNat d.toNat).then (Ord.compare (one.map Char.toNat) (two.map Char.toNat)) :=
        List.compareLex_cons_cons
      rw [Text.compare, next, ih, Nat.compare_eq_ite_lt]
      simp only [UInt32.lt_iff_toNat_lt, Char.toNat]
      split
      next => rfl
      next => split <;> rfl

theorem Text.eq_of_compare_eq {one two : Text} (same : Text.compare one two = .eq) : one = two := by
  rw [Text.compare_eq, Std.LawfulEqCmp.compare_eq_iff_eq] at same
  exact (List.map_inj_right fun _ _ => Char.toNat_inj.mp).mp same

namespace Names

theorem compare_eq (one two : Text) : compare one two =
    compareLex (compareOn fun name : Text => name.lowercase.map Char.toNat) (compareOn fun name : Text => name.map Char.toNat)
      one two := by
  rw [compare, Text.compare_eq, Text.compare_eq]
  rfl

theorem le_total (one two : Text) : le one two = true ∨ le two one = true := by
  have swap : compare two one = (compare one two).swap := by
    rw [compare_eq, compare_eq]
    exact Std.OrientedCmp.eq_swap
  rw [le, le, swap]
  cases compare one two <;> simp

theorem le_trans (one two three : Text) (first : le one two = true) (second : le two three = true) : le one three = true := by
  simp only [le, compare_eq] at *
  exact Std.TransCmp.isLE_trans first second

theorem le_refl (name : Text) : le name name = true := (le_total name name).elim id id

/-- Names of the same lower case are still told apart. -/
theorem le_antisymm (one two : Text) (first : le one two = true) (second : le two one = true) : one = two := by
  have same : compare one two = .eq := by
    simp only [le, compare_eq] at first second ⊢
    exact Std.OrientedCmp.isLE_antisymm first second
  exact Text.eq_of_compare_eq (Ordering.then_eq_eq.mp same).2

theorem sort_pairwise (names : List Text) : (sort names).Pairwise (le · · = true) :=
  sortBy_pairwise le_total le_trans names

@[simp] theorem sort_sort (names : List Text) : sort (sort names) = sort names :=
  sortBy_of_pairwise (sort_pairwise names)

@[simp] theorem mem_sort {name : Text} {names : List Text} : name ∈ sort names ↔ name ∈ names := mem_sortBy

@[simp] theorem mem_unique {name : Text} {names : List Text} : name ∈ unique names ↔ name ∈ names := by
  have go : ∀ (names seen : List Text), name ∈ unique.go seen names ↔ name ∈ names ∧ name ∉ seen := by
    intro names
    induction names with
    | nil => simp [unique.go]
    | cons first names ih =>
      intro seen
      rw [unique.go]
      split
      next old =>
        rw [ih]
        constructor
        · exact fun ⟨here, new⟩ => ⟨List.mem_cons_of_mem _ here, new⟩
        · rintro ⟨here, new⟩
          rcases List.mem_cons.mp here with rfl | here
          · exact absurd (by simpa using old) new
          · exact ⟨here, new⟩
      next fresh =>
        rw [List.mem_cons, ih]
        constructor
        · rintro (rfl | ⟨here, new⟩)
          · exact ⟨List.mem_cons_self .., by simpa using fresh⟩
          · exact ⟨List.mem_cons_of_mem _ here, fun old => new (List.mem_cons_of_mem _ old)⟩
        · rintro ⟨here, new⟩
          by_cases same : name = first
          · exact .inl same
          · refine .inr ⟨(List.mem_cons.mp here).resolve_left same, fun old => ?_⟩
            rcases List.mem_cons.mp old with old | old
            · exact same old
            · exact new old
  simpa [unique] using go names []

theorem unique_nodup (names : List Text) : (unique names).Nodup := by
  have go : ∀ (names seen : List Text), (unique.go seen names).Nodup ∧ ∀ name ∈ unique.go seen names, name ∉ seen := by
    intro names
    induction names with
    | nil => simp [unique.go]
    | cons first names ih =>
      intro seen
      rw [unique.go]
      split
      next => exact ih seen
      next fresh =>
        obtain ⟨distinct, unseen⟩ := ih (first :: seen)
        refine ⟨List.nodup_cons.mpr ⟨fun again => unseen first again (List.mem_cons_self ..), distinct⟩, ?_⟩
        intro name member
        rcases List.mem_cons.mp member with rfl | member
        · simpa using fresh
        · exact fun old => unseen name member (List.mem_cons_of_mem _ old)
  exact (go names []).1

def additions (present requested : List Text) : List Text :=
  sort ((unique requested).filter fun name => !present.contains name)

theorem mem_additions {present requested : List Text} {name : Text} :
    name ∈ additions present requested ↔ name ∈ requested ∧ name ∉ present := by
  simp [additions]

theorem additions_nodup (present requested : List Text) : (additions present requested).Nodup :=
  (sortBy_perm _).nodup_iff.mpr ((unique_nodup requested).sublist List.filter_sublist)

theorem additions_eq_nil {present requested : List Text} :
    additions present requested = [] ↔ ∀ name ∈ requested, name ∈ present := by
  rw [List.eq_nil_iff_forall_not_mem]
  constructor
  · intro none name here
    by_cases there : name ∈ present
    · exact there
    · exact absurd (mem_additions.mpr ⟨here, there⟩) (none name)
  · intro all name missing
    obtain ⟨here, new⟩ := mem_additions.mp missing
    exact new (all name here)

end Names
end Graft
