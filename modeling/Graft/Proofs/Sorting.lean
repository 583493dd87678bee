import Graft.Order
import Mathlib.Data.List.Sort

/-! Sorting by an order is insertion sort. If the order is total and transitive the result is sorted, and sorting is
stable: items that stand equal keep the order that they came in. So what comes out is settled by the items of each
key. -/

namespace Graft

variable {α β : Type} {le : α → α → Bool}

theorem insertBy_eq_orderedInsert (item : α) (items : List α) :
    insertBy le item items = items.orderedInsert (le · · = true) item := by
  induction items with
  | nil => rfl
  | cons other others ih => rw [insertBy, ih, List.orderedInsert_cons]

theorem sortBy_eq_insertionSort (items : List α) : sortBy le items = items.insertionSort (le · · = true) := by
  induction items with
  | nil => rfl
  | cons item items ih => rw [sortBy, ih, insertBy_eq_orderedInsert, List.insertionSort_cons]

@[simp] theorem mem_sortBy {item : α} {items : List α} : item ∈ sortBy le items ↔ item ∈ items := by
  rw [sortBy_eq_insertionSort, List.mem_insertionSort]

theorem sortBy_perm (items : List α) : (sortBy le items).Perm items := by
  rw [sortBy_eq_insertionSort]
  exact List.perm_insertionSort _ items

theorem sortBy_of_pairwise {items : List α} (sorted : items.Pairwise (le · · = true)) : sortBy le items = items := by
  rw [sortBy_eq_insertionSort, sorted.insertionSort_eq]

/-- Sorting by a key sorts the keys. -/
theorem map_sortBy {key : α → β} {le : β → β → Bool} (items : List α) :
    (sortBy (fun one two => le (key one) (key two)) items).map key = sortBy le (items.map key) := by
  rw [sortBy_eq_insertionSort, sortBy_eq_insertionSort]
  exact List.map_insertionSort _ _ key items fun _ _ _ _ => Iff.rfl

/-- Items of which each may stand before each keep their places among themselves. -/
theorem filter_sortBy {p : α → Bool} (alike : ∀ one two, p one = true → p two = true → le one two = true) (items : List α) :
    (sortBy le items).filter p = items.filter p := by
  have ordered : (items.filter p).Pairwise (le · · = true) :=
    List.pairwise_of_forall_mem_list fun one first two second =>
      alike one two (List.of_mem_filter first) (List.of_mem_filter second)
  have among := (List.sublist_insertionSort ordered List.filter_sublist).filter p
  simp only [← sortBy_eq_insertionSort, List.filter_filter, Bool.and_self] at among
  exact (among.eq_of_length ((sortBy_perm items).filter p).length_eq.symm).symm

section
variable (total : ∀ one two, le one two = true ∨ le two one = true)
  (trans : ∀ one two three, le one two = true → le two three = true → le one three = true)
include total trans

theorem sortBy_pairwise (items : List α) : (sortBy le items).Pairwise (le · · = true) := by
  have : Std.Total fun one two => le one two = true := ⟨total⟩
  have : IsTrans α fun one two => le one two = true := ⟨trans⟩
  rw [sortBy_eq_insertionSort]
  exact List.pairwise_insertionSort _ items

/-- Items that stand equal keep the order that they came in. -/
theorem sortBy_stable {prior : α → α → Prop} {items : List α} (came : items.Pairwise prior) :
    (sortBy le items).Pairwise fun one two => le one two = true ∧ (le two one = true → prior one two) := by
  rw [List.pairwise_iff_forall_sublist]
  intro one two pair
  have before : le one two = true := List.pairwise_iff_forall_sublist.mp (sortBy_pairwise total trans items) pair
  refine ⟨before, fun behind => ?_⟩
  -- what stands equal to the first is in the same order in both lists
  let equal (item : α) : Bool := le one item && le item one
  have alike : ∀ item other, equal item = true → equal other = true → le item other = true := by
    intro item other here there
    exact trans item one other (Bool.and_eq_true _ _ ▸ here).2 (Bool.and_eq_true _ _ ▸ there).1
  have among := pair.filter equal
  rw [filter_sortBy alike] at among
  have self : le one one = true := (total one one).elim id id
  have both : [one, two].filter equal = [one, two] := by simp [equal, self, before, behind]
  rw [both] at among
  exact List.pairwise_iff_forall_sublist.mp came (among.trans List.filter_sublist)

end

/-- A list that is sorted by a key is settled by the items of each key. -/
theorem eq_of_sorted_of_filter [DecidableEq β] {key : α → β} {before : β → β → Bool}
    (antisymm : ∀ one two, before one two = true → before two one = true → one = two) {one two : List α}
    (first : one.Pairwise fun item other => before (key item) (key other) = true)
    (second : two.Pairwise fun item other => before (key item) (key other) = true)
    (same : ∀ value, one.filter (fun item => key item = value) = two.filter fun item => key item = value) : one = two := by
  have mem_of_filter : ∀ {front back : List α} {item : α},
      (∀ value, front.filter (fun item => key item = value) = back.filter fun item => key item = value) →
      item ∈ front → item ∈ back := by
    intro front back item same member
    have chosen : item ∈ front.filter fun other => key other = key item := List.mem_filter.mpr ⟨member, by simp⟩
    rw [same] at chosen
    exact (List.mem_filter.mp chosen).1
  induction one generalizing two with
  | nil =>
    cases two with
    | nil => rfl
    | cons other two => cases mem_of_filter (fun value => (same value).symm) (List.mem_cons_self ..)
  | cons item one ih =>
    cases two with
    | nil => cases mem_of_filter same (List.mem_cons_self ..)
    | cons other two =>
      obtain ⟨least, onward⟩ := List.pairwise_cons.mp first
      obtain ⟨smallest, further⟩ := List.pairwise_cons.mp second
      have keys : key item = key other := by
        rcases List.mem_cons.mp (mem_of_filter same (List.mem_cons_self ..)) with rfl | behind
        · rfl
        · rcases List.mem_cons.mp (mem_of_filter (fun value => (same value).symm) (List.mem_cons_self ..)) with rfl | after
          · rfl
          · exact antisymm _ _ (least other after) (smallest item behind)
      have heads := same (key item)
      rw [List.filter_cons_of_pos (by simp), List.filter_cons_of_pos (by simp [keys])] at heads
      obtain ⟨rfl, -⟩ := List.cons.inj heads
      refine congrArg (item :: ·) (ih onward further fun value => ?_)
      have tails := same value
      rw [List.filter_cons, List.filter_cons] at tails
      split at tails
      next => exact (List.cons.inj tails).2
      next => exact tails

end Graft
