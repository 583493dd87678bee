/-! Tables. A table has an entry for each number below a limit. The entries are the leaves of a tree, in which comparing
a number with the middle leads to its entry. -/

namespace Graft.Grammar

/-- Entries for some numbers, halved as long as there is more than one. -/
inductive Entries (α : Type) where
  | entry (it : α)
  | halves (low high : Entries α)

namespace Entries
variable {α : Type}

/-- The entries for a power of two of numbers, from a first number on. -/
def build (entry : Nat → α) : Nat → Nat → Entries α
  | 0, first => .entry (entry first)
  | bits + 1, first => .halves (build entry bits first) (build entry bits (first + 1 <<< bits))

def group : Nat → Nat → List (Nat × α) → Entries (List α)
  | 0, _, items => .entry (items.map Prod.snd)
  | bits + 1, first, items =>
    .halves (group bits first (items.filter fun item => item.1 < first + 1 <<< bits))
      (group bits (first + 1 <<< bits) (items.filter fun item => first + 1 <<< bits ≤ item.1))

def get : Entries α → Nat → Nat → Nat → α
  | entry it, _, _, _ => it
  | halves low _, 0, first, index => low.get 0 first index
  | halves low high, bits + 1, first, index =>
    if index < first + 1 <<< bits then low.get bits first index else high.get bits (first + 1 <<< bits) index

/-- The union of the sets whose numbers are in a set. -/
def union : Entries Nat → Nat → Nat → Nat
  | entry it, _, chosen => if chosen.testBit 0 then it else 0
  | halves low _, 0, chosen => low.union 0 chosen
  | halves low high, bits + 1, chosen =>
    if chosen = 0 then 0
    else low.union bits (chosen % (1 <<< (1 <<< bits))) ||| high.union bits (chosen >>> (1 <<< bits))

theorem get_build {entry : Nat → α} {bits first index : Nat} (above : first ≤ index) (below : index < first + 1 <<< bits) :
    (build entry bits first).get bits first index = entry index := by
  induction bits generalizing first with
  | zero =>
    obtain rfl : index = first := by omega
    rfl
  | succ bits ih =>
    rw [Nat.shiftLeft_succ] at below
    rw [build, get]
    split
    next low => exact ih above low
    next high => exact ih (Nat.le_of_not_lt high) (by omega)

theorem get_group {bits first index : Nat} {items : List (Nat × α)} (above : first ≤ index)
    (below : index < first + 1 <<< bits) (within : ∀ item ∈ items, first ≤ item.1 ∧ item.1 < first + 1 <<< bits) :
    (group bits first items).get bits first index = (items.filter fun item => item.1 = index).map Prod.snd := by
  induction bits generalizing first items with
  | zero =>
    have all : ∀ item ∈ items, decide (item.1 = index) = true := by
      intro item member
      have here := within item member
      exact decide_eq_true (by omega)
    rw [group, get, List.filter_eq_self.mpr all]
  | succ bits ih =>
    rw [Nat.shiftLeft_succ] at below within
    rw [group, get]
    split
    next low =>
      rw [ih above low, List.filter_filter]
      · refine congrArg (List.map Prod.snd) (List.filter_congr fun item _ => ?_)
        rw [← Bool.decide_and, decide_eq_decide]
        omega
      · intro item member
        obtain ⟨listed, near⟩ := List.mem_filter.mp member
        exact ⟨(within item listed).1, of_decide_eq_true near⟩
    next high =>
      rw [ih (Nat.le_of_not_lt high) (by omega), List.filter_filter]
      · refine congrArg (List.map Prod.snd) (List.filter_congr fun item _ => ?_)
        rw [← Bool.decide_and, decide_eq_decide]
        omega
      · intro item member
        obtain ⟨listed, near⟩ := List.mem_filter.mp member
        have here := within item listed
        have bound := of_decide_eq_true near
        omega

/-- What is in the union is in the entry of a chosen number. -/
theorem testBit_union_build {entry : Nat → Nat} {bits first chosen bit : Nat}
    (inside : ((build entry bits first).union bits chosen).testBit bit = true) :
    ∃ index, chosen.testBit index = true ∧ (entry (first + index)).testBit bit = true := by
  induction bits generalizing first chosen with
  | zero =>
    rw [build, union] at inside
    split at inside
    next here => exact ⟨0, here, inside⟩
    next => simp at inside
  | succ bits ih =>
    rw [build, union] at inside
    split at inside
    next => simp at inside
    next =>
      rw [Nat.testBit_or, Bool.or_eq_true] at inside
      rcases inside with low | high
      · obtain ⟨index, here, found⟩ := ih low
        rw [Nat.one_shiftLeft, Nat.testBit_mod_two_pow, Bool.and_eq_true] at here
        exact ⟨index, here.2, found⟩
      · obtain ⟨index, here, found⟩ := ih high
        rw [Nat.testBit_shiftRight] at here
        exact ⟨1 <<< bits + index, here, by rwa [← Nat.add_assoc]⟩

end Entries

/-- A table with an entry for each number below a limit. -/
structure Table (α : Type) where
  limit : Nat
  entries : Entries α

namespace Table
variable {α : Type}

def bits (limit : Nat) : Nat := limit.log2 + 1

theorem lt_bits {limit index : Nat} (small : index < limit) : index < 0 + 1 <<< bits limit := by
  rw [Nat.zero_add, bits, Nat.one_shiftLeft]
  exact Nat.lt_trans small Nat.lt_log2_self

def getD (table : Table α) (index : Nat) (other : α) : α :=
  if index < table.limit then table.entries.get (bits table.limit) 0 index else other

def group (limit : Nat) (items : List (Nat × α)) : Table (List α) :=
  ⟨limit, .group (bits limit) 0 (items.filter fun item => item.1 < limit)⟩

def union (table : Table Nat) (chosen : Nat) : Nat := table.entries.union (bits table.limit) chosen

theorem group_getD {limit index : Nat} {items : List (Nat × α)} (small : index < limit) :
    (group limit items).getD index [] = (items.filter fun item => item.1 = index).map Prod.snd := by
  have within : ∀ item ∈ items.filter fun item => item.1 < limit, 0 ≤ item.1 ∧ item.1 < 0 + 1 <<< bits limit :=
    fun item member => ⟨Nat.zero_le _, lt_bits (of_decide_eq_true (List.mem_filter.mp member).2)⟩
  refine (if_pos small).trans ((Entries.get_group (Nat.zero_le _) (lt_bits small) within).trans ?_)
  rw [List.filter_filter]
  refine congrArg (List.map Prod.snd) (List.filter_congr fun item _ => ?_)
  rw [← Bool.decide_and, decide_eq_decide]
  omega

theorem mem_group_getD {limit index : Nat} {items : List (Nat × α)} {item : α} (small : index < limit) :
    item ∈ (group limit items).getD index [] ↔ (index, item) ∈ items := by
  rw [group_getD small, List.mem_map]
  constructor
  · rintro ⟨⟨number, found⟩, member, rfl⟩
    obtain ⟨listed, same⟩ := List.mem_filter.mp member
    exact of_decide_eq_true same ▸ listed
  · exact fun listed => ⟨(index, item), List.mem_filter.mpr ⟨listed, decide_eq_true rfl⟩, rfl⟩

end Table

def tabulate {α : Type} (limit : Nat) (entry : Nat → α) : Table α := ⟨limit, .build entry (Table.bits limit) 0⟩

theorem tabulate_getD {α : Type} {limit index : Nat} {entry : Nat → α} {other : α} :
    (tabulate limit entry).getD index other = if index < limit then entry index else other := by
  by_cases small : index < limit
  · rw [if_pos small]
    exact (if_pos small).trans (Entries.get_build (Nat.zero_le _) (Table.lt_bits small))
  · rw [if_neg small]
    exact if_neg small

end Graft.Grammar
