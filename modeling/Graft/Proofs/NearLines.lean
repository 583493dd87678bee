import Graft.Proofs.ScriptSides

/-! Lines near a change. Common lines between two changes are near one of them at the ends of their run; the lines that
are near a change form groups, between which others are left out. -/

namespace Graft

namespace Tag
variable {α : Type}

/-- Whether a line is changed, or at most some lines away from one that is. -/
def isNear (context : Nat) (lines : List (Tag × α)) (i : Nat) : Bool :=
  lines.zipIdx.any fun (line, j) => line.1 ≠ .context ∧ i ≤ j + context ∧ j ≤ i + context

/-- Some lines of a whole, the first of which has a given place. The lines that are not near a change are left out. -/
def shownFrom (context : Nat) (whole : List (Tag × α)) (start : Nat) (lines : List (Tag × α)) :
    List (Option (Tag × α)) :=
  (lines.zipIdx start).map fun (line, i) => if isNear context whole i then some line else none

/-- The lines that are near a change, with gaps for the others. -/
def shown (context : Nat) (lines : List (Tag × α)) : List (Option (Tag × α)) := shownFrom context lines 0 lines

def closed (group : List α) : List (List α) := if group.isEmpty then [] else [group]

/-- The longest groups of items without a gap, the first of which may have begun before. -/
def groupsFrom (group : List α) : List (Option α) → List (List α)
  | [] => closed group
  | none :: items => closed group ++ groupsFrom [] items
  | some item :: items => groupsFrom (group ++ [item]) items

/-! ### Lines near a change -/

section
variable {context : Nat} {lines before items after : List (Tag × α)} {i : Nat}

theorem isNear_iff : isNear context lines i ↔
    ∃ j line, lines[j]? = some line ∧ line.1 ≠ .context ∧ i ≤ j + context ∧ j ≤ i + context := by
  rw [isNear, List.any_eq_true]
  constructor
  · rintro ⟨⟨line, j⟩, member, near⟩
    exact ⟨j, line, List.mem_zipIdx_iff_getElem?.mp member, of_decide_eq_true near⟩
  · rintro ⟨j, line, here, near⟩
    exact ⟨(line, j), List.mem_zipIdx_iff_getElem?.mpr here, decide_eq_true near⟩

theorem isNear_changed {line : Tag × α} (here : lines[i]? = some line) (changed : line.1 ≠ .context) :
    isNear context lines i :=
  isNear_iff.mpr ⟨i, line, here, changed, Nat.le_add_right .., Nat.le_add_right ..⟩

/-- Of common lines between changes or ends, those are near a change that are near one of the changes. -/
theorem isNear_common (common : ∀ item ∈ items, item.1 = .context)
    (opens : ∀ line, before.getLast? = some line → line.1 ≠ .context)
    (closes : ∀ line, after.head? = some line → line.1 ≠ .context) {k : Nat} (inside : k < items.length) :
    isNear context (before ++ (items ++ after)) (before.length + k) ↔
      (before ≠ [] ∧ k < context) ∨ (after ≠ [] ∧ items.length ≤ k + context) := by
  rw [isNear_iff]
  constructor
  · rintro ⟨j, line, here, changed, early, late⟩
    rcases Nat.lt_or_ge j before.length with front | behind
    · exact .inl ⟨List.ne_nil_of_length_pos (Nat.zero_lt_of_lt front), by omega⟩
    rw [List.getElem?_append_right behind] at here
    rcases Nat.lt_or_ge (j - before.length) items.length with middle | behind'
    · rw [List.getElem?_append_left middle] at here
      exact absurd (common line (List.mem_of_getElem? here)) changed
    · rw [List.getElem?_append_right behind'] at here
      obtain ⟨exists_, -⟩ := List.getElem?_eq_some_iff.mp here
      exact .inr ⟨List.ne_nil_of_length_pos (Nat.zero_lt_of_lt exists_), by omega⟩
  · rintro (⟨filled, near⟩ | ⟨filled, near⟩)
    · obtain ⟨front, line, rfl⟩ := List.eq_nil_or_concat before |>.resolve_left filled
      have size : (front.concat line).length = front.length + 1 := List.length_concat
      exact ⟨front.length, line, by simp, opens line (by simp), by omega, by omega⟩
    · obtain ⟨line, rest, rfl⟩ := List.exists_cons_of_ne_nil filled
      refine ⟨before.length + items.length, line, ?_, closes line rfl, by omega, by omega⟩
      rw [List.getElem?_append_right (by omega), List.getElem?_append_right (by omega)]
      simp

theorem shownFrom_append (start : Nat) (one two : List (Tag × α)) : shownFrom context lines start (one ++ two) =
    shownFrom context lines start one ++ shownFrom context lines (start + one.length) two := by
  simp [shownFrom, List.zipIdx_append]

theorem shownFrom_all {start : Nat} (near : ∀ k, k < items.length → isNear context lines (start + k)) :
    shownFrom context lines start items = items.map some := by
  induction items generalizing start with
  | nil => rfl
  | cons item items ih =>
    have first : isNear context lines start := near 0 (Nat.zero_lt_succ _)
    have rest := @ih (start + 1) fun k inside => by
      have := near (k + 1) (Nat.succ_lt_succ inside)
      rwa [Nat.add_comm k 1, ← Nat.add_assoc] at this
    rw [← List.singleton_append, shownFrom_append, List.length_singleton, rest]
    simp [shownFrom, first]

theorem shownFrom_none {start : Nat} (far : ∀ k, k < items.length → ¬isNear context lines (start + k)) :
    shownFrom context lines start items = items.map fun _ => none := by
  induction items generalizing start with
  | nil => rfl
  | cons item items ih =>
    have first : ¬isNear context lines start := far 0 (Nat.zero_lt_succ _)
    have rest := @ih (start + 1) fun k inside => by
      have := far (k + 1) (Nat.succ_lt_succ inside)
      rwa [Nat.add_comm k 1, ← Nat.add_assoc] at this
    rw [← List.singleton_append, shownFrom_append, List.length_singleton, rest]
    simp [shownFrom, first]

theorem shownFrom_last {one two : List (Tag × α)} (common : ∀ item ∈ one ++ two, item.1 = .context)
    (opens : ∃ line, before.getLast? = some line ∧ line.1 ≠ .context) (short : one.length ≤ context)
    (long : two ≠ [] → one.length = context) :
    shownFrom context (before ++ (one ++ two)) before.length (one ++ two) = one.map some ++ two.map fun _ => none := by
  obtain ⟨line, last, changed⟩ := opens
  have filled : before ≠ [] := List.ne_nil_of_mem (List.mem_of_getLast? last)
  have near := @isNear_common _ context before (one ++ two) [] common (by simp [last, changed]) nofun
  rw [List.append_nil, List.length_append] at near
  rw [shownFrom_append, shownFrom_all, shownFrom_none]
  · intro k inside
    have size := long (List.ne_nil_of_length_pos (Nat.zero_lt_of_lt inside))
    rw [Nat.add_assoc, near (by omega)]
    simp only [ne_eq, not_true_eq_false, false_and, or_false, not_and]
    omega
  · intro k inside
    exact (near (by omega)).mpr (.inl ⟨filled, by omega⟩)

theorem shownFrom_first {one two : List (Tag × α)} (common : ∀ item ∈ one ++ two, item.1 = .context)
    (closes : ∃ line, after.head? = some line ∧ line.1 ≠ .context) (short : two.length ≤ context)
    (long : one ≠ [] → two.length = context) :
    shownFrom context (one ++ two ++ after) 0 (one ++ two) = one.map (fun _ => none) ++ two.map some := by
  obtain ⟨line, first, changed⟩ := closes
  have filled : after ≠ [] := List.ne_nil_of_mem (List.mem_of_mem_head? first)
  have near := @isNear_common _ context [] (one ++ two) after common nofun (by simp [first, changed])
  rw [List.length_append, List.length_nil, List.nil_append] at near
  rw [shownFrom_append, shownFrom_none, shownFrom_all]
  · intro k inside
    rw [Nat.add_assoc]
    exact (near (by omega)).mpr (.inr ⟨filled, by omega⟩)
  · intro k inside
    have size := long (List.ne_nil_of_length_pos (Nat.zero_lt_of_lt inside))
    rw [near (by omega)]
    simp only [ne_eq, not_true_eq_false, false_and, false_or, not_and]
    omega

theorem shownFrom_between {one two three : List (Tag × α)} (common : ∀ item ∈ one ++ (two ++ three), item.1 = .context)
    (opens : ∃ line, before.getLast? = some line ∧ line.1 ≠ .context)
    (closes : ∃ line, after.head? = some line ∧ line.1 ≠ .context) (first : one.length = context)
    (last : three.length = context) :
    shownFrom context (before ++ (one ++ (two ++ three) ++ after)) before.length (one ++ (two ++ three)) =
      one.map some ++ (two.map (fun _ => none) ++ three.map some) := by
  obtain ⟨line, ends, changed⟩ := opens
  obtain ⟨line', starts, changed'⟩ := closes
  have filled : before ≠ [] := List.ne_nil_of_mem (List.mem_of_getLast? ends)
  have filled' : after ≠ [] := List.ne_nil_of_mem (List.mem_of_mem_head? starts)
  have near := @isNear_common _ context before (one ++ (two ++ three)) after common (by simp [ends, changed])
    (by simp [starts, changed'])
  simp only [List.length_append] at near
  rw [shownFrom_append, shownFrom_append, shownFrom_all, shownFrom_none, shownFrom_all]
  · intro k inside
    rw [Nat.add_assoc, Nat.add_assoc]
    exact (near (by omega)).mpr (.inr ⟨filled', by omega⟩)
  · intro k inside
    rw [Nat.add_assoc, near (by omega)]
    omega
  · intro k inside
    exact (near (by omega)).mpr (.inl ⟨filled, by omega⟩)

theorem shownFrom_joined (common : ∀ item ∈ items, item.1 = .context)
    (opens : ∃ line, before.getLast? = some line ∧ line.1 ≠ .context)
    (closes : ∃ line, after.head? = some line ∧ line.1 ≠ .context) (short : items.length ≤ context * 2) :
    shownFrom context (before ++ (items ++ after)) before.length items = items.map some := by
  obtain ⟨line, ends, changed⟩ := opens
  obtain ⟨line', starts, changed'⟩ := closes
  refine shownFrom_all fun k inside => ?_
  rw [isNear_common common (by simp [ends, changed]) (by simp [starts, changed']) inside]
  rcases Nat.lt_or_ge k context with early | late
  · exact .inl ⟨List.ne_nil_of_mem (List.mem_of_getLast? ends), early⟩
  · exact .inr ⟨List.ne_nil_of_mem (List.mem_of_mem_head? starts), by omega⟩

/-- What is shown are the lines near a change, each once and in order. -/
theorem shown_lines : (shown context lines).filterMap id =
    (lines.zipIdx.filter fun line => isNear context lines line.2).map Prod.fst := by
  rw [shown, shownFrom]
  generalize lines.zipIdx = places
  induction places with
  | nil => rfl
  | cons place places ih =>
    rw [List.map_cons, List.filterMap_cons, ih, List.filter_cons]
    split <;> simp_all

/-- No changed line is left out. -/
theorem shown_changed : ((shown context lines).filterMap id).filter (fun line => line.1 ≠ .context) =
    lines.filter fun line => line.1 ≠ .context := by
  have near : ∀ line ∈ lines.zipIdx,
      (decide (line.1.1 ≠ .context) && isNear context lines line.2) = decide (line.1.1 ≠ .context) := by
    rintro ⟨line, i⟩ member
    cases changed : decide (line.1 ≠ .context) with
    | false => rfl
    | true => exact isNear_changed (List.mem_zipIdx_iff_getElem?.mp member) (of_decide_eq_true changed)
  calc ((shown context lines).filterMap id).filter (fun line => line.1 ≠ .context)
      = (lines.zipIdx.filter fun line => line.1.1 ≠ .context).map Prod.fst := by
        rw [shown_lines, List.filter_map, List.filter_filter]
        exact congrArg _ (List.filter_congr near)
    _ = (lines.zipIdx.map Prod.fst).filter fun line => line.1 ≠ .context := by
        rw [List.filter_map]
        rfl
    _ = lines.filter fun line => line.1 ≠ .context := by rw [List.zipIdx_map_fst]

end

/-! ### Groups -/

section
variable {group items : List α} {rest : List (Option α)}

theorem closed_filled (filled : group ≠ []) : closed group = [group] := if_neg (by simpa using filled)

theorem groupsFrom_some : groupsFrom group (items.map some ++ rest) = groupsFrom (group ++ items) rest := by
  induction items generalizing group with
  | nil => simp
  | cons item items ih => rw [List.map_cons, List.cons_append, groupsFrom, ih, List.append_assoc, List.singleton_append]

theorem groupsFrom_none (filled : items ≠ []) :
    groupsFrom group (items.map (fun _ => none) ++ rest) = closed group ++ groupsFrom [] rest := by
  induction items generalizing group with
  | nil => exact absurd rfl filled
  | cons item items ih =>
    rw [List.map_cons, List.cons_append, groupsFrom]
    cases items with
    | nil => rfl
    | cons next items => rw [ih (List.cons_ne_nil _ _)]; rfl

theorem groupsFrom_none_end : groupsFrom group (items.map fun _ => none) = closed group := by
  cases items with
  | nil => rfl
  | cons item items =>
    have whole := @groupsFrom_none _ group (item :: items) [] (List.cons_ne_nil _ _)
    rw [List.append_nil] at whole
    exact whole.trans (List.append_nil _)

theorem groupsFrom_none_start : groupsFrom [] (items.map (fun _ => none) ++ rest) = groupsFrom [] rest := by
  cases items with
  | nil => rfl
  | cons item items => exact groupsFrom_none (List.cons_ne_nil _ _)

/-- Groups hold all items once, in their order. -/
theorem flatten_groupsFrom : (groupsFrom group rest).flatten = group ++ rest.filterMap id := by
  have alone : ∀ group : List α, (closed group).flatten = group := by
    intro group
    unfold closed
    split
    next empty => rw [List.isEmpty_iff.mp empty]; rfl
    next => simp
  induction rest generalizing group with
  | nil => simp [groupsFrom, alone]
  | cons item rest ih =>
    cases item with
    | none => simp [groupsFrom, alone, ih]
    | some item => simp [groupsFrom, ih]

theorem ne_nil_of_mem_groupsFrom : ∀ found ∈ groupsFrom group rest, found ≠ [] := by
  have alone : ∀ group : List α, ∀ found ∈ closed group, found ≠ [] := by
    intro group found member
    unfold closed at member
    split at member
    next => cases member
    next filled =>
      rw [List.mem_singleton.mp member]
      simpa using filled
  induction rest generalizing group with
  | nil => exact alone group
  | cons item rest ih =>
    cases item with
    | none => exact List.forall_mem_append.mpr ⟨alone group, ih⟩
    | some item => exact ih

end
end Tag
end Graft
