import Graft.Proofs.ChunkShapes
import Graft.Proofs.NearLines

/-! The changes alone. Groups of blocks hold the changed lines and the common lines near one, each once and in order; a
new group starts only where lines are left out. So the changed lines are those of the chunks, and nothing is written
exactly for equal texts. -/

namespace Graft

namespace Block
variable {α : Type} {context : Nat}

theorem tagged_keep_common (items : List α) : ∀ item ∈ (keep items).tagged, item.1 = .context := tag_of_isKept rfl

theorem eq_change_of_turn {items : List α} {block : Block α} {blocks : List (Block α)}
    (inTurn : InTurn (keep items :: block :: blocks)) : ∃ removed added, block = change removed added := by
  have other := (List.isChain_cons.mp inTurn.turns).1 block rfl
  cases block with
  | keep => exact absurd rfl other
  | change removed added => exact ⟨removed, added, rfl⟩

theorem tag_ne_of_change {removed added : List α} {line : Tag × α} (member : line ∈ (change removed added).tagged) :
    line.1 ≠ .context := by
  rw [tagged, List.mem_append, List.mem_map, List.mem_map] at member
  rcases member with ⟨item, _, rfl⟩ | ⟨item, _, rfl⟩
  all_goals
    intro never
    cases never

theorem shownFrom_change (before after : List (Tag × α)) (removed added : List α) :
    Tag.shownFrom context (before ++ ((change removed added).tagged ++ after)) before.length
      (change removed added).tagged = (change removed added).tagged.map some := by
  refine Tag.shownFrom_all fun k inside => ?_
  have here : (before ++ ((change removed added).tagged ++ after))[before.length + k]? =
      (change removed added).tagged[k]? := by
    rw [List.getElem?_append_right (Nat.le_add_right ..), Nat.add_sub_cancel_left, List.getElem?_append_left inside]
  obtain ⟨line, found⟩ : ∃ line, (change removed added).tagged[k]? = some line := ⟨_, List.getElem?_eq_getElem inside⟩
  exact Tag.isNear_changed (here.trans found) (tag_ne_of_change (List.mem_of_getElem? found))

theorem mapLast_change (removed added : List α) (blocks : List (Block α)) :
    mapLast (keepStart context) (change removed added :: blocks) =
      change removed added :: mapLast (keepStart context) blocks := by
  cases blocks <;> rfl

/-- Some blocks are a group that can be continued, and the lines before end with a change. -/
structure Begun (group : List (Block α)) (before : List (Tag × α)) : Prop where
  changed : ∃ block ∈ group, block.isKept = false ∧ block.tagged ≠ []
  ends : ∃ line, before.getLast? = some line ∧ line.1 ≠ .context

theorem groupsFrom_nil {group : List (Block α)} (changed : ∃ block ∈ group, block.isKept = false) :
    groupsFrom context group [] = [group] := by
  obtain ⟨block, member, changed⟩ := changed
  unfold groupsFrom
  split
  next => cases member
  next =>
    cases List.mem_singleton.mp member
    cases changed
  next => rfl

theorem Begun.filled {group : List (Block α)} {before : List (Tag × α)} (begun : Begun group before)
    (more : List (Tag × α)) : group.flatMap tagged ++ more ≠ [] := by
  obtain ⟨block, member, -, filled⟩ := begun.changed
  intro none
  exact filled (List.flatMap_eq_nil_iff.mp (List.append_eq_nil_iff.mp none).1 block member)

theorem Begun.change {group : List (Block α)} {before : List (Tag × α)} {removed added : List α}
    (filled : (change removed added).tagged ≠ []) :
    Begun (group ++ [change removed added]) (before ++ (change removed added).tagged) := by
  refine ⟨⟨_, List.mem_append_right _ (List.mem_singleton_self _), rfl, filled⟩, ?_⟩
  obtain ⟨line, last⟩ := List.getLast?_isSome.mpr filled |> Option.isSome_iff_exists.mp
  exact ⟨line, by rw [List.getLast?_append_of_ne_nil _ filled, last], tag_ne_of_change (List.mem_of_getLast? last)⟩

theorem head?_change {removed added : List α} (filled : (change removed added).tagged ≠ []) (blocks : List (Block α)) :
    ∃ line, ((change removed added :: blocks).flatMap tagged).head? = some line ∧ line.1 ≠ .context := by
  obtain ⟨line, rest, first⟩ := List.exists_cons_of_ne_nil filled
  refine ⟨line, by rw [List.flatMap_cons, first]; rfl, ?_⟩
  exact tag_ne_of_change (first ▸ List.mem_cons_self ..)

/-- Of the kept run at the end, the first lines go into the last group. -/
theorem groupsFrom_last {group : List (Block α)} {before : List (Tag × α)} (begun : Begun group before)
    (items : List α) : (groupsFrom context group (mapLast (keepStart context) [keep items])).map (List.flatMap tagged) =
      Tag.groupsFrom (group.flatMap tagged) (Tag.shownFrom context (before ++ [keep items].flatMap tagged) before.length
        ([keep items].flatMap tagged)) := by
  obtain ⟨block, member, changed, -⟩ := begun.changed
  have few : ¬context * 2 < (items.take context).length := by
    rw [List.length_take]
    omega
  have pieces : (keep items).tagged = (keep (items.take context)).tagged ++ (keep (items.drop context)).tagged := by
    simp only [tagged, ← List.map_append, List.take_append_drop]
  have shown := @Tag.shownFrom_last _ context before (keep (items.take context)).tagged
    (keep (items.drop context)).tagged (pieces ▸ tagged_keep_common items) begun.ends
    (by rw [tagged, List.length_map, List.length_take]; exact Nat.min_le_left ..)
    (fun some => by
      have more : context < items.length := by simpa [tagged] using some
      simp only [tagged, List.length_map, List.length_take]
      omega)
  rw [mapLast, keepStart, groupsFrom, if_neg few, groupsFrom_nil ⟨block, List.mem_append_left _ member, changed⟩,
    List.flatMap_singleton, pieces, shown, Tag.groupsFrom_some, Tag.groupsFrom_none_end,
    Tag.closed_filled (begun.filled _), List.map_singleton, List.flatMap_append, List.flatMap_singleton]

theorem take_between_drop {items : List α} (long : context * 2 < items.length) :
    ∃ between, between ≠ [] ∧ items = items.take context ++ (between ++ items.drop (items.length - context)) := by
  refine ⟨(items.drop context).take (items.length - context - context), ?_, ?_⟩
  · refine List.ne_nil_of_length_pos ?_
    rw [List.length_take, List.length_drop]
    omega
  · have later : items.drop (items.length - context) = (items.drop context).drop (items.length - context - context) := by
      rw [List.drop_drop]
      congr 1
      omega
    rw [later, List.take_append_drop, List.take_append_drop]

/-- A kept run between two changes divides the groups if it is long. Otherwise the group goes on. -/
theorem groupsFrom_between {group later : List (Block α)} {before after : List (Tag × α)} (begun : Begun group before)
    (items : List α) (closes : ∃ line, after.head? = some line ∧ line.1 ≠ .context)
    (rest : ∀ (group : List (Block α)) before, (groupsFrom context group later).map (List.flatMap tagged) =
      Tag.groupsFrom (group.flatMap tagged) (Tag.shownFrom context (before ++ after) before.length after)) :
    (groupsFrom context group (keep items :: later)).map (List.flatMap tagged) =
      Tag.groupsFrom (group.flatMap tagged)
        (Tag.shownFrom context (before ++ ((keep items).tagged ++ after)) before.length ((keep items).tagged ++ after)) := by
  have behind := fun group => rest group (before ++ (keep items).tagged)
  simp only [List.length_append, List.append_assoc] at behind
  rw [groupsFrom, Tag.shownFrom_append]
  split
  next long =>
    obtain ⟨between, filled, split⟩ := take_between_drop long
    have pieces : (keep items).tagged = (keep (items.take context)).tagged ++
        ((keep between).tagged ++ (keep (items.drop (items.length - context))).tagged) := by
      simp only [tagged, ← List.map_append, ← split]
    have front : (keep (items.take context)).tagged.length = context := by
      rw [tagged, List.length_map, List.length_take]
      omega
    have back : (keep (items.drop (items.length - context))).tagged.length = context := by
      rw [tagged, List.length_map, List.length_drop]
      omega
    have shown := Tag.shownFrom_between (pieces ▸ tagged_keep_common items) begun.ends closes front back
    rw [← pieces] at shown
    rw [shown, List.append_assoc, Tag.groupsFrom_some, List.append_assoc,
      Tag.groupsFrom_none (by simpa [tagged] using filled), Tag.groupsFrom_some, List.nil_append,
      Tag.closed_filled (begun.filled _), List.map_cons, List.flatMap_append, List.flatMap_singleton, behind,
      List.flatMap_singleton]
    rfl
  next short =>
    have shown := Tag.shownFrom_joined (tagged_keep_common items) begun.ends closes
      (by simpa only [tagged, List.length_map, Nat.not_lt] using short)
    rw [shown, Tag.groupsFrom_some, behind, List.flatMap_append, List.flatMap_singleton]

/-- Groups of blocks hold the lines that are near a change. Blocks begin with a change or go on behind one. -/
theorem groupsFrom_shown {blocks : List (Block α)} (inTurn : InTurn blocks) {group : List (Block α)}
    {before : List (Tag × α)}
    (begun : Begun group before ∨ ∃ removed added, blocks.head? = some (change removed added)) :
    (groupsFrom context group (mapLast (keepStart context) blocks)).map (List.flatMap tagged) =
      Tag.groupsFrom (group.flatMap tagged)
        (Tag.shownFrom context (before ++ blocks.flatMap tagged) before.length (blocks.flatMap tagged)) := by
  induction blocks generalizing group before with
  | nil =>
    obtain begun | ⟨_, _, none⟩ := begun
    · obtain ⟨block, member, changed, -⟩ := begun.changed
      have filled := begun.filled []
      rw [List.append_nil] at filled
      rw [mapLast, groupsFrom_nil ⟨block, member, changed⟩]
      exact (Tag.closed_filled filled).symm
    · cases none
  | cons block blocks ih =>
    have filled := (List.forall_mem_cons.mp inTurn.filled).1
    have step : before ++ (block :: blocks).flatMap tagged = before ++ block.tagged ++ blocks.flatMap tagged := by
      rw [List.flatMap_cons, List.append_assoc]
    cases block with
    | change removed added =>
      have rest := @ih inTurn.tail (group ++ [change removed added]) (before ++ (change removed added).tagged)
        (.inl (.change filled))
      rw [mapLast_change, groupsFrom, rest, List.flatMap_cons, Tag.shownFrom_append, shownFrom_change,
        Tag.groupsFrom_some, List.flatMap_append, List.flatMap_singleton, List.length_append, List.append_assoc]
      exact nofun
    | keep items =>
      obtain begun | ⟨_, _, none⟩ := begun
      swap
      · cases none
      cases blocks with
      | nil => exact groupsFrom_last begun items
      | cons next blocks =>
        obtain ⟨removed, added, rfl⟩ := eq_change_of_turn inTurn
        have closes := head?_change (inTurn.filled _ (List.mem_cons_of_mem _ (List.mem_cons_self ..))) blocks
        exact groupsFrom_between begun items closes fun group before =>
          @ih inTurn.tail group before (.inr ⟨removed, added, rfl⟩)

theorem groupsFrom_first {later : List (Block α)} {after : List (Tag × α)} (items : List α)
    (closes : ∃ line, after.head? = some line ∧ line.1 ≠ .context)
    (rest : ∀ (group : List (Block α)) before, (groupsFrom context group later).map (List.flatMap tagged) =
      Tag.groupsFrom (group.flatMap tagged) (Tag.shownFrom context (before ++ after) before.length after)) :
    (groupsFrom context [] (keepEnd context (keep items) :: later)).map (List.flatMap tagged) =
      Tag.groupsFrom [] (Tag.shown context ((keep items).tagged ++ after)) := by
  have few : ¬context * 2 < (items.drop (items.length - context)).length := by
    rw [List.length_drop]
    omega
  have pieces : (keep items).tagged =
      (keep (items.take (items.length - context))).tagged ++ (keep (items.drop (items.length - context))).tagged := by
    simp only [tagged, ← List.map_append, List.take_append_drop]
  have short : (keep (items.drop (items.length - context))).tagged.length ≤ context := by
    rw [tagged, List.length_map, List.length_drop]
    omega
  have long : (keep (items.take (items.length - context))).tagged ≠ [] →
      (keep (items.drop (items.length - context))).tagged.length = context := by
    intro filled
    have more := List.length_pos_iff.mpr filled
    simp only [tagged, List.length_map, List.length_take, List.length_drop] at more ⊢
    omega
  have shown := Tag.shownFrom_first (pieces ▸ tagged_keep_common items) closes short long
  have behind := rest [keep (items.drop (items.length - context))] (keep items).tagged
  rw [List.flatMap_singleton] at behind
  rw [← pieces] at shown
  rw [keepEnd, groupsFrom, if_neg few, List.nil_append, behind, Tag.shown, Tag.shownFrom_append, shown, List.append_assoc,
    Tag.groupsFrom_none_start, Tag.groupsFrom_some, List.nil_append, Nat.zero_add]

theorem groups_keep (items : List α) : groups context [keep items] = [] := by
  have few : ¬context * 2 < ((items.drop (items.length - context)).take context).length := by
    rw [List.length_take]
    omega
  rw [groups, mapHead, keepEnd, mapLast, keepStart, groupsFrom, if_neg few]
  rfl

/-- Groups of blocks are the longest groups of lines that are near a change. -/
theorem groups_shown {blocks : List (Block α)} (inTurn : InTurn blocks) :
    (groups context blocks).map (List.flatMap tagged) =
      Tag.groupsFrom [] (Tag.shown context (blocks.flatMap tagged)) := by
  cases blocks with
  | nil => rfl
  | cons block blocks =>
    cases block with
    | change removed added => exact @groupsFrom_shown _ context _ inTurn [] [] (.inr ⟨removed, added, rfl⟩)
    | keep items =>
      cases blocks with
      | nil =>
        have far : ∀ k, k < (keep items).tagged.length → ¬Tag.isNear context (keep items).tagged (0 + k) := by
          intro k _ near
          obtain ⟨_, line, here, changed, -⟩ := Tag.isNear_iff.mp near
          exact changed (tagged_keep_common items line (List.mem_of_getElem? here))
        rw [groups_keep, List.flatMap_singleton, Tag.shown, Tag.shownFrom_none far, Tag.groupsFrom_none_end]
        rfl
      | cons next blocks =>
        obtain ⟨removed, added, rfl⟩ := eq_change_of_turn inTurn
        have closes := head?_change (inTurn.filled _ (List.mem_cons_of_mem _ (List.mem_cons_self ..))) blocks
        exact groupsFrom_first items closes fun group before =>
          @groupsFrom_shown _ context _ inTurn.tail group before (.inr ⟨removed, added, rfl⟩)

end Block
namespace Diff

/-- The groups of the changes of two texts, with the lines of each. -/
def changeGroups (old new : Text) : List (List (Tag × Text)) :=
  (Block.groups 3 (blocks old new)).map (List.flatMap Block.tagged)

theorem unified_eq (old new : Text) : unified old new =
    Text.join "...\n".toList ((changeGroups old new).map fun group =>
      group.flatMap fun line => unifiedLine line.1 line.2) := by
  rw [unified, changeGroups, List.map_map]
  rfl

theorem changeGroups_eq (old new : Text) :
    changeGroups old new = Tag.groupsFrom [] (Tag.shown 3 (tagged old new)) :=
  Block.groups_shown (blocks_inTurn old new)

theorem flatten_changeGroups (old new : Text) :
    (changeGroups old new).flatten = (Tag.shown 3 (tagged old new)).filterMap id := by
  rw [changeGroups_eq, Tag.flatten_groupsFrom, List.nil_append]

theorem tagged_self (text : Text) : ∀ line ∈ tagged text text, line.1 = Tag.context := by
  rw [tagged, blocks_self, Script.tagged_keep]
  intro line member
  obtain ⟨_, _, rfl⟩ := List.mem_map.mp member
  rfl

theorem changeGroups_eq_nil (old new : Text) : changeGroups old new = [] ↔ old = new := by
  constructor
  · intro none
    refine eq_of_common fun line member => ?_
    have unchanged := @Tag.shown_changed _ 3 (tagged old new)
    rw [← flatten_changeGroups, none, List.flatten_nil, List.filter_nil] at unchanged
    simpa using List.filter_eq_nil_iff.mp unchanged.symm line member
  · rintro rfl
    have far : ∀ k, k < (tagged old old).length → ¬Tag.isNear 3 (tagged old old) (0 + k) := by
      intro k _ near
      obtain ⟨_, line, here, changed, -⟩ := Tag.isNear_iff.mp near
      exact changed (tagged_self old line (List.mem_of_getElem? here))
    rw [changeGroups_eq, Tag.shown, Tag.shownFrom_none far, Tag.groupsFrom_none_end]
    rfl

theorem changeGroups_common (old new : Text) : (changeGroups old new).flatten.filter (fun line => line.1 = .context) =
    ((tagged old new).zipIdx.filter fun line => line.1.1 = .context ∧ Tag.isNear 3 (tagged old new) line.2).map
      Prod.fst := by
  rw [flatten_changeGroups, Tag.shown_lines, List.filter_map, List.filter_filter]
  simp only [Function.comp_apply, Bool.decide_and, Bool.decide_eq_true]

theorem changeGroups_changed (old new : Text) :
    ((changeGroups old new).flatten.filter fun line => line.1 ≠ .context).map
        (fun line => (line.1, Line.content line.2)) =
      (linesOf (chunks old new)).filter fun line => line.1 ≠ .context := by
  rw [flatten_changeGroups, Tag.shown_changed, chunks_eq, linesOf_gather, List.filter_map, Function.comp_def]

theorem join_eq_nil {separator : Text} {pieces : List Text} (filled : ∀ piece ∈ pieces, piece ≠ [])
    (none : Text.join separator pieces = []) : pieces = [] := by
  cases pieces with
  | nil => rfl
  | cons piece pieces =>
    have some := filled piece (List.mem_cons_self ..)
    cases pieces with
    | nil => exact absurd none some
    | cons => simp [Text.join, some] at none

theorem unified_eq_nil (old new : Text) : unified old new = [] ↔ old = new := by
  refine Iff.trans ?_ (changeGroups_eq_nil old new)
  rw [unified_eq]
  have filled : ∀ piece ∈ (changeGroups old new).map fun group => group.flatMap fun line => unifiedLine line.1 line.2,
      piece ≠ [] := by
    intro piece member
    obtain ⟨group, listed, rfl⟩ := List.mem_map.mp member
    rw [changeGroups_eq] at listed
    obtain ⟨line, lines, rfl⟩ := List.exists_cons_of_ne_nil (Tag.ne_nil_of_mem_groupsFrom group listed)
    simp [unifiedLine]
  constructor
  · intro none
    have unwritten := join_eq_nil filled none
    exact List.map_eq_nil_iff.mp unwritten
  · intro none
    rw [none, List.map_nil, Text.join]

/-- The changes alone tell the same as the chunks. They are written in groups, which are the longest runs of lines with
at most three lines to a changed one, each line behind its sign and with a line break. The changed lines of all groups
are those of the chunks, each once and in their order; the common lines are those with a changed line at most three lines
away. Nothing is written exactly for equal texts. -/
theorem unified_groups (old new : Text) :
    unified old new = Text.join "...\n".toList ((changeGroups old new).map fun group =>
      group.flatMap fun line => unifiedLine line.1 line.2) ∧
    changeGroups old new = Tag.groupsFrom [] (Tag.shown 3 (tagged old new)) ∧
    ((changeGroups old new).flatten.filter fun line => line.1 ≠ .context).map
        (fun line => (line.1, Line.content line.2)) =
      (linesOf (chunks old new)).filter (fun line => line.1 ≠ .context) ∧
    (changeGroups old new).flatten.filter (fun line => line.1 = .context) =
      ((tagged old new).zipIdx.filter fun line => line.1.1 = .context ∧ Tag.isNear 3 (tagged old new) line.2).map
        Prod.fst ∧
    (unified old new = [] ↔ old = new) :=
  ⟨unified_eq old new, changeGroups_eq old new, changeGroups_changed old new, changeGroups_common old new,
    unified_eq_nil old new⟩

end Diff
end Graft
