import Graft.Proofs.GrammarSets

/-! The items of a state. Each item of the state after a symbol has taken a step for the symbol: its first, or
one on from where it was before. A state in which a symbol can come is followed by one with items. -/

namespace Graft

/-- An item that was there before a symbol has taken a step for it. -/
def Item.Continues (item : Item) (below : State) (symbol : Symbol) : Prop :=
  ∃ prior ∈ below.items, prior.phrase = item.phrase ∧ item.count = prior.count + 1 ∧
    ∃ step strength, (item.step, step, strength) ∈ prior.ways ∧ step.symbol = symbol

/-- An item has taken its first step for a symbol. -/
def Item.Starts (item : Item) (below : State) (symbol : Symbol) : Prop :=
  item.count = 1 ∧ below.corners.testBit item.phrase = true ∧
    ∃ step, (item.step, step) ∈ Grammar.startsOf item.phrase ∧ step.symbol = symbol

theorem Item.mem_ways {item : Item} {next : Nat} {step : Step} {strength : Strength} :
    (next, step, strength) ∈ item.ways ↔ ∃ here, item.step? = some here ∧ (next, strength) ∈ here.next ∧
      Grammar.stepAt? item.phrase next = some step := by
  unfold ways
  split
  next none => simp [none]
  next here found =>
    simp only [List.mem_filterMap, Option.map_eq_some_iff, found, Option.some.injEq, exists_eq_left']
    constructor
    · rintro ⟨⟨next, strength⟩, way, step, reached, same⟩
      cases same
      exact ⟨way, reached⟩
    · rintro ⟨way, reached⟩
      exact ⟨(next, strength), way, step, reached, rfl⟩

theorem Item.mem_insert {item other : Item} {items : List Item} (member : other ∈ item.insert items) :
    ∃ alike, (alike = item ∨ alike ∈ items) ∧ other.phrase = alike.phrase ∧ other.step = alike.step ∧
      other.count = alike.count := by
  induction items with
  | nil => exact ⟨item, .inl rfl, by rw [List.mem_singleton.mp member]; exact ⟨rfl, rfl, rfl⟩⟩
  | cons first items ih =>
    rw [insert] at member
    split at member
    next =>
      rcases List.mem_cons.mp member with rfl | member
      · exact ⟨first, .inr (List.mem_cons_self ..), rfl, rfl, rfl⟩
      · exact ⟨other, .inr (List.mem_cons_of_mem _ member), rfl, rfl, rfl⟩
    next =>
      rcases List.mem_cons.mp member with rfl | member
      · exact ⟨other, .inr (List.mem_cons_self ..), rfl, rfl, rfl⟩
      · obtain ⟨alike, from_, same⟩ := ih member
        exact ⟨alike, from_.imp_right (List.mem_cons_of_mem _), same⟩

theorem Item.insert_ne_nil (item : Item) (items : List Item) : item.insert items ≠ [] := by
  cases items with
  | nil => simp [insert]
  | cons first items =>
    rw [insert]
    split <;> simp

namespace State

/-- The states that a machine comes to. -/
def Made (state : State) : Prop := state = .start ∨ ∃ items, items ≠ [] ∧ state = .ofItems items

/-- The fields of a state. At the start they are sets that are large to compute, and are not to be opened. -/
private theorem fields {state : State} {items : List Item} {corners : PhraseSet} {spines : List (Nat × TokenSet)}
    {valid : TokenSet} (same : state = ⟨items, corners, spines, valid⟩) :
    state.items = items ∧ state.corners = corners ∧ state.valid = valid := by
  rw [same]
  exact ⟨rfl, rfl, rfl⟩

private theorem start_fields : State.start.items = [] ∧
    State.start.corners = Grammar.cornersOf (Phrase.node .program).code ∧
    State.start.valid = Token.finish.set ||| Grammar.firstOf (.phrase (.node .program)) := by
  have same : State.start = ⟨[], Grammar.cornersOf (Phrase.node .program).code,
      [((Phrase.node .program).code, Token.finish.set)],
      Token.finish.set ||| Grammar.firstOf (.phrase (.node .program))⟩ := by
    delta start
    dsimp only
  exact fields same

theorem start_items : State.start.items = [] := start_fields.1

theorem start_corners : State.start.corners = Grammar.cornersOf (Phrase.node .program).code := start_fields.2.1

theorem start_valid : State.start.valid = Token.finish.set ||| Grammar.firstOf (.phrase (.node .program)) :=
  start_fields.2.2

def proceed (symbol : Symbol) (items : List Item) (item : Item) : List Item :=
  item.ways.foldl
    (fun items (next, step, _) =>
      if step.symbol = symbol then
        Item.insert { item with step := next, count := item.count + 1 } items
      else items) items

def begun (state : State) (symbol : Symbol) : List Item := state.items.foldl (proceed symbol) []

def started (state : State) (symbol : Symbol) : List Item :=
  (Grammar.startersOf symbol).filterMap fun (phrase, step) =>
    if state.corners.testBit phrase then
      some { phrase, step, count := 1, ahead := state.aheadOf phrase : Item }
    else none

theorem next_items (state : State) (symbol : Symbol) :
    (state.next symbol).items = state.begun symbol ++ state.started symbol := rfl

private theorem foldl_keeps {α : Type} (keeps : List Item → Prop) {change : List Item → α → List Item} {all : List α}
    {start : List Item} (first : keeps start) (more : ∀ items, keeps items → ∀ one ∈ all, keeps (change items one)) :
    keeps (all.foldl change start) := by
  induction all generalizing start with
  | nil => exact first
  | cons one others ih =>
    exact ih (more start first one (List.mem_cons_self ..))
      fun items kept other member => more items kept other (List.mem_cons_of_mem _ member)

theorem mem_begun {state : State} {symbol : Symbol} : ∀ item ∈ state.begun symbol, item.Continues state symbol := by
  refine foldl_keeps (fun items => ∀ item ∈ items, item.Continues state symbol) (by simp) ?_
  intro items kept prior here
  refine foldl_keeps (fun items => ∀ item ∈ items, item.Continues state symbol) kept ?_
  intro items kept way goes
  obtain ⟨next, step, strength⟩ := way
  dsimp only
  split
  next reads =>
    intro item member
    obtain ⟨alike, made, phrase, place, count⟩ := Item.mem_insert member
    rcases made with rfl | made
    · exact ⟨prior, here, phrase.symm, count, step, strength, by rw [place]; exact goes, reads⟩
    · obtain ⟨prior, here, same, counted, step, strength, goes, reads⟩ := kept alike made
      refine ⟨prior, here, same.trans phrase.symm, count.trans counted, step, strength, ?_, reads⟩
      rw [place]
      exact goes
  next => exact kept

theorem mem_started {state : State} {symbol : Symbol} {item : Item} (member : item ∈ state.started symbol) :
    item.Starts state symbol := by
  obtain ⟨⟨phrase, index⟩, starts, made⟩ := List.mem_filterMap.mp member
  dsimp only at made
  split at made
  next corner =>
    cases made
    exact ⟨rfl, corner, Grammar.mem_startersOf.mp starts⟩
  next => cases made

/-- Every item of the state after a symbol has taken a step for it. -/
theorem mem_next {state : State} {symbol : Symbol} {item : Item} (member : item ∈ (state.next symbol).items) :
    item.Starts state symbol ∨ item.Continues state symbol := by
  rw [next_items] at member
  rcases List.mem_append.mp member with member | member
  · exact .inr (mem_begun item member)
  · exact .inl (mem_started member)

/-! ### States with items -/

theorem proceed_ne_nil {symbol : Symbol} {items : List Item} (item : Item) (some_item : items ≠ []) :
    proceed symbol items item ≠ [] := by
  refine foldl_keeps (· ≠ []) some_item ?_
  intro items some_item way _
  dsimp only
  split
  next => exact Item.insert_ne_nil _ _
  next => exact some_item

theorem proceed_way_ne_nil {item : Item} {next : Nat} {step : Step} {strength : Strength}
    (way : (next, step, strength) ∈ item.ways) (items : List Item) : proceed step.symbol items item ≠ [] := by
  obtain ⟨before, after, split⟩ := List.append_of_mem way
  rw [proceed, split, List.foldl_append, List.foldl_cons]
  refine foldl_keeps (· ≠ []) ?_ ?_
  · dsimp only
    rw [if_pos rfl]
    exact Item.insert_ne_nil _ _
  · intro items some_item way _
    dsimp only
    split
    next => exact Item.insert_ne_nil _ _
    next => exact some_item

theorem begun_ne_nil {state : State} {item : Item} {next : Nat} {step : Step} {strength : Strength}
    (member : item ∈ state.items) (way : (next, step, strength) ∈ item.ways) : state.begun step.symbol ≠ [] := by
  obtain ⟨before, after, split⟩ := List.append_of_mem member
  rw [begun, split, List.foldl_append, List.foldl_cons]
  exact foldl_keeps (· ≠ []) (proceed_way_ne_nil way _) fun items some_item other _ => proceed_ne_nil other some_item

theorem next_ne_nil_of_way {state : State} {item : Item} {next : Nat} {step : Step} {strength : Strength}
    (member : item ∈ state.items) (way : (next, step, strength) ∈ item.ways) : (state.next step.symbol).items ≠ [] := by
  rw [next_items]
  exact fun empty => begun_ne_nil member way (List.append_eq_nil_iff.mp empty).1

theorem next_ne_nil_of_corner {state : State} {corner index : Nat} {step : Step}
    (member : state.corners.testBit corner = true) (starts : (index, step) ∈ Grammar.startsOf corner) :
    (state.next step.symbol).items ≠ [] := by
  rw [next_items]
  intro empty
  have none := (List.append_eq_nil_iff.mp empty).2
  have starter : (corner, index) ∈ Grammar.startersOf step.symbol := Grammar.mem_startersOf.mpr ⟨step, starts, rfl⟩
  have some_item : ({ phrase := corner, step := index, count := 1, ahead := state.aheadOf corner } : Item) ∈
      state.started step.symbol := List.mem_filterMap.mpr ⟨_, starter, by simp [member]⟩
  rw [none] at some_item
  cases some_item

theorem next_made {state : State} {symbol : Symbol} (some_item : (state.next symbol).items ≠ []) :
    (state.next symbol).Made := .inr ⟨_, some_item, rfl⟩

/-- A phrase that can begin in a state comes next in it or starts one that does. -/
theorem testBit_corners {items : List Item} {corner : Nat} (member : (ofItems items).corners.testBit corner = true) :
    ∃ item ∈ items, ∃ next step strength phrase, (next, step, strength) ∈ item.ways ∧
      Grammar.Step.phrase? step = some phrase ∧ (Grammar.cornersOf phrase).testBit corner = true := by
  obtain ⟨set, made, inside⟩ := (Grammar.testBit_union _ _).mp member
  obtain ⟨⟨phrase, ahead⟩, spine, rfl⟩ := List.mem_map.mp made
  obtain ⟨item, here, spine⟩ := List.mem_flatMap.mp spine
  obtain ⟨⟨next, step, strength⟩, way, reads⟩ := List.mem_filterMap.mp spine
  obtain ⟨phrase, found, same⟩ := Option.map_eq_some_iff.mp reads
  cases same
  exact ⟨item, here, next, step, strength, _, way, found, inside⟩

theorem corners_of_way {items : List Item} {item : Item} {next phrase corner : Nat} {step : Step} {strength : Strength}
    (member : item ∈ items) (way : (next, step, strength) ∈ item.ways)
    (reads : Grammar.Step.phrase? step = some phrase) (inside : (Grammar.cornersOf phrase).testBit corner = true) :
    (ofItems items).corners.testBit corner = true := by
  refine (Grammar.testBit_union _ _).mpr ⟨_, List.mem_map.mpr ⟨(phrase, item.after next step), ?_, rfl⟩, inside⟩
  refine List.mem_flatMap.mpr ⟨item, member, ?_⟩
  exact List.mem_filterMap.mpr ⟨(next, step, strength), way, by simp [reads]⟩

/-- A program can begin at the start of a text only. -/
theorem items_eq_nil_of_program {state : State} (made : state.Made)
    (corner : state.corners.testBit (Phrase.node .program).code = true) : state.items = [] := by
  rcases made with rfl | ⟨items, _, rfl⟩
  · exact start_items
  · obtain ⟨item, _, next, step, strength, phrase, way, reads, inside⟩ := testBit_corners corner
    obtain ⟨_, _, _, found⟩ := Item.mem_ways.mp way
    rcases Grammar.testBit_cornersOf inside with same | ⟨prior, index, start, _, starts, first⟩
    · exact absurd (same ▸ reads) (Grammar.phrase?_ne_program found)
    · exact absurd first (Grammar.phrase?_ne_program (Grammar.stepAt?_of_start starts).2)

end State
end Graft
