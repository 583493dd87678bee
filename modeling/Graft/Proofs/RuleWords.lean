import Graft.Edit.Run

/-! The words of a rule. The steps of a phrase are made so that each way through them spells a word of its
rule: what the machine takes together as a phrase is what the grammar says that the phrase is made of. -/

namespace Graft

/-- A symbol of a phrase, the role of its trees, and the kind of node they are made. -/
structure Letter where
  symbol : Symbol
  role : Option Role := none
  rename : Option Kind := none
  deriving DecidableEq

/-- All words of a rule. There are finitely many: rules repeat nothing by themselves. -/
def Rule.spellings (inRole : Option Role) (asKind : Option Kind) : Rule → List (List Letter)
  | nothing => [[]]
  | symbol it => [[⟨it, inRole, asKind⟩]]
  | pair one two =>
    (one.spellings inRole asKind).flatMap fun front => (two.spellings inRole asKind).map (front ++ ·)
  | either one two => one.spellings inRole asKind ++ two.spellings inRole asKind
  | strong _ _ rule => rule.spellings inRole asKind
  | role it rule => rule.spellings (some it) asKind
  | rename it rule => rule.spellings inRole (some it)

def Step.letter (step : Step) : Letter := ⟨step.symbol, step.role, step.rename⟩

namespace Layout

/-- From a step on through further ones to an end. -/
def Goes (layout : Layout) : Nat → List Nat → Prop
  | step, [] => ∃ strength, (step, strength) ∈ layout.ends
  | step, next :: others => (∃ strength, (step, next, strength) ∈ layout.ways) ∧ layout.Goes next others

structure Within (layout : Layout) (first : Nat) : Prop where
  starts : ∀ step ∈ layout.starts, first ≤ step ∧ step < first + layout.symbols.length
  ends : ∀ step strength, (step, strength) ∈ layout.ends → first ≤ step ∧ step < first + layout.symbols.length
  ways : ∀ step next strength, (step, next, strength) ∈ layout.ways →
    (first ≤ step ∧ step < first + layout.symbols.length) ∧ first ≤ next ∧ next < first + layout.symbols.length

/-- The letter of a step of a layout whose steps are numbered from `first` on. -/
def letter? (layout : Layout) (first step : Nat) : Option Letter :=
  layout.symbols[step - first]?.map fun (symbol, role, rename) => ⟨symbol, role, rename⟩

theorem Goes.within {layout : Layout} {first step : Nat} {others : List Nat} (within : layout.Within first)
    (inside : first ≤ step ∧ step < first + layout.symbols.length) (goes : layout.Goes step others) :
    ∀ other ∈ step :: others, first ≤ other ∧ other < first + layout.symbols.length := by
  induction others generalizing step with
  | nil =>
    intro other member
    cases List.mem_singleton.mp member
    exact inside
  | cons next others ih =>
    obtain ⟨⟨strength, way⟩, goes⟩ := goes
    intro other member
    rcases List.mem_cons.mp member with rfl | member
    · exact inside
    · exact ih (within.ways step next strength way).2 goes other member

/-- Two layouts side by side, in which ways lead on inside of each and from the ends of the first to the second. -/
theorem Within.beside {one two whole : Layout} {first : Nat} (front : one.Within first)
    (back : two.Within (first + one.symbols.length)) (joined : whole.symbols = one.symbols ++ two.symbols)
    (starts : ∀ step ∈ whole.starts, step ∈ one.starts ∨ step ∈ two.starts)
    (ends : ∀ step strength, (step, strength) ∈ whole.ends →
      ∃ strength, (step, strength) ∈ one.ends ∨ (step, strength) ∈ two.ends)
    (ways : ∀ step next strength, (step, next, strength) ∈ whole.ways →
      (step, next, strength) ∈ one.ways ∨ (step, next, strength) ∈ two.ways ∨
        (∃ strength, (step, strength) ∈ one.ends) ∧ next ∈ two.starts) :
    whole.Within first := by
  have size : whole.symbols.length = one.symbols.length + two.symbols.length := by
    rw [joined, List.length_append]
  refine ⟨?_, ?_, ?_⟩
  · intro step start
    rcases starts step start with start | start
    · have := front.starts step start
      omega
    · have := back.starts step start
      omega
  · intro step strength stop
    obtain ⟨_, stop | stop⟩ := ends step strength stop
    · have := front.ends step _ stop
      omega
    · have := back.ends step _ stop
      omega
  · intro step next strength way
    rcases ways step next strength way with way | way | ⟨⟨_, stop⟩, start⟩
    · have := front.ways step next strength way
      omega
    · have := back.ways step next strength way
      omega
    · have := front.ends step _ stop
      have := back.starts next start
      omega

end Layout

namespace Rule
variable {around : Surroundings} {first : Nat}

attribute [local simp] layout spellings

theorem mem_pair_ends {one two : Rule} {step : Nat} {strength : Strength}
    (stop : (step, strength) ∈ ((pair one two).layout around first).ends) :
    (step, strength) ∈ (two.layout around (first + (one.layout around first).symbols.length)).ends ∨
      (two.layout around (first + (one.layout around first).symbols.length)).isEmpty = true ∧
        ∃ inner, (step, inner) ∈ (one.layout around first).ends := by
  simp only [layout, List.mem_append] at stop
  refine stop.imp_right fun stop => ?_
  split at stop
  next empty =>
    obtain ⟨⟨other, inner⟩, member, same⟩ := List.mem_map.mp stop
    cases same
    exact ⟨empty, inner, member⟩
  next => cases stop

/-- A way in two rules side by side is one of either, or leads from an end of the first to a start of the second. -/
theorem mem_pair_ways {one two : Rule} {step next : Nat} {strength : Strength}
    (way : (step, next, strength) ∈ ((pair one two).layout around first).ways) :
    (step, next, strength) ∈ (one.layout around first).ways ∨
      (step, next, strength) ∈ (two.layout around (first + (one.layout around first).symbols.length)).ways ∨
        (∃ inner, (step, inner) ∈ (one.layout around first).ends) ∧
          next ∈ (two.layout around (first + (one.layout around first).symbols.length)).starts := by
  simp only [layout, List.mem_append] at way
  rcases way with (way | way) | way
  · exact .inl way
  · exact .inr (.inl way)
  · obtain ⟨⟨stop, inner⟩, member, way⟩ := List.mem_flatMap.mp way
    obtain ⟨start, started, same⟩ := List.mem_map.mp way
    cases same
    exact .inr (.inr ⟨⟨inner, member⟩, started⟩)

theorem layout_within (rule : Rule) : ∀ (around : Surroundings) (first : Nat), (rule.layout around first).Within first := by
  induction rule with
  | nothing =>
    intro around first
    constructor <;> simp
  | symbol it =>
    intro around first
    constructor <;> simp
  | pair one two front back =>
    intro around first
    refine (front around first).beside (back around _) rfl ?_ ?_ ?_
    · intro step start
      simp only [layout, List.mem_append] at start
      split at start
      next => exact start
      next => exact .inl (start.resolve_right List.not_mem_nil)
    · intro step strength stop
      rcases mem_pair_ends stop with stop | ⟨-, inner, stop⟩
      · exact ⟨strength, .inr stop⟩
      · exact ⟨inner, .inl stop⟩
    · exact fun step next strength way => mem_pair_ways way
  | either one two front back =>
    intro around first
    refine (front around first).beside (back around _) rfl ?_ ?_ ?_
    · exact fun step start => List.mem_append.mp start
    · exact fun step strength stop => ⟨strength, List.mem_append.mp stop⟩
    · exact fun step next strength way => (List.mem_append.mp way).imp_right .inl
  | strong level side rule inner => exact fun around first => inner _ first
  | role it rule inner => exact fun around first => inner _ first
  | rename kind rule inner => exact fun around first => inner _ first

theorem pair_goes_back {one two : Rule} {step : Nat} (others : List Nat)
    (late : first + (one.layout around first).symbols.length ≤ step)
    (goes : ((pair one two).layout around first).Goes step others) :
    (two.layout around (first + (one.layout around first).symbols.length)).Goes step others := by
  have front := one.layout_within around first
  have back := two.layout_within around (first + (one.layout around first).symbols.length)
  induction others generalizing step with
  | nil =>
    obtain ⟨strength, stop⟩ := goes
    rcases mem_pair_ends stop with stop | ⟨-, inner, stop⟩
    · exact ⟨strength, stop⟩
    · have := front.ends step inner stop
      omega
  | cons next others ih =>
    obtain ⟨⟨strength, way⟩, goes⟩ := goes
    rcases mem_pair_ways way with way | way | ⟨⟨inner, stop⟩, -⟩
    · have := front.ways step next strength way
      omega
    · exact ⟨⟨strength, way⟩, ih (back.ways step next strength way).2.1 goes⟩
    · have := front.ends step inner stop
      omega

/-- The first of two rules goes on to its end, and from there to the second, if that is not left out. -/
theorem pair_goes_front {one two : Rule} {step : Nat} (others : List Nat)
    (early : step < first + (one.layout around first).symbols.length)
    (goes : ((pair one two).layout around first).Goes step others) :
    ((one.layout around first).Goes step others ∧
        (two.layout around (first + (one.layout around first).symbols.length)).isEmpty = true) ∨
      ∃ before next after, others = before ++ next :: after ∧ (one.layout around first).Goes step before ∧
        next ∈ (two.layout around (first + (one.layout around first).symbols.length)).starts ∧
        (two.layout around (first + (one.layout around first).symbols.length)).Goes next after := by
  have front := one.layout_within around first
  have back := two.layout_within around (first + (one.layout around first).symbols.length)
  induction others generalizing step with
  | nil =>
    obtain ⟨strength, stop⟩ := goes
    rcases mem_pair_ends stop with stop | ⟨empty, stop⟩
    · have := back.ends step strength stop
      omega
    · exact .inl ⟨stop, empty⟩
  | cons next others ih =>
    obtain ⟨⟨strength, way⟩, goes⟩ := goes
    rcases mem_pair_ways way with way | way | ⟨stop, started⟩
    · have inside := (front.ways step next strength way).2.2
      rcases ih inside goes with ⟨rest, empty⟩ | ⟨before, start, after, rfl, rest, started, last⟩
      · exact .inl ⟨⟨⟨strength, way⟩, rest⟩, empty⟩
      · exact .inr ⟨next :: before, start, after, rfl, ⟨⟨strength, way⟩, rest⟩, started, last⟩
    · have := back.ways step next strength way
      omega
    · have late := (back.starts next started).1
      exact .inr ⟨[], next, others, rfl, stop, started, pair_goes_back others late goes⟩

theorem either_goes_front {one two : Rule} {step : Nat} (others : List Nat)
    (early : step < first + (one.layout around first).symbols.length)
    (goes : ((either one two).layout around first).Goes step others) : (one.layout around first).Goes step others := by
  have front := one.layout_within around first
  have back := two.layout_within around (first + (one.layout around first).symbols.length)
  induction others generalizing step with
  | nil =>
    obtain ⟨strength, stop⟩ := goes
    simp only [layout, List.mem_append] at stop
    rcases stop with stop | stop
    · exact ⟨strength, stop⟩
    · have := back.ends step strength stop
      omega
  | cons next others ih =>
    obtain ⟨⟨strength, way⟩, goes⟩ := goes
    simp only [layout, List.mem_append] at way
    rcases way with way | way
    · exact ⟨⟨strength, way⟩, ih (front.ways step next strength way).2.2 goes⟩
    · have := back.ways step next strength way
      omega

theorem either_goes_back {one two : Rule} {step : Nat} (others : List Nat)
    (late : first + (one.layout around first).symbols.length ≤ step)
    (goes : ((either one two).layout around first).Goes step others) :
    (two.layout around (first + (one.layout around first).symbols.length)).Goes step others := by
  have front := one.layout_within around first
  have back := two.layout_within around (first + (one.layout around first).symbols.length)
  induction others generalizing step with
  | nil =>
    obtain ⟨strength, stop⟩ := goes
    simp only [layout, List.mem_append] at stop
    rcases stop with stop | stop
    · have := front.ends step strength stop
      omega
    · exact ⟨strength, stop⟩
  | cons next others ih =>
    obtain ⟨⟨strength, way⟩, goes⟩ := goes
    simp only [layout, List.mem_append] at way
    rcases way with way | way
    · have := front.ways step next strength way
      omega
    · exact ⟨⟨strength, way⟩, ih (back.ways step next strength way).2.1 goes⟩

theorem empty_spells (rule : Rule) : ∀ (around : Surroundings) (first : Nat),
    (rule.layout around first).isEmpty = true → [] ∈ rule.spellings around.role around.rename := by
  induction rule with
  | nothing => simp
  | symbol it => simp
  | pair one two front back =>
    intro around first empty
    obtain ⟨one_empty, two_empty⟩ := Bool.and_eq_true_iff.mp empty
    refine List.mem_flatMap.mpr ⟨[], front around first one_empty, ?_⟩
    exact List.mem_map.mpr ⟨[], back around _ two_empty, rfl⟩
  | either one two front back =>
    intro around first empty
    rcases Bool.or_eq_true_iff.mp empty with empty | empty
    · exact List.mem_append_left _ (front around first empty)
    · exact List.mem_append_right _ (back around _ empty)
  | strong level side rule inner => exact fun around first => inner _ first
  | role it rule inner => exact fun around first => inner _ first
  | rename kind rule inner => exact fun around first => inner _ first

private theorem letters_front {front back whole : Layout} {first : Nat} {steps : List Nat}
    (joined : whole.symbols = front.symbols ++ back.symbols)
    (inside : ∀ step ∈ steps, first ≤ step ∧ step < first + front.symbols.length) :
    steps.map (whole.letter? first) = steps.map (front.letter? first) := by
  refine List.map_congr_left fun step member => ?_
  have := inside step member
  rw [Layout.letter?, Layout.letter?, joined, List.getElem?_append_left (by omega)]

private theorem letters_back {front back whole : Layout} {first : Nat} {steps : List Nat}
    (joined : whole.symbols = front.symbols ++ back.symbols)
    (inside : ∀ step ∈ steps, first + front.symbols.length ≤ step) :
    steps.map (whole.letter? first) = steps.map (back.letter? (first + front.symbols.length)) := by
  refine List.map_congr_left fun step member => ?_
  have := inside step member
  rw [Layout.letter?, Layout.letter?, joined, List.getElem?_append_right (by omega), Nat.sub_sub]

/-- A way through a layout spells a word of the rule. -/
theorem goes_spells (rule : Rule) : ∀ (around : Surroundings) (first step : Nat) (others : List Nat),
    step ∈ (rule.layout around first).starts → (rule.layout around first).Goes step others →
    ∃ word ∈ rule.spellings around.role around.rename,
      (step :: others).map ((rule.layout around first).letter? first) = word.map some := by
  induction rule with
  | nothing =>
    intro around first step others start
    cases start
  | symbol it =>
    intro around first step others start goes
    cases List.mem_singleton.mp start
    cases others with
    | nil => exact ⟨_, List.mem_singleton_self _, by simp [Layout.letter?]⟩
    | cons next others => simp [Layout.Goes] at goes
  | pair one two front back =>
    intro around first step others start goes
    have one_within := one.layout_within around first
    have two_within := two.layout_within around (first + (one.layout around first).symbols.length)
    have joined : ((pair one two).layout around first).symbols = (one.layout around first).symbols ++
      (two.layout around (first + (one.layout around first).symbols.length)).symbols := rfl
    simp only [layout, List.mem_append] at start
    rcases start with start | start
    · have inside := one_within.starts step start
      rcases pair_goes_front others inside.2 goes with ⟨rest, empty⟩ | ⟨before, next, after, rfl, rest, started, last⟩
      · obtain ⟨word, member, letters⟩ := front around first step others start rest
        refine ⟨word ++ [], ?_, ?_⟩
        · exact List.mem_flatMap.mpr ⟨word, member, List.mem_map.mpr ⟨[], two.empty_spells around _ empty, rfl⟩⟩
        · rw [letters_front joined (rest.within one_within inside), letters, List.append_nil]
      · obtain ⟨word, member, letters⟩ := front around first step before start rest
        obtain ⟨tail, member', letters'⟩ := back around _ next after started last
        have late := last.within two_within (two_within.starts next started)
        refine ⟨word ++ tail, ?_, ?_⟩
        · exact List.mem_flatMap.mpr ⟨word, member, List.mem_map.mpr ⟨tail, member', rfl⟩⟩
        · rw [← List.cons_append, List.map_append, List.map_append,
            letters_front joined (rest.within one_within inside), letters,
            letters_back joined (fun step member => (late step member).1), letters']
    · split at start
      next empty =>
        have inside := two_within.starts step start
        have rest := pair_goes_back others inside.1 goes
        obtain ⟨word, member, letters⟩ := back around _ step others start rest
        refine ⟨[] ++ word, ?_, ?_⟩
        · exact List.mem_flatMap.mpr ⟨[], one.empty_spells around first empty, List.mem_map.mpr ⟨word, member, rfl⟩⟩
        · rw [letters_back joined (fun step member => (rest.within two_within inside step member).1), letters]
          rfl
      next => cases start
  | either one two front back =>
    intro around first step others start goes
    have one_within := one.layout_within around first
    have two_within := two.layout_within around (first + (one.layout around first).symbols.length)
    have joined : ((either one two).layout around first).symbols = (one.layout around first).symbols ++
      (two.layout around (first + (one.layout around first).symbols.length)).symbols := rfl
    simp only [layout, List.mem_append] at start
    rcases start with start | start
    · have inside := one_within.starts step start
      have rest := either_goes_front others inside.2 goes
      obtain ⟨word, member, letters⟩ := front around first step others start rest
      refine ⟨word, List.mem_append_left _ member, ?_⟩
      rw [letters_front joined (rest.within one_within inside), letters]
    · have inside := two_within.starts step start
      have rest := either_goes_back others inside.1 goes
      obtain ⟨word, member, letters⟩ := back around _ step others start rest
      refine ⟨word, List.mem_append_right _ member, ?_⟩
      rw [letters_back joined (fun step member => (rest.within two_within inside step member).1), letters]
  | strong level side rule inner => exact fun around first => inner _ first
  | role it rule inner => exact fun around first => inner _ first
  | rename kind rule inner => exact fun around first => inner _ first

end Rule
end Graft
