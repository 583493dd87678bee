import Graft.Proofs.Sorting
import Graft.Proofs.StateItems

/-! What may be done in a state. Reductions are of phrases whose items have come to their end; a token is read,
or a phrase put in place of its parts, only where an item goes on with it or starts with it. -/

namespace Graft

namespace Actions

theorem mem_contend {rivals : Rivals} {item : Item} {reduction : Reduction}
    (member : reduction ∈ (contend rivals item).reductions) :
    reduction ∈ rivals.reductions ∨ reduction = ⟨item.phrase, item.count⟩ := by
  unfold contend at member
  split at member
  next => exact .inl member
  next =>
    dsimp only at member
    split at member
    next => exact .inr (List.mem_singleton.mp member)
    next =>
      split at member
      next => exact .inr (List.mem_singleton.mp member)
      next => exact .inl member
      next =>
        rcases List.mem_append.mp member with member | member
        · exact .inl member
        · exact .inr (List.mem_singleton.mp member)

theorem mem_rivals {endings : List Item} {reduction : Reduction} : ∀ {rivals : Rivals},
    reduction ∈ (endings.foldl contend rivals).reductions →
    reduction ∈ rivals.reductions ∨ ∃ item ∈ endings, reduction = ⟨item.phrase, item.count⟩ := by
  induction endings with
  | nil => exact fun member => .inl member
  | cons item endings ih =>
    intro rivals member
    rw [List.foldl_cons] at member
    rcases ih member with here | ⟨other, later, same⟩
    · rcases mem_contend here with here | same
      · exact .inl here
      · exact .inr ⟨item, List.mem_cons_self .., same⟩
    · exact .inr ⟨other, List.mem_cons_of_mem _ later, same⟩

/-- The items that may end before a token. -/
def endings (state : State) (token : Token) : List Item :=
  sortBy precedes (state.items.filter fun item =>
    item.final?.isSome && token.isIn item.ahead && item.phrase ≠ (Phrase.node .program).code)

def canShift (state : State) (token : Token) : Bool :=
  (!(state.items.flatMap fun item => item.ways.filterMap fun (_, step, strength) =>
      if token.isIn (Grammar.firstOf step.symbol) then some (item.phrase, strength) else none).isEmpty) ||
    (state.items.isEmpty && token.isIn state.valid && token ≠ .finish)

/-- The reductions are those that contended best, or none; nothing is read that cannot be. -/
theorem of_cases (state : State) (token : Token) :
    ((of state token).reductions = [] ∨ (of state token).reductions = ((endings state token).foldl contend {}).reductions) ∧
      ((of state token).shifts = true → canShift state token = true) := by
  unfold of
  dsimp only
  split
  next => exact ⟨.inl rfl, id⟩
  next =>
    split
    next => exact ⟨.inr rfl, fun never => by cases never⟩
    next shifts =>
      have can : canShift state token = true := by
        simp only [Bool.not_eq_true, Bool.not_eq_false'] at shifts
        exact shifts
      split
      next => exact ⟨.inr rfl, fun _ => can⟩
      next =>
        split
        next => exact ⟨.inl rfl, fun _ => can⟩
        next =>
          split
          next => exact ⟨.inr rfl, fun _ => can⟩
          next =>
            split
            next => exact ⟨.inr rfl, fun _ => can⟩
            next =>
              split
              next => exact ⟨.inr rfl, fun _ => can⟩
              next =>
                split
                next => exact ⟨.inl rfl, fun _ => can⟩
                next => exact ⟨.inr rfl, fun _ => can⟩

theorem mem_reductions {state : State} {token : Token} {reduction : Reduction}
    (member : reduction ∈ (of state token).reductions) :
    ∃ item ∈ state.items, item.final?.isSome = true ∧ item.phrase ≠ (Phrase.node .program).code ∧
      reduction = ⟨item.phrase, item.count⟩ := by
  rcases (of_cases state token).1 with none | best
  · rw [none] at member
    cases member
  · rw [best] at member
    rcases mem_rivals member with here | ⟨item, ends, same⟩
    · cases here
    · obtain ⟨here, ends⟩ := List.mem_filter.mp (mem_sortBy.mp ends)
      simp only [Bool.and_eq_true, decide_eq_true_eq] at ends
      exact ⟨item, here, ends.1.1, ends.2, same⟩

end Actions

namespace State

theorem next_ne_nil_of_shift {state : State} {token : Token} (made : state.Made)
    (shifts : (Actions.of state token).shifts = true) : (state.next (.token token)).items ≠ [] := by
  have can := (Actions.of_cases state token).2 shifts
  rw [Actions.canShift, Bool.or_eq_true] at can
  rcases can with goes | starts
  · rw [Bool.not_eq_true', ← Bool.not_eq_true, List.isEmpty_iff] at goes
    obtain ⟨going, member⟩ := List.exists_mem_of_ne_nil _ goes
    obtain ⟨item, here, member⟩ := List.mem_flatMap.mp member
    obtain ⟨⟨next, step, strength⟩, way, reads⟩ := List.mem_filterMap.mp member
    dsimp only at reads
    split at reads
    next first =>
      cases symbol : step.symbol with
      | token other =>
        rw [symbol] at first
        have equal : token = other := Token.isIn_set.mp first
        have goes := next_ne_nil_of_way here way
        rw [symbol, ← equal] at goes
        exact goes
      | phrase phrase =>
        rw [symbol] at first
        obtain ⟨corner, index, start, inside, starts, reads⟩ := Grammar.isIn_firstOf first
        have corners : state.corners.testBit corner = true := by
          rcases made with rfl | ⟨items, _, rfl⟩
          · rw [start_items] at here
            cases here
          · exact corners_of_way here way (by simp [Grammar.Step.phrase?, symbol]) inside
        rw [← reads]
        exact next_ne_nil_of_corner corners starts
    next => cases reads
  · simp only [Bool.and_eq_true, decide_eq_true_eq] at starts
    obtain ⟨⟨none, valid⟩, real⟩ := starts
    rcases made with rfl | ⟨items, some_item, rfl⟩
    · rw [Token.isIn, start_valid, Nat.testBit_or, Bool.or_eq_true] at valid
      rcases valid with finish | first
      · exact absurd (Token.isIn_set.mp finish) (by simpa using real)
      · obtain ⟨corner, index, step, inside, starts, reads⟩ := Grammar.isIn_firstOf first
        rw [← start_corners] at inside
        rw [← reads]
        exact next_ne_nil_of_corner inside starts
    · exact absurd (List.isEmpty_iff.mp none) some_item

/-- After a phrase that can begin in a state there are items, unless it is the whole program. -/
theorem next_ne_nil_of_phrase {state : State} {phrase : Phrase} (made : state.Made)
    (corner : state.corners.testBit phrase.code = true) (part : phrase ≠ .node .program) :
    (state.next (.phrase phrase)).items ≠ [] := by
  have starter : ∀ {prior index : Nat} {step : Step}, state.corners.testBit prior = true →
      (index, step) ∈ Grammar.startsOf prior → Grammar.Step.phrase? step = some phrase.code →
      (state.next (.phrase phrase)).items ≠ [] := by
    intro prior index step inside starts reads
    rw [← Grammar.symbol_of_phrase? reads]
    exact next_ne_nil_of_corner inside starts
  rcases made with rfl | ⟨items, _, rfl⟩
  · rw [start_corners] at corner
    rcases Grammar.testBit_cornersOf corner with same | ⟨prior, index, step, inside, starts, reads⟩
    · have equal : phrase = .node .program := Phrase.code_injective same
      exact absurd equal part
    · rw [← start_corners] at inside
      exact starter inside starts reads
  · obtain ⟨item, here, next, step, strength, top, way, reads, inside⟩ := testBit_corners corner
    rcases Grammar.testBit_cornersOf inside with same | ⟨prior, index, start, inside', starts, first⟩
    · rw [← same] at reads
      rw [← Grammar.symbol_of_phrase? reads]
      exact next_ne_nil_of_way here way
    · exact starter (corners_of_way here way reads inside') starts first

end State
end Graft
