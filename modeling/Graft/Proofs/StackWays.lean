import Graft.Proofs.StackPhrases

/-! Ways down a stack. Following an item down a sound stack, each entry on the way is what the item took a
step for, up to the state in which its phrase could begin. -/

namespace Graft.Stack
open StackEntry (symbolsOf symbolsOf_cons)
variable {states : List State}

/-- The entries on a way from one stack up to another. -/
inductive Way : Stack → List StackEntry → Stack → Prop
  | here (stack : Stack) : Way stack [] stack
  | down {middle above : Stack} {entries : List StackEntry} {link : StackEntry × Stack} (way : Way middle entries above)
    (member : link ∈ middle.links) : Way link.2 (link.1 :: entries) above

theorem Way.sound {below above : Stack} {entries : List StackEntry} (way : Way below entries above)
    (sound : above.Sound states) : below.Sound states ∧ ∀ entry ∈ entries, entry.Derived := by
  induction way with
  | here => exact ⟨sound, by simp⟩
  | down way member ih =>
    obtain ⟨middle, derived⟩ := ih sound
    have fits := middle.fits _ member
    refine ⟨fits.below, fun entry member => ?_⟩
    rcases List.mem_cons.mp member with rfl | member
    · exact fits.derived
    · exact derived entry member

theorem Sound.count_pos {stack : Stack} (sound : stack.Sound states) : ∀ item ∈ stack.state.items, 1 ≤ item.count := by
  induction sound with
  | bottom =>
    intro item member
    rw [Stack.state, State.start_items] at member
    cases member
  | @top _ _ _ _ _ _ links known made linked derived passes below ih =>
    intro item member
    obtain ⟨link, here⟩ := List.exists_mem_of_ne_nil links linked
    have passes := passes link here
    cases extra : link.1.isExtra with
    | true => exact ih link here item ((passes.extra extra).1 item member)
    | false =>
      rcases (passes.symbol extra).2 item member with starts | continues
      · exact Nat.le_of_eq starts.1.symm
      · obtain ⟨prior, _, _, count, _⟩ := continues
        omega

/-- What an item has gone through since it was last in a state further down. -/
theorem Way.prior {below above : Stack} {entries : List StackEntry} {item : Item} (way : Way below entries above)
    (sound : above.Sound states) (member : item ∈ above.state.items) (short : (symbolsOf entries).length < item.count) :
    ∃ prior ∈ below.state.items, prior.phrase = item.phrase ∧ prior.count + (symbolsOf entries).length = item.count ∧
      (Grammar.stepsOf item.phrase).Leads prior.step (symbolsOf entries) item.step := by
  induction way with
  | here => exact ⟨item, member, rfl, rfl, rfl⟩
  | @down middle above entries link way linked ih =>
    rw [symbolsOf_cons] at *
    cases extra : link.1.isExtra with
    | true =>
      rw [if_pos extra] at *
      obtain ⟨prior, here, rest⟩ := ih sound member short
      have fits := (way.sound sound).1.fits _ linked
      exact ⟨prior, (fits.passes.extra extra).1 prior here, rest⟩
    | false =>
      simp only [extra, Bool.false_eq_true, if_false, List.length_cons] at short ⊢
      obtain ⟨prior, here, phrase, count, leads⟩ := ih sound member (by omega)
      have fits := (way.sound sound).1.fits _ linked
      rcases (fits.passes.symbol extra).2 prior here with starts | continues
      · have := starts.1
        omega
      · obtain ⟨earlier, there, same, counted, step, strength, goes, reads⟩ := continues
        obtain ⟨first, found, next, found'⟩ := Item.mem_ways.mp goes
        refine ⟨earlier, there, same.trans phrase, by omega, first, prior.step, step, ?_, ?_, ?_, reads, leads⟩
        · rw [← phrase, ← same]
          exact found
        · exact List.mem_map.mpr ⟨_, next, rfl⟩
        · rw [← phrase, ← same]
          exact found'

/-- Where an item has taken all its steps, its phrase could begin, and the entries lead from its first step. -/
theorem Way.start {below above : Stack} {first : StackEntry} {entries : List StackEntry} {item : Item}
    (way : Way below (first :: entries) above) (sound : above.Sound states) (member : item ∈ above.state.items)
    (plain : first.isExtra = false) (counted : (symbolsOf (first :: entries)).length = item.count) :
    below.state.corners.testBit item.phrase = true ∧ ∃ index step, (index, step) ∈ Grammar.startsOf item.phrase ∧
      step.symbol = first.symbol ∧ (Grammar.stepsOf item.phrase).Leads index (symbolsOf entries) item.step := by
  generalize all : first :: entries = whole at way
  cases way with
  | here => cases all
  | @down middle _ _ link way linked =>
    cases all
    simp only [symbolsOf_cons, plain, Bool.false_eq_true, if_false, List.length_cons] at counted
    obtain ⟨prior, here, phrase, count, leads⟩ := way.prior sound member (by omega)
    have middle := (way.sound sound).1
    have fits := middle.fits _ linked
    rcases (fits.passes.symbol plain).2 prior here with starts | continues
    · obtain ⟨_, corner, step, starts, reads⟩ := starts
      rw [phrase] at corner starts
      exact ⟨corner, prior.step, step, starts, reads, leads⟩
    · obtain ⟨earlier, there, _, counted', _⟩ := continues
      have := fits.below.count_pos earlier there
      omega

/-- The entries that an item took all steps of its phrase for are traced through the steps. -/
theorem Way.traced {below above : Stack} {first : StackEntry} {entries : List StackEntry} {item : Item}
    (way : Way below (first :: entries) above) (sound : above.Sound states) (member : item ∈ above.state.items)
    (plain : first.isExtra = false) (counted : (symbolsOf (first :: entries)).length = item.count)
    (final : item.final?.isSome = true) :
    ∃ steps, StackEntry.trace (Grammar.stepsOf item.phrase).steps (Grammar.stepsOf item.phrase).starts
      (symbolsOf (first :: entries)) = some steps := by
  obtain ⟨_, index, step, starts, reads, leads⟩ := way.start sound member plain counted
  obtain ⟨start, found⟩ := Grammar.stepAt?_of_start starts
  obtain ⟨strength, ends⟩ := Option.isSome_iff_exists.mp final
  obtain ⟨last, stops, ends⟩ := Option.bind_eq_some_iff.mp ends
  rw [symbolsOf_cons, plain]
  refine Option.isSome_iff_exists.mp (StackEntry.trace_some start found reads leads stops ?_)
  rw [ends]
  rfl

/-! ### Taking entries off -/

/-- A descent is on its way down from a stack to take a number of entries off. -/
structure Descent.From (descent : Descent) (above : Stack) (count : Nat) : Prop where
  way : Way descent.below descent.entries above
  counted : (symbolsOf descent.entries).length + descent.missing = count
  plain : descent.missing = 0 → ∀ first entries, descent.entries = first :: entries → first.isExtra = false

theorem Descent.From.take {descent : Descent} {above : Stack} {count : Nat} {link : StackEntry × Stack}
    (goes : descent.From above count) (more : descent.missing ≠ 0) (member : link ∈ descent.below.links) :
    Descent.From ⟨link.1 :: descent.entries, if link.1.isExtra then descent.missing else descent.missing - 1, link.2⟩
      above count := by
  have counted := goes.counted
  refine ⟨goes.way.down member, ?_, ?_⟩
  · dsimp only
    rw [symbolsOf_cons]
    split
    next => exact counted
    next =>
      rw [List.length_cons]
      omega
  · intro none first entries same
    cases same
    dsimp only at none
    split at none
    next => exact absurd none more
    next plain => simpa using plain

theorem mem_descend {above : Stack} {count fuel : Nat} : ∀ {descents : List Descent} {way : List StackEntry × Stack},
    (∀ descent ∈ descents, descent.From above count) → way ∈ descend fuel descents →
    Descent.From ⟨way.1, 0, way.2⟩ above count := by
  induction fuel with
  | zero =>
    intro descents way _ member
    cases member
  | succ fuel ih =>
    intro descents way goes member
    rw [descend] at member
    dsimp only at member
    rcases List.mem_append.mp member with member | member
    · obtain ⟨descent, done, rfl⟩ := List.mem_map.mp member
      obtain ⟨member, none⟩ := List.mem_filter.mp done
      have goes := goes descent member
      have none : descent.missing = 0 := of_decide_eq_true none
      exact ⟨goes.way, by rw [← goes.counted, none], fun _ => goes.plain none⟩
    · split at member
      next => cases member
      next =>
        refine ih (fun descent member => ?_) member
        rcases List.mem_append.mp member with member | member
        · obtain ⟨prior, going, made⟩ := List.mem_filterMap.mp member
          obtain ⟨link, first, rfl⟩ := Option.map_eq_some_iff.mp made
          obtain ⟨here, more⟩ := List.mem_filter.mp going
          exact (goes prior here).take (of_decide_eq_true more) (List.mem_of_mem_head? first)
        · obtain ⟨prior, going, made⟩ := List.mem_flatMap.mp member
          obtain ⟨link, later, rfl⟩ := List.mem_map.mp made
          obtain ⟨here, more⟩ := List.mem_filter.mp going
          exact (goes prior here).take (of_decide_eq_true more) (List.mem_of_mem_tail later)

/-- What is popped stands on a way down and starts with a symbol that counts. -/
theorem mem_pop {above below : Stack} {count : Nat} {entries : List StackEntry} (some_entry : count ≠ 0)
    (member : (entries, below) ∈ pop count above) :
    Way below entries above ∧ (symbolsOf entries).length = count ∧
      ∃ first others, entries = first :: others ∧ first.isExtra = false := by
  have begins : ∀ descent ∈ [(⟨[], count, above⟩ : Descent)], descent.From above count := by
    intro descent member
    cases List.mem_singleton.mp member
    exact ⟨.here above, Nat.zero_add count, fun _ first entries same => by cases same⟩
  have done := mem_descend begins member
  have counted := done.counted
  refine ⟨done.way, by simpa using counted, ?_⟩
  cases entries with
  | nil =>
    simp [symbolsOf] at counted
    omega
  | cons first others => exact ⟨first, others, rfl, done.plain rfl first others rfl⟩

/-- All ways from the bottom of a stack, with entries that were taken off before. -/
theorem mem_unwind {above : Stack} {last : List StackEntry} {fuel : Nat} :
    ∀ {ways : List (List StackEntry × Stack)} {entries : List StackEntry},
    (∀ way ∈ ways, ∃ taken, way.1 = taken ++ last ∧ Way way.2 taken above) → entries ∈ unwind fuel ways →
    ∃ taken bottom, entries = taken ++ last ∧ Way bottom taken above ∧ bottom.links = [] := by
  induction fuel with
  | zero =>
    intro ways entries _ member
    cases member
  | succ fuel ih =>
    intro ways entries goes member
    rw [unwind] at member
    rcases List.mem_append.mp member with member | member
    · obtain ⟨way, done, rfl⟩ := List.mem_map.mp member
      obtain ⟨here, none⟩ := List.mem_filter.mp done
      obtain ⟨taken, same, way'⟩ := goes way here
      exact ⟨taken, way.2, same, way', List.isEmpty_iff.mp none⟩
    · split at member
      next => cases member
      next =>
        refine ih (fun way member => ?_) member
        obtain ⟨prior, here, made⟩ := List.mem_flatMap.mp member
        obtain ⟨link, linked, rfl⟩ := List.mem_map.mp made
        obtain ⟨taken, same, way'⟩ := goes prior here
        exact ⟨link.1 :: taken, by rw [same]; rfl, way'.down linked⟩

end Graft.Stack
