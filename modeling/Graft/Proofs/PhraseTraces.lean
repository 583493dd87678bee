import Graft.Proofs.RuleWords

/-! The steps of a phrase, taken one after another. The symbols of a phrase are traced by the first way
through its steps that fits; there is one whenever items have come along its steps, and what it finds
spells a word of the phrase's rule. -/

namespace Graft

namespace Layout

theorem mem_toSteps {layout : Layout} {index : Nat} {step : Step} (found : layout.toSteps.steps[index]? = some step) :
    layout.letter? 0 index = some step.letter ∧
      (∀ next ∈ step.next, (index, next.1, next.2) ∈ layout.ways) ∧
      (step.final.isSome = true → ∃ strength, (index, strength) ∈ layout.ends) := by
  simp only [toSteps, List.getElem?_toArray, List.getElem?_map, List.getElem?_zipIdx, Nat.zero_add] at found
  cases letter : layout.symbols[index]? with
  | none => simp [letter] at found
  | some triple =>
    obtain ⟨symbol, role, rename⟩ := triple
    simp only [letter, Option.map_some, Option.some.injEq] at found
    subst found
    refine ⟨by simp [letter?, letter, Step.letter], ?_, ?_⟩
    · intro next member
      obtain ⟨⟨step, other, strength⟩, way, same⟩ := List.mem_filterMap.mp member
      dsimp only at same
      split at same
      next here =>
        cases same
        cases here
        exact way
      next => cases same
    · intro final
      rw [Option.isSome_map] at final
      obtain ⟨⟨step, strength⟩, stop⟩ := Option.isSome_iff_exists.mp final
      have here := List.find?_some stop
      have member := List.mem_of_find?_eq_some stop
      cases (of_decide_eq_true here : step = index)
      exact ⟨strength, member⟩

end Layout

/-- Steps that go on from one to another while they read symbols. -/
def Steps.Leads (steps : Steps) : Nat → List Symbol → Nat → Prop
  | index, [], last => index = last
  | index, symbol :: symbols, last =>
    ∃ step next further, steps.steps[index]? = some step ∧ next ∈ step.next.map Prod.fst ∧
      steps.steps[next]? = some further ∧ further.symbol = symbol ∧ steps.Leads next symbols last

namespace StackEntry
open Graft

/-- Where steps lead from a start to an end, a trace is found. -/
theorem trace_some {steps : Steps} {symbols : List Symbol} : ∀ {symbol : Symbol} {starts : List Nat} {start last : Nat}
    {first final : Step}, start ∈ starts → steps.steps[start]? = some first → first.symbol = symbol →
    steps.Leads start symbols last → steps.steps[last]? = some final → final.final.isSome = true →
    (trace steps.steps starts (symbol :: symbols)).isSome = true := by
  induction symbols with
  | nil =>
    intro symbol starts start last first final member found reads leads stops ends
    cases leads
    cases found.symm.trans stops
    simp only [trace, List.findSome?_isSome_iff]
    exact ⟨start, member, by simp [found, reads, ends]⟩
  | cons second symbols ih =>
    intro symbol starts start last first final member found reads leads stops ends
    obtain ⟨step, next, further, found', way, reached, reads', leads⟩ := leads
    cases found.symm.trans found'
    have rest := ih way reached reads' leads stops ends
    rw [trace, List.findSome?_isSome_iff]
    exact ⟨start, member, by simpa [found, reads] using rest⟩

/-- A trace is a way through the layout that reads the symbols. -/
theorem trace_goes {layout : Layout} {symbols : List Symbol} : ∀ {symbol : Symbol} {starts : List Nat} {out : List Step},
    trace layout.toSteps.steps starts (symbol :: symbols) = some out →
    ∃ start ∈ starts, ∃ others, layout.Goes start others ∧
      (start :: others).map (layout.letter? 0) = out.map (some ∘ Step.letter) ∧
      out.map Step.symbol = symbol :: symbols := by
  induction symbols with
  | nil =>
    intro symbol starts out traced
    rw [trace] at traced
    obtain ⟨start, member, traced⟩ := List.exists_of_findSome?_eq_some traced
    split at traced
    next => cases traced
    next step found =>
      split at traced
      next fits =>
        simp only [List.isEmpty_nil, Bool.not_true, Bool.false_or, Bool.and_eq_true, decide_eq_true_eq] at fits
        obtain ⟨letter, _, stops⟩ := Layout.mem_toSteps found
        simp only [trace, Option.map_some, Option.some.injEq] at traced
        subst traced
        exact ⟨start, member, [], stops fits.2, by simp [letter], by simp [fits.1]⟩
      next => cases traced
  | cons second symbols ih =>
    intro symbol starts out traced
    rw [trace] at traced
    obtain ⟨start, member, traced⟩ := List.exists_of_findSome?_eq_some traced
    split at traced
    next => cases traced
    next step found =>
      split at traced
      next fits =>
        simp only [List.isEmpty_cons, Bool.not_false, Bool.true_or, Bool.and_true, decide_eq_true_eq] at fits
        obtain ⟨letter, ways, _⟩ := Layout.mem_toSteps found
        obtain ⟨rest, further, rfl⟩ := Option.map_eq_some_iff.mp traced
        obtain ⟨next, way, others, goes, letters, symbols⟩ := ih further
        obtain ⟨⟨next, strength⟩, goesOn, rfl⟩ := List.mem_map.mp way
        refine ⟨start, member, next :: others, ⟨⟨strength, ways (next, strength) goesOn⟩, goes⟩, ?_, ?_⟩
        · rw [List.map_cons, letters, letter]
          rfl
        · rw [List.map_cons, symbols, fits]
      next => cases traced

/-- A trace through the steps of a rule spells a word of the rule. -/
theorem trace_spells {rule : Rule} {symbols : List Symbol} {out : List Step} (some_symbol : symbols ≠ [])
    (traced : trace rule.toSteps.steps rule.toSteps.starts symbols = some out) :
    out.map Step.letter ∈ rule.spellings none none ∧ out.map Step.symbol = symbols := by
  cases symbols with
  | nil => exact absurd rfl some_symbol
  | cons symbol symbols =>
    obtain ⟨start, member, others, goes, letters, same⟩ := trace_goes traced
    obtain ⟨word, spelled, letters'⟩ := rule.goes_spells {} 0 start others member goes
    rw [letters, ← List.map_map] at letters'
    have equal : out.map Step.letter = word := (List.map_inj_right fun _ _ => Option.some.inj).mp letters'
    rw [equal]
    exact ⟨spelled, same⟩

end StackEntry

namespace Grammar

def productionOf? (code : Nat) : Option Production := productions.find? fun production => production.phrase.code = code

theorem productionAt?_eq {code : Nat} (small : code < Phrase.limit) : productionAt? code = productionOf? code := by
  rw [productionAt?, productionTable, Table.group_getD small, List.filter_map, List.map_map, List.head?_map,
    List.head?_filter]
  exact Option.map_id'

theorem stepsOf_eq {code : Nat} {production : Production} (small : code < Phrase.limit)
    (found : productionOf? code = some production) : stepsOf code = production.rule.toSteps := by
  rw [stepsOf, stepTable, tabulate_getD, if_pos small]
  simp only [productionAt?_eq small, found]

theorem stepsOf_none {code : Nat} (missing : Phrase.limit ≤ code ∨ productionOf? code = none) :
    stepsOf code = ⟨#[], []⟩ := by
  rw [stepsOf, stepTable, tabulate_getD]
  split
  next small =>
    rcases missing with large | missing
    · omega
    · simp only [productionAt?_eq small, missing]
  next => rfl

theorem production_of_step {code index : Nat} {step : Step} (found : stepAt? code index = some step) :
    code < Phrase.limit ∧ ∃ production, productionOf? code = some production ∧ production.phrase.code = code ∧
      phraseTable.getD code (.node .program) = production.phrase := by
  by_cases small : code < Phrase.limit
  · refine ⟨small, ?_⟩
    cases made : productionOf? code with
    | none =>
      rw [stepAt?, stepsOf_none (.inr made)] at found
      cases found
    | some production =>
      refine ⟨production, rfl, ?_, ?_⟩
      · rw [productionOf?] at made
        simpa using List.find?_some made
      · rw [phraseTable, tabulate_getD, if_pos small]
        simp only [productionAt?_eq small, made]
  · rw [stepAt?, stepsOf_none (.inl (Nat.le_of_not_lt small))] at found
    cases found

end Grammar
end Graft
