import Graft.Proofs.PhraseTraces
import Graft.Grammar.State

/-! What the tables of the grammar hold: numbers tell tokens and phrases apart, a phrase that another one can
start with is reached by going from first symbol to first symbol, and so is a token. -/

namespace Graft

theorem Token.code_injective {one two : Token} (same : one.code = two.code) : one = two := by
  have markLow : ∀ mark : Mark, mark.ctorIdx < 106 := by intro mark; cases mark <;> decide
  have marks : ∀ {mark other : Mark}, mark.ctorIdx = other.ctorIdx → mark = other := by
    intro mark other same
    rw [← Mark.ofNat_ctorIdx mark, same, Mark.ofNat_ctorIdx]
  have words : ∀ {word other : Keyword}, word.ctorIdx = other.ctorIdx → word = other := by
    intro word other same
    rw [← Keyword.ofNat_ctorIdx word, same, Keyword.ofNat_ctorIdx]
  cases one with
  | mark it =>
    have := markLow it
    cases two with
    | mark other =>
      have equal : it = other := marks (by simp only [code] at same; omega)
      rw [equal]
    | _ =>
      simp only [code] at same
      omega
  | word it =>
    cases two with
    | word other =>
      have equal : it = other := words (by simp only [code] at same; omega)
      rw [equal]
    | mark other =>
      have := markLow other
      simp only [code] at same
      omega
    | _ =>
      simp only [code] at same
      omega
  | _ =>
    cases two with
    | mark | word =>
      simp only [code] at same
      omega
    | _ => first | rfl | cases same

theorem Phrase.code_injective {one two : Phrase} (same : one.code = two.code) : one = two := by
  have low : ∀ kind : Kind, kind.ctorIdx < 256 := by intro kind; cases kind <;> decide
  cases one with
  | node kind =>
    have := low kind
    cases two with
    | node other =>
      simp only [code] at same
      rw [← Kind.ofNat_ctorIdx kind, same, Kind.ofNat_ctorIdx]
    | group other =>
      simp only [code] at same
      omega
  | group it =>
    cases two with
    | node other =>
      have := low other
      simp only [code] at same
      omega
    | group other =>
      simp only [code] at same
      rw [← Group.ofNat_ctorIdx it, Nat.add_left_cancel same, Group.ofNat_ctorIdx]

theorem Token.code_lt (token : Token) : token.code < 256 := by
  have marks : ∀ mark : Mark, mark.ctorIdx < 106 := by intro mark; cases mark <;> decide
  have words : ∀ word : Keyword, word.ctorIdx < 128 := by intro word; cases word <;> decide
  cases token with
  | mark it =>
    have := marks it
    simp only [code]
    omega
  | word it =>
    have := words it
    simp only [code]
    omega
  | _ => decide

theorem Phrase.code_lt (phrase : Phrase) : phrase.code < limit := by
  have kinds : ∀ kind : Kind, kind.ctorIdx < 256 := by intro kind; cases kind <;> decide
  have groups : ∀ group : Group, group.ctorIdx < 64 := by intro group; cases group <;> decide
  cases phrase with
  | node kind =>
    have := kinds kind
    simp only [code, limit]
    omega
  | group it =>
    have := groups it
    simp only [code, limit]
    omega

/-! ### Sets -/

theorem Token.isIn_set {one two : Token} : one.isIn two.set = true ↔ one = two := by
  rw [isIn, set, Nat.one_shiftLeft, Nat.testBit_two_pow, decide_eq_true_eq]
  exact ⟨fun same => (code_injective same).symm, fun same => congrArg code same.symm⟩

namespace Grammar

theorem testBit_union (sets : List Nat) (member : Nat) :
    (union sets).testBit member = true ↔ ∃ set ∈ sets, set.testBit member = true := by
  have added : ∀ (sets : List Nat) (start : Nat), (sets.foldl (· ||| ·) start).testBit member = true ↔
      start.testBit member = true ∨ ∃ set ∈ sets, set.testBit member = true := by
    intro sets
    induction sets with
    | nil => simp
    | cons set sets ih =>
      intro start
      rw [List.foldl_cons, ih, Nat.testBit_or, Bool.or_eq_true]
      simp only [List.mem_cons, exists_eq_or_imp]
      exact or_assoc
  rw [union, added]
  simp

/-- What is reached from a place is that place, or is gone on to from what is reached. -/
theorem testBit_reach {goOn : Nat → List Nat} {root place : Nat} : ∀ (steps : Nat) (places : List Nat) (seen : Nat),
    (∀ other, seen.testBit other = true ∨ other ∈ places →
      other = root ∨ ∃ prior, seen.testBit prior = true ∧ other ∈ goOn prior) →
    (reach goOn steps places seen).testBit place = true →
    place = root ∨ ∃ prior, (reach goOn steps places seen).testBit prior = true ∧ place ∈ goOn prior := by
  intro steps
  induction steps with
  | zero =>
    intro places seen before reached
    rw [reach] at *
    exact before place (.inl reached)
  | succ steps ih =>
    intro places seen before reached
    cases places with
    | nil =>
      rw [reach] at *
      exact before place (.inl reached)
    | cons next places =>
      rw [reach] at *
      split at reached
      next known =>
        rw [if_pos known]
        exact ih places seen (fun other here => before other (here.imp_right (List.mem_cons_of_mem _))) reached
      next fresh =>
        rw [if_neg fresh]
        refine ih _ _ (fun other here => ?_) reached
        have grows : ∀ prior, seen.testBit prior = true → (seen ||| 1 <<< next).testBit prior = true := by
          intro prior member
          rw [Nat.testBit_or, member, Bool.true_or]
        have there : (seen ||| 1 <<< next).testBit next = true := by
          rw [Nat.testBit_or, Nat.one_shiftLeft, Nat.testBit_two_pow_self, Bool.or_true]
        have earlier : seen.testBit other = true ∨ other ∈ next :: places →
            other = root ∨ ∃ prior, (seen ||| 1 <<< next).testBit prior = true ∧ other ∈ goOn prior := by
          intro here
          rcases before other here with same | ⟨prior, member, gone⟩
          · exact .inl same
          · exact .inr ⟨prior, grows prior member, gone⟩
        rcases here with here | here
        · rw [Nat.testBit_or, Bool.or_eq_true] at here
          rcases here with here | here
          · exact earlier (.inl here)
          · rw [Nat.one_shiftLeft, Nat.testBit_two_pow, decide_eq_true_eq] at here
            exact earlier (.inr (here ▸ List.mem_cons_self ..))
        · rcases List.mem_append.mp here with here | here
          · exact .inr ⟨next, there, here⟩
          · exact earlier (.inr (List.mem_cons_of_mem _ here))

/-- A phrase that can stand at the start of another one is that phrase itself, or starts one that can. -/
theorem testBit_cornersOf {phrase corner : Nat} (member : (cornersOf phrase).testBit corner = true) :
    corner = phrase ∨ ∃ prior index step, (cornersOf phrase).testBit prior = true ∧ (index, step) ∈ startsOf prior ∧
      Step.phrase? step = some corner := by
  rw [cornersOf, cornerTable, tabulate_getD] at *
  split at member
  next small =>
    rw [if_pos small]
    have begun : ∀ other, (0 : Nat).testBit other = true ∨ other ∈ [phrase] →
        other = phrase ∨ ∃ prior, (0 : Nat).testBit prior = true ∧
          other ∈ (startsOf prior).filterMap fun start => Step.phrase? start.2 := by
      intro other here
      rcases here with here | here
      · rw [Nat.zero_testBit] at here
        cases here
      · exact .inl (List.mem_singleton.mp here)
    rcases testBit_reach reachLimit [phrase] 0 begun member with same | ⟨prior, reached, gone⟩
    · exact .inl same
    · obtain ⟨⟨index, step⟩, starts, leads⟩ := List.mem_filterMap.mp gone
      exact .inr ⟨prior, index, step, reached, starts, leads⟩
  next => simp at member

/-- A phrase that can start with a token has a phrase at its start that starts with it directly. -/
theorem isIn_firstOf {phrase : Phrase} {token : Token} (member : token.isIn (firstOf (.phrase phrase)) = true) :
    ∃ corner index step, (cornersOf phrase.code).testBit corner = true ∧ (index, step) ∈ startsOf corner ∧
      step.symbol = .token token := by
  rw [Token.isIn, firstOf, firstTable, tabulate_getD] at member
  split at member
  next =>
    obtain ⟨corner, reached, direct⟩ := Entries.testBit_union_build member
    obtain ⟨set, made, inside⟩ := (testBit_union _ _).mp direct
    obtain ⟨⟨index, step⟩, starts, rfl⟩ := List.mem_map.mp made
    rw [Nat.zero_add] at starts
    dsimp only at inside
    split at inside
    next other same =>
      have equal : token = other := Token.isIn_set.mp inside
      exact ⟨corner, index, step, reached, starts, by rw [same, equal]⟩
    next =>
      rw [Nat.zero_testBit] at inside
      cases inside
  next =>
    rw [Nat.zero_testBit] at member
    cases member

/-! ### Starts -/

theorem stepAt?_of_start {phrase index : Nat} {step : Step} (start : (index, step) ∈ startsOf phrase) :
    index ∈ (stepsOf phrase).starts ∧ stepAt? phrase index = some step := by
  obtain ⟨place, member, made⟩ := List.mem_filterMap.mp start
  obtain ⟨other, found, same⟩ := Option.map_eq_some_iff.mp made
  cases same
  exact ⟨member, found⟩

theorem mem_startersOf {symbol : Symbol} {phrase index : Nat} :
    (phrase, index) ∈ startersOf symbol ↔ ∃ step, (index, step) ∈ startsOf phrase ∧ step.symbol = symbol := by
  cases symbol with
  | token token =>
    rw [startersOf, tokenStartTable, Table.mem_group_getD token.code_lt]
    constructor
    · intro member
      obtain ⟨other, _, listed⟩ := List.mem_flatMap.mp member
      obtain ⟨⟨place, step⟩, starts, reads⟩ := List.mem_filterMap.mp listed
      dsimp only at reads
      split at reads
      next read symbol =>
        obtain ⟨code, rfl, rfl⟩ : read.code = token.code ∧ other = phrase ∧ place = index := by simpa using reads
        exact ⟨step, starts, by rw [symbol, Token.code_injective code]⟩
      next => cases reads
    · rintro ⟨step, starts, symbol⟩
      have small := (production_of_step (stepAt?_of_start starts).2).1
      refine List.mem_flatMap.mpr ⟨phrase, List.mem_range.mpr small, ?_⟩
      exact List.mem_filterMap.mpr ⟨(index, step), starts, by simp only [symbol]⟩
  | phrase it =>
    rw [startersOf, phraseStartTable, Table.mem_group_getD it.code_lt]
    constructor
    · intro member
      obtain ⟨other, _, listed⟩ := List.mem_flatMap.mp member
      obtain ⟨⟨place, step⟩, starts, reads⟩ := List.mem_filterMap.mp listed
      obtain ⟨first, leads, same⟩ := Option.map_eq_some_iff.mp reads
      obtain ⟨rfl, rfl, rfl⟩ : first = it.code ∧ other = phrase ∧ place = index := by simpa using same
      refine ⟨step, starts, ?_⟩
      unfold Step.phrase? at leads
      split at leads
      next => cases leads
      next read symbol => rw [symbol, Phrase.code_injective (Option.some.inj leads)]
    · rintro ⟨step, starts, symbol⟩
      have small := (production_of_step (stepAt?_of_start starts).2).1
      refine List.mem_flatMap.mpr ⟨phrase, List.mem_range.mpr small, ?_⟩
      exact List.mem_filterMap.mpr ⟨(index, step), starts, by simp [Step.phrase?, symbol]⟩

end Grammar

def Rule.symbols : Rule → List Symbol
  | nothing => []
  | symbol it => [it]
  | pair one two => one.symbols ++ two.symbols
  | either one two => one.symbols ++ two.symbols
  | strong _ _ rule => rule.symbols
  | role _ rule => rule.symbols
  | rename _ rule => rule.symbols

theorem Rule.layout_symbols (rule : Rule) : ∀ (around : Surroundings) (first : Nat),
    (rule.layout around first).symbols.map Prod.fst = rule.symbols := by
  induction rule with
  | nothing => exact fun _ _ => rfl
  | symbol it => exact fun _ _ => rfl
  | pair one two front back =>
    intro around first
    simp only [layout, List.map_append, front, back, symbols]
  | either one two front back =>
    intro around first
    simp only [layout, List.map_append, front, back, symbols]
  | strong level side rule inner => exact fun around first => inner _ first
  | role it rule inner => exact fun around first => inner _ first
  | rename kind rule inner => exact fun around first => inner _ first

namespace Grammar

theorem symbol_mem_rule {code index : Nat} {step : Step} (found : stepAt? code index = some step) :
    ∃ production ∈ productions, step.symbol ∈ production.rule.symbols := by
  obtain ⟨small, production, known, -, -⟩ := production_of_step found
  refine ⟨production, List.mem_of_find?_eq_some known, ?_⟩
  rw [stepAt?, stepsOf_eq small known] at found
  obtain ⟨letter, -, -⟩ := Layout.mem_toSteps found
  obtain ⟨⟨symbol, role, rename⟩, here, same⟩ := Option.map_eq_some_iff.mp letter
  rw [← production.rule.layout_symbols {} 0]
  refine List.mem_map.mpr ⟨_, List.mem_of_getElem? here, ?_⟩
  exact congrArg Letter.symbol same

set_option maxRecDepth 10000 in
theorem productions_programless :
    (productions.all fun production => !production.rule.symbols.contains (.phrase (.node .program))) = true := by
  rfl

/-- A program is part of no phrase. -/
theorem symbol_ne_program {code index : Nat} {step : Step} (found : stepAt? code index = some step) :
    step.symbol ≠ .phrase (.node .program) := by
  intro same
  obtain ⟨production, member, inside⟩ := symbol_mem_rule found
  have none := List.all_eq_true.mp productions_programless production member
  rw [same] at inside
  simp [inside] at none

theorem symbol_of_phrase? {step : Step} {phrase : Phrase} (reads : Step.phrase? step = some phrase.code) :
    step.symbol = .phrase phrase := by
  unfold Step.phrase? at reads
  split at reads
  next => cases reads
  next other symbol => rw [symbol, Phrase.code_injective (Option.some.inj reads)]

theorem phrase?_ne_program {code index : Nat} {step : Step} (found : stepAt? code index = some step) :
    Step.phrase? step ≠ some (Phrase.node .program).code := by
  exact fun same => symbol_ne_program found (symbol_of_phrase? same)

end Grammar
end Graft
