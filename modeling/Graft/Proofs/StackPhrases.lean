import Graft.Proofs.StackDerivations
import Graft.Grammar.Machine

/-! Phrases on sound stacks. Where an item has come to the end of a phrase, the entries below are traced through
the steps of the phrase, and taking them together leaves a sound stack. -/

namespace Graft

namespace StackEntry

def symbolsOf (entries : List StackEntry) : List Symbol := (entries.filter fun entry => !entry.isExtra).map symbol

theorem symbolsOf_cons (entry : StackEntry) (entries : List StackEntry) :
    symbolsOf (entry :: entries) = if entry.isExtra then symbolsOf entries else entry.symbol :: symbolsOf entries := by
  rw [symbolsOf, List.filter_cons]
  cases entry.isExtra <;> rfl

theorem symbolsOf_append (first second : List StackEntry) : symbolsOf (first ++ second) = symbolsOf first ++ symbolsOf second := by
  simp [symbolsOf]

theorem symbolsOf_extra {entries : List StackEntry} (extra : ∀ entry ∈ entries, entry.isExtra = true) :
    symbolsOf entries = [] := by
  rw [symbolsOf, List.filter_eq_nil_iff.mpr fun entry member => by simp [extra entry member]]
  rfl

/-! ### Entries of phrases -/

theorem reverse_enclose (kind : Kind) (trees : List Tree) :
    (enclose kind trees).reverse = Forest.enclose kind trees.reverse := by
  unfold enclose
  dsimp only
  rw [List.reverse_cons, List.reverse_reverse]
  rfl

theorem reverse_apply {step : Step} {entry : StackEntry} (same : entry.symbol = step.symbol) :
    (entry.apply step).reverse = step.letter.dress entry.trees.reverse := by
  unfold apply Letter.dress
  dsimp only [Step.letter]
  rw [same]
  generalize step.symbol = symbol
  cases step.rename with
  | none =>
    cases step.role with
    | none => rfl
    | some role => exact List.map_reverse.symm
  | some kind =>
    rcases symbol with token | kind' | group
    case phrase.group =>
      cases step.role with
      | none => exact reverse_enclose _ _
      | some role =>
        dsimp only
        rw [← List.map_reverse, reverse_enclose]
    all_goals
      cases step.role with
      | none => exact List.map_reverse.symm
      | some role =>
        dsimp only
        rw [List.map_reverse, List.map_reverse]

/-- The parts that entries are for the steps of a phrase. -/
def partsOf : List StackEntry → List Step → List Part
  | [], _ => []
  | entry :: entries, steps =>
    if entry.isExtra then ⟨{ symbol := entry.symbol }, entry.trees.reverse⟩ :: partsOf entries steps
    else
      match steps with
      | [] => []
      | step :: steps => ⟨step.letter, entry.trees.reverse⟩ :: partsOf entries steps

theorem reverse_gather (entries : List StackEntry) : ∀ (steps : List Step) (trees : List Tree),
    steps.map Step.symbol = symbolsOf entries →
    (gather entries steps trees).reverse = trees.reverse ++ (partsOf entries steps).flatMap Part.dressed := by
  induction entries with
  | nil => simp [gather, partsOf]
  | cons entry entries ih =>
    intro steps trees same
    rw [symbolsOf_cons] at same
    rw [gather.eq_def, partsOf.eq_def]
    dsimp only
    split
    next extra =>
      rw [if_pos extra] at same
      rw [ih steps _ same, List.flatMap_cons, List.reverse_append, List.append_assoc]
      rfl
    next plain =>
      rw [if_neg plain] at same
      cases steps with
      | nil => cases same
      | cons step steps =>
        obtain ⟨symbol, same⟩ := List.cons_eq_cons.mp same
        dsimp only
        rw [ih steps _ same, List.flatMap_cons, List.reverse_append, reverse_apply symbol.symm, List.append_assoc]
        rfl

theorem word_partsOf {entries : List StackEntry} (derived : ∀ entry ∈ entries, entry.Derived) : ∀ (steps : List Step),
    steps.map Step.symbol = symbolsOf entries →
    Part.word (partsOf entries steps) = steps.map Step.letter ∧
      (∀ part ∈ partsOf entries steps, part.isExtra = true → part.letter.role = none ∧ part.letter.rename = none) ∧
      ∀ part ∈ partsOf entries steps, Derives part.letter.symbol part.trees := by
  induction entries with
  | nil =>
    intro steps same
    rw [List.map_eq_nil_iff.mp same]
    simp [partsOf, Part.word]
  | cons entry entries ih =>
    intro steps same
    have here := derived entry (List.mem_cons_self ..)
    have ih := ih fun other member => derived other (List.mem_cons_of_mem _ member)
    rw [symbolsOf_cons] at same
    rw [partsOf.eq_def]
    dsimp only
    split
    next extra =>
      rw [if_pos extra] at same
      obtain ⟨word, plain, all⟩ := ih steps same
      have isExtra : entry.symbol.isExtra = true := here.extra ▸ extra
      refine ⟨?_, ?_, ?_⟩
      · simpa [Part.word, Part.isExtra, isExtra] using word
      · intro part member
        rcases List.mem_cons.mp member with rfl | member
        · exact fun _ => ⟨rfl, rfl⟩
        · exact plain part member
      · intro part member
        rcases List.mem_cons.mp member with rfl | member
        · exact here.derives
        · exact all part member
    next notExtra =>
      rw [if_neg notExtra] at same
      cases steps with
      | nil => cases same
      | cons step steps =>
        obtain ⟨symbol, same⟩ := List.cons_eq_cons.mp same
        obtain ⟨word, plain, all⟩ := ih steps same
        have isExtra : step.letter.symbol.isExtra = false := by
          rw [Bool.not_eq_true, here.extra] at notExtra
          rw [Step.letter, symbol]
          exact notExtra
        refine ⟨?_, ?_, ?_⟩
        · simpa [Part.word, Part.isExtra, isExtra] using word
        · intro part member extra
          rcases List.mem_cons.mp member with rfl | member
          · rw [Part.isExtra, isExtra] at extra
            cases extra
          · exact plain part member extra
        · intro part member
          rcases List.mem_cons.mp member with rfl | member
          · rw [Step.letter, symbol]
            exact here.derives
          · exact all part member

theorem head_partsOf {first : StackEntry} {entries : List StackEntry} {steps : List Step} (derived : first.Derived)
    (counts : first.isExtra = false) (same : steps.map Step.symbol = symbolsOf (first :: entries)) :
    ∀ part, (partsOf (first :: entries) steps).head? = some part → part.isExtra = false := by
  intro part head
  rw [symbolsOf_cons, counts] at same
  rw [partsOf.eq_def] at head
  cases steps with
  | nil => cases same
  | cons step steps =>
    have symbol : step.symbol = first.symbol := (List.cons.inj same).1
    simp only [counts, Bool.false_eq_true, if_false, List.head?_cons, Option.some.injEq] at head
    rw [← head, Part.isExtra, Step.letter, symbol, ← derived.extra, counts]

/-- Entries that are traced through the steps of a phrase make an entry for it. -/
theorem ofPhrase_derived {phrase : Phrase} {production : Production} {entries : List StackEntry} {steps : List Step}
    (known : Grammar.productionOf? phrase.code = some production) (derived : ∀ entry ∈ entries, entry.Derived)
    (some_symbol : symbolsOf entries ≠ []) (counts : ∀ first, entries.head? = some first → first.isExtra = false)
    (traced : trace (Grammar.stepsOf phrase.code).steps (Grammar.stepsOf phrase.code).starts (symbolsOf entries) =
      some steps) : (ofPhrase phrase entries).Derived := by
  have rule := Grammar.stepsOf_eq phrase.code_lt known
  have spells := traced
  rw [rule] at spells
  obtain ⟨letters, same⟩ := trace_spells some_symbol spells
  obtain ⟨word, plain, all⟩ := word_partsOf derived steps same
  have gathered : (gather entries steps []).reverse = (partsOf entries steps).flatMap Part.dressed :=
    reverse_gather entries steps [] same
  have trees : (ofPhrase phrase entries).trees.reverse =
      phrase.wrap ((partsOf entries steps).flatMap Part.dressed) := by
    unfold ofPhrase
    dsimp only
    rw [show (entries.filter fun entry => !entry.isExtra).map StackEntry.symbol = symbolsOf entries from rfl, traced]
    cases phrase with
    | node kind =>
      dsimp only [Option.getD_some]
      rw [reverse_enclose, gathered]
      rfl
    | group group => exact gathered
  refine ⟨?_, rfl⟩
  rw [trees]
  refine .phrase known (word ▸ letters) plain ?_ all
  cases entries with
  | nil => exact absurd rfl some_symbol
  | cons first entries => exact head_partsOf (derived first (List.mem_cons_self ..)) (counts first rfl) same

end StackEntry
end Graft
