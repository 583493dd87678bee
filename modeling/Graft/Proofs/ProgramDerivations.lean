import Graft.Proofs.MachineDerivations
import Graft.Proofs.NodePlaces

/-! Programs follow the grammar. What is read as a program spells a word of the rule of programs, and all of its
trees can be read for the symbols that they stand for. -/

namespace Graft
open StackEntry (symbolsOf symbolsOf_cons symbolsOf_append symbolsOf_extra partsOf)

def Phrase.words (phrase : Phrase) : List (List Letter) :=
  match Grammar.productionOf? phrase.code with
  | some production => production.rule.spellings none none
  | none => []

theorem Phrase.words_eq {phrase : Phrase} {production : Production}
    (known : Grammar.productionOf? phrase.code = some production) :
    phrase.words = production.rule.spellings none none := by
  rw [words, known]

theorem Derives.word {phrase : Phrase} {trees : List Tree} (derived : Derives (.phrase phrase) trees) :
    ∃ word ∈ phrase.words, ∃ inner, Spelled word inner ∧ trees = phrase.wrap inner := by
  generalize symbol : Symbol.phrase phrase = it at derived
  cases derived with
  | token => cases symbol
  | @phrase phrase' production parts known spells plain firm derived =>
    cases symbol
    rw [Phrase.words_eq known]
    exact Derives.spelled known (.phrase known spells plain firm derived)

theorem Spelled.before {word : List Letter} {trees gap : List Tree} (spelled : Spelled word trees)
    (between : ∀ tree ∈ gap, tree.IsGap) : Spelled word (trees ++ gap) := by
  induction spelled with
  | stop between' =>
    refine .stop fun tree member => ?_
    rcases List.mem_append.mp member with member | member
    · exact between' tree member
    · exact between tree member
  | letter between' derived _ ih =>
    rw [List.append_assoc]
    exact .letter between' derived ih

/-! ### The whole text -/

namespace Stack
variable {states : List State}

/-- A way down that takes enough symbols off can be cut where it has taken a number of them. -/
theorem Way.cut {below above : Stack} {entries : List StackEntry} {count : Nat} (way : Way below entries above)
    (some_symbol : 1 ≤ count) (enough : count ≤ (symbolsOf entries).length) :
    ∃ lower first upper middle, entries = lower ++ first :: upper ∧ Way middle (first :: upper) above ∧
      Way below lower middle ∧ (symbolsOf (first :: upper)).length = count ∧ first.isExtra = false := by
  induction way with
  | here => exact absurd enough (Nat.not_le_of_lt some_symbol)
  | @down middle above entries link way member ih =>
    by_cases short : count ≤ (symbolsOf entries).length
    · obtain ⟨lower, first, upper, middle', rfl, top, bottom, counted⟩ := ih short
      exact ⟨link.1 :: lower, first, upper, middle', rfl, top, bottom.down member, counted⟩
    · rw [symbolsOf_cons] at enough
      have plain : link.1.isExtra = false := by
        cases extra : link.1.isExtra with
        | true =>
          rw [if_pos extra] at enough
          exact absurd enough short
        | false => rfl
      refine ⟨[], link.1, entries, link.2, rfl, way.down member, .here _, ?_, plain⟩
      rw [symbolsOf_cons, plain]
      rw [plain] at enough
      simp only [Bool.false_eq_true, if_false, List.length_cons] at *
      omega

/-- Below a state without items there are comments only. -/
theorem Way.extras {below above : Stack} {entries : List StackEntry} (way : Way below entries above)
    (sound : above.Sound states) (none : above.state.items = []) :
    below.state.items = [] ∧ ∀ entry ∈ entries, entry.isExtra = true := by
  induction way with
  | here => exact ⟨none, by simp⟩
  | @down middle above entries link way member ih =>
    obtain ⟨empty, extras⟩ := ih sound none
    have fits := (way.sound sound).1.fits _ member
    have extra : link.1.isExtra = true := by
      cases extra : link.1.isExtra with
      | true => rfl
      | false => exact absurd empty (fits.passes.symbol extra).1
    refine ⟨(fits.passes.extra extra).2 empty, fun entry member => ?_⟩
    rcases List.mem_cons.mp member with rfl | member
    · exact extra
    · exact extras entry member

end Stack

def StackEntry.forest (entries : List StackEntry) : List Tree := entries.flatMap fun entry => entry.trees.reverse

theorem StackEntry.forest_extra {entries : List StackEntry} (derived : ∀ entry ∈ entries, entry.Derived)
    (extra : ∀ entry ∈ entries, entry.isExtra = true) : ∀ tree ∈ forest entries, tree.IsGap := by
  intro tree member
  obtain ⟨entry, here, member⟩ := List.mem_flatMap.mp member
  have known := derived entry here
  exact known.derives.extra_gap (known.extra ▸ extra entry here) tree member

/-- Parts without roles and other names have the trees of their entries. -/
theorem StackEntry.flatMap_dressed {entries : List StackEntry} : ∀ {steps : List Step},
    steps.map Step.symbol = symbolsOf entries → (∀ letter ∈ steps.map Step.letter, letter.role = none ∧ letter.rename = none) →
    (partsOf entries steps).flatMap Part.dressed = forest entries := by
  have same : ∀ {letter : Letter} (trees : List Tree), letter.role = none ∧ letter.rename = none →
      letter.dress trees = trees := by
    rintro ⟨symbol, _, _⟩ trees ⟨rfl, rfl⟩
    rfl
  induction entries with
  | nil =>
    intro steps reads _
    rw [List.map_eq_nil_iff.mp reads]
    rfl
  | cons entry entries ih =>
    intro steps reads plain
    rw [symbolsOf_cons] at reads
    rw [partsOf.eq_def]
    dsimp only
    split
    next extra =>
      rw [if_pos extra] at reads
      rw [List.flatMap_cons, ih reads plain]
      rfl
    next notExtra =>
      rw [if_neg notExtra] at reads
      cases steps with
      | nil => cases reads
      | cons step steps =>
        obtain ⟨_, reads⟩ := List.cons_eq_cons.mp reads
        dsimp only
        rw [List.flatMap_cons, ih reads fun letter member => plain letter (List.mem_cons_of_mem _ member)]
        rw [Part.dressed, same _ (plain step.letter (List.mem_cons_self ..))]
        rfl

theorem program_words : (Phrase.node .program).words =
    [[⟨.token .hashBang, none, none⟩, ⟨.phrase (.group .statements), none, none⟩], [⟨.token .hashBang, none, none⟩],
      [⟨.phrase (.group .statements), none, none⟩], []] := by
  rfl

def IsProgram (entries : List StackEntry) : Prop :=
  ∃ word ∈ (Phrase.node .program).words, Spelled word (StackEntry.forest entries)

theorem StackEntry.Derived.finish_gap {last : StackEntry} (derived : last.Derived)
    (ends : last.symbol = .token .finish) : ∀ tree ∈ last.trees.reverse, tree.IsGap := by
  have read := derived.derives
  rw [ends] at read
  generalize last.trees.reverse = trees at read
  generalize it : Symbol.token Token.finish = other at read
  cases read with
  | phrase => cases it
  | @token token spacing text blank shape =>
    cases it
    cases (shape : text = [])
    intro tree member
    rcases List.mem_append.mp member with member | member
    · split at member
      next => cases member
      next =>
        rw [List.mem_singleton.mp member]
        exact Tree.isGap_spacing blank
    · cases member

theorem program_plain {word : List Letter} (member : word ∈ (Phrase.node .program).words) :
    ∀ letter ∈ word, letter.role = none ∧ letter.rename = none := by
  intro letter here
  rw [program_words] at member
  simp only [List.mem_cons, List.not_mem_nil, or_false] at member
  rcases member with same | same | same | same <;> rw [same] at here <;>
    simp only [List.mem_cons, List.not_mem_nil, or_false] at here
  · rcases here with rfl | rfl <;> exact ⟨rfl, rfl⟩
  · subst here; exact ⟨rfl, rfl⟩
  · subst here; exact ⟨rfl, rfl⟩

/-- Entries that are traced through the steps of a program spell one. -/
theorem program_spelled {entries : List StackEntry} {steps : List Step} (some_symbol : symbolsOf entries ≠ [])
    (derived : ∀ entry ∈ entries, entry.Derived)
    (traced : StackEntry.trace (Grammar.stepsOf (Phrase.node .program).code).steps
      (Grammar.stepsOf (Phrase.node .program).code).starts (symbolsOf entries) = some steps) :
    IsProgram entries := by
  cases known : Grammar.productionOf? (Phrase.node .program).code with
  | none =>
    have words := program_words
    rw [Phrase.words, known] at words
    cases words
  | some production =>
    rw [Grammar.stepsOf_eq (Phrase.node .program).code_lt known] at traced
    obtain ⟨letters, reads⟩ := StackEntry.trace_spells some_symbol traced
    rw [← Phrase.words_eq known] at letters
    obtain ⟨word, noName, all⟩ := StackEntry.word_partsOf derived steps reads
    have spelled := Spelled.of_parts noName all
    rw [word, StackEntry.flatMap_dressed reads (program_plain letters)] at spelled
    exact ⟨_, letters, spelled⟩

/-- What is on top of a sound stack where a program may end spells a program. -/
theorem program_completes : Machine.Completes IsProgram := by
  intro states stack bottom taken last sound may way unlinked finish symbol
  have tail := finish.finish_gap symbol
  have whole : StackEntry.forest (taken ++ [{ last with isExtra := true }]) =
      StackEntry.forest taken ++ last.trees.reverse := by simp [StackEntry.forest]
  rw [IsProgram, whole]
  have extras : ∀ {lower : List StackEntry} {middle : Stack}, Stack.Way bottom lower middle → middle.Sound states →
      middle.state.items = [] → ∀ tree ∈ StackEntry.forest lower, tree.IsGap := by
    intro lower middle way sound none
    exact StackEntry.forest_extra (way.sound sound).2 (way.extras sound none).2
  rw [Machine.mayEnd, Bool.or_eq_true] at may
  rcases may with empty | ends
  · refine ⟨[], by rw [program_words]; simp, .before (.stop ?_) tail⟩
    exact extras way sound (List.isEmpty_iff.mp empty)
  · obtain ⟨item, member, ends⟩ := List.any_eq_true.mp ends
    obtain ⟨program, final⟩ := Bool.and_eq_true_iff.mp ends
    have program : item.phrase = (Phrase.node .program).code := of_decide_eq_true program
    have enough : item.count ≤ (symbolsOf taken).length := by
      refine Nat.le_of_not_lt fun short => ?_
      obtain ⟨prior, inside, _⟩ := way.prior sound member short
      have start : bottom.state.items = [] := by
        have bottom := (way.sound sound).1
        cases bottom with
        | bottom => exact State.start_items
        | top _ _ linked => exact absurd unlinked linked
      rw [start] at inside
      cases inside
    -- the item has taken its steps above the entries of comments
    obtain ⟨lower, first, upper, middle, rfl, top, bottom', counted, plain⟩ :=
      way.cut (sound.count_pos item member) enough
    obtain ⟨corner, -⟩ := top.start sound member plain counted
    obtain ⟨steps, traced⟩ := top.traced sound member plain counted final
    rw [program] at corner traced
    obtain ⟨middle', derived⟩ := top.sound sound
    have gap := extras bottom' middle' (State.items_eq_nil_of_program middle'.made corner)
    have some_symbol : symbolsOf (first :: upper) ≠ [] :=
      List.ne_nil_of_length_pos (by rw [counted]; exact sound.count_pos item member)
    obtain ⟨word, here, spelled⟩ := program_spelled some_symbol derived traced
    have split : StackEntry.forest (lower ++ first :: upper) =
        StackEntry.forest lower ++ StackEntry.forest (first :: upper) := by simp [StackEntry.forest]
    refine ⟨word, here, .before ?_ tail⟩
    rw [split]
    exact spelled.behind gap

/-- What is read as a program spells one. -/
theorem Program.parse_spelled {source : Text} {program : Program} (read : Program.parse source = .ok program) :
    ∃ word ∈ (Phrase.node .program).words, Spelled word program.tree.children := by
  obtain ⟨_, forest, found, tree⟩ := Program.parse_ok read
  obtain ⟨entries, finished, rfl⟩ := Option.map_eq_some_iff.mp found
  rw [tree]
  exact Machine.read_finished program_completes finished

end Graft
