import Graft.Proofs.ActionItems
import Graft.Proofs.StackWays

/-! What the machine reads. Each of its moves keeps all stacks sound, so a reading of a whole text holds the
trees of a word of the rule of programs: the machine reads nothing that the grammar does not allow. -/

namespace Graft.Machine
open StackEntry (symbolsOf symbolsOf_cons symbolsOf_append symbolsOf_extra)
variable {states : List State}

/-! ### Phrases in place of their parts -/

theorem entryOf_derived {reading : Reading} {text : Text} (fits : reading.Fits text) : (entryOf reading text).Derived := by
  refine ⟨?_, rfl⟩
  have trees : (entryOf reading text).trees.reverse =
      reading.token.trees (text.take reading.spacing) ((text.drop reading.spacing).take reading.length) := by
    unfold entryOf Token.trees
    dsimp only
    split <;> split <;> rfl
  rw [trees]
  exact .token fits.spacing fits.shape

private theorem push_extras {state : State} {rest : Text} (made : state.Made) : ∀ {extras : List StackEntry} {stack : Stack},
    stack.Sound states → stack.number + 1 = states.length → stack.state = state → stack.rest = rest →
    (∀ extra ∈ extras, extra.Derived ∧ extra.isExtra = true) →
    let pushed := extras.foldl
      (fun stack extra => stack.push (stack.number + 1) extra state (stack.offset + extra.width) rest) stack
    ∃ more, pushed.Sound (states ++ more) ∧ pushed.number + 1 = (states ++ more).length ∧ pushed.rest = rest := by
  intro extras
  induction extras generalizing states with
  | nil =>
    intro stack sound number _ same _
    exact ⟨[], by simpa using sound, by simpa using number, same⟩
  | cons extra extras ih =>
    intro stack sound number top same all
    obtain ⟨derived, isExtra⟩ := all extra (List.mem_cons_self ..)
    have passes : State.Passes stack.state extra state := by
      rw [top]
      exact .stay isExtra
    have pushed := sound.push (stack.offset + extra.width) rest made derived passes
    rw [← number] at pushed
    have next : stack.number + 1 + 1 = (states ++ [state]).length := by
      rw [List.length_append, number]
      rfl
    obtain ⟨more, rest⟩ := ih pushed next rfl rfl
      fun other member => all other (List.mem_cons_of_mem _ member)
    refine ⟨state :: more, ?_⟩
    rw [List.append_cons]
    exact rest

private theorem split_extras (entries : List StackEntry) : ∃ front extras, front ++ extras = entries ∧
    entries.take (entries.length - extras.length) = front ∧
    (entries.reverse.takeWhile StackEntry.isExtra).reverse = extras ∧ ∀ entry ∈ extras, entry.isExtra = true := by
  have whole : (entries.reverse.dropWhile StackEntry.isExtra).reverse ++
      (entries.reverse.takeWhile StackEntry.isExtra).reverse = entries := by
    rw [← List.reverse_append, List.takeWhile_append_dropWhile, List.reverse_reverse]
  refine ⟨_, _, whole, ?_, rfl, ?_⟩
  · generalize (entries.reverse.dropWhile StackEntry.isExtra).reverse = front at whole ⊢
    generalize (entries.reverse.takeWhile StackEntry.isExtra).reverse = extras at whole ⊢
    rw [← whole, List.length_append, Nat.add_sub_cancel, List.take_left]
  · intro entry member
    exact List.all_eq_true.mp List.all_takeWhile entry (List.mem_reverse.mp member)

/-- Entries in which an item has come to the end of its phrase are sound as one entry for it. -/
theorem place_sound {stack base below : Stack} {item : Item} {entries : List StackEntry} (rest : Text)
    (sound : stack.Sound states) (member : item ∈ stack.state.items) (final : item.final?.isSome = true)
    (part : item.phrase ≠ (Phrase.node .program).code) (popped : (entries, base) ∈ stack.pop item.count)
    (lower : below.Sound states) (same : below.state = base.state) :
    ∃ more, (place states.length (Grammar.phraseTable.getD item.phrase (.node .program)) entries rest below).Sound
        (states ++ more) ∧
      (place states.length (Grammar.phraseTable.getD item.phrase (.node .program)) entries rest below).number + 1 =
        (states ++ more).length ∧
      (place states.length (Grammar.phraseTable.getD item.phrase (.node .program)) entries rest below).rest = rest := by
  have some_entry : item.count ≠ 0 := Nat.ne_of_gt (sound.count_pos item member)
  obtain ⟨way, counted, first, others, rfl, plain⟩ := Stack.mem_pop some_entry popped
  obtain ⟨corner, -⟩ := way.start sound member plain counted
  obtain ⟨steps, traced⟩ := way.traced sound member plain counted final
  have derived := (way.sound sound).2
  obtain ⟨strength, ends⟩ := Option.isSome_iff_exists.mp final
  obtain ⟨step, found, -⟩ := Option.bind_eq_some_iff.mp ends
  obtain ⟨-, production, known, code, phrase⟩ := Grammar.production_of_step found
  rw [phrase]
  rw [← code] at corner part traced
  have known' : Grammar.productionOf? production.phrase.code = some production := by
    rw [code]
    exact known
  -- the comments at the end do not belong to the phrase
  have begins : (first :: others).head? = some first := rfl
  generalize first :: others = entries at traced derived counted begins ⊢
  obtain ⟨front, extras, whole, taken, tail, extra⟩ := split_extras entries
  have symbols : symbolsOf entries = symbolsOf front := by
    rw [← whole, symbolsOf_append, symbolsOf_extra extra, List.append_nil]
  have some_symbol : symbolsOf front ≠ [] := by
    rw [← symbols]
    exact List.ne_nil_of_length_pos (by omega)
  have counts : ∀ entry, front.head? = some entry → entry.isExtra = false := by
    intro entry head
    rw [← whole, List.head?_append, head, Option.some_or] at begins
    rw [Option.some.inj begins]
    exact plain
  rw [symbols] at traced
  have made := StackEntry.ofPhrase_derived known'
    (fun entry member => derived entry (whole ▸ List.mem_append_left _ member)) some_symbol counts traced
  have next : (below.state.next (.phrase production.phrase)).items ≠ [] :=
    State.next_ne_nil_of_phrase lower.made (same ▸ corner) fun program => part (congrArg Phrase.code program)
  have pushed := lower.push (below.offset + (StackEntry.ofPhrase production.phrase front).width) rest
    (State.next_made next) made (State.Passes.next rfl next)
  have number : states.length + 1 = (states ++ [below.state.next (.phrase production.phrase)]).length := by simp
  obtain ⟨more, done⟩ := push_extras (State.next_made next) pushed number rfl rfl
    fun entry member => ⟨derived entry (whole ▸ List.mem_append_right _ member), extra entry member⟩
  refine ⟨below.state.next (.phrase production.phrase) :: more, ?_⟩
  rw [List.append_cons, place]
  rw [tail, taken]
  exact done

/-! ### Ways to read a text -/

/-- A machine all of whose ways are sound. What has been read to the end has the property asked for. -/
structure Sound (whole : List StackEntry → Prop) (states : List State) (machine : Machine) : Prop where
  fresh : machine.fresh = states.length
  live : ∀ version ∈ machine.versions, version.stack.Sound states
  finished : ∀ entries, machine.finished = some entries → whole entries

variable {whole : List StackEntry → Prop}

theorem mem_regroup {ways : List (List StackEntry × Stack)} : ∀ {group : List (List StackEntry) × Stack},
    group ∈ regroup ways → group.1 ≠ [] ∧ (∃ entries, (entries, group.2) ∈ ways) ∧
      ∀ entries ∈ group.1, ∃ base, (entries, base) ∈ ways ∧ base.number = group.2.number := by
  induction ways with
  | nil =>
    intro group member
    cases member
  | cons way ways ih =>
    obtain ⟨entries, below⟩ := way
    intro group member
    have older : ∀ {group : List (List StackEntry) × Stack}, group ∈ regroup ways → group.1 ≠ [] ∧
        (∃ entries', (entries', group.2) ∈ (entries, below) :: ways) ∧
        ∀ entries' ∈ group.1, ∃ base, (entries', base) ∈ (entries, below) :: ways ∧ base.number = group.2.number := by
      intro group member
      obtain ⟨some_way, ⟨first, here⟩, all⟩ := ih member
      refine ⟨some_way, ⟨first, List.mem_cons_of_mem _ here⟩, fun entries' inside => ?_⟩
      obtain ⟨base, there, same⟩ := all entries' inside
      exact ⟨base, List.mem_cons_of_mem _ there, same⟩
    rw [regroup] at member
    split at member
    next joined found =>
      rcases List.mem_cons.mp member with rfl | member
      · have same : joined.2.number = below.number := by simpa using List.find?_some found
        obtain ⟨_, _, all⟩ := older (List.mem_of_find?_eq_some found)
        refine ⟨by simp, ⟨entries, List.mem_cons_self ..⟩, fun entries' inside => ?_⟩
        rcases List.mem_cons.mp inside with rfl | inside
        · exact ⟨below, List.mem_cons_self .., rfl⟩
        · obtain ⟨base, there, number⟩ := all entries' inside
          exact ⟨base, there, number.trans same⟩
      · exact older (List.mem_filter.mp member).1
    next =>
      rcases List.mem_cons.mp member with rfl | member
      · refine ⟨by simp, ⟨entries, List.mem_cons_self ..⟩, fun entries' inside => ?_⟩
        rw [List.mem_singleton.mp inside]
        exact ⟨below, List.mem_cons_self .., rfl⟩
      · exact older member

theorem choose_mem {ways : List (List StackEntry)} (some_way : ways ≠ []) : choose ways ∈ ways := by
  have best : ∀ (others : List (List StackEntry)) (first : List StackEntry),
      others.foldl (fun best other => if StackEntry.better other best then other else best) first ∈ first :: others := by
    intro others
    induction others with
    | nil => simp
    | cons other others ih =>
      intro first
      rw [List.foldl_cons]
      rcases List.mem_cons.mp (ih (if StackEntry.better other first then other else first)) with same | later
      · rw [same]
        split <;> simp
      · exact List.mem_cons_of_mem _ (List.mem_cons_of_mem _ later)
  cases ways with
  | nil => exact absurd rfl some_way
  | cons first others => exact best others first

theorem mem_modify {α : Type} {index : Nat} {change : α → α} {one : α} : ∀ {all : List α} ,
    one ∈ all.modify index change → one ∈ all ∨ ∃ old, all[index]? = some old ∧ one = change old := by
  intro all member
  obtain ⟨place, found⟩ := List.mem_iff_getElem?.mp member
  rw [List.getElem?_modify] at found
  split at found
  next here =>
    subst here
    obtain ⟨old, there, same⟩ := Option.map_eq_some_iff.mp found
    exact .inr ⟨old, there, same.symm⟩
  next => exact .inl (List.mem_of_getElem? (by simpa using found))

theorem meeting?_meets {stack : Stack} {first index : Nat} {versions : List Version}
    (found : meeting? stack first versions = some index) :
    ∃ version, versions[index]? = some version ∧ version.stack.meets stack = true := by
  obtain ⟨place, here, rfl⟩ := Option.map_eq_some_iff.mp found
  obtain ⟨small, meets, _⟩ := List.findIdx?_eq_some_iff_getElem.mp here
  refine ⟨(versions.drop first)[place], ?_, (Bool.and_eq_true_iff.mp meets).2⟩
  rw [← List.getElem?_drop, List.getElem?_eq_getElem small]

/-- All ways from a number on have the same text still to read. -/
def RestsFrom (machine : Machine) (first : Nat) (rest : Text) : Prop :=
  ∀ (place : Nat) (version : Version), first ≤ place → machine.versions[place]? = some version →
    version.stack.rest = rest

theorem enter_sound {machine : Machine} {stack : Stack} (source : Nat) (sound : machine.Sound whole states)
    (added : stack.Sound states) :
    (machine.enter source stack).Sound whole states ∧ (machine.enter source stack).fresh = machine.fresh ∧
      machine.versions.length ≤ (machine.enter source stack).versions.length ∧
      ∀ first, machine.RestsFrom first stack.rest → (machine.enter source stack).RestsFrom first stack.rest := by
  unfold enter
  dsimp only
  split
  next index found =>
    have met : ∃ version, machine.versions[index]? = some version ∧ version.stack.meets stack = true := by
      rcases Option.or_eq_some_iff.mp found with found | ⟨_, found⟩
      · obtain ⟨version, here, meets⟩ := meeting?_meets found
        rw [List.getElem?_take] at here
        split at here
        next => exact ⟨version, here, meets⟩
        next => cases here
      · exact meeting?_meets found
    obtain ⟨other, here, meets⟩ := met
    have merged := Stack.merge_sound (sound.live other (List.mem_of_getElem? here)) added meets
    refine ⟨⟨sound.fresh, fun version member => ?_, sound.finished⟩, rfl, by simp, ?_⟩
    · rcases mem_modify member with member | ⟨old, there, rfl⟩
      · exact sound.live version member
      · cases here.symm.trans there
        exact merged.1
    · intro first before place version late there
      dsimp only at there
      rw [List.getElem?_modify] at there
      split at there
      next same =>
        subst same
        rw [here] at there
        cases there
        exact merged.2.2.trans (before _ other late here)
      next => exact before place version late (by simpa using there)
  next =>
    split
    next => exact ⟨sound, rfl, Nat.le_refl _, fun first before => before⟩
    next =>
      refine ⟨⟨sound.fresh, fun version member => ?_, sound.finished⟩, rfl, by simp, ?_⟩
      · rcases List.mem_append.mp member with member | member
        · exact sound.live version member
        · rw [List.mem_singleton.mp member]
          exact added
      · intro first before place version late there
        dsimp only at there
        rw [List.getElem?_append] at there
        split at there
        next => exact before place version late there
        next =>
          have member := List.mem_of_getElem? there
          rw [List.mem_singleton.mp member]

theorem Sound.mono {machine : Machine} {more : List State} {fresh : Nat} (sound : machine.Sound whole states)
    (grows : fresh = (states ++ more).length) : ({ machine with fresh } : Machine).Sound whole (states ++ more) :=
  ⟨grows, fun version member => (sound.live version member).mono, sound.finished⟩

/-- A reduction leaves all ways sound, and adds only such that go on where it was made. -/
theorem reduce_sound {stack : Stack} {token : Token} {reduction : Reduction} (source : Nat)
    (allowed : reduction ∈ (Actions.of stack.state token).reductions) (machine : Machine)
    (sound : machine.Sound whole states) (known : stack.Sound states) :
    ∃ more, (machine.reduce source stack reduction).Sound whole (states ++ more) ∧
      machine.versions.length ≤ (machine.reduce source stack reduction).versions.length ∧
      ∀ first, machine.RestsFrom first stack.rest → (machine.reduce source stack reduction).RestsFrom first stack.rest := by
  obtain ⟨item, member, final, part, rfl⟩ := Actions.mem_reductions allowed
  unfold reduce
  dsimp only
  have all : ∀ group ∈ regroup (stack.pop item.count), group ∈ regroup (stack.pop item.count) := fun _ => id
  generalize groups : regroup (stack.pop item.count) = list
  rw [groups] at all
  have inside : ∀ group ∈ list, group ∈ regroup (stack.pop item.count) := fun group member => groups ▸ member
  clear groups all
  induction list generalizing machine states with
  | nil => exact ⟨[], by simpa using sound, Nat.le_refl _, fun _ => id⟩
  | cons group list ih =>
    obtain ⟨ways, below⟩ := group
    obtain ⟨some_way, ⟨other, popped⟩, bases⟩ := mem_regroup (inside _ (List.mem_cons_self ..))
    obtain ⟨base, popped', number⟩ := bases _ (choose_mem some_way)
    have some_entry : item.count ≠ 0 := Nat.ne_of_gt (known.count_pos item member)
    have lower := ((Stack.mem_pop some_entry popped).1.sound known).1
    have upper := ((Stack.mem_pop some_entry popped').1.sound known).1
    have same : below.state = base.state := by
      have first := lower.known
      rw [← number, upper.known] at first
      exact (Option.some.inj first).symm
    obtain ⟨more, made, next, rest⟩ := place_sound stack.rest known member final part popped' lower same
    rw [List.foldl_cons]
    dsimp only
    rw [sound.fresh]
    obtain ⟨entered, -, longer, rests⟩ := enter_sound source (sound.mono next) made
    rw [rest] at rests
    obtain ⟨more', done, longer', rests'⟩ := ih _ entered known.mono fun group member => inside group (List.mem_cons_of_mem _ member)
    refine ⟨more ++ more', by rw [← List.append_assoc]; exact done, Nat.le_trans longer longer', fun first before => ?_⟩
    exact rests' first (rests first before)

theorem stop_sound {machine : Machine} (sound : machine.Sound whole states) (index : Nat) (progress : Progress) :
    (machine.stop index progress).Sound whole states := by
  refine ⟨sound.fresh, fun version member => ?_, sound.finished⟩
  rcases mem_modify member with member | ⟨old, there, rfl⟩
  · exact sound.live version member
  · exact sound.live old (List.mem_of_getElem? there)

/-- Reading a token that can be read, or a comment, leaves all ways sound. -/
theorem follow_sound {machine : Machine} {stack : Stack} {reading : Reading} (index : Nat)
    (sound : machine.Sound whole states) (known : stack.Sound states) (fits : reading.Fits stack.rest)
    (allowed : reading.token.isExtra = true ∨ (Actions.of stack.state reading.token).shifts = true) :
    ∃ more, (machine.follow index reading stack).Sound whole (states ++ more) := by
  have derived := entryOf_derived fits
  have shifted : ∃ state, (shift machine.fresh reading stack).Sound (states ++ [state]) := by
    unfold shift
    dsimp only
    rw [sound.fresh]
    split
    next extra => exact ⟨_, known.push _ _ known.made derived (.stay extra)⟩
    next plain =>
      have shifts := allowed.resolve_left plain
      have next := State.next_ne_nil_of_shift known.made shifts
      exact ⟨_, known.push _ _ (State.next_made next) derived (.next (by simpa using plain) next)⟩
  obtain ⟨state, pushed⟩ := shifted
  refine ⟨[state], by simp [follow, sound.fresh], fun version member => ?_, sound.finished⟩
  rcases List.mem_or_eq_of_mem_set member with member | rfl
  · exact (sound.live version member).mono
  · exact pushed

theorem keepBetter_cases (best : Option (List StackEntry)) (way : List StackEntry) :
    keepBetter best way = best ∨ keepBetter best way = some way := by
  unfold keepBetter
  split
  next => exact .inr rfl
  next =>
    split
    next => exact .inr rfl
    next => exact .inl rfl

theorem mem_keepBetter {ways : List (List StackEntry)} {entries : List StackEntry} : ∀ {best : Option (List StackEntry)},
    ways.foldl keepBetter best = some entries → best = some entries ∨ entries ∈ ways := by
  induction ways with
  | nil => exact fun found => .inl found
  | cons way ways ih =>
    intro best found
    rw [List.foldl_cons] at found
    rcases ih found with here | later
    · rcases keepBetter_cases best way with same | same
      · rw [same] at here
        exact .inl here
      · rw [same] at here
        cases here
        exact .inr (List.mem_cons_self ..)
    · exact .inr (List.mem_cons_of_mem _ later)

/-- The property of what has been read to the end follows from being on top of a sound stack where a program
may end. -/
def Completes (whole : List StackEntry → Prop) : Prop :=
  ∀ (states : List State) (stack bottom : Stack) (taken : List StackEntry) (last : StackEntry), stack.Sound states →
    mayEnd stack.state = true → Stack.Way bottom taken stack → bottom.links = [] → last.Derived →
    last.symbol = .token .finish → whole (taken ++ [{ last with isExtra := true }])

theorem finish_sound {machine : Machine} {stack : Stack} {reading : Reading} (completes : Completes whole)
    (sound : machine.Sound whole states) (known : stack.Sound states) (fits : reading.Fits stack.rest)
    (ends : reading.token = .finish) (may : mayEnd stack.state = true) :
    (machine.finish reading stack).Sound whole states := by
  refine ⟨sound.fresh, sound.live, fun entries found => ?_⟩
  rcases mem_keepBetter found with before | member
  · exact sound.finished entries before
  · have begins : ∀ way ∈ [([{ entryOf reading stack.rest with isExtra := true }], stack)], ∃ taken,
        way.1 = taken ++ [{ entryOf reading stack.rest with isExtra := true }] ∧ Stack.Way way.2 taken stack := by
      intro way member
      cases List.mem_singleton.mp member
      exact ⟨[], rfl, .here stack⟩
    obtain ⟨taken, bottom, rfl, way, none⟩ := Stack.mem_unwind begins member
    exact completes states stack bottom taken _ known may way none (entryOf_derived fits) (by rw [← ends]; rfl)

/-- Trying all reductions leaves all ways sound; what is added goes on where they were made, and so does the
latest. -/
private theorem reductions_sound {stack : Stack} {token : Token} (index : Nat) {reductions : List Reduction}
    (allowed : ∀ reduction ∈ reductions, reduction ∈ (Actions.of stack.state token).reductions) {first : Nat} :
    ∀ {states : List State} (machine : Machine) (latest : Option Nat), machine.Sound whole states → stack.Sound states →
    first ≤ machine.versions.length → machine.RestsFrom first stack.rest → (∀ place, latest = some place → first ≤ place) →
    let done := reductions.foldl (fun (state : Machine × Option Nat) (reduction : Reduction) =>
      let made := state.1.reduce index stack reduction
      (made, if state.1.versions.length < made.versions.length then some state.1.versions.length else state.2)) (machine, latest)
    ∃ more, done.1.Sound whole (states ++ more) ∧ done.1.RestsFrom first stack.rest ∧
      ∀ place, done.2 = some place → first ≤ place := by
  induction reductions with
  | nil => exact fun machine latest sound _ _ rests late => ⟨[], by simpa using sound, rests, late⟩
  | cons reduction reductions ih =>
    intro states machine latest sound known long rests late
    obtain ⟨more, made, longer, rests'⟩ := reduce_sound index (allowed _ (List.mem_cons_self ..)) machine sound known
    have late' : ∀ place, (if machine.versions.length < (machine.reduce index stack reduction).versions.length then
        some machine.versions.length else latest) = some place → first ≤ place := by
      intro place same
      split at same
      next =>
        cases same
        exact long
      next => exact late place same
    obtain ⟨more', done⟩ := ih (fun other member => allowed other (List.mem_cons_of_mem _ member)) _ _ made known.mono
      (Nat.le_trans long longer) (rests' first rests) late'
    refine ⟨more ++ more', ?_⟩
    rw [← List.append_assoc]
    exact done

theorem Sound.moved {machine : Machine} (sound : machine.Sound whole states) (index latest : Nat) {version : Version}
    (found : machine.versions[latest]? = some version) :
    ({ machine with versions := (machine.versions.eraseIdx latest).set index version } : Machine).Sound whole states := by
  refine ⟨sound.fresh, fun other member => ?_, sound.finished⟩
  rcases List.mem_or_eq_of_mem_set member with member | rfl
  · exact sound.live other (List.mem_of_mem_eraseIdx member)
  · exact sound.live other (List.mem_of_getElem? found)

private theorem sound_further {machine : Machine} {more : List State}
    (later : ∃ further, machine.Sound whole (states ++ more ++ further)) :
    ∃ more, machine.Sound whole (states ++ more) := by
  obtain ⟨further, sound⟩ := later
  exact ⟨more ++ further, by rwa [← List.append_assoc]⟩

theorem process_sound (completes : Completes whole) {index : Nat} : ∀ (fuel : Nat) {states : List State} (machine : Machine)
    (reading : Reading), machine.Sound whole states →
    (∀ version, machine.versions[index]? = some version → reading.Fits version.stack.rest) →
    ∃ more, (process fuel machine index reading).Sound whole (states ++ more) := by
  intro fuel
  induction fuel with
  | zero =>
    intro states machine reading sound _
    rw [process]
    exact ⟨[], by simpa using stop_sound sound index .stuck⟩
  | succ fuel ih =>
    intro states machine reading sound fits
    rw [process]
    split
    next => exact ⟨[], by simpa using sound⟩
    next version here =>
      have known := sound.live version (List.mem_of_getElem? here)
      have fits := fits version here
      dsimp only
      split
      next extra => exact follow_sound index sound known fits (.inl extra)
      next =>
        split
        next ends =>
          obtain ⟨ends, may⟩ := Bool.and_eq_true_iff.mp ends
          have finished := finish_sound completes sound known fits (of_decide_eq_true ends) may
          exact ⟨[], by simpa using stop_sound finished index .gone⟩
        next =>
          have rests : machine.RestsFrom machine.versions.length version.stack.rest := by
            intro place other late there
            rw [List.getElem?_eq_none late] at there
            cases there
          obtain ⟨more, made, rests, late⟩ := reductions_sound index (fun _ => id) machine none sound known
            (Nat.le_refl _) rests fun _ same => by cases same
          generalize (Actions.of version.stack.state reading.token).reductions.foldl _ (machine, none) = done at made rests late ⊢
          obtain ⟨made', latest⟩ := done
          dsimp only at made rests late ⊢
          split
          next shifts =>
            exact sound_further (follow_sound index made known.mono fits (.inr shifts))
          next =>
            split
            next latest' other found =>
              obtain ⟨place, same, found⟩ := Option.bind_eq_some_iff.mp found
              obtain ⟨there, found, same'⟩ := Option.map_eq_some_iff.mp found
              cases same'
              have goesOn : ∀ version, ((made'.versions.eraseIdx latest').set index other)[index]? = some version →
                  reading.Fits version.stack.rest := by
                intro version set
                rw [List.getElem?_set_self'] at set
                obtain ⟨_, _, rfl⟩ := Option.map_eq_some_iff.mp set
                rw [Function.const_apply, rests latest' other (late latest' same) found]
                exact fits
              exact sound_further (ih _ reading (made.moved index latest' found) goesOn)
            next =>
              split
              next => exact ⟨more, stop_sound made index .gone⟩
              next =>
                split
                next word =>
                  simp only [Bool.and_eq_true] at word
                  refine ih machine _ sound fun other there => ?_
                  cases here.symm.trans there
                  exact ⟨fits.spacing, fits.name word.1.1, fits.name⟩
                next => exact ⟨[], by simpa using stop_sound sound index .stuck⟩

theorem advance_sound (completes : Completes whole) (fuel index : Nat) {machine : Machine}
    (sound : machine.Sound whole states) : ∃ more, (advance fuel machine index).Sound whole (states ++ more) := by
  unfold advance
  split
  next => exact ⟨[], by simpa using sound⟩
  next version here =>
    split
    next => exact ⟨[], by simpa using stop_sound sound index .stuck⟩
    next reading read =>
      refine process_sound completes fuel machine reading sound fun other there => ?_
      cases here.symm.trans there
      exact Scanner.next?_fits read

theorem round_sound (completes : Completes whole) (fuel : Nat) : ∀ (steps : Nat) {states : List State} (machine : Machine)
    (index reached : Nat), machine.Sound whole states →
    ∃ more, (round fuel steps machine index reached).1.Sound whole (states ++ more) := by
  intro steps
  induction steps with
  | zero => exact fun machine index reached sound => ⟨[], by simpa [round] using sound⟩
  | succ steps ih =>
    intro states machine index' reached sound
    rw [round]
    split
    next => exact ⟨[], by simpa using sound⟩
    next =>
      split
      next => exact ih machine _ _ sound
      next =>
        obtain ⟨more, advanced⟩ := advance_sound completes fuel index' sound
        have goesOn : ∀ index reached, ∃ more,
            (round fuel steps (advance fuel machine index') index reached).1.Sound whole (states ++ more) := by
          exact fun index reached => sound_further (ih _ index reached advanced)
        dsimp only
        split
        next => exact goesOn _ _
        next => exact goesOn _ _

theorem settle_sound {weight : Int} {versions : List Version} : ∀ {version : Version}, version.stack.Sound states →
    (∀ other ∈ versions, other.stack.Sound states) → ∀ other ∈ settle weight version versions, other.stack.Sound states := by
  induction versions with
  | nil =>
    intro version known _ other member
    rw [List.mem_singleton.mp member]
    exact known
  | cons first versions ih =>
    intro version known all other member
    have here := all first (List.mem_cons_self ..)
    have later : ∀ other ∈ versions, other.stack.Sound states := fun other member => all other (List.mem_cons_of_mem _ member)
    rw [settle] at member
    split at member
    next meets =>
      simp only [Bool.and_eq_true] at meets
      rcases List.mem_cons.mp member with rfl | member
      · exact (Stack.merge_sound here known meets.2).1
      · exact later other member
    next =>
      split at member
      next =>
        rcases List.mem_cons.mp member with rfl | member
        · exact known
        · exact ih here later other member
      next =>
        rcases List.mem_cons.mp member with rfl | member
        · exact here
        · exact ih known later other member

theorem condense_sound {machine : Machine} (sound : machine.Sound whole states) : machine.condense.Sound whole states := by
  have settled : ∀ (versions start : List Version), (∀ version ∈ versions, version.stack.Sound states) →
      (∀ version ∈ start, version.stack.Sound states) →
      ∀ version ∈ versions.foldl (fun settled version => settle version.stack.weight version settled) start,
        version.stack.Sound states := by
    intro versions
    induction versions with
    | nil => exact fun _ _ all => all
    | cons first versions ih =>
      intro start added all
      refine ih _ (fun version member => added version (List.mem_cons_of_mem _ member)) ?_
      exact settle_sound (added first (List.mem_cons_self ..)) all
  refine ⟨sound.fresh, fun version member => ?_, sound.finished⟩
  refine settled _ [] (fun other here => ?_) (by simp) version (List.mem_of_mem_take member)
  split at here
  next => exact sound.live other (List.mem_filter.mp (List.mem_filter.mp here).1).1
  next => exact sound.live other (List.mem_filter.mp here).1

theorem run_sound (completes : Completes whole) (fuel : Nat) : ∀ (rounds : Nat) {states : List State} (machine : Machine)
    (reached : Nat), machine.Sound whole states → ∃ more, (run fuel rounds machine reached).Sound whole (states ++ more) := by
  intro rounds
  induction rounds with
  | zero => exact fun machine reached sound => ⟨[], by simpa [run] using sound⟩
  | succ rounds ih =>
    intro states machine reached sound
    obtain ⟨more, going⟩ := round_sound completes fuel fuel machine 0 reached sound
    rw [run]
    dsimp only
    split
    next =>
      exact sound_further (ih _ (round fuel fuel machine 0 reached).2 (condense_sound going))
    next => exact ⟨more, condense_sound going⟩

/-- What is read to the end of a text has every property that follows from being on top of a sound stack. -/
theorem read_finished (completes : Completes whole) {text : Text} {entries : List StackEntry}
    (found : (read text).finished = some entries) : whole entries := by
  have begun : Sound whole [.start] ⟨[{ stack := .bottom .start text }], 1, none⟩ := by
    refine ⟨rfl, fun version member => ?_, fun entries none => by cases none⟩
    rw [List.mem_singleton.mp member]
    exact .bottom rfl
  obtain ⟨_, done⟩ := run_sound completes (64 * (text.length + 16)) (64 * (text.length + 16)) _ 0 begun
  exact done.finished entries found

end Graft.Machine
