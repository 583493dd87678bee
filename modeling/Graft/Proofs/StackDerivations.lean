import Graft.Proofs.Derivations
import Graft.Proofs.StateItems

/-! Sound stacks. Every entry of a sound stack holds trees that can be read for its symbol, and leads from the
state below it to the one above. So whenever an item of the state on top has taken all steps of a phrase,
the entries that it took them for spell a word of the phrase, on every way down. -/

namespace Graft

structure StackEntry.Derived (entry : StackEntry) : Prop where
  derives : Derives entry.symbol entry.trees.reverse
  extra : entry.isExtra = entry.symbol.isExtra

/-- An entry leads from one state to another. A comment leads on to the same items. -/
structure State.Passes (below : State) (entry : StackEntry) (above : State) : Prop where
  extra : entry.isExtra = true → (∀ item ∈ above.items, item ∈ below.items) ∧ (above.items = [] → below.items = [])
  symbol : entry.isExtra = false → above.items ≠ [] ∧
    ∀ item ∈ above.items, item.Starts below entry.symbol ∨ item.Continues below entry.symbol

namespace State

theorem Passes.next {below : State} {entry : StackEntry} (plain : entry.isExtra = false)
    (some_item : (below.next entry.symbol).items ≠ []) : Passes below entry (below.next entry.symbol) := by
  refine ⟨fun extra => ?_, fun _ => ⟨some_item, fun item => mem_next⟩⟩
  rw [plain] at extra
  cases extra

theorem Passes.stay {below : State} {entry : StackEntry} (extra : entry.isExtra = true) : Passes below entry below := by
  refine ⟨fun _ => ⟨fun _ => id, id⟩, fun plain => ?_⟩
  rw [extra] at plain
  cases plain

theorem Passes.same {below one two : State} {entry : StackEntry} (passes : Passes below entry two)
    (same : one.same two = true) : Passes below entry one := by
  obtain ⟨lengths, contained⟩ := Bool.and_eq_true_iff.mp same
  have lengths : one.items.length = two.items.length := of_decide_eq_true lengths
  have inside : ∀ item ∈ one.items, item ∈ two.items := by
    intro item member
    exact List.contains_iff_mem.mp (List.all_eq_true.mp contained item member)
  have empty : one.items = [] ↔ two.items = [] := by
    rw [← List.length_eq_zero_iff, ← List.length_eq_zero_iff, lengths]
  constructor
  · intro extra
    obtain ⟨items, none⟩ := passes.extra extra
    exact ⟨fun item member => items item (inside item member), fun none' => none (empty.mp none')⟩
  · intro plain
    obtain ⟨some_item, items⟩ := passes.symbol plain
    exact ⟨fun none => some_item (empty.mp none), fun item member => items item (inside item member)⟩

end State

namespace Stack
variable {states : List State}

/-- A stack all of whose entries are sound. The states are listed by the numbers of their stacks. -/
inductive Sound (states : List State) : Stack → Prop
  | bottom {rest : Text} (known : states[0]? = some .start) : Sound states (.bottom .start rest)
  | top {number offset height : Nat} {state : State} {rest : Text} {weight : Int} {links : List (StackEntry × Stack)}
    (known : states[number]? = some state) (made : state.Made) (linked : links ≠ [])
    (derived : ∀ link ∈ links, link.1.Derived) (passes : ∀ link ∈ links, State.Passes link.2.state link.1 state)
    (below : ∀ link ∈ links, Sound states link.2) : Sound states (.top number state offset rest weight height links)

/-- A link that may stand below a state. -/
structure Fits (states : List State) (state : State) (link : StackEntry × Stack) : Prop where
  derived : link.1.Derived
  passes : State.Passes link.2.state link.1 state
  below : link.2.Sound states

namespace Sound

theorem known {stack : Stack} (sound : stack.Sound states) : states[stack.number]? = some stack.state := by
  cases sound with
  | bottom known => exact known
  | top known => exact known

theorem made {stack : Stack} (sound : stack.Sound states) : stack.state.Made := by
  cases sound with
  | bottom => exact .inl rfl
  | top _ made => exact made

theorem fits {stack : Stack} (sound : stack.Sound states) : ∀ link ∈ stack.links, Fits states stack.state link := by
  cases sound with
  | bottom =>
    intro link member
    cases member
  | top _ _ _ derived passes below =>
    exact fun link member => ⟨derived link member, passes link member, below link member⟩

theorem of_fits {number offset height : Nat} {state : State} {rest : Text} {weight : Int}
    {links : List (StackEntry × Stack)} (known : states[number]? = some state) (made : state.Made) (linked : links ≠ [])
    (fits : ∀ link ∈ links, Fits states state link) : Sound states (.top number state offset rest weight height links) :=
  .top known made linked (fun link member => (fits link member).derived) (fun link member => (fits link member).passes)
    fun link member => (fits link member).below

/-- A stack stays sound while states of further stacks are listed. -/
theorem mono {more : List State} {stack : Stack} (sound : stack.Sound states) : stack.Sound (states ++ more) := by
  have kept : ∀ {number : Nat} {state : State}, states[number]? = some state →
      (states ++ more)[number]? = some state := by
    intro number state found
    obtain ⟨small, _⟩ := List.getElem?_eq_some_iff.mp found
    rw [List.getElem?_append_left small, found]
  induction sound with
  | bottom known => exact .bottom (kept known)
  | top known made linked derived passes _ ih => exact .top (kept known) made linked derived passes ih

theorem push {below : Stack} {entry : StackEntry} {state : State} (offset : Nat) (rest : Text)
    (sound : below.Sound states) (made : state.Made) (derived : entry.Derived)
    (passes : State.Passes below.state entry state) :
    (below.push states.length entry state offset rest).Sound (states ++ [state]) := by
  refine .top (by simp) made (by simp) ?_ ?_ ?_
  all_goals
    intro link member
    cases List.mem_singleton.mp member
  · exact derived
  · exact passes
  · exact sound.mono

end Sound

/-! ### Merging -/

theorem addLink_state : ∀ (fuel : Nat) (link : StackEntry × Stack) (stack : Stack),
    (addLink fuel link stack).state = stack.state ∧ (addLink fuel link stack).rest = stack.rest := by
  intro fuel link stack
  cases fuel with
  | zero => exact ⟨rfl, rfl⟩
  | succ fuel =>
    cases stack with
    | bottom => exact ⟨rfl, rfl⟩
    | top =>
      rw [addLink]
      split <;> exact ⟨rfl, rfl⟩

def AddsSoundly (states : List State) (fuel : Nat) : Prop :=
  ∀ (link : StackEntry × Stack) (stack : Stack), stack.Sound states → Fits states stack.state link →
    (addLink fuel link stack).Sound states

def JoinsSoundly (states : List State) (fuel : Nat) : Prop :=
  ∀ (state : State) (weight weight' : Int) (link : StackEntry × Stack) (others links : List (StackEntry × Stack)),
    Fits states state link → (∀ other ∈ others, Fits states state other) →
    joinLink fuel weight link others = some (links, weight') → links ≠ [] ∧ ∀ other ∈ links, Fits states state other

private theorem foldl_addLink {fuel : Nat} {below : Stack} {links : List (StackEntry × Stack)}
    (adds : AddsSoundly states fuel) (sound : below.Sound states) (fit : ∀ link ∈ links, Fits states below.state link) :
    (links.foldl (fun below link => addLink fuel link below) below).Sound states ∧
      (links.foldl (fun below link => addLink fuel link below) below).state = below.state ∧
      (links.foldl (fun below link => addLink fuel link below) below).rest = below.rest := by
  induction links generalizing below with
  | nil => exact ⟨sound, rfl, rfl⟩
  | cons link links ih =>
    have added := adds link below sound (fit link (List.mem_cons_self ..))
    obtain ⟨state, rest⟩ := addLink_state fuel link below
    have others : ∀ other ∈ links, Fits states (addLink fuel link below).state other := by
      intro other member
      rw [state]
      exact fit other (List.mem_cons_of_mem _ member)
    obtain ⟨all, state', rest'⟩ := ih added others
    exact ⟨all, state'.trans state, rest'.trans rest⟩

theorem Fits.same {one two : State} {link : StackEntry × Stack} (fits : Fits states two link)
    (same : one.same two = true) : Fits states one link :=
  ⟨fits.derived, fits.passes.same same, fits.below⟩

theorem addLink_succ {fuel : Nat} (joins : JoinsSoundly states fuel) : AddsSoundly states (fuel + 1) := by
  intro link stack sound fits
  cases sound with
  | bottom known => exact .bottom known
  | @top number offset height state rest weight links known made linked derived passes below =>
    have all : ∀ other ∈ links, Fits states state other := fun other member =>
      ⟨derived other member, passes other member, below other member⟩
    rw [addLink]
    split
    next links' weight' joined =>
      obtain ⟨some_link, all'⟩ := joins state _ _ link links links' fits all joined
      exact .of_fits known made some_link all'
    next =>
      refine .of_fits known made (by simp) fun other member => ?_
      rcases List.mem_append.mp member with member | member
      · exact all other member
      · rw [List.mem_singleton.mp member]
        exact fits

theorem joinLink_succ {fuel : Nat} (adds : AddsSoundly states fuel) (joins : JoinsSoundly states fuel) :
    JoinsSoundly states (fuel + 1) := by
  intro state weight weight' link others links fits all joined
  cases others with
  | nil => cases joined
  | cons other others =>
    obtain ⟨first, later⟩ := List.forall_mem_cons.mp all
    have cons : ∀ {one : StackEntry × Stack} {others : List (StackEntry × Stack)}, Fits states state one →
        (∀ other ∈ others, Fits states state other) →
        one :: others ≠ [] ∧ ∀ other ∈ one :: others, Fits states state other :=
      fun fits later => ⟨List.cons_ne_nil _ _, List.forall_mem_cons.mpr ⟨fits, later⟩⟩
    have goOn : ∀ {links : List (StackEntry × Stack)} {weight' : Int},
        (joinLink fuel weight link others).map (fun made => (other :: made.1, made.2)) =
          some (links, weight') → links ≠ [] ∧ ∀ other ∈ links, Fits states state other := by
      intro links weight' made
      obtain ⟨⟨rest, weight''⟩, joined, same⟩ := Option.map_eq_some_iff.mp made
      cases same
      exact cons first (joins state _ _ link others _ fits later joined).2
    rw [joinLink] at joined
    dsimp only at joined
    split at joined
    next => exact goOn joined
    next =>
      split at joined
      next =>
        split at joined
        next =>
          cases joined
          exact cons fits later
        next =>
          cases joined
          exact cons first later
      next =>
        split at joined
        next meets =>
          cases joined
          have same := (Bool.and_eq_true_iff.mp meets).2
          have merged := foldl_addLink adds first.below fun one member => (fits.below.fits one member).same same
          exact cons ⟨first.derived, by rw [merged.2.1]; exact first.passes, merged.1⟩ later
        next => exact goOn joined

theorem addLink_sound (fuel : Nat) : AddsSoundly states fuel ∧ JoinsSoundly states fuel := by
  induction fuel with
  | zero => exact ⟨fun _ _ sound _ => sound, fun _ _ _ _ _ _ _ _ joined => by cases joined⟩
  | succ fuel ih => exact ⟨addLink_succ ih.2, joinLink_succ ih.1 ih.2⟩

theorem merge_sound {one two : Stack} (first : one.Sound states) (second : two.Sound states)
    (meets : one.meets two = true) :
    (one.merge two).Sound states ∧ (one.merge two).state = one.state ∧ (one.merge two).rest = one.rest := by
  have same := (Bool.and_eq_true_iff.mp meets).2
  exact foldl_addLink (addLink_sound _).1 first fun link member => (second.fits link member).same same

end Stack
end Graft
