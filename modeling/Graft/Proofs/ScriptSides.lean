import Graft.Diff.Compact

/-! The two sides of a script. What a script finds between two lists leads from the one to the other: reading it without
what is added gives the first list, without what is removed the second. Moving changes and gathering them into blocks
keep both readings. -/

namespace Graft

namespace Script
variable {α : Type}

@[simp] theorem old_nil : old ([] : List (Run α)) = [] := rfl

@[simp] theorem new_nil : new ([] : List (Run α)) = [] := rfl

@[simp] theorem old_cons (run : Run α) (script : List (Run α)) : old (run :: script) = run.old ++ old script := rfl

@[simp] theorem new_cons (run : Run α) (script : List (Run α)) : new (run :: script) = run.new ++ new script := rfl

@[simp] theorem old_append (one two : List (Run α)) : old (one ++ two) = old one ++ old two := List.flatMap_append

@[simp] theorem new_append (one two : List (Run α)) : new (one ++ two) = new one ++ new two := List.flatMap_append

@[simp] theorem old_run (tag : Tag) (items : List α) : old (run tag items) = Run.old ⟨tag, items⟩ := by
  unfold run
  split
  next empty => simp [Run.old, List.isEmpty_iff.mp empty]
  next => simp

@[simp] theorem new_run (tag : Tag) (items : List α) : new (run tag items) = Run.new ⟨tag, items⟩ := by
  unfold run
  split
  next empty => simp [Run.new, List.isEmpty_iff.mp empty]
  next => simp

theorem reverse_run (tag : Tag) (items : List α) : (run tag items).reverse = run tag items := by
  unfold run
  split <;> rfl

/-- The lists between which a script leads. -/
def sides (script : List (Run α)) : List α × List α := (old script, new script)

theorem sides_append {one two : List (Run α)} {first first' second second' : List α} (front : sides one = (first, second))
    (back : sides two = (first', second')) : sides (one ++ two) = (first ++ first', second ++ second') := by
  simp only [sides, Prod.mk.injEq] at *
  simp [front, back]

theorem sides_kept (items : List α) : sides (run .context items) = (items, items) := by
  simp [sides, Run.old, Run.new]

theorem sides_replace (first second : List α) : sides (run .removed first ++ run .added second) = (first, second) := by
  simp [sides, Run.old, Run.new]

end Script

/-! ### Finding a script -/

namespace Myers
variable {α : Type} [DecidableEq α]

theorem sharedStart_take (first second : List α) :
    first.take (sharedStart first second) = second.take (sharedStart first second) := by
  induction first generalizing second with
  | nil => simp [sharedStart]
  | cons a first ih =>
    cases second with
    | nil => simp [sharedStart]
    | cons b second =>
      rw [sharedStart]
      split
      next same => rw [List.take_succ_cons, List.take_succ_cons, same, ih]
      next => rfl

theorem sharedEnd_drop (first second : List α) :
    first.drop (first.length - sharedEnd first second) = second.drop (second.length - sharedEnd first second) := by
  have reversed := congrArg List.reverse (sharedStart_take first.reverse second.reverse)
  rwa [List.reverse_take, List.reverse_take, List.reverse_reverse, List.reverse_reverse, List.length_reverse,
    List.length_reverse] at reversed

theorem sharedStart_le (first second : List α) : sharedStart first second ≤ first.length := by
  induction first generalizing second with
  | nil => simp [sharedStart]
  | cons a first ih =>
    cases second with
    | nil => simp [sharedStart]
    | cons b second =>
      rw [sharedStart]
      split
      next => exact Nat.succ_le_succ (ih second)
      next => exact Nat.zero_le _

theorem shared_ne_nil {first second : List α} (shares : 0 < sharedStart first second) :
    first.take (sharedStart first second) ≠ [] := by
  have short := sharedStart_le first second
  rw [← List.length_pos_iff, List.length_take]
  omega

theorem sharedEnd_ne_nil {first second : List α} (shares : 0 < sharedEnd first second) :
    first.drop (first.length - sharedEnd first second) ≠ [] := by
  have taken := shared_ne_nil shares
  rwa [List.take_reverse, Ne, List.reverse_eq_nil_iff] at taken

omit [DecidableEq α] in
/-- A script between two lists but for a common start and a common end. -/
theorem sides_between {first second : List α} {start stop : Nat} {script : List (Run α)}
    (front : first.take start = second.take start)
    (back : (first.drop start).drop ((first.drop start).length - stop) =
      (second.drop start).drop ((second.drop start).length - stop))
    (between : Script.sides script = ((first.drop start).take ((first.drop start).length - stop),
      (second.drop start).take ((second.drop start).length - stop))) :
    Script.sides (Script.run .context (first.take start) ++ script ++
      Script.run .context ((first.drop start).drop ((first.drop start).length - stop))) = (first, second) := by
  have whole := Script.sides_append (Script.sides_append (Script.sides_kept (first.take start)) between)
    (Script.sides_kept ((first.drop start).drop ((first.drop start).length - stop)))
  rw [whole, Prod.mk.injEq]
  constructor
  · rw [List.append_assoc, List.take_append_drop, List.take_append_drop]
  · rw [List.append_assoc, back, List.take_append_drop, front, List.take_append_drop]

/-- A script leads between the lists that it was made for, wherever they were split. -/
theorem scriptFrom_sides (steps : Nat) (first second : List α) :
    Script.sides (scriptFrom steps first second) = (first, second) := by
  induction steps generalizing first second with
  | zero => exact Script.sides_replace first second
  | succ steps ih =>
    rw [scriptFrom]
    refine sides_between (sharedStart_take first second) (sharedEnd_drop _ _) ?_
    split
    next => exact Script.sides_replace _ _
    next =>
      split
      next x y _ =>
        refine (Script.sides_append (ih _ _) (ih _ _)).trans ?_
        rw [List.take_append_drop, List.take_append_drop]
      next => exact Script.sides_replace _ _

theorem script_sides (first second : List α) : Script.sides (script first second) = (first, second) :=
  scriptFrom_sides _ first second

end Myers

/-! ### Moving changes -/

namespace Script
variable {α : Type}

namespace Focus

/-- The script around a run. -/
def script (focus : Focus α) : List (Run α) := focus.before.reverse ++ focus.current :: focus.after

theorem sides_keepAfter (before : List (Run α)) (items : List α) (after : List (Run α)) :
    sides (before ++ keepAfter items after) = sides (before ++ ⟨.context, items⟩ :: after) := by
  unfold keepAfter
  split <;> simp [sides, Run.old, Run.new]

theorem sides_keepBefore (items : List α) (before after : List (Run α)) :
    sides ((keepBefore items before).reverse ++ after) = sides (before.reverse ++ ⟨.context, items⟩ :: after) := by
  unfold keepBefore
  split <;> simp [sides, Run.old, Run.new]

/-- An added run that ends like the kept run before it can as well be added earlier. -/
theorem sides_earlier (before after : List (Run α)) (rest moved added : List α) :
    sides (before ++ run .context rest ++ ⟨.added, moved ++ added⟩ :: keepAfter moved after) =
      sides (before ++ ⟨.context, rest ++ moved⟩ :: ⟨.added, added ++ moved⟩ :: after) := by
  have kept := sides_keepAfter (before ++ run .context rest ++ [⟨.added, moved ++ added⟩]) moved after
  simp only [List.append_assoc, List.singleton_append] at kept ⊢
  rw [kept]
  simp [sides, Run.old, Run.new]

theorem sides_later (before after : List (Run α)) (rest moved added : List α) :
    sides ((keepBefore moved before).reverse ++ ⟨.added, added ++ moved⟩ :: (run .context rest ++ after)) =
      sides (before.reverse ++ ⟨.added, moved ++ added⟩ :: ⟨.context, moved ++ rest⟩ :: after) := by
  rw [sides_keepBefore]
  simp [sides, Run.old, Run.new]

/-- What one move makes of a run between others. A run joins one of its kind, changes of different kinds pass each other,
and an added run that agrees with a kept one trades places with what they share. Empty kept runs are left out. -/
inductive Move : Focus α → Focus α → Prop
  | skipUp {before current after} : Move ⟨⟨.context, []⟩ :: before, current, after⟩ ⟨before, current, after⟩
  | skipDown {before current after} : Move ⟨before, current, ⟨.context, []⟩ :: after⟩ ⟨before, current, after⟩
  | earlier {before after rest shared added} : shared ≠ [] →
      Move ⟨⟨.context, rest ++ shared⟩ :: before, ⟨.added, added ++ shared⟩, after⟩
        ⟨run .context rest ++ before, ⟨.added, shared ++ added⟩, keepAfter shared after⟩
  | later {before after rest shared added} : shared ≠ [] →
      Move ⟨before, ⟨.added, shared ++ added⟩, ⟨.context, shared ++ rest⟩ :: after⟩
        ⟨keepBefore shared before, ⟨.added, added ++ shared⟩, run .context rest ++ after⟩
  | joinUp {before tag one two after} : tag ≠ .context →
      Move ⟨⟨tag, one⟩ :: before, ⟨tag, two⟩, after⟩ ⟨before, ⟨tag, one ++ two⟩, after⟩
  | joinDown {before tag one two after} : tag ≠ .context →
      Move ⟨before, ⟨tag, one⟩, ⟨tag, two⟩ :: after⟩ ⟨before, ⟨tag, one ++ two⟩, after⟩
  | passUp {before tag one tag' two after} : tag ≠ .context → tag' ≠ .context → tag ≠ tag' →
      Move ⟨⟨tag, one⟩ :: before, ⟨tag', two⟩, after⟩ ⟨before, ⟨tag', two⟩, ⟨tag, one⟩ :: after⟩
  | passDown {before tag one tag' two after} : tag ≠ .context → tag' ≠ .context → tag ≠ tag' →
      Move ⟨before, ⟨tag, one⟩, ⟨tag', two⟩ :: after⟩ ⟨⟨tag', two⟩ :: before, ⟨tag, one⟩, after⟩

/-- Changes that pass each other keep both sides: one of them counts only for the first, the other only for the second. -/
theorem sides_pass (front back : List (Run α)) {tag tag' : Tag} (one two : List α) (first : tag ≠ .context)
    (second : tag' ≠ .context) (differ : tag ≠ tag') :
    sides (front ++ ⟨tag', two⟩ :: ⟨tag, one⟩ :: back) = sides (front ++ ⟨tag, one⟩ :: ⟨tag', two⟩ :: back) := by
  cases tag <;> cases tag' <;> first | contradiction | simp [sides, Run.old, Run.new]

theorem sides_join (front back : List (Run α)) (tag : Tag) (one two : List α) :
    sides (front ++ ⟨tag, one ++ two⟩ :: back) = sides (front ++ ⟨tag, one⟩ :: ⟨tag, two⟩ :: back) := by
  cases tag <;> simp [sides, Run.old, Run.new]

theorem Move.sides_eq {one two : Focus α} (move : one.Move two) : sides two.script = sides one.script := by
  cases move with
  | skipUp | skipDown => simp [script, sides, Run.old, Run.new]
  | earlier => simpa [script, reverse_run] using sides_earlier _ _ _ _ _
  | later => simpa [script] using sides_later _ _ _ _ _
  | joinUp => simpa [script] using sides_join _ _ _ _ _
  | joinDown => exact sides_join _ _ _ _ _
  | passUp first second differ => simpa [script] using sides_pass _ _ _ _ first second differ
  | passDown first second differ => simpa [script] using sides_pass _ _ _ _ first second differ

variable [DecidableEq α]

/-- Moving up is one move after another, so what every move keeps is kept. -/
theorem moveUp_keeps {P : Focus α → Prop} (keeps : ∀ {one two : Focus α}, one.Move two → P one → P two)
    (steps : Nat) {focus : Focus α} (holds : P focus) : P (moveUp steps focus) := by
  induction steps generalizing focus with
  | zero => exact holds
  | succ steps ih =>
    obtain ⟨before, ⟨tag, items⟩, after⟩ := focus
    cases before with
    | nil => exact holds
    | cons previous before =>
      obtain ⟨tag', items'⟩ := previous
      rw [moveUp]
      cases tag with
      | context => exact holds
      | removed =>
        cases tag' with
        | context =>
          dsimp only
          split
          next empty =>
            cases List.isEmpty_iff.mp empty
            exact ih (keeps .skipUp holds)
          next => exact holds
        | removed => exact ih (keeps (.joinUp (by decide)) holds)
        | added => exact ih (keeps (.passUp (by decide) (by decide) (by decide)) holds)
      | added =>
        cases tag' with
        | context =>
          dsimp only
          split
          next shares =>
            have moved := Myers.sharedEnd_drop items' items
            have some := Myers.sharedEnd_ne_nil shares
            generalize Myers.sharedEnd items' items = shared at moved some ⊢
            rw [← List.take_append_drop (items'.length - shared) items',
              ← List.take_append_drop (items.length - shared) items, ← moved] at holds
            exact ih (keeps (.earlier some) holds)
          next =>
            split
            next empty =>
              cases List.isEmpty_iff.mp empty
              exact ih (keeps .skipUp holds)
            next => exact holds
        | removed => exact ih (keeps (.passUp (by decide) (by decide) (by decide)) holds)
        | added => exact ih (keeps (.joinUp (by decide)) holds)

theorem moveDown_keeps {P : Focus α → Prop} (keeps : ∀ {one two : Focus α}, one.Move two → P one → P two)
    (steps : Nat) {focus : Focus α} (holds : P focus) : P (moveDown steps focus) := by
  induction steps generalizing focus with
  | zero => exact holds
  | succ steps ih =>
    obtain ⟨before, ⟨tag, items⟩, after⟩ := focus
    cases after with
    | nil => exact holds
    | cons next after =>
      obtain ⟨tag', items'⟩ := next
      rw [moveDown]
      cases tag with
      | context => exact holds
      | removed =>
        cases tag' with
        | context =>
          dsimp only
          split
          next empty =>
            cases List.isEmpty_iff.mp empty
            exact ih (keeps .skipDown holds)
          next => exact holds
        | removed => exact ih (keeps (.joinDown (by decide)) holds)
        | added => exact ih (keeps (.passDown (by decide) (by decide) (by decide)) holds)
      | added =>
        cases tag' with
        | context =>
          dsimp only
          split
          next shares =>
            have moved := Myers.sharedStart_take items' items
            have some := Myers.shared_ne_nil shares
            generalize Myers.sharedStart items' items = shared at moved some ⊢
            rw [← List.take_append_drop shared items', ← List.take_append_drop shared items, ← moved] at holds
            exact ih (keeps (.later some) holds)
          next =>
            split
            next empty =>
              cases List.isEmpty_iff.mp empty
              exact ih (keeps .skipDown holds)
            next => exact holds
        | removed => exact ih (keeps (.passDown (by decide) (by decide) (by decide)) holds)
        | added => exact ih (keeps (.joinDown (by decide)) holds)

end Focus

variable [DecidableEq α]

theorem settleFrom_keeps {P : List (Run α) → Prop} (keeps : ∀ {one two : Focus α}, one.Move two → P one.script → P two.script)
    (tag : Tag) (reach steps : Nat) {before after : List (Run α)} (holds : P (before.reverse ++ after)) :
    P (settleFrom tag reach steps before after) := by
  induction steps generalizing before after with
  | zero => exact holds
  | succ steps ih =>
    cases after with
    | nil => simpa [settleFrom] using holds
    | cons current after =>
      rw [settleFrom]
      split
      next =>
        have up : P (Focus.moveUp reach ⟨before, current, after⟩).script :=
          Focus.moveUp_keeps (P := fun focus => P focus.script) keeps reach holds
        have down := Focus.moveDown_keeps (P := fun focus => P focus.script) keeps reach up
        exact ih (by simpa [Focus.script] using down)
      next => exact ih (by simpa using holds)

theorem settle_keeps {P : List (Run α) → Prop} (keeps : ∀ {one two : Focus α}, one.Move two → P one.script → P two.script)
    {script : List (Run α)} (holds : P script) : P (settle script) :=
  settleFrom_keeps keeps _ _ _ (settleFrom_keeps keeps _ _ _ holds)

theorem settle_sides (script : List (Run α)) : sides (settle script) = sides script :=
  settle_keeps (P := fun settled => sides settled = sides script) (fun move same => move.sides_eq.trans same) rfl

end Script

/-! ### Tagged items -/

namespace Tag
variable {α : Type}

def oldItems (items : List (Tag × α)) : List α := (items.filter fun item => item.1 ≠ .added).map Prod.snd

def newItems (items : List (Tag × α)) : List α := (items.filter fun item => item.1 ≠ .removed).map Prod.snd

@[simp] theorem oldItems_append (one two : List (Tag × α)) : oldItems (one ++ two) = oldItems one ++ oldItems two := by
  simp [oldItems]

@[simp] theorem newItems_append (one two : List (Tag × α)) : newItems (one ++ two) = newItems one ++ newItems two := by
  simp [newItems]

@[simp] theorem oldItems_same (tag : Tag) (items : List α) : oldItems (items.map (tag, ·)) = Run.old ⟨tag, items⟩ := by
  cases tag <;> simp [oldItems, Run.old, List.filter_map, Function.comp_def]

@[simp] theorem newItems_same (tag : Tag) (items : List α) : newItems (items.map (tag, ·)) = Run.new ⟨tag, items⟩ := by
  cases tag <;> simp [newItems, Run.new, List.filter_map, Function.comp_def]

end Tag

namespace Script
variable {α : Type}

theorem tagged_keep (items : List α) : (keep items).flatMap Block.tagged = items.map (Tag.context, ·) := by
  unfold keep
  split
  next empty => simp [List.isEmpty_iff.mp empty]
  next => simp [Block.tagged]

theorem tagged_change (removed added : List α) :
    (change removed added).flatMap Block.tagged = removed.map (Tag.removed, ·) ++ added.map (Tag.added, ·) := by
  unfold change
  split
  next empty =>
    rw [Bool.and_eq_true, List.isEmpty_iff, List.isEmpty_iff] at empty
    simp [empty.1, empty.2]
  next => simp [Block.tagged]

theorem blocksFrom_sides (kept removed added : List α) (runs : List (Run α)) :
    Tag.oldItems ((blocksFrom kept removed added runs).flatMap Block.tagged) = kept ++ removed ++ old runs ∧
      Tag.newItems ((blocksFrom kept removed added runs).flatMap Block.tagged) = kept ++ added ++ new runs := by
  induction runs generalizing kept removed added with
  | nil => simp [blocksFrom, tagged_keep, tagged_change, Run.old, Run.new]
  | cons run runs ih =>
    obtain ⟨tag, items⟩ := run
    cases tag with
    | context =>
      rw [blocksFrom]
      split
      next empty =>
        rw [Bool.and_eq_true, List.isEmpty_iff, List.isEmpty_iff] at empty
        simp [ih, empty.1, empty.2, Run.old, Run.new]
      next => simp [ih, tagged_keep, tagged_change, Run.old, Run.new]
    | removed | added => simp [blocksFrom, ih, Run.old, Run.new]

/-- The tagged items of a script's blocks lead between the same lists as the script. -/
theorem blocks_sides (script : List (Run α)) : Tag.oldItems ((blocks script).flatMap Block.tagged) = old script ∧
    Tag.newItems ((blocks script).flatMap Block.tagged) = new script :=
  blocksFrom_sides [] [] [] script

end Script
end Graft
