import Mathlib.Data.List.Chain
import Graft.Proofs.ScriptSides

/-! Kept and changed blocks take turns. A script that was found and settled keeps no empty run, so no two changes meet;
and lines are removed before others are added. -/

namespace Graft

namespace Script
variable {α : Type}

/-- No kept run is empty. Runs that are removed or added may be. -/
def Filled (script : List (Run α)) : Prop := ∀ run ∈ script, run.tag = .context → run.items ≠ []

theorem filled_nil : Filled ([] : List (Run α)) := by simp [Filled]

@[simp] theorem filled_cons {run : Run α} {script : List (Run α)} :
    Filled (run :: script) ↔ (run.tag = .context → run.items ≠ []) ∧ Filled script :=
  List.forall_mem_cons

@[simp] theorem filled_append {one two : List (Run α)} : Filled (one ++ two) ↔ Filled one ∧ Filled two :=
  List.forall_mem_append

@[simp] theorem filled_reverse {script : List (Run α)} : Filled script.reverse ↔ Filled script := by
  simp [Filled]

@[simp] theorem filled_run (tag : Tag) (items : List α) : Filled (run tag items) := by
  unfold run
  split
  next => exact filled_nil
  next some => simpa [Filled] using fun _ => some

end Script

namespace Myers
variable {α : Type} [DecidableEq α]

theorem scriptFrom_filled (steps : Nat) (first second : List α) : Script.Filled (scriptFrom steps first second) := by
  induction steps generalizing first second with
  | zero => simp [scriptFrom]
  | succ steps ih =>
    rw [scriptFrom, Script.filled_append, Script.filled_append]
    refine ⟨⟨Script.filled_run _ _, ?_⟩, Script.filled_run _ _⟩
    split
    next => simp
    next =>
      split
      next => exact Script.filled_append.mpr ⟨ih _ _, ih _ _⟩
      next => simp

end Myers

/-! ### Moving changes -/

namespace Script
variable {α : Type}

namespace Focus

def Filled (focus : Focus α) : Prop := Script.Filled focus.script

theorem filled_iff {before after : List (Run α)} {current : Run α} :
    Filled ⟨before, current, after⟩ ↔
      Script.Filled before ∧ (current.tag = .context → current.items ≠ []) ∧ Script.Filled after := by
  simp [Filled, script]

theorem filled_keepAfter {items : List α} {after : List (Run α)} (some : items ≠ []) (filled : Script.Filled after) :
    Script.Filled (keepAfter items after) := by
  unfold keepAfter
  split
  next => simpa [some] using (filled_cons.mp filled).2
  next => simpa [some] using filled

theorem filled_keepBefore {items : List α} {before : List (Run α)} (some : items ≠ [])
    (filled : Script.Filled before) : Script.Filled (keepBefore items before) := by
  unfold keepBefore
  split
  next => simpa [some] using (filled_cons.mp filled).2
  next => simpa [some] using filled

/-- What moves past an added run are kept lines, and at least one. -/
theorem Move.filled {one two : Focus α} (move : one.Move two) (filled : one.Filled) : two.Filled := by
  obtain ⟨front, here, back⟩ := filled_iff.mp filled
  refine filled_iff.mpr ?_
  cases move with
  | skipUp => exact ⟨(filled_cons.mp front).2, here, back⟩
  | skipDown => exact ⟨front, here, (filled_cons.mp back).2⟩
  | earlier some =>
    exact ⟨filled_append.mpr ⟨filled_run _ _, (filled_cons.mp front).2⟩, (fun never => by cases never),
      filled_keepAfter some back⟩
  | later some =>
    exact ⟨filled_keepBefore some front, (fun never => by cases never),
      filled_append.mpr ⟨filled_run _ _, (filled_cons.mp back).2⟩⟩
  | joinUp change => exact ⟨(filled_cons.mp front).2, fun same => absurd same change, back⟩
  | joinDown change => exact ⟨front, fun same => absurd same change, (filled_cons.mp back).2⟩
  | passUp =>
    obtain ⟨kept, ahead⟩ := filled_cons.mp front
    exact ⟨ahead, here, filled_cons.mpr ⟨kept, back⟩⟩
  | passDown =>
    obtain ⟨kept, behind⟩ := filled_cons.mp back
    exact ⟨filled_cons.mpr ⟨kept, front⟩, here, behind⟩

end Focus

variable [DecidableEq α]

theorem settle_filled {script : List (Run α)} (filled : Filled script) : Filled (settle script) :=
  settle_keeps Focus.Move.filled filled

end Script

/-! ### Blocks -/

namespace Block
variable {α : Type}

/-- Whether the items of a block are on both sides. -/
def isKept : Block α → Bool
  | keep _ => true
  | change .. => false

/-- Kept and changed blocks in turn, of which none is empty. -/
structure InTurn (blocks : List (Block α)) : Prop where
  filled : ∀ block ∈ blocks, block.tagged ≠ []
  turns : blocks.IsChain fun one two => one.isKept ≠ two.isKept

theorem InTurn.nil : InTurn ([] : List (Block α)) := ⟨by simp, .nil⟩

theorem InTurn.tail {block : Block α} {blocks : List (Block α)} (inTurn : InTurn (block :: blocks)) : InTurn blocks :=
  ⟨(List.forall_mem_cons.mp inTurn.filled).2, inTurn.turns.tail⟩

theorem InTurn.cons {block : Block α} {blocks : List (Block α)} (filled : block.tagged ≠ [])
    (other : ∀ next, blocks.head? = some next → block.isKept ≠ next.isKept) (inTurn : InTurn blocks) :
    InTurn (block :: blocks) :=
  ⟨List.forall_mem_cons.mpr ⟨filled, inTurn.filled⟩, List.isChain_cons.mpr ⟨other, inTurn.turns⟩⟩

end Block

namespace Script
variable {α : Type}

theorem head?_blocksFrom {kept : List α} (filled : kept ≠ []) (removed added : List α) (runs : List (Run α)) :
    ∃ items, (blocksFrom kept removed added runs).head? = some (.keep items) := by
  induction runs generalizing kept removed added with
  | nil => simp [blocksFrom, keep, filled]
  | cons run runs ih =>
    obtain ⟨tag, items⟩ := run
    cases tag with
    | context =>
      rw [blocksFrom]
      split
      next => exact ih (by simp [filled]) [] []
      next => simp [keep, filled]
    | removed | added => exact ih filled _ _

theorem inTurn_between (kept : List α) {removed added : List α} {blocks : List (Block α)}
    (changes : removed ≠ [] ∨ added ≠ []) (inTurn : Block.InTurn blocks)
    (next : ∀ block, blocks.head? = some block → block.isKept) :
    Block.InTurn (keep kept ++ change removed added ++ blocks) := by
  have changed : Block.InTurn (Block.change removed added :: blocks) := by
    refine inTurn.cons (by simpa [Block.tagged, or_iff_not_imp_left] using changes) fun block first => ?_
    rw [next block first]
    exact Bool.false_ne_true
  have shape : change removed added = [.change removed added] := by
    rcases changes with some | some <;> simp [change, some]
  rw [shape, List.append_assoc, List.singleton_append]
  unfold keep
  split
  next => exact changed
  next some =>
    refine changed.cons (by simpa [Block.tagged] using some) fun block first => ?_
    cases first
    exact Bool.noConfusion

/-- Blocks of a script are in turn: a change ends only where something is kept. -/
theorem blocksFrom_inTurn {runs : List (Run α)} (filled : Filled runs) (kept removed added : List α) :
    Block.InTurn (blocksFrom kept removed added runs) := by
  induction runs generalizing kept removed added with
  | nil =>
    rw [blocksFrom]
    by_cases none : removed = [] ∧ added = []
    · obtain ⟨rfl, rfl⟩ := none
      unfold keep
      split
      next => exact .nil
      next some => exact Block.InTurn.nil.cons (by simpa [Block.tagged] using some) fun _ never => by cases never
    · simpa using inTurn_between kept (not_and_or.mp none) .nil fun _ never => by cases never
  | cons run runs ih =>
    obtain ⟨tag, items⟩ := run
    obtain ⟨here, rest⟩ := filled_cons.mp filled
    cases tag with
    | context =>
      rw [blocksFrom]
      split
      next => exact ih rest _ _ _
      next some =>
        rw [Bool.and_eq_true, List.isEmpty_iff, List.isEmpty_iff] at some
        refine inTurn_between kept (not_and_or.mp some) (ih rest items [] []) fun block first => ?_
        obtain ⟨items', kept⟩ := head?_blocksFrom (here rfl) [] [] runs
        cases first.symm.trans kept
        rfl
    | removed | added => exact ih rest _ _ _

end Script
end Graft
