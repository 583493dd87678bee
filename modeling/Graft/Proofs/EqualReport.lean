import Graft.Diff.Report

/-! The report on a text and itself. The script keeps all lines in one run, moving changes has nothing to
move, and so no place is reported as changed. -/

namespace Graft

namespace Myers
variable {α : Type} [DecidableEq α]

theorem sharedStart_self (items : List α) : sharedStart items items = items.length := by
  induction items with
  | nil => rfl
  | cons item items ih => simp [sharedStart, ih]

theorem script_self (items : List α) : script items items = Script.run .context items := by
  simp [script, scriptFrom, sharedStart_self, sharedEnd, Script.run]

end Myers

namespace Script
variable {α : Type} [DecidableEq α]

theorem settleFrom_absent {tag : Tag} (reach : Nat) {steps : Nat} {before after : List (Run α)}
    (absent : ∀ run ∈ after, run.tag ≠ tag) : settleFrom tag reach steps before after = before.reverse ++ after := by
  induction steps generalizing before after with
  | zero => rfl
  | succ steps ih =>
    cases after with
    | nil => simp [settleFrom]
    | cons run runs =>
      have rest : settleFrom tag reach steps (run :: before) runs = (run :: before).reverse ++ runs :=
        ih (fun other member => absent other (by simp [member]))
      rw [settleFrom, if_neg (absent run (by simp)), rest]
      simp

omit [DecidableEq α] in
theorem run_context {tag : Tag} (changes : tag ≠ .context) (items : List α) :
    ∀ run ∈ Script.run .context items, run.tag ≠ tag := by
  intro run member
  unfold Script.run at member
  split at member
  next => simp at member
  next =>
    rw [List.mem_singleton.mp member]
    exact fun same => changes same.symm

theorem settle_context (items : List α) : settle (Script.run .context items) = Script.run .context items := by
  simp only [settle]
  rw [settleFrom_absent _ (run_context (by decide) items), List.reverse_nil, List.nil_append,
    settleFrom_absent _ (run_context (by decide) items)]
  rfl

omit [DecidableEq α] in
theorem blocks_context (items : List α) : blocks (Script.run .context items) = keep items := by
  unfold Script.run
  split
  next empty => simp [blocks, blocksFrom, List.isEmpty_iff.mp empty, keep, change]
  next => simp [blocks, blocksFrom, change]

end Script

namespace Diff

theorem blocks_self (text : Text) : blocks text text = Script.keep (Line.split text) := by
  rw [blocks, Myers.script_self, Script.settle_context, Script.blocks_context]

theorem gather_tags {tag : Tag} {lines : List (Tag × Text)} (same : ∀ line ∈ lines, line.1 = tag) :
    ∀ chunk ∈ gather lines, chunk.tag = tag := by
  induction lines with
  | nil => simp [gather]
  | cons line lines ih =>
    have first : line.1 = tag := same line (by simp)
    have rest := ih (fun other member => same other (by simp [member]))
    intro chunk member
    rw [gather] at member
    cases found : gather lines with
    | nil =>
      rw [found, cons, List.mem_singleton] at member
      rw [member]
      exact first
    | cons head chunks =>
      rw [found] at member rest
      have joined : head.tag = line.1 := (rest head (by simp)).trans first.symm
      rw [cons, if_pos joined] at member
      rcases List.mem_cons.mp member with rfl | member
      · exact first
      · exact rest chunk (by simp [member])

theorem rangesFrom_context {chunks : List Chunk} (same : ∀ chunk ∈ chunks, chunk.tag = .context) (counter : Nat) :
    rangesFrom counter none chunks = [] := by
  induction chunks generalizing counter with
  | nil => rfl
  | cons chunk chunks ih =>
    have first : chunk.tag = .context := same chunk (by simp)
    have rest := ih (fun other member => same other (by simp [member])) (counter + chunk.lines.length)
    rw [rangesFrom]
    simp only [first, rest]
    rfl

theorem chunks_self (text : Text) : ∀ chunk ∈ chunks text text, chunk.tag = .context := by
  apply gather_tags
  intro line member
  rw [blocks_self] at member
  unfold Script.keep at member
  split at member
  next => simp at member
  next =>
    obtain ⟨⟨tag, content⟩, tagged, rfl⟩ := List.mem_map.mp member
    simp only [List.flatMap_cons, List.flatMap_nil, List.append_nil, Block.tagged, List.mem_map] at tagged
    obtain ⟨item, _, same⟩ := tagged
    exact (congrArg Prod.fst same).symm

/-- No place of a text differs from itself. -/
theorem report_self (text : Text) (limit : Nat) : (report text text limit).edits = [] :=
  rangesFrom_context (chunks_self text) 0

end Diff
end Graft
