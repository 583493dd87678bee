import Graft.Proofs.PatchSplice
import Graft.Proofs.Sorting

/-! Splicing patches in one after the other. A patch survives if it ends inside the text and does not start before the
end of a survivor with an earlier place. Survivors do not touch each other's spans, so splicing all patches in at once
is the same as putting the survivors in place one by one, the last of them first, since no offset in front of a place
moves. -/

namespace Graft

namespace Patch

/-- Put the text of one patch in the place of its span. There is no result if the span does not fit. -/
def replaceIn (text : Text) (patch : Patch) : Option Text :=
  if patch.span.start ≤ patch.span.stop then
    match Text.take? patch.span.start text, Text.drop? patch.span.stop text with
    | some front, some back => some (front ++ patch.text ++ back)
    | _, _ => none
  else none

/-- Put patches in place one after the other, the last of them first. -/
def replaceEach (patches : List Patch) (source : Text) : Option Text :=
  patches.foldr (fun patch text => text.bind fun text => patch.replaceIn text) (some source)

theorem replaceIn_append {front middle back : Text} {patch : Patch} (start : Text.bytes front = patch.span.start)
    (stop : Text.bytes front + Text.bytes middle = patch.span.stop) :
    patch.replaceIn (front ++ (middle ++ back)) = some (front ++ patch.text ++ back) := by
  have taken := Text.take?_append front (middle ++ back)
  have dropped := Text.drop?_append (front ++ middle) back
  rw [Text.bytes_append, stop, List.append_assoc] at dropped
  rw [start] at taken
  rw [replaceIn, if_pos (by omega), taken, dropped]

/-- The order of places of recorded patches, which come with the number of patches recorded before them: patches with
the same start stay in the order of recording. -/
def Precedes (one two : Patch × Nat) : Prop :=
  one.1.span.start < two.1.span.start ∨ one.1.span.start = two.1.span.start ∧ one.2 < two.2

theorem Precedes.asymm {one two : Patch × Nat} (first : Precedes one two) (second : Precedes two one) : False := by
  unfold Precedes at first second
  omega

theorem Precedes.wf : WellFounded Precedes := by
  have lexicographic := InvImage.wf (fun patch : Patch × Nat => (patch.1.span.start, patch.2))
    (Prod.lex Nat.lt_wfRel Nat.lt_wfRel).wf
  refine Subrelation.wf ?_ lexicographic
  intro one two before
  exact Prod.lex_def.mpr before

end Patch

namespace PatchSet
open Patch (Precedes replaceEach)

/-- Which of the recorded patches are spliced in, in the order of their places. -/
structure Survivors (set : PatchSet) (source : Text) (kept : List (Patch × Nat)) : Prop where
  recorded : ∀ patch ∈ kept, patch ∈ set.patches.zipIdx
  ordered : kept.Pairwise Precedes
  apart : kept.Pairwise fun one two => one.1.span.stop ≤ two.1.span.start
  inside : ∀ patch ∈ kept, patch.1.span.stop ≤ Text.bytes source
  dropped : ∀ patch ∈ set.patches.zipIdx, patch ∉ kept → Text.bytes source < patch.1.span.stop ∨
    ∃ other ∈ kept, Precedes other patch ∧ patch.1.span.start < other.1.span.stop

def survivorsFrom (size : Nat) : Nat → List (Patch × Nat) → List (Patch × Nat)
  | _, [] => []
  | done, patch :: patches =>
    if patch.1.span.start < done || size < patch.1.span.stop then survivorsFrom size done patches
    else patch :: survivorsFrom size patch.1.span.stop patches

section
variable {size done : Nat} {patches : List (Patch × Nat)}

theorem survivorsFrom_sublist : (survivorsFrom size done patches).Sublist patches := by
  induction patches generalizing done with
  | nil => exact .slnil
  | cons patch patches ih =>
    rw [survivorsFrom]
    split
    next => exact ih.cons patch
    next => exact ih.cons_cons patch

theorem survivorsFrom_within (ordered : ∀ patch ∈ patches, patch.1.span.stop ≤ size → patch.1.span.start ≤ patch.1.span.stop) :
    ∀ patch ∈ survivorsFrom size done patches, done ≤ patch.1.span.start ∧ patch.1.span.stop ≤ size := by
  induction patches generalizing done with
  | nil => simp [survivorsFrom]
  | cons first patches ih =>
    have later := fun patch member => ordered patch (List.mem_cons_of_mem _ member)
    intro patch member
    rw [survivorsFrom] at member
    split at member
    next => exact ih later patch member
    next kept =>
      simp only [Bool.or_eq_true, decide_eq_true_eq, not_or, Nat.not_lt] at kept
      rcases List.mem_cons.mp member with rfl | member
      · exact kept
      · have wide := ordered first (List.mem_cons_self ..) kept.2
        have bounds := ih later patch member
        omega

theorem survivorsFrom_apart (ordered : ∀ patch ∈ patches, patch.1.span.stop ≤ size → patch.1.span.start ≤ patch.1.span.stop) :
    (survivorsFrom size done patches).Pairwise fun one two => one.1.span.stop ≤ two.1.span.start := by
  induction patches generalizing done with
  | nil => exact .nil
  | cons first patches ih =>
    have later := fun patch member => ordered patch (List.mem_cons_of_mem _ member)
    rw [survivorsFrom]
    split
    next => exact ih later
    next => exact List.pairwise_cons.mpr ⟨fun patch member => (survivorsFrom_within later patch member).1, ih later⟩

/-- What does not survive ends past the text, or starts before what is done or the end of a survivor before it. -/
theorem survivorsFrom_dropped (places : patches.Pairwise Precedes) :
    ∀ patch ∈ patches, patch ∉ survivorsFrom size done patches → size < patch.1.span.stop ∨ patch.1.span.start < done ∨
      ∃ other ∈ survivorsFrom size done patches, Precedes other patch ∧ patch.1.span.start < other.1.span.stop := by
  induction patches generalizing done with
  | nil => simp
  | cons first patches ih =>
    obtain ⟨before, places⟩ := List.pairwise_cons.mp places
    intro patch member lost
    rw [survivorsFrom] at lost ⊢
    split at lost
    next gone =>
      rw [if_pos gone]
      rcases List.mem_cons.mp member with rfl | member
      · simp only [Bool.or_eq_true, decide_eq_true_eq] at gone
        rcases gone with early | late
        · exact .inr (.inl early)
        · exact .inl late
      · exact ih places patch member lost
    next kept =>
      rw [if_neg kept]
      obtain ⟨other, lost⟩ := not_or.mp (mt List.mem_cons.mpr lost)
      have here := (List.mem_cons.mp member).resolve_left other
      rcases ih places patch here lost with late | early | ⟨found, survives, precedes, early⟩
      · exact .inl late
      · exact .inr (.inr ⟨first, List.mem_cons_self .., before patch here, early⟩)
      · exact .inr (.inr ⟨found, List.mem_cons_of_mem _ survives, precedes, early⟩)

/-- Splicing behind what is done is the same as putting the survivors in place, which leaves what is done alone. -/
theorem splice_eq_replaceEach {source front back : Text} (split : source = front ++ back)
    (fits : ∀ patch ∈ patches, patch.1.span.stop ≤ Text.bytes source → patch.1.span.Fits source) :
    ∃ rest, splice LineEnding.lf source (Text.bytes front) (patches.map Prod.fst) = some rest ∧
      replaceEach ((survivorsFrom (Text.bytes source) (Text.bytes front) patches).map Prod.fst) source =
        some (front ++ rest) := by
  induction patches generalizing front back with
  | nil =>
    refine ⟨back, ?_, congrArg some split⟩
    rw [List.map_nil, splice_nil _ ⟨front, back, split, rfl⟩, split, Text.drop?_append]
  | cons patch patches ih =>
    have later := fun other member => fits other (List.mem_cons_of_mem _ member)
    rw [List.map_cons, splice, survivorsFrom]
    by_cases gone : (patch.1.span.start < Text.bytes front || Text.bytes source < patch.1.span.stop) = true
    · rw [if_pos gone, if_pos gone]
      exact ih split later
    · rw [if_neg gone, if_neg gone]
      simp only [Bool.or_eq_true, decide_eq_true_eq, not_or, Nat.not_lt] at gone
      have here := fits patch (List.mem_cons_self ..) gone.2
      -- the text is what is done, the gap up to the patch, its span, and what is behind
      obtain ⟨_, middle, back', whole, start, stop⟩ := here.split
      rw [split] at whole
      obtain ⟨gap, rfl, rfl⟩ := Text.append_inj_of_bytes_le whole (start ▸ gone.1)
      have parts : source = (front ++ gap ++ middle) ++ back' := by rw [split]; simp
      have reached : Text.bytes (front ++ gap ++ middle) = patch.1.span.stop := by rw [← stop, Text.bytes_append]
      obtain ⟨rest, spliced, placed⟩ := ih parts later
      rw [reached] at spliced placed
      have copied : Text.slice? (Text.bytes front) patch.1.span.start source = some gap := by
        rw [split, ← start, Text.bytes_append]
        exact Text.slice?_append front gap (middle ++ back')
      refine ⟨gap ++ patch.1.text ++ rest, by simp [copied, spliced, LineEnding.normalize], ?_⟩
      rw [List.map_cons, replaceEach, List.foldr_cons, ← replaceEach, placed, Option.bind_some, List.append_assoc,
        Patch.replaceIn_append start stop]
      simp

end

/-! ### Recorded patches in order -/

def placed (set : PatchSet) : List (Patch × Nat) :=
  sortBy (fun one two => one.1.span.start ≤ two.1.span.start) set.patches.zipIdx

theorem map_placed (set : PatchSet) : set.placed.map Prod.fst = Patch.sort set.patches := by
  have keyed := @map_sortBy _ _ Prod.fst (fun one two : Patch => one.span.start ≤ two.span.start) set.patches.zipIdx
  rwa [List.zipIdx_map_fst] at keyed

theorem mem_placed {set : PatchSet} {patch : Patch × Nat} : patch ∈ set.placed ↔ patch ∈ set.patches.zipIdx := mem_sortBy

theorem zipIdx_pairwise {α : Type} (items : List α) : items.zipIdx.Pairwise fun one two => one.2 < two.2 := by
  rw [List.pairwise_iff_getElem]
  intro i j _ _ before
  simpa using before

theorem placed_pairwise (set : PatchSet) : set.placed.Pairwise Precedes := by
  have total : ∀ one two : Patch × Nat, decide (one.1.span.start ≤ two.1.span.start) = true ∨
      decide (two.1.span.start ≤ one.1.span.start) = true := by
    intro one two
    simp only [decide_eq_true_eq]
    omega
  have trans : ∀ one two three : Patch × Nat, decide (one.1.span.start ≤ two.1.span.start) = true →
      decide (two.1.span.start ≤ three.1.span.start) = true → decide (one.1.span.start ≤ three.1.span.start) = true := by
    intro one two three
    simp only [decide_eq_true_eq]
    omega
  refine (sortBy_stable total trans (zipIdx_pairwise set.patches)).imp fun {one two} sorted => ?_
  simp only [decide_eq_true_eq] at sorted
  unfold Precedes
  omega

/-! ### Survivors -/

variable {set : PatchSet} {source : Text}

theorem Survivors.stop_le {kept : List (Patch × Nat)} (survive : set.Survivors source kept) {one two : Patch × Nat}
    (first : one ∈ kept) (second : two ∈ kept) (precedes : Precedes one two) : one.1.span.stop ≤ two.1.span.start := by
  obtain ⟨front, back, rfl⟩ := List.append_of_mem second
  have ordered := survive.ordered
  rw [List.pairwise_append] at ordered
  rcases List.mem_append.mp first with before | behind
  · exact (List.pairwise_append.mp survive.apart).2.2 one before two (List.mem_cons_self ..)
  · rcases List.mem_cons.mp behind with rfl | behind
    · exact (precedes.asymm precedes).elim
    · exact (precedes.asymm ((List.pairwise_cons.mp ordered.2.1).1 one behind)).elim

/-- A patch that survives in one way survives in another, if the patches before it do. -/
theorem Survivors.mem_of_mem {one two : List (Patch × Nat)} (first : set.Survivors source one)
    (second : set.Survivors source two) {patch : Patch × Nat}
    (earlier : ∀ other, Precedes other patch → other ∈ two → other ∈ one) (member : patch ∈ one) : patch ∈ two := by
  apply Classical.byContradiction
  intro lost
  rcases second.dropped patch (first.recorded patch member) lost with late | ⟨other, survives, precedes, early⟩
  · exact Nat.not_le_of_lt late (first.inside patch member)
  · exact Nat.not_le_of_lt early (first.stop_le (earlier other precedes survives) member precedes)

theorem Survivors.unique {one two : List (Patch × Nat)} (first : set.Survivors source one)
    (second : set.Survivors source two) : one = two := by
  have same : ∀ patch, patch ∈ one ↔ patch ∈ two := by
    intro patch
    induction patch using Precedes.wf.induction with
    | h patch ih =>
      constructor
      · exact first.mem_of_mem second fun other precedes => (ih other precedes).mpr
      · exact second.mem_of_mem first fun other precedes => (ih other precedes).mp
  have distinct : ∀ {kept : List (Patch × Nat)}, kept.Pairwise Precedes → kept.Nodup := by
    intro kept ordered
    refine ordered.imp fun {one two} precedes => ?_
    rintro rfl
    exact precedes.asymm precedes
  have perm : one.Perm two := (List.perm_ext_iff_of_nodup (distinct first.ordered) (distinct second.ordered)).mpr same
  exact perm.eq_of_pairwise (fun _ _ _ _ before behind => (before.asymm behind).elim) first.ordered second.ordered

theorem survivors_placed (fits : ∀ patch ∈ set.patches, patch.span.stop ≤ Text.bytes source → patch.span.Fits source) :
    set.Survivors source (survivorsFrom (Text.bytes source) 0 set.placed) := by
  have listed : ∀ patch ∈ set.placed, patch.1 ∈ set.patches := by
    intro patch member
    rw [← List.zipIdx_map_fst 0 set.patches]
    exact List.mem_map_of_mem (mem_placed.mp member)
  have ordered : ∀ patch ∈ set.placed, patch.1.span.stop ≤ Text.bytes source → patch.1.span.start ≤ patch.1.span.stop :=
    fun patch member inside => (fits patch.1 (listed patch member) inside).ordered
  refine ⟨?_, set.placed_pairwise.sublist survivorsFrom_sublist, survivorsFrom_apart ordered, ?_, ?_⟩
  · exact fun patch member => mem_placed.mp (survivorsFrom_sublist.subset member)
  · exact fun patch member => (survivorsFrom_within ordered patch member).2
  · intro patch member lost
    rcases survivorsFrom_dropped set.placed_pairwise patch (mem_placed.mpr member) lost with late | early | found
    · exact .inl late
    · exact absurd early (Nat.not_lt_zero _)
    · exact .inr found

/-- Splicing in all patches at once is the same as putting the survivors in place one after the other, the last of them
first. Which patches survive is settled by their places alone. A patch that reaches past the text may be anything,
since it is left out. -/
theorem apply_eq_replaceEach (fits : ∀ patch ∈ set.patches, patch.span.stop ≤ Text.bytes source → patch.span.Fits source) :
    ∃ kept text, set.Survivors source kept ∧ (∀ other, set.Survivors source other → other = kept) ∧
      set.apply source = some text ∧ replaceEach (kept.map Prod.fst) source = some text := by
  have fitting : ∀ patch ∈ set.placed, patch.1.span.stop ≤ Text.bytes source → patch.1.span.Fits source := by
    intro patch member
    refine fits patch.1 ?_
    rw [← List.zipIdx_map_fst 0 set.patches]
    exact List.mem_map_of_mem (mem_placed.mp member)
  have survive := survivors_placed fits
  obtain ⟨text, spliced, each⟩ := splice_eq_replaceEach (List.nil_append source).symm fitting
  rw [map_placed] at spliced
  exact ⟨_, text, survive, fun other also => also.unique survive, spliced, each⟩

/-- Patches that overlap, start at one place or reach past the text. -/
def crowded : PatchSet :=
  ⟨[⟨⟨2, 6⟩, ['B']⟩, ⟨⟨0, 4⟩, ['A']⟩, .insertion 4 ['x'], ⟨⟨5, 9⟩, ['C']⟩, .insertion 4 ['y'], .insertion 3 ['z']]⟩

theorem apply_eq_replaceEach_crowded : (∀ patch ∈ crowded.patches, patch.span.stop ≤ Text.bytes "012345".toList →
      patch.span.Fits "012345".toList) ∧
    ∃ kept, crowded.Survivors "012345".toList kept ∧ crowded.apply "012345".toList = some "Axy45".toList ∧
      replaceEach (kept.map Prod.fst) "012345".toList = some "Axy45".toList := by
  have fits : ∀ patch ∈ crowded.patches, patch.span.stop ≤ Text.bytes "012345".toList →
      patch.span.Fits "012345".toList := by
    decide
  refine ⟨fits, ?_⟩
  obtain ⟨kept, text, survive, -, applied, each⟩ := apply_eq_replaceEach fits
  have result : crowded.apply "012345".toList = some "Axy45".toList := by decide
  cases result.symm.trans applied
  exact ⟨kept, survive, result, each⟩

end PatchSet
end Graft
