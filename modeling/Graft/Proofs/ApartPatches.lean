import Graft.Proofs.SequentialSplice
import Mathlib.Data.List.Pairwise

/-! Patches that do not overlap. Two patches are apart if one of them ends where the other starts or before, so that an
insertion at either edge of a span is apart from it. Patches that are apart all survive, whatever order they were
recorded in, but for one case: behind a span that starts at the same place, an insertion is taken for an overlap. -/

namespace Graft

namespace Patch

/-- One of two patches ends where the other starts or before. -/
def Apart (one two : Patch) : Prop := one.span.stop ≤ two.span.start ∨ two.span.stop ≤ one.span.start

instance (one two : Patch) : Decidable (Apart one two) :=
  inferInstanceAs (Decidable (one.span.stop ≤ two.span.start ∨ two.span.stop ≤ one.span.start))

/-! ### Sizes -/

def total (size : Patch → Nat) : List Patch → Nat
  | [] => 0
  | patch :: patches => size patch + total size patches

/-- The bytes that patches take out of a text. -/
def removed (patches : List Patch) : Nat := total (fun patch => patch.span.stop - patch.span.start) patches

/-- The bytes that patches bring into a text. -/
def added (patches : List Patch) : Nat := total (fun patch => Text.bytes patch.text) patches

section
variable {size : Patch → Nat}

theorem total_append (front back : List Patch) : total size (front ++ back) = total size front + total size back := by
  induction front with
  | nil => rw [List.nil_append, total, Nat.zero_add]
  | cons patch front ih => rw [List.cons_append, total, total, ih, Nat.add_assoc]

theorem total_perm {one two : List Patch} (perm : one.Perm two) : total size one = total size two := by
  induction perm with
  | nil => rfl
  | cons patch _ ih => rw [total, total, ih]
  | swap first second patches =>
    simp only [total]
    omega
  | trans _ _ first second => exact first.trans second

theorem total_eq_zero {patches : List Patch} (none : ∀ patch ∈ patches, size patch = 0) : total size patches = 0 := by
  induction patches with
  | nil => rfl
  | cons patch patches ih =>
    obtain ⟨here, behind⟩ := List.forall_mem_cons.mp none
    rw [total, here, ih behind]

end

theorem replaceIn_bytes {patch : Patch} {text after : Text} (done : patch.replaceIn text = some after) :
    Text.bytes after + (patch.span.stop - patch.span.start) = Text.bytes text + Text.bytes patch.text := by
  unfold replaceIn at done
  split at done
  next ordered =>
    split at done
    next front back taken dropped =>
      cases done
      obtain ⟨⟨_, rest⟩, cut, rfl⟩ := Option.map_eq_some_iff.mp taken
      obtain ⟨⟨start, _⟩, other, rfl⟩ := Option.map_eq_some_iff.mp dropped
      obtain ⟨-, first⟩ := Text.splitAt?_eq_some cut
      obtain ⟨whole, second⟩ := Text.splitAt?_eq_some other
      have size := congrArg Text.bytes whole
      simp only [Text.bytes_append] at size ⊢
      omega
    next => cases done
  next => cases done

/-- Each patch that is put in place changes the size of the text by the size of its own text and of its span. -/
theorem replaceEach_bytes {patches : List Patch} {source text : Text} (done : replaceEach patches source = some text) :
    Text.bytes text + removed patches = Text.bytes source + added patches := by
  induction patches generalizing text with
  | nil =>
    cases done
    rfl
  | cons patch patches ih =>
    rw [replaceEach, List.foldr_cons, ← replaceEach] at done
    obtain ⟨middle, behind, here⟩ := Option.bind_eq_some_iff.mp done
    have rest := ih behind
    have first := replaceIn_bytes here
    simp only [removed, added, total] at rest ⊢
    omega

end Patch

namespace PatchSet
open Patch (Precedes Apart replaceEach removed added)

/-- An insertion is late if a span that starts where it stands was recorded before it. -/
def Late (set : PatchSet) (patch : Patch × Nat) : Prop :=
  patch.1.span.start = patch.1.span.stop ∧ ∃ other ∈ set.patches.zipIdx,
    other.2 < patch.2 ∧ other.1.span.start = patch.1.span.start ∧ other.1.span.start < other.1.span.stop

instance (set : PatchSet) (patch : Patch × Nat) : Decidable (set.Late patch) :=
  inferInstanceAs (Decidable (patch.1.span.start = patch.1.span.stop ∧ ∃ other ∈ set.patches.zipIdx,
    other.2 < patch.2 ∧ other.1.span.start = patch.1.span.start ∧ other.1.span.start < other.1.span.stop))

def late (set : PatchSet) : List Patch := (set.patches.zipIdx.filter fun patch => set.Late patch).map Prod.fst

variable {set : PatchSet} {source : Text}

theorem mem_patches {patch : Patch × Nat} (recorded : patch ∈ set.patches.zipIdx) : patch.1 ∈ set.patches := by
  rw [← List.zipIdx_map_fst 0 set.patches]
  exact List.mem_map_of_mem recorded

theorem removed_late (set : PatchSet) : removed set.late = 0 := by
  apply Patch.total_eq_zero
  intro patch insertion
  obtain ⟨recorded, chosen, rfl⟩ := List.mem_map.mp insertion
  have late : set.Late recorded := by simpa using (List.mem_filter.mp chosen).2
  have empty := late.1
  omega

theorem apart_of_precedes (apart : set.patches.Pairwise Apart) {one two : Patch × Nat}
    (first : one ∈ set.patches.zipIdx) (second : two ∈ set.patches.zipIdx) (precedes : Precedes one two) :
    Apart one.1 two.1 := by
  have recorded : set.patches.zipIdx.Pairwise fun one two => Apart one.1 two.1 := by
    rw [← List.zipIdx_map_fst 0 set.patches] at apart
    exact List.pairwise_map.mp apart
  have symm : Std.Symm fun one two : Patch × Nat => Apart one.1 two.1 := ⟨fun _ _ => Or.symm⟩
  apply recorded.forall first second
  rintro rfl
  exact precedes.asymm precedes

/-- Of patches that are apart, just the late insertions do not survive. -/
theorem Survivors.mem_iff_not_late {kept : List (Patch × Nat)} (survive : set.Survivors source kept)
    (fits : ∀ patch ∈ set.patches, patch.span.Fits source) (apart : set.patches.Pairwise Apart) :
    ∀ patch ∈ set.patches.zipIdx, patch ∈ kept ↔ ¬set.Late patch := by
  have late_of_lost : ∀ patch ∈ set.patches.zipIdx, patch ∉ kept → set.Late patch := by
    intro patch recorded lost
    have fit := fits patch.1 (mem_patches recorded)
    rcases survive.dropped patch recorded lost with outside | ⟨other, survives, precedes, early⟩
    · exact absurd fit.stop.le (Nat.not_le_of_lt outside)
    · have member := survive.recorded other survives
      have ordered := fit.ordered
      have between := apart_of_precedes apart member recorded precedes
      unfold Precedes at precedes
      unfold Apart at between
      -- what starts before the end of a patch that it is apart from is an insertion at its start
      exact ⟨by omega, other, member, by omega, by omega, by omega⟩
  intro patch recorded
  constructor
  · rintro survives ⟨empty, other, member, earlier, same, wide⟩
    have precedes : Precedes other patch := .inr ⟨same, earlier⟩
    by_cases found : other ∈ kept
    · have before := survive.stop_le found survives precedes
      omega
    · have narrow := (late_of_lost other member found).1
      omega
  · intro timely
    exact Classical.not_not.mp fun lost => timely (late_of_lost patch recorded lost)

theorem Survivors.nodup {kept : List (Patch × Nat)} (survive : set.Survivors source kept) : kept.Nodup := by
  apply survive.ordered.imp
  rintro one _ precedes rfl
  exact precedes.asymm precedes

theorem Survivors.perm_late {kept : List (Patch × Nat)} (survive : set.Survivors source kept)
    (timely : ∀ patch ∈ set.patches.zipIdx, patch ∈ kept ↔ ¬set.Late patch) :
    (kept.map Prod.fst ++ set.late).Perm set.patches := by
  have recorded : set.patches.zipIdx.Nodup := by
    apply (zipIdx_pairwise set.patches).imp
    rintro one _ before rfl
    exact Nat.lt_irrefl _ before
  have same : kept.Perm (set.patches.zipIdx.filter fun patch => !decide (set.Late patch)) := by
    apply (List.perm_ext_iff_of_nodup survive.nodup (recorded.sublist List.filter_sublist)).mpr
    intro patch
    simp only [List.mem_filter, Bool.not_eq_true', decide_eq_false_iff_not]
    constructor
    · intro survives
      have member := survive.recorded patch survives
      exact ⟨member, (timely patch member).mp survives⟩
    · rintro ⟨member, punctual⟩
      exact (timely patch member).mpr punctual
  have both := (same.append_right (set.patches.zipIdx.filter fun patch => set.Late patch)).trans List.perm_append_comm
  have all := (both.trans (List.filter_append_perm _ _)).map Prod.fst
  rwa [List.map_append, List.zipIdx_map_fst] at all

theorem apply_survivorsFrom (fits : ∀ patch ∈ set.patches, patch.span.Fits source) :
    ∃ text, set.apply source = some text ∧
      replaceEach ((survivorsFrom (Text.bytes source) 0 set.placed).map Prod.fst) source = some text := by
  have fitting : ∀ patch ∈ set.placed, patch.1.span.stop ≤ Text.bytes source → patch.1.span.Fits source :=
    fun patch member _ => fits patch.1 (mem_patches (mem_placed.mp member))
  obtain ⟨text, spliced, each⟩ := splice_eq_replaceEach (List.nil_append source).symm fitting
  rw [map_placed] at spliced
  exact ⟨text, spliced, each⟩

/-- Of patches that fit and are apart, recorded in any order, all are spliced in but the late insertions. The size of
the text is that of the source without the spans and with the texts of all patches, but for what the late insertions
would have brought. -/
theorem apply_apart (fits : ∀ patch ∈ set.patches, patch.span.Fits source) (apart : set.patches.Pairwise Apart) :
    ∃ kept text, set.Survivors source kept ∧ (∀ patch ∈ set.patches.zipIdx, patch ∈ kept ↔ ¬set.Late patch) ∧
      set.apply source = some text ∧ replaceEach (kept.map Prod.fst) source = some text ∧
      Text.bytes text + removed set.patches + added set.late = Text.bytes source + added set.patches := by
  have survive := survivors_placed fun patch member (_ : patch.span.stop ≤ Text.bytes source) => fits patch member
  have timely := survive.mem_iff_not_late fits apart
  obtain ⟨text, spliced, each⟩ := apply_survivorsFrom fits
  refine ⟨_, text, survive, timely, spliced, each, ?_⟩
  have size := Patch.replaceEach_bytes each
  have perm := survive.perm_late timely
  have out : removed _ + removed set.late = removed set.patches :=
    (Patch.total_append _ _).symm.trans (Patch.total_perm perm)
  have into : added _ + added set.late = added set.patches :=
    (Patch.total_append _ _).symm.trans (Patch.total_perm perm)
  rw [removed_late] at out
  omega

/-- Spans with insertions at both of their edges, two of which are late. -/
def edges : PatchSet :=
  ⟨[⟨⟨2, 5⟩, ['R']⟩, .insertion 2 ['I'], .insertion 5 ['j'], ⟨⟨0, 1⟩, []⟩, .insertion 1 ['k'], .insertion 0 ['l']]⟩

theorem apply_apart_edges : (∀ patch ∈ edges.patches, patch.span.Fits "01é456".toList) ∧ edges.patches.Pairwise Apart ∧
    edges.late = [.insertion 2 ['I'], .insertion 0 ['l']] ∧
    ∃ kept, edges.Survivors "01é456".toList kept ∧ (∀ patch ∈ edges.patches.zipIdx, patch ∈ kept ↔ ¬edges.Late patch) ∧
      edges.apply "01é456".toList = some "k1Rj56".toList ∧ 6 + removed edges.patches + 2 = 7 + added edges.patches := by
  have fits : ∀ patch ∈ edges.patches, patch.span.Fits "01é456".toList := by decide
  have apart : edges.patches.Pairwise Apart := by decide
  refine ⟨fits, apart, by decide, ?_⟩
  obtain ⟨kept, text, survive, timely, applied, -, size⟩ := apply_apart fits apart
  have result : edges.apply "01é456".toList = some "k1Rj56".toList := by decide
  cases result.symm.trans applied
  exact ⟨kept, survive, timely, result, size⟩

end PatchSet
end Graft
