import Graft.Diff.Report
import Graft.Proofs.ScriptSides
import Graft.Proofs.TextLines

/-! Reading a preview. The lines of a preview that are not added spell the first text, those that are not removed the
second. A preview that is cut short starts like the whole one, and only such a preview ends with the marker. -/

namespace Graft.Diff

def tagged (old new : Text) : List (Tag × Text) := (blocks old new).flatMap Block.tagged

theorem tagged_sides (old new : Text) :
    Tag.oldItems (tagged old new) = Line.split old ∧ Tag.newItems (tagged old new) = Line.split new := by
  have sides := (Script.settle_sides (Myers.script (Line.split old) (Line.split new))).trans (Myers.script_sides _ _)
  obtain ⟨first, second⟩ := Script.blocks_sides (Script.settle (Myers.script (Line.split old) (Line.split new)))
  exact ⟨first.trans (Prod.mk.inj sides).1, second.trans (Prod.mk.inj sides).2⟩

def shownLine (line : Tag × Text) : Text := signOf line.1 :: Line.content line.2

/-- Gathering lines into chunks keeps them and their order. -/
theorem signed_gather (lines : List (Tag × Text)) :
    signed (gather lines) = lines.map fun line => signOf line.1 :: line.2 := by
  have signed_cons : ∀ tag line chunks, signed (cons tag line chunks) = (signOf tag :: line) :: signed chunks := by
    intro tag line chunks
    cases chunks with
    | nil => rfl
    | cons chunk chunks =>
      rw [cons]
      split
      next same => simp [signed, same]
      next => rfl
  induction lines with
  | nil => rfl
  | cons line lines ih => rw [gather, signed_cons, ih, List.map_cons]

theorem signed_chunks (old new : Text) : signed (chunks old new) = (tagged old new).map shownLine := by
  rw [chunks, signed_gather, List.map_map]
  rfl

/-! ### Reading lines behind signs -/

/-- The lines of a preview. An empty preview has none. -/
def previewLines (preview : Text) : List Text := if preview.isEmpty then [] else Text.splitOn '\n' preview

/-- The lines that do not stand behind a sign, without their own signs. -/
def besides (sign : Char) (lines : List Text) : List Text :=
  (lines.filter fun line => line.head? ≠ some sign).map List.tail

theorem besides_added (lines : List (Tag × Text)) :
    besides '+' (lines.map shownLine) = (Tag.oldItems lines).map Line.content := by
  rw [besides, Tag.oldItems, List.filter_map, List.map_map, List.map_map]
  congr 1
  refine List.filter_congr fun line _ => ?_
  obtain ⟨tag, text⟩ := line
  cases tag <;> rfl

theorem besides_removed (lines : List (Tag × Text)) :
    besides '-' (lines.map shownLine) = (Tag.newItems lines).map Line.content := by
  rw [besides, Tag.newItems, List.filter_map, List.map_map, List.map_map]
  congr 1
  refine List.filter_congr fun line _ => ?_
  obtain ⟨tag, text⟩ := line
  cases tag <;> rfl

theorem previewLines_join {pieces : List Text} (some : ∀ piece ∈ pieces, piece ≠ [])
    (plain : ∀ piece ∈ pieces, '\n' ∉ piece) : previewLines (Text.join ['\n'] pieces) = pieces := by
  cases pieces with
  | nil => rfl
  | cons piece pieces =>
    have filled : (Text.join ['\n'] (piece :: pieces)).isEmpty = false := by
      obtain ⟨c, piece, rfl⟩ := List.exists_cons_of_ne_nil (some piece (List.mem_cons_self ..))
      cases pieces <;> rfl
    rw [previewLines, filled]
    exact Text.splitOn_join (List.cons_ne_nil _ _) plain

/-! ### Previews -/

theorem tagged_plain (old new : Text) : ∀ line ∈ tagged old new, Line.Plain (Line.content line.2) := by
  obtain ⟨first, second⟩ := tagged_sides old new
  rintro ⟨tag, text⟩ member
  have listed : text ∈ Tag.oldItems (tagged old new) ∨ text ∈ Tag.newItems (tagged old new) := by
    by_cases added : tag = .added
    · exact .inr (List.mem_map.mpr ⟨(tag, text), List.mem_filter.mpr ⟨member, by simp [added]⟩, rfl⟩)
    · exact .inl (List.mem_map.mpr ⟨(tag, text), List.mem_filter.mpr ⟨member, by simp [added]⟩, rfl⟩)
  rw [first, second] at listed
  rcases listed with listed | listed
  · exact (Line.split_contents old).plain _ (List.mem_map_of_mem listed)
  · exact (Line.split_contents new).plain _ (List.mem_map_of_mem listed)

theorem shownLine_ne_marker (line : Tag × Text) : shownLine line ≠ truncationMarker := by
  obtain ⟨tag, text⟩ := line
  cases tag <;> exact fun same => by cases (List.cons.inj same).1

/-- The lines of a preview are the tagged lines, or the first of them and a marker. -/
theorem previewLines_report (old new : Text) (limit : Nat) : previewLines (report old new limit).preview =
    if (tagged old new).length ≤ limit then (tagged old new).map shownLine
    else ((tagged old new).take limit).map shownLine ++ [truncationMarker] := by
  have preview : (report old new limit).preview = Text.join ['\n'] (
      if (tagged old new).length ≤ limit then (tagged old new).map shownLine
      else ((tagged old new).take limit).map shownLine ++ [truncationMarker]) := by
    simp only [report, Diff.preview, signed_chunks, List.length_map, List.map_take]
  have shown : ∀ line ∈ tagged old new, shownLine line ≠ [] ∧ '\n' ∉ shownLine line := by
    rintro ⟨tag, text⟩ member
    refine ⟨List.cons_ne_nil _ _, fun inside => ?_⟩
    rcases List.mem_cons.mp inside with sign | inside
    · cases tag <;> cases sign
    · exact (tagged_plain old new _ member).1 inside
  have pieces : ∀ piece ∈ (if (tagged old new).length ≤ limit then (tagged old new).map shownLine
      else ((tagged old new).take limit).map shownLine ++ [truncationMarker]), piece ≠ [] ∧ '\n' ∉ piece := by
    intro piece member
    split at member
    next =>
      obtain ⟨line, listed, rfl⟩ := List.mem_map.mp member
      exact shown line listed
    next =>
      rcases List.mem_append.mp member with member | member
      · obtain ⟨line, listed, rfl⟩ := List.mem_map.mp member
        exact shown line (List.mem_of_mem_take listed)
      · rw [List.mem_singleton.mp member]
        decide
  rw [preview]
  exact previewLines_join (fun piece member => (pieces piece member).1) fun piece member => (pieces piece member).2

/-- A preview is a faithful account of what has changed. Its lines but those added are the lines of the first text, and
its lines but those removed the lines of the second. If there are more lines than the limit, the preview shows just as
many of them as the limit allows, which are first lines of both texts, and then a marker that is on no other line. -/
theorem report_preview_sides (old new : Text) (limit : Nat) :
    ∃ oldLines newLines, Line.Contents old oldLines ∧ Line.Contents new newLines ∧
      if (tagged old new).length ≤ limit then
        besides '+' (previewLines (report old new limit).preview) = oldLines ∧
        besides '-' (previewLines (report old new limit).preview) = newLines ∧
        truncationMarker ∉ previewLines (report old new limit).preview
      else ∃ shown, previewLines (report old new limit).preview = shown ++ [truncationMarker] ∧ shown.length = limit ∧
        shown = ((tagged old new).take limit).map shownLine ∧ truncationMarker ∉ shown ∧
        besides '+' shown <+: oldLines ∧ besides '-' shown <+: newLines := by
  obtain ⟨first, second⟩ := tagged_sides old new
  have unmarked : ∀ lines : List (Tag × Text), truncationMarker ∉ lines.map shownLine := by
    intro lines member
    obtain ⟨line, -, same⟩ := List.mem_map.mp member
    exact shownLine_ne_marker line same
  refine ⟨_, _, Line.split_contents old, Line.split_contents new, ?_⟩
  rw [previewLines_report]
  split
  next fits =>
    rw [besides_added, besides_removed, first, second]
    exact ⟨rfl, rfl, unmarked _⟩
  next longer =>
    refine ⟨_, rfl, ?_, rfl, unmarked _, ?_, ?_⟩
    · rw [List.length_map, List.length_take]
      omega
    · rw [besides_added, ← first]
      exact (((List.take_prefix ..).filter _).map _).map _
    · rw [besides_removed, ← second]
      exact (((List.take_prefix ..).filter _).map _).map _

end Graft.Diff
