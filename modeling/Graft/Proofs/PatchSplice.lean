import Graft.Proofs.NodePlaces
import Graft.Edit.Change

/-! Splicing a single patch. A span that lies on boundaries of the text is cut out of it, and what stands
before and behind it is copied as it is. -/

namespace Graft

/-- A span that can be cut out of a text. -/
structure Span.Fits (span : Span) (text : Text) : Prop where
  start : Text.Boundary text span.start
  stop : Text.Boundary text span.stop
  ordered : span.start ≤ span.stop

theorem Span.fits_iff {span : Span} {text : Text} : span.Fits text ↔
    Text.Boundary text span.start ∧ Text.Boundary text span.stop ∧ span.start ≤ span.stop :=
  ⟨fun fits => ⟨fits.start, fits.stop, fits.ordered⟩, fun ⟨start, stop, ordered⟩ => ⟨start, stop, ordered⟩⟩

instance (span : Span) (text : Text) : Decidable (span.Fits text) := decidable_of_iff _ Span.fits_iff.symm

theorem Span.Fits.split {span : Span} {text : Text} (fits : span.Fits text) :
    ∃ front middle back, text = front ++ (middle ++ back) ∧ Text.bytes front = span.start ∧
      Text.bytes front + Text.bytes middle = span.stop :=
  fits.start.between fits.stop fits.ordered

theorem Span.Fits.lands {span : Span} {text : Text} (fits : span.Fits text) :
    (Text.slice? span.start span.stop text).isSome = true :=
  fits.start.slice? fits.stop fits.ordered

theorem Node.Stands.span_fits {source : Text} {node : Node} (stands : node.Stands source) :
    node.span.Fits source :=
  ⟨stands.start_boundary, stands.stop_boundary, Stands.start_le_stop node⟩

theorem Patch.insertion_fits {text : Text} {offset : Nat} (edge : Text.Boundary text offset) (added : Text) :
    (Patch.insertion offset added).span.Fits text :=
  ⟨edge, edge, Nat.le_refl _⟩

namespace PatchSet

theorem splice_nil (ending : Text) {source : Text} {done : Nat} (edge : Text.Boundary source done) :
    splice ending source done [] = Text.drop? done source := by
  obtain ⟨front, back, rfl, rfl⟩ := edge
  have slice := Text.slice?_append front back []
  simp only [List.append_nil] at slice
  rw [splice, Text.bytes_append, slice, Text.drop?_append]

/-- A patch whose span fits is never left out. -/
theorem applyWith_single (ending : Text) {source : Text} {patch : Patch} (fits : patch.span.Fits source) :
    ∃ front back, Text.take? patch.span.start source = some front ∧
      Text.drop? patch.span.stop source = some back ∧
      applyWith ending ⟨[patch]⟩ source = some (front ++ LineEnding.normalize ending patch.text ++ back) := by
  obtain ⟨front, middle, back, whole, start, stop⟩ := fits.split
  have inside : ¬Text.bytes source < patch.span.stop := Nat.not_lt.mpr fits.stop.le
  have taken : Text.take? patch.span.start source = some front := by
    rw [whole, ← start, Text.take?_append]
  have dropped : Text.drop? patch.span.stop source = some back := by
    rw [whole, ← stop, ← Text.bytes_append, ← List.append_assoc, Text.drop?_append]
  have gap : Text.slice? 0 patch.span.start source = some front := by
    have slice := Text.slice?_append [] front (middle ++ back)
    simpa only [Text.bytes, Nat.zero_add, List.nil_append, ← whole, start] using slice
  refine ⟨front, back, taken, dropped, ?_⟩
  simp only [applyWith, Patch.sort, sortBy, insertBy, splice, Nat.not_lt_zero, inside, decide_false,
    Bool.or_self, Bool.false_eq_true, ite_false, gap]
  have rest := splice_nil ending fits.stop
  rw [splice] at rest
  rw [rest, dropped]

theorem applyWith_empty (ending source : Text) : applyWith ending ⟨[]⟩ source = some source := by
  have edge := Text.boundary_zero source
  rw [applyWith, Patch.sort, sortBy, splice_nil ending edge]
  exact Text.drop?_append [] source

end PatchSet
end Graft
