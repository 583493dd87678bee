import Graft.Syntax.Tree

/-! Cuts of a text. A cut at a number of bytes succeeds exactly when the text splits there between two
characters, so that every statement about cuts is one about a text written as a concatenation. -/

namespace Graft.Text

theorem splitAt?_eq_some {text front back : Text} {size : Nat} (cut : splitAt? size text = some (front, back)) :
    text = front ++ back ∧ bytes front = size := by
  induction text generalizing size front with
  | nil =>
    cases size with
    | zero =>
      simp only [splitAt?, Option.some.injEq, Prod.mk.injEq] at cut
      simp [← cut.1, ← cut.2, bytes]
    | succ size => simp [splitAt?] at cut
  | cons c rest ih =>
    cases size with
    | zero =>
      simp only [splitAt?, Option.some.injEq, Prod.mk.injEq] at cut
      simp [← cut.1, ← cut.2, bytes]
    | succ size =>
      simp only [splitAt?] at cut
      split at cut
      next fits =>
        obtain ⟨⟨taken, left⟩, found, same⟩ := Option.map_eq_some_iff.mp cut
        simp only [Prod.mk.injEq] at same
        obtain ⟨rfl, rfl⟩ := same
        obtain ⟨whole, sized⟩ := ih found
        refine ⟨by simp [whole], ?_⟩
        simp only [bytes, sized]
        omega
      next => cases cut

/-- Every way to write a text as a concatenation is a cut. -/
theorem splitAt?_append (front back : Text) : splitAt? (bytes front) (front ++ back) = some (front, back) := by
  induction front with
  | nil => simp [bytes, splitAt?]
  | cons c rest ih =>
    have wide := c.utf8Size_pos
    obtain ⟨size, same⟩ : ∃ size, bytes (c :: rest) = size + 1 :=
      ⟨bytes (c :: rest) - 1, by simp only [bytes]; omega⟩
    have fits : c.utf8Size ≤ size + 1 := by simp only [bytes] at same; omega
    have left : size + 1 - c.utf8Size = bytes rest := by simp only [bytes] at same; omega
    rw [same, List.cons_append, splitAt?, if_pos fits, left, ih]
    rfl

theorem splitAt?_iff {text front back : Text} {size : Nat} :
    splitAt? size text = some (front, back) ↔ text = front ++ back ∧ bytes front = size := by
  constructor
  · exact splitAt?_eq_some
  · rintro ⟨rfl, rfl⟩
    exact splitAt?_append front back

@[simp] theorem take?_append (front back : Text) : take? (bytes front) (front ++ back) = some front := by
  simp [take?, splitAt?_append]

@[simp] theorem drop?_append (front back : Text) : drop? (bytes front) (front ++ back) = some back := by
  simp [drop?, splitAt?_append]

theorem slice?_append (front middle back : Text) :
    slice? (bytes front) (bytes front + bytes middle) (front ++ (middle ++ back)) = some middle := by
  simp [slice?]

theorem rows_append (first second : Text) : rows (first ++ second) = rows first + rows second := List.count_append ..

/-- The offsets at which a text can be cut. -/
def Boundary (text : Text) (offset : Nat) : Prop :=
  ∃ front back, text = front ++ back ∧ bytes front = offset

theorem boundary_iff {text : Text} {offset : Nat} : Boundary text offset ↔ (splitAt? offset text).isSome = true := by
  rw [Option.isSome_iff_exists]
  constructor
  · rintro ⟨front, back, split, size⟩
    exact ⟨(front, back), splitAt?_iff.mpr ⟨split, size⟩⟩
  · rintro ⟨⟨front, back⟩, cut⟩
    exact ⟨front, back, splitAt?_eq_some cut⟩

instance (text : Text) (offset : Nat) : Decidable (Boundary text offset) := decidable_of_iff _ boundary_iff.symm

theorem Boundary.le {text : Text} {offset : Nat} (edge : Boundary text offset) : offset ≤ bytes text := by
  obtain ⟨front, back, rfl, rfl⟩ := edge
  simp

theorem boundary_zero (text : Text) : Boundary text 0 := ⟨[], text, rfl, rfl⟩

theorem append_inj_of_bytes_le {front back front' back' : Text} (same : front ++ back = front' ++ back')
    (shorter : bytes front ≤ bytes front') : ∃ middle, front' = front ++ middle ∧ back = middle ++ back' := by
  rcases List.append_eq_append_iff.mp same with ⟨middle, longer, rest⟩ | ⟨middle, longer, rest⟩
  · exact ⟨middle, longer, rest⟩
  · subst longer
    have none : bytes middle = 0 := by simp only [bytes_append] at shorter; omega
    cases middle with
    | nil => exact ⟨[], by simp, by simpa using rest.symm⟩
    | cons c more =>
      have wide := c.utf8Size_pos
      simp only [bytes] at none
      omega

/-- A text splits at an offset in one way only. -/
theorem append_inj_of_bytes {front back front' back' : Text} (same : front ++ back = front' ++ back')
    (size : bytes front = bytes front') : front = front' ∧ back = back' := by
  have cut := splitAt?_append front back
  rw [same, size, splitAt?_append] at cut
  cases cut
  exact ⟨rfl, rfl⟩

theorem Boundary.between {text : Text} {start stop : Nat} (first : Boundary text start) (last : Boundary text stop)
    (ordered : start ≤ stop) :
    ∃ front middle back, text = front ++ (middle ++ back) ∧ bytes front = start ∧
      bytes front + bytes middle = stop := by
  obtain ⟨front, rest, rfl, rfl⟩ := first
  obtain ⟨longer, back, same, rfl⟩ := last
  obtain ⟨middle, rfl, rfl⟩ := append_inj_of_bytes_le same ordered
  exact ⟨front, middle, back, rfl, rfl, by simp⟩

theorem Boundary.slice? {text : Text} {start stop : Nat} (first : Boundary text start)
    (last : Boundary text stop) (ordered : start ≤ stop) : (Text.slice? start stop text).isSome = true := by
  obtain ⟨front, middle, back, rfl, rfl, rfl⟩ := first.between last ordered
  simp [slice?_append]

end Graft.Text
