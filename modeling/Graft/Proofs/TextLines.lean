import Graft.Diff.Line

/-! Lines and their contents. The lines of a text spell it, and what is left of them without terminators is what stands
between the line breaks of the text, whichever of the three kinds they are. -/

namespace Graft

namespace Line

/-- A text without line breaks. -/
def Plain (text : Text) : Prop := '\n' ∉ text ∧ '\r' ∉ text

/-- What stands on the lines of a text. A line ends at a line feed, at the two characters of a carriage return and a
line feed, or at a carriage return alone; behind the last line break there is a line only if there is text. -/
inductive Contents : Text → List Text → Prop
  | nil : Contents [] []
  | last {line : Text} : line ≠ [] → Plain line → Contents line [line]
  | lf {line rest : Text} {lines : List Text} : Plain line → Contents rest lines →
    Contents (line ++ '\n' :: rest) (line :: lines)
  | crlf {line rest : Text} {lines : List Text} : Plain line → Contents rest lines →
    Contents (line ++ '\r' :: '\n' :: rest) (line :: lines)
  | cr {line rest : Text} {lines : List Text} : Plain line → rest.head? ≠ some '\n' → Contents rest lines →
    Contents (line ++ '\r' :: rest) (line :: lines)

theorem Contents.plain {text : Text} {lines : List Text} (read : Contents text lines) : ∀ line ∈ lines, Plain line := by
  induction read with
  | nil => simp
  | last _ plain => simpa using plain
  | lf plain _ ih | crlf plain _ ih | cr plain _ _ ih => exact List.forall_mem_cons.mpr ⟨plain, ih⟩

/-- Another character in front of a text belongs to its first line. -/
theorem Contents.cons {c : Char} {text line : Text} {lines : List Text} (lf : c ≠ '\n') (cr : c ≠ '\r')
    (read : Contents text (line :: lines)) : Contents (c :: text) ((c :: line) :: lines) := by
  have longer : ∀ {line}, Plain line → Plain (c :: line) := by
    intro line plain
    simp [Plain, plain.1, plain.2, lf.symm, cr.symm]
  cases read with
  | last _ plain => exact .last (by simp) (longer plain)
  | lf plain rest => exact .lf (longer plain) rest
  | crlf plain rest => exact .crlf (longer plain) rest
  | cr plain next rest => exact .cr (longer plain) next rest

theorem dropLastChar_cons {last c : Char} (other : c ≠ last) (line : Text) :
    dropLastChar last (c :: line) = c :: dropLastChar last line := by
  cases line with
  | nil => simp [dropLastChar, other]
  | cons d line =>
    unfold dropLastChar
    rw [List.getLast?_cons_cons]
    split <;> rfl

theorem content_cons {c : Char} (lf : c ≠ '\n') (cr : c ≠ '\r') (line : Text) :
    content (c :: line) = c :: content line := by
  rw [content, dropLastChar_cons lf, dropLastChar_cons cr, content]

theorem split_eq_nil {text : Text} : split text = [] ↔ text = [] := by
  constructor
  · fun_cases split text <;> simp
  · rintro rfl
    rfl

/-- The lines of a text without their terminators are what stands on its lines. -/
theorem split_contents (text : Text) : Contents text ((split text).map content) := by
  have empty : Plain [] := ⟨by simp, by simp⟩
  fun_induction split text with
  | case1 => exact .nil
  | case2 rest ih => exact Contents.crlf empty ih
  | case3 c rest paired breaks ih =>
    rw [Bool.or_eq_true, decide_eq_true_eq, decide_eq_true_eq] at breaks
    rcases breaks with rfl | rfl
    · exact Contents.lf empty ih
    · refine Contents.cr empty ?_ ih
      intro next
      obtain ⟨others, rfl⟩ := List.head?_eq_some_iff.mp next
      exact paired others rfl rfl
  | case4 c rest paired breaks none ih =>
    rw [Bool.or_eq_true, decide_eq_true_eq, decide_eq_true_eq, not_or] at breaks
    rw [split_eq_nil.mp none]
    rw [List.map_singleton, content_cons breaks.1 breaks.2]
    exact .last (by simp) (by simp [Plain, Ne.symm breaks.1, Ne.symm breaks.2])
  | case5 c rest paired breaks line lines found ih =>
    rw [Bool.or_eq_true, decide_eq_true_eq, decide_eq_true_eq, not_or] at breaks
    rw [found, List.map_cons] at ih
    rw [List.map_cons, content_cons breaks.1 breaks.2]
    exact ih.cons breaks.1 breaks.2

theorem flatten_split (text : Text) : (split text).flatten = text := by
  fun_induction split text with
  | case1 => rfl
  | case2 rest ih => simp [ih]
  | case3 c rest paired breaks ih => simp [ih]
  | case4 c rest paired breaks none ih => simp [split_eq_nil.mp none]
  | case5 c rest paired breaks line lines found ih =>
    rw [found, List.flatten_cons] at ih
    rw [List.flatten_cons, List.cons_append, ih]

theorem split_injective {one two : Text} (same : split one = split two) : one = two := by
  rw [← flatten_split one, same, flatten_split]

end Line

/-! ### Pieces between separators -/

namespace Text

attribute [local simp] splitOn

theorem splitOn_of_absent {separator : Char} {piece : Text} (absent : separator ∉ piece) :
    splitOn separator piece = [piece] := by
  induction piece with
  | nil => rfl
  | cons c piece ih =>
    rw [List.mem_cons, not_or] at absent
    obtain ⟨other, absent⟩ := absent
    simp [Ne.symm other, ih absent]

theorem splitOn_append {separator : Char} {piece : Text} (absent : separator ∉ piece) (rest : Text) :
    splitOn separator (piece ++ separator :: rest) = piece :: splitOn separator rest := by
  induction piece with
  | nil => simp
  | cons c piece ih =>
    rw [List.mem_cons, not_or] at absent
    obtain ⟨other, absent⟩ := absent
    simp [Ne.symm other, ih absent]

theorem separator_not_mem_splitOn {separator : Char} {text : Text} : ∀ piece ∈ splitOn separator text, separator ∉ piece := by
  induction text with
  | nil => simp
  | cons c text ih =>
    rw [splitOn]
    by_cases same : c = separator
    · rw [if_pos same]
      exact List.forall_mem_cons.mpr ⟨List.not_mem_nil, ih⟩
    · rw [if_neg same]
      split
      next => simpa using Ne.symm same
      next piece pieces found =>
        rw [found] at ih
        obtain ⟨here, later⟩ := List.forall_mem_cons.mp ih
        exact List.forall_mem_cons.mpr ⟨by simp [Ne.symm same, here], later⟩

/-- Pieces without the separator are found again between separators. -/
theorem splitOn_join {separator : Char} {pieces : List Text} (some : pieces ≠ [])
    (absent : ∀ piece ∈ pieces, separator ∉ piece) : splitOn separator (join [separator] pieces) = pieces := by
  induction pieces with
  | nil => exact absurd rfl some
  | cons piece pieces ih =>
    obtain ⟨here, later⟩ := List.forall_mem_cons.mp absent
    cases pieces with
    | nil => exact splitOn_of_absent here
    | cons next pieces =>
      rw [join, List.append_assoc, List.singleton_append, splitOn_append here, ih (by simp) later]
      simp

end Text
end Graft
