import Graft.Proofs.CarriageReturns
import Graft.Proofs.SnippetLines
import Mathlib.Data.List.Forall2

/-! Taking off indentation and putting it back. Lines lose what they share of spaces and tabs and nothing else, so that
one of them is left without any; with another indentation before them they lose just that again. Lines that go on with a
template stay as they are, and blank lines become empty. -/

namespace Graft

namespace Text

theorem take_indentation {text : Text} {width : Nat} (narrow : width ≤ text.indentation.length) :
    text.take width = text.indentation.take width := by
  have whole : text = text.indentation ++ text.dropWhile isIndent := List.takeWhile_append_dropWhile.symm
  calc text.take width = (text.indentation ++ text.dropWhile isIndent).take width := by rw [← whole]
    _ = text.indentation.take width := List.take_append_of_le_length narrow

theorem indentation_drop (text : Text) : indentation (text.drop text.indentation.length) = [] := by
  induction text with
  | nil => rfl
  | cons c text ih =>
    by_cases indent : isIndent c = true
    · have longer : indentation (c :: text) = c :: indentation text := List.takeWhile_cons_of_pos indent
      rw [longer, List.length_cons, List.drop_succ_cons, ih]
    · have none : indentation (c :: text) = [] := List.takeWhile_cons_of_neg indent
      rw [none, List.length_nil, List.drop_zero, none]

theorem indentation_append {indent : Text} (blank : ∀ c ∈ indent, isIndent c = true) (text : Text) :
    indentation (indent ++ text) = indent ++ text.indentation :=
  List.takeWhile_append_of_pos blank

theorem isBlank_append {indent : Text} (blank : ∀ c ∈ indent, isIndent c = true) (text : Text) :
    isBlank (indent ++ text) = text.isBlank := by
  have all : indent.all Graft.isBlank = true :=
    List.all_eq_true.mpr fun c member => isBlank_of_isIndent (blank c member)
  rw [isBlank, isBlank, List.all_append, all, Bool.true_and]

end Text

namespace SnippetLine

/-- What becomes of a line when a number of bytes of indentation is taken off. -/
structure Dedented (width : Nat) (raw line : SnippetLine) : Prop where
  flag : line.verbatim = raw.verbatim
  kept : raw.verbatim = true → line.text = raw.text
  emptied : raw.verbatim = false → raw.isBlank = true → line.text = []
  cut : raw.counts = true →
    ∃ lead, raw.text = lead ++ line.text ∧ (∀ c ∈ lead, isIndent c = true) ∧ Text.bytes lead = width

theorem dedent_verbatim (width : Nat) (line : SnippetLine) : (line.dedent width).verbatim = line.verbatim := by
  unfold dedent
  split
  · rfl
  · split <;> rfl

theorem dedent_counts {line : SnippetLine} (counted : line.counts = true) (width : Nat) :
    line.dedent width = { line with text := line.text.drop width } := by
  simp only [counts, Bool.and_eq_true, Bool.not_eq_true'] at counted
  rw [dedent, if_neg (by simp [counted.1]), if_neg (by simp [counted.2])]

theorem dedent_dedented {width : Nat} {line : SnippetLine}
    (narrow : line.counts = true → width ≤ line.text.indentation.length) : Dedented width line (line.dedent width) := by
  refine ⟨dedent_verbatim width line, fun verbatim => ?_, fun plain blank => ?_, fun counted => ?_⟩
  · rw [dedent, if_pos verbatim]
  · rw [dedent, if_neg (by simp [plain]), if_pos blank]
  · have front := Text.take_indentation (narrow counted)
    have indent : ∀ c ∈ line.text.take width, isIndent c = true :=
      fun c member => List.all_eq_true.mp List.all_takeWhile c (List.mem_of_mem_take (front ▸ member))
    rw [dedent_counts counted]
    refine ⟨line.text.take width, (List.take_append_drop width line.text).symm, indent, ?_⟩
    rw [Text.bytes_of_indent indent, front, List.length_take]
    exact Nat.min_eq_left (narrow counted)

theorem Dedented.counts_eq {width : Nat} {raw line : SnippetLine} (dedented : Dedented width raw line) :
    line.counts = raw.counts := by
  obtain ⟨flag, kept, emptied, cut⟩ := dedented
  cases verbatim : raw.verbatim with
  | true => simp [counts, flag, verbatim]
  | false =>
    cases blank : raw.isBlank with
    | true =>
      have empty : line.isBlank = true := by rw [isBlank, emptied verbatim blank]; rfl
      rw [counts, counts, blank, empty, flag]
    | false =>
      obtain ⟨lead, whole, indent, -⟩ := cut (by simp [counts, verbatim, blank])
      rw [counts, counts, flag, isBlank, isBlank, whole, Text.isBlank_append indent]

def reindent (indent : Text) (line : SnippetLine) : SnippetLine := ⟨Snippet.indentLine indent line, line.verbatim⟩

/-- A line that is blank only if it is empty, unless it is verbatim. -/
def IsBared (line : SnippetLine) : Prop := line.verbatim = false → line.isBlank = true → line.text = []

theorem Dedented.isBared {width : Nat} {raw line : SnippetLine} (dedented : Dedented width raw line) : line.IsBared := by
  intro plain blank
  have same := dedented.counts_eq
  rw [dedented.flag] at plain
  rw [counts, counts, dedented.flag, plain, blank] at same
  exact dedented.emptied plain (by simpa using same.symm)

theorem reindent_counts {line : SnippetLine} (counted : line.counts = true) (indent : Text) :
    line.reindent indent = { line with text := indent ++ line.text } := by
  simp only [counts, Bool.and_eq_true, Bool.not_eq_true'] at counted
  have filled : line.text.isEmpty = false := by
    cases text : line.text with
    | nil => simp [isBlank, text, Text.isBlank] at counted
    | cons => rfl
  rw [reindent, Snippet.indentLine, counted.1, filled]
  rfl

section
variable {indent : Text} (blank : ∀ c ∈ indent, isIndent c = true)
include blank

theorem counts_reindent (line : SnippetLine) : (line.reindent indent).counts = line.counts := by
  rw [counts, counts, isBlank, isBlank, reindent, Snippet.indentLine]
  split
  · rfl
  · rw [Text.isBlank_append blank]

/-- The indentation before a line is taken off again. -/
theorem dedent_reindent {line : SnippetLine} (counted : line.counts = true) :
    (line.reindent indent).dedent indent.length = line := by
  rw [dedent_counts (by rw [counts_reindent blank, counted]), reindent_counts counted]
  dsimp only
  rw [List.drop_left]

end

theorem dedent_reindent_of_plain {line : SnippetLine} (plain : line.counts = false) (bared : line.IsBared) (indent : Text)
    (width : Nat) : (line.reindent indent).dedent width = line := by
  obtain ⟨text, verbatim⟩ := line
  cases verbatim with
  | true => rfl
  | false =>
    have empty : text = [] := bared rfl (by simpa [counts] using plain)
    rw [empty]
    rfl

end SnippetLine

namespace Snippet
variable {lines : List SnippetLine}

theorem mem_counting {line : SnippetLine} : line ∈ lines.filter SnippetLine.counts ↔ line ∈ lines ∧ line.counts = true :=
  List.mem_filter

theorem commonIndent_attained (some : ∃ line ∈ lines, line.counts = true) :
    ∃ line ∈ lines, line.counts = true ∧ line.text.indentation.length = commonIndent lines := by
  obtain ⟨line, member, counted⟩ := some
  unfold commonIndent
  cases least : ((lines.filter SnippetLine.counts).map fun line => line.text.indentation.length).min? with
  | none =>
    have empty := List.map_eq_nil_iff.mp (List.min?_eq_none_iff.mp least)
    have inside := mem_counting.mpr ⟨member, counted⟩
    rw [empty] at inside
    cases inside
  | some width =>
    obtain ⟨other, inside, same⟩ := List.mem_map.mp (List.min?_mem least)
    exact ⟨other, (mem_counting.mp inside).1, (mem_counting.mp inside).2, same⟩

/-- If each line that takes part has at least an indentation, and one has no more, that is the common one. -/
theorem commonIndent_eq {width : Nat} (least : ∀ line ∈ lines, line.counts = true → width ≤ line.text.indentation.length)
    (bare : ∃ line ∈ lines, line.counts = true ∧ line.text.indentation.length = width) : commonIndent lines = width := by
  obtain ⟨line, member, counted, same⟩ := bare
  obtain ⟨other, inside, taking, common⟩ := commonIndent_attained ⟨line, member, counted⟩
  have above := commonIndent_le (mem_counting.mpr ⟨member, counted⟩)
  have below := least other inside taking
  omega

/-- The lines of a piece of code are those it was made of without the common indentation. -/
theorem dedent_lines (lines : List SnippetLine) :
    List.Forall₂ (SnippetLine.Dedented (commonIndent lines)) lines (dedent lines).lines := by
  refine List.forall₂_map_right_iff.mpr (List.forall₂_same.mpr fun line member => ?_)
  exact SnippetLine.dedent_dedented fun counted => commonIndent_le (mem_counting.mpr ⟨member, counted⟩)

theorem dedented_of_mem {line : SnippetLine} (member : line ∈ (dedent lines).lines) :
    ∃ raw ∈ lines, SnippetLine.Dedented (commonIndent lines) raw line := by
  obtain ⟨raw, inside, rfl⟩ := List.mem_map.mp member
  exact ⟨raw, inside, SnippetLine.dedent_dedented fun counted => commonIndent_le (mem_counting.mpr ⟨inside, counted⟩)⟩

theorem dedent_bare (some : ∃ line ∈ lines, line.counts = true) :
    ∃ line ∈ (dedent lines).lines, line.counts = true ∧ line.text.indentation = [] := by
  obtain ⟨raw, member, counted, least⟩ := commonIndent_attained some
  have narrow : raw.counts = true → commonIndent lines ≤ raw.text.indentation.length := fun _ => Nat.le_of_eq least.symm
  refine ⟨_, List.mem_map_of_mem member, ?_, ?_⟩
  · rw [(SnippetLine.dedent_dedented narrow).counts_eq, counted]
  · rw [SnippetLine.dedent_counts counted, ← least]
    exact Text.indentation_drop raw.text

/-- Lines without an indentation in common get one and lose it again. -/
theorem dedent_reindented {indent : Text} (blank : ∀ c ∈ indent, isIndent c = true)
    (bared : ∀ line ∈ lines, line.IsBared)
    (bare : (∃ line ∈ lines, line.counts = true) → ∃ line ∈ lines, line.counts = true ∧ line.text.indentation = []) :
    dedent (lines.map (SnippetLine.reindent indent)) = ⟨lines⟩ := by
  have unchanged : ∀ line ∈ lines,
      (line.reindent indent).dedent (commonIndent (lines.map (SnippetLine.reindent indent))) = line := by
    intro line member
    cases counted : line.counts with
    | false => exact SnippetLine.dedent_reindent_of_plain counted (bared line member) indent _
    | true =>
      obtain ⟨other, inside, counting, none⟩ := bare ⟨line, member, counted⟩
      have least : ∀ after ∈ lines.map (SnippetLine.reindent indent), after.counts = true →
          indent.length ≤ after.text.indentation.length := by
        intro after listed taking
        obtain ⟨before, here, rfl⟩ := List.mem_map.mp listed
        rw [SnippetLine.counts_reindent blank] at taking
        rw [SnippetLine.reindent_counts taking, Text.indentation_append blank, List.length_append]
        exact Nat.le_add_right ..
      have same : commonIndent (lines.map (SnippetLine.reindent indent)) = indent.length := by
        refine commonIndent_eq least ⟨_, List.mem_map_of_mem inside, ?_, ?_⟩
        · rw [SnippetLine.counts_reindent blank, counting]
        · rw [SnippetLine.reindent_counts counting, Text.indentation_append blank, none, List.append_nil]
      rw [same]
      exact SnippetLine.dedent_reindent blank counted
  rw [dedent, List.map_map]
  exact congrArg Snippet.mk ((List.map_congr_left unchanged).trans (List.map_id' lines))

/-! ### The lines of a written piece of code -/

theorem newline_not_mem_indentLine {indent : Text} {line : SnippetLine} (plain : '\n' ∉ line.text) (level : '\n' ∉ indent) :
    '\n' ∉ indentLine indent line := by
  unfold indentLine
  split
  next => exact plain
  next => exact fun inside => (List.mem_append.mp inside).elim level plain

theorem indentedLines_first (snippet : Snippet) (indent : Text) :
    snippet.indentedLines indent true = snippet.lines.map (indentLine indent) := by
  unfold indentedLines
  split
  next none => rw [none, List.map_nil]
  next same => rw [same, List.map_cons, if_pos rfl]

/-- What is written, with another indentation before all lines, is that code again when it is split at its line feeds
and the common indentation is taken off. -/
theorem dedent_indented {indent : Text} (blank : ∀ c ∈ indent, isIndent c = true) (some : lines ≠ [])
    (plain : ∀ line ∈ lines, '\n' ∉ line.text) :
    Text.splitOn '\n' ((dedent lines).indented indent true) = (dedent lines).lines.map (indentLine indent) ∧
      dedent ((dedent lines).lines.map (SnippetLine.reindent indent)) = dedent lines := by
  have level : '\n' ∉ indent := fun member => absurd (blank _ member) (by decide)
  have texts : ∀ text ∈ (dedent lines).lines.map (indentLine indent), '\n' ∉ text := by
    refine List.forall_mem_map.mpr fun line member => newline_not_mem_indentLine ?_ level
    obtain ⟨raw, inside, rfl⟩ := List.mem_map.mp member
    exact fun feed => plain raw inside (SnippetLine.dedent_subset _ raw feed)
  have filled : (dedent lines).lines.map (indentLine indent) ≠ [] := by
    simpa [dedent] using some
  constructor
  · rw [indented, indentedLines_first, Text.splitOn_join filled texts]
  · refine dedent_reindented blank (fun line member => ?_) ?_
    · obtain ⟨raw, -, dedented⟩ := dedented_of_mem member
      exact dedented.isBared
    · rintro ⟨line, member, counted⟩
      obtain ⟨raw, inside, dedented⟩ := dedented_of_mem member
      exact dedent_bare ⟨raw, inside, dedented.counts_eq.symm.trans counted⟩

end Snippet
end Graft
