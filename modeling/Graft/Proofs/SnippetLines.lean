import Graft.Proofs.EditCuts
import Graft.Proofs.TextLines

/-! The lines of a piece of code. A region is cut out from the start of its first line on, so its lines are those of
the text between that place and its end, without the indentation that they share. -/

namespace Graft

namespace Text

def firstLine (text : Text) : Text := text.takeWhile (· ≠ '\n')

theorem splitOn_firstLine (text : Text) : ∃ others, splitOn '\n' text = firstLine text :: others := by
  induction text with
  | nil => exact ⟨[], rfl⟩
  | cons c rest ih =>
    obtain ⟨others, same⟩ := ih
    rw [splitOn, firstLine, List.takeWhile_cons]
    by_cases feed : c = '\n'
    · exact ⟨splitOn '\n' rest, by simp [feed]⟩
    · exact ⟨others, by simp [feed, same, firstLine]⟩

theorem firstLine_append {lead : Text} (absent : '\n' ∉ lead) (rest : Text) :
    firstLine (lead ++ rest) = lead ++ firstLine rest :=
  List.takeWhile_append_of_pos fun _ member => decide_eq_true fun feed => absent (feed ▸ member)

theorem newline_not_mem_lastLine (text : Text) : '\n' ∉ text.lastLine := by
  intro member
  rw [lastLine, List.mem_reverse] at member
  simpa using List.all_eq_true.mp List.all_takeWhile _ member

theorem rows_of_absent {text : Text} (absent : '\n' ∉ text) : rows text = 0 := List.count_eq_zero.mpr absent

theorem rows_lastLine (text : Text) : rows text.lastLine = 0 := rows_of_absent (newline_not_mem_lastLine text)

theorem rows_beforeLastLine (text : Text) : rows text.beforeLastLine = rows text := by
  have whole := congrArg rows (beforeLastLine_append_lastLine text)
  rwa [rows_append, rows_lastLine, Nat.add_zero] at whole

/-- A text that is more than blanks keeps what comes behind it when blanks are taken off. -/
theorem dropWhile_isBlank_append_iff (lead text : Text) :
    (lead ++ text).dropWhile Graft.isBlank = text.dropWhile Graft.isBlank ↔ lead.isBlank = true := by
  constructor
  · intro same
    cases kept : (lead.dropWhile Graft.isBlank).isEmpty with
    | true =>
      rw [isBlank, ← @List.takeWhile_append_dropWhile _ Graft.isBlank lead, List.isEmpty_iff.mp kept,
        List.append_nil]
      exact List.all_takeWhile
    | false =>
      have longer := congrArg List.length same
      have shorter := (@List.dropWhile_suffix _ text Graft.isBlank).length_le
      rw [List.dropWhile_append, kept, if_neg Bool.false_ne_true, List.length_append] at longer
      rw [List.isEmpty_eq_false_iff, ← List.length_pos_iff] at kept
      omega
  · intro blank
    exact List.dropWhile_append_of_pos (List.all_eq_true.mp blank)

end Text

namespace Snippet

theorem ofRegion_eq {source head middle back : Text} (root : Node) (whole : source = head ++ (middle ++ back)) :
    ofRegion source root ⟨Text.bytes head, Text.bytes head + Text.bytes middle⟩ =
      dedent (flag (templateRows source root) (Text.rows head) (Text.splitOn '\n' (head.lastLine ++ middle))) := by
  have line := Text.beforeLastLine_append_lastLine head
  have cut : Text.slice? (Text.bytes head.beforeLastLine) (Text.bytes head + Text.bytes middle) source =
      some (head.lastLine ++ middle) := by
    have size : Text.bytes head + Text.bytes middle =
        Text.bytes head.beforeLastLine + Text.bytes (head.lastLine ++ middle) := by
      have bytes := congrArg Text.bytes line
      rw [Text.bytes_append] at bytes ⊢
      omega
    have same : source = head.beforeLastLine ++ ((head.lastLine ++ middle) ++ back) := by
      rw [whole, ← List.append_assoc, ← List.append_assoc, ← List.append_assoc, line]
    rw [size, same, Text.slice?_append]
  rw [ofRegion]
  dsimp only
  rw [show Text.take? (Text.bytes head) source = some head by rw [whole]; exact Text.take?_append head _,
    Option.getD_some, cut, Option.getD_some, Text.rows_beforeLastLine]

/-- Taking off the common indentation takes nothing off a line but blanks. -/
theorem dropWhile_dedent {lines : List SnippetLine} {line : SnippetLine} (member : line ∈ lines) :
    (line.dedent (commonIndent lines)).text.dropWhile isBlank = line.text.dropWhile isBlank := by
  unfold SnippetLine.dedent
  split
  next => rfl
  next plain =>
    split
    next blank =>
      rw [← List.append_nil line.text, List.dropWhile_append_of_pos (List.all_eq_true.mp blank)]
    next solid =>
      have narrow : commonIndent lines ≤ line.text.indentation.length :=
        commonIndent_le (List.mem_filter.mpr ⟨member, by simp [SnippetLine.counts, plain, solid]⟩)
      have blank : ∀ c ∈ line.text.indentation, isBlank c = true := fun c inside =>
        isBlank_of_isIndent (List.all_eq_true.mp List.all_takeWhile c inside)
      have split : line.text = line.text.indentation ++ line.text.dropWhile isIndent :=
        List.takeWhile_append_dropWhile.symm
      dsimp only
      rw [split, List.drop_append_of_le_length narrow,
        List.dropWhile_append_of_pos fun c inside => blank c (List.mem_of_mem_drop inside),
        List.dropWhile_append_of_pos blank]

/-- The first line of a piece of code is that of the text it is cut from, but for blanks. -/
theorem dedent_flag_first (verbatim : List Span) (row : Nat) (text : Text) :
    ∃ first others, (dedent (flag verbatim row (Text.splitOn '\n' text))).lines = first :: others ∧
      first.text.dropWhile isBlank = text.firstLine.dropWhile isBlank := by
  obtain ⟨others, same⟩ := Text.splitOn_firstLine text
  rw [same, flag, dedent]
  exact ⟨_, _, rfl, dropWhile_dedent (List.mem_cons_self ..)⟩

end Snippet
end Graft
