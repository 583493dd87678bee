import Graft.Proofs.TemplateTexts

/-! Texts that indentation leaves alone. Writing lines with another indentation changes what is before the first
character of a line that is no blank. So texts that start with such a character, and go on in verbatim lines only, are
found again in what is written, one behind the other as before. -/

namespace Graft

namespace Text

/-- Texts occur in another one behind the other. -/
def InOrder : List Text → Text → Prop
  | [], _ => True
  | piece :: pieces, text => ∃ before rest, text = before ++ (piece ++ rest) ∧ InOrder pieces rest

theorem InOrder.of_newline {pieces : List Text} {text : Text}
    (solid : ∀ piece ∈ pieces, ∃ c rest, piece = c :: rest ∧ c ≠ '\n') (found : InOrder pieces ('\n' :: text)) :
    InOrder pieces text := by
  cases pieces with
  | nil => trivial
  | cons piece pieces =>
    obtain ⟨before, rest, split, later⟩ := found
    cases before with
    | nil =>
      obtain ⟨c, more, rfl, other⟩ := solid piece (List.mem_cons_self ..)
      exact absurd (List.cons.inj split).1.symm other
    | cons c before => exact ⟨before, rest, (List.cons.inj split).2, later⟩

end Text

namespace Snippet

/-- Lines from a row on, written with an indentation in the place of a width. -/
def rewritten (verbatim : List Span) (width : Nat) (indent : Text) (row : Nat) (texts : List Text) : List Text :=
  ((flag verbatim row texts).map (SnippetLine.dedent width)).map (indentLine indent)

/-- A text in the middle of a line, with its further lines written anew, the first of which is on a given row. -/
def carried (verbatim : List Span) (width : Nat) (indent : Text) (row : Nat) (text : Text) : Text :=
  Text.join ['\n'] (text.firstLine :: rewritten verbatim width indent row (Text.splitOn '\n' text).tail)

/-- Further lines of a text are indented by a width at least, if they count. -/
def IsWide (verbatim : List Span) (width row : Nat) (text : Text) : Prop :=
  ∀ line ∈ flag verbatim row (Text.splitOn '\n' text).tail, line.counts = true → width ≤ line.text.indentation.length

section
variable {verbatim : List Span} {width row : Nat} {indent : Text}

theorem carried_split {text first : Text} {others : List Text} (split : Text.splitOn '\n' text = first :: others) :
    carried verbatim width indent row text = Text.join ['\n'] (first :: rewritten verbatim width indent row others) := by
  obtain ⟨later, again⟩ := Text.splitOn_firstLine text
  cases again.symm.trans split
  rw [carried, split, List.tail_cons]

/-- Up to a character that is no blank, lines may change. From there on, the rest is carried over. -/
theorem carried_solid {front rest : Text} {c : Char} (wide : IsWide verbatim width row (front ++ c :: rest))
    (solid : Graft.isBlank c = false) : ∃ before, carried verbatim width indent row (front ++ c :: rest) =
        before ++ carried verbatim width indent (row + Text.rows front) (c :: rest) ∧
      IsWide verbatim width (row + Text.rows front) (c :: rest) := by
  have plain : c ≠ '\n' := by rintro rfl; cases solid
  obtain ⟨lines, last, length, apart⟩ := Text.splitOn_lead front
  obtain ⟨others, split⟩ := Text.splitOn_firstLine (c :: rest)
  have whole := apart split
  have head : (Text.firstLine (c :: rest)).head? = some c := by
    rw [Text.firstLine, List.takeWhile_cons_of_pos (by simpa using plain)]
    rfl
  rw [← length]
  cases lines with
  | nil =>
    refine ⟨last, ?_, ?_⟩
    · rw [carried_split whole, carried_split split, List.length_nil, Nat.add_zero]
      exact Text.join_lead [] last _ _
    · unfold IsWide at wide
      rw [whole] at wide
      rw [IsWide, split]
      exact wide
  | cons line lines =>
    unfold IsWide at wide
    rw [List.cons_append] at whole
    rw [whole, List.tail_cons, flag_append] at wide
    have narrow := wide ⟨last ++ Text.firstLine (c :: rest), _⟩ (List.mem_append_right _ (List.mem_cons_self ..))
    obtain ⟨kept, behind⟩ := SnippetLine.dedent_behind head solid narrow
    obtain ⟨lead, spelled⟩ := indentLine_behind behind indent true
    rw [if_pos rfl] at spelled
    refine ⟨(line :: rewritten verbatim width indent row lines).flatMap (· ++ ['\n']) ++ lead, ?_, ?_⟩
    · have written : rewritten verbatim width indent row (lines ++ (last ++ Text.firstLine (c :: rest)) :: others) =
          rewritten verbatim width indent row lines ++ (lead ++ Text.firstLine (c :: rest)) ::
            rewritten verbatim width indent (row + lines.length + 1) others := by
        rw [rewritten, flag_append, flag, List.map_append, List.map_append, List.map_cons, List.map_cons, spelled]
        rfl
      rw [carried_split whole, carried_split split, written, ← List.cons_append, Text.join_lead]
      rfl
    · rw [IsWide, split, List.tail_cons]
      intro other member
      refine wide other (List.mem_append_right _ (List.mem_cons_of_mem _ ?_))
      rwa [List.length_cons, ← Nat.add_assoc] at member

theorem carried_feed (text : Text) : carried verbatim width indent row ('\n' :: text) =
    '\n' :: Text.join ['\n'] (rewritten verbatim width indent row (Text.splitOn '\n' text)) := by
  obtain ⟨others, split⟩ := Text.splitOn_firstLine text
  have parts : Text.splitOn '\n' ('\n' :: text) = [] :: Text.splitOn '\n' text := by rw [Text.splitOn, if_pos rfl]
  rw [carried_split parts, split]
  rfl

theorem carried_feed_verbatim {text : Text} (here : verbatim.any (fun rows => rows.start ≤ row && row < rows.stop) = true)
    (wide : IsWide verbatim width row ('\n' :: text)) :
    carried verbatim width indent row ('\n' :: text) = '\n' :: carried verbatim width indent (row + 1) text ∧
      IsWide verbatim width (row + 1) text := by
  obtain ⟨others, split⟩ := Text.splitOn_firstLine text
  constructor
  · rw [carried_feed, carried_split split, split, rewritten, flag, List.map_cons, List.map_cons, here]
    rfl
  · unfold IsWide at wide ⊢
    rw [Text.splitOn, if_pos rfl, List.tail_cons, split] at wide
    rw [split]
    exact fun line member => wide line (List.mem_cons_of_mem _ member)

theorem carried_cons {c : Char} (plain : c ≠ '\n') (text : Text) :
    carried verbatim width indent row (c :: text) = c :: carried verbatim width indent row text ∧
      (IsWide verbatim width row (c :: text) ↔ IsWide verbatim width row text) := by
  obtain ⟨others, split⟩ := Text.splitOn_firstLine text
  have parts : Text.splitOn '\n' (c :: text) = (c :: text.firstLine) :: others := by rw [Text.splitOn, if_neg plain, split]
  rw [carried_split parts, carried_split split, IsWide, IsWide, parts, split]
  exact ⟨by cases rewritten verbatim width indent row others <;> rfl, Iff.rfl⟩

theorem carried_verbatim {text rest : Text} (wide : IsWide verbatim width row (text ++ rest))
    (covered : ∀ more < Text.rows text,
      verbatim.any (fun rows => rows.start ≤ row + more && row + more < rows.stop) = true) :
    carried verbatim width indent row (text ++ rest) =
        text ++ carried verbatim width indent (row + Text.rows text) rest ∧
      IsWide verbatim width (row + Text.rows text) rest := by
  induction text generalizing row with
  | nil => exact ⟨rfl, wide⟩
  | cons c text ih =>
    by_cases feed : c = '\n'
    · have more : Text.rows (c :: text) = Text.rows text + 1 := by simp [Text.rows, feed]
      rw [more] at covered ⊢
      obtain ⟨here, below⟩ := covered_succ covered
      rw [feed, List.cons_append] at wide ⊢
      obtain ⟨carries, wide⟩ := @carried_feed_verbatim _ _ _ indent _ here wide
      obtain ⟨same, wide⟩ := ih wide below
      rw [Nat.add_right_comm, Nat.add_assoc] at same wide
      exact ⟨by rw [carries, same, List.cons_append], wide⟩
    · have same : Text.rows (c :: text) = Text.rows text := List.count_cons_of_ne feed
      rw [same] at covered ⊢
      rw [List.cons_append] at wide ⊢
      obtain ⟨carries, keeps⟩ := @carried_cons verbatim width row indent c feed (text ++ rest)
      obtain ⟨kept, wide⟩ := ih (keeps.mp wide) covered
      exact ⟨by rw [carries, kept, List.cons_append], wide⟩

end
end Snippet
end Graft
