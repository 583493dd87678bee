import Graft.Proofs.BodyRepeat
import Graft.Proofs.PatchLineBreaks
import Graft.Proofs.TextLines
import Mathlib.Data.List.TakeWhile

/-! Lists of imports as they are printed. Before each name there is the same gap, with a comma before it but for the
first, so that cutting at commas and taking blanks off gives the names back. Where a printed list stands in a source does
not matter to its layout: a list on several lines has an indentation before its first name and one before its closing
brace, on lines of their own. -/

namespace Graft

namespace Text

/-! ### Blanks around a text -/

section
variable {lead text tail : Text}

theorem trim_of_blank (blank : ∀ c ∈ text, Graft.isBlank c = true) : trim text = [] := by
  rw [trim, List.dropWhile_eq_nil_iff.mpr blank]
  rfl

theorem trim_between (before : ∀ c ∈ lead, Graft.isBlank c = true) (behind : ∀ c ∈ tail, Graft.isBlank c = true) :
    trim (lead ++ (text ++ tail)) = trim text := by
  rw [trim, trim, List.dropWhile_append_of_pos before, List.dropWhile_append]
  split
  next empty => rw [List.dropWhile_eq_nil_iff.mpr behind, List.isEmpty_iff.mp empty]
  next =>
    have back : ∀ c ∈ tail.reverse, Graft.isBlank c = true := fun c member => behind c (List.mem_reverse.mp member)
    rw [List.reverse_append, List.dropWhile_append_of_pos back]

private theorem solid_of_dropWhile {c : Char} (kept : (c :: text).dropWhile Graft.isBlank = c :: text) :
    Graft.isBlank c = false :=
  Bool.eq_false_iff.mpr (List.dropWhile_eq_self_iff.mp kept (Nat.succ_pos _))

theorem solid_of_trim (trimmed : trim text = text) :
    (∀ c rest, text = c :: rest → Graft.isBlank c = false) ∧ ∀ c, text.getLast? = some c → Graft.isBlank c = false := by
  have front := List.dropWhile_suffix (p := Graft.isBlank) (l := text)
  have back := (List.dropWhile_suffix (p := Graft.isBlank) (l := (text.dropWhile Graft.isBlank).reverse)).length_le
  have sizes := congrArg List.length trimmed
  rw [trim, List.length_reverse] at sizes
  rw [List.length_reverse] at back
  have same : text.dropWhile Graft.isBlank = text := by
    apply front.eq_of_length
    have := front.length_le
    omega
  have turned : text.reverse.dropWhile Graft.isBlank = text.reverse := by
    rw [trim, same] at trimmed
    exact List.reverse_eq_iff.mp trimmed
  constructor
  · rintro c rest rfl
    exact solid_of_dropWhile same
  · intro c last
    obtain ⟨rest, rfl⟩ := List.getLast?_eq_some_iff.mp last
    rw [List.reverse_append] at turned
    exact solid_of_dropWhile turned

end

/-! ### Entries between commas -/

/-- What a list of imports can have as an entry: a text on one line without commas, braces and outer blanks. -/
def IsEntry (text : Text) : Prop :=
  (∀ c ∈ text, c ≠ ',' ∧ c ≠ '\x7b' ∧ c ≠ '\x7d' ∧ c ≠ '\n') ∧ text.trim = text

instance (text : Text) : Decidable text.IsEntry :=
  have plain : Decidable (∀ c ∈ text, c ≠ ',' ∧ c ≠ '\x7b' ∧ c ≠ '\x7d' ∧ c ≠ '\n') := List.decidableBAll _ _
  @instDecidableAnd _ _ plain (inferInstanceAs (Decidable (text.trim = text)))

/-- The entries between the braces of a list. A comma may stand behind the last. -/
def entries (inner : Text) : List Text :=
  let pieces := (splitOn ',' inner).map trim
  if pieces.getLast? = some [] then pieces.dropLast else pieces

namespace IsEntry
variable {text : Text}

theorem comma_absent (entry : text.IsEntry) : ',' ∉ text := fun member => (entry.1 _ member).1 rfl

theorem newline_absent (entry : text.IsEntry) : '\n' ∉ text := fun member => (entry.1 _ member).2.2.2 rfl

end IsEntry

theorem join_cons_cons (separator piece next : Text) (pieces : List Text) :
    join separator (piece :: next :: pieces) = piece ++ (separator ++ join separator (next :: pieces)) :=
  List.append_assoc ..

theorem mem_join {separator : Text} {pieces : List Text} {c : Char} (member : c ∈ join separator pieces) :
    c ∈ separator ∨ ∃ piece ∈ pieces, c ∈ piece := by
  induction pieces with
  | nil => cases member
  | cons piece pieces ih =>
    cases pieces with
    | nil => exact .inr ⟨piece, List.mem_singleton_self piece, member⟩
    | cons next pieces =>
      rw [join_cons_cons, List.mem_append, List.mem_append] at member
      rcases member with here | between | behind
      · exact .inr ⟨piece, List.mem_cons_self .., here⟩
      · exact .inl between
      · rcases ih behind with between | ⟨other, later, inside⟩
        · exact .inl between
        · exact .inr ⟨other, List.mem_cons_of_mem _ later, inside⟩

theorem comma_absent_of_blank {text : Text} (blank : ∀ c ∈ text, Graft.isBlank c = true) : ',' ∉ text := by
  intro member
  cases blank _ member

/-- Entries behind blanks, each but the first with a comma before them, are the pieces between commas. -/
theorem pieces_join {lead tail : Text} {comma : Bool} {names : List Text} (some : names ≠ [])
    (plain : ∀ name ∈ names, name.IsEntry) (before : ∀ c ∈ lead, Graft.isBlank c = true)
    (behind : ∀ c ∈ tail, Graft.isBlank c = true) :
    (splitOn ',' (lead ++ (join (',' :: lead) names ++ ((if comma then [','] else []) ++ tail)))).map trim =
      names ++ (if comma then [[]] else []) := by
  induction names with
  | nil => exact absurd rfl some
  | cons name names ih =>
    obtain ⟨entry, plain⟩ := List.forall_mem_cons.mp plain
    have absent : ',' ∉ lead ++ name := by
      rw [List.mem_append]
      exact not_or.mpr ⟨comma_absent_of_blank before, entry.comma_absent⟩
    have alone : trim (lead ++ name) = name := by
      have bare : trim (lead ++ (name ++ [])) = trim name :=
        trim_between before fun _ never => absurd never List.not_mem_nil
      rw [List.append_nil] at bare
      exact bare.trans entry.2
    cases names with
    | nil =>
      rw [join]
      cases comma with
      | true =>
        have whole : lead ++ (name ++ ((if true = true then [','] else []) ++ tail)) = (lead ++ name) ++ ',' :: tail := by simp
        rw [whole, splitOn_append absent, splitOn_of_absent (comma_absent_of_blank behind), List.map_cons, alone,
          List.map_singleton, trim_of_blank behind]
        rfl
      | false =>
        have whole : lead ++ (name ++ ((if false = true then [','] else []) ++ tail)) = lead ++ (name ++ tail) := by simp
        have absent : ',' ∉ lead ++ (name ++ tail) := by
          rw [← List.append_assoc, List.mem_append]
          exact not_or.mpr ⟨absent, comma_absent_of_blank behind⟩
        rw [whole, splitOn_of_absent absent, List.map_singleton, trim_between before behind, entry.2]
        rfl
    | cons next names =>
      have rest := ih (List.cons_ne_nil _ _) plain
      have whole : lead ++ (join (',' :: lead) (name :: next :: names) ++ ((if comma then [','] else []) ++ tail)) =
          (lead ++ name) ++ ',' :: (lead ++ (join (',' :: lead) (next :: names) ++ ((if comma then [','] else []) ++ tail))) := by
        simp only [join_cons_cons, List.append_assoc, List.cons_append]
      rw [whole, splitOn_append absent, List.map_cons, alone, rest]
      rfl

end Text

/-! ### Layouts -/

namespace ListLayout

def itemIndent? : ListLayout → Option Text
  | inline => none
  | lines itemIndent _ _ => some itemIndent

def closeIndent? : ListLayout → Option Text
  | inline => none
  | lines _ closeIndent _ => some closeIndent

def endsInComma : ListLayout → Bool
  | inline => false
  | lines _ _ trailingComma => trailingComma

/-- A space, or an indentation on a line of its own, where lines end in a given way. -/
def seam (ending : Text) : Option Text → Text
  | none => [' ']
  | some indent => ending ++ indent

def gap (ending : Text) (layout : ListLayout) : Text := seam ending layout.itemIndent?

def foot (ending : Text) (layout : ListLayout) : Text := seam ending layout.closeIndent?

def IsIndented (layout : ListLayout) : Prop :=
  (∀ indent, layout.itemIndent? = some indent → ∀ c ∈ indent, isIndent c = true) ∧
    ∀ indent, layout.closeIndent? = some indent → ∀ c ∈ indent, isIndent c = true

theorem isIndented_inline : IsIndented inline := ⟨(fun _ never => by cases never), (fun _ never => by cases never)⟩

theorem isIndented_lines {itemIndent closeIndent : Text} (item : ∀ c ∈ itemIndent, isIndent c = true)
    (close : ∀ c ∈ closeIndent, isIndent c = true) (comma : Bool) : (lines itemIndent closeIndent comma).IsIndented := by
  constructor
  · intro indent same
    cases same
    exact item
  · intro indent same
    cases same
    exact close

/-- The text between the braces of a list. -/
def inner (ending : Text) (layout : ListLayout) (names : List Text) : Text :=
  layout.gap ending ++ (Text.join (',' :: layout.gap ending) names ++
    ((if layout.endsInComma then [','] else []) ++ layout.foot ending))

theorem inner_inline (ending : Text) (names : List Text) :
    inline.inner ending names = [' '] ++ (Text.join [',', ' '] names ++ [' ']) := rfl

theorem gap_lines (ending itemIndent closeIndent : Text) (comma : Bool) :
    (lines itemIndent closeIndent comma).gap ending = ending ++ itemIndent := rfl

theorem inner_lines (ending itemIndent closeIndent : Text) (comma : Bool) (names : List Text) :
    (lines itemIndent closeIndent comma).inner ending names = (ending ++ itemIndent) ++
      (Text.join (',' :: (ending ++ itemIndent)) names ++ ((if comma then [','] else []) ++ (ending ++ closeIndent))) := rfl

/-- Names with the offsets at which they start, the first of which is given. -/
def places (ending : Text) (layout : ListLayout) : Nat → List Text → List (Nat × Text)
  | _, [] => []
  | offset, name :: names =>
    (offset, name) :: places ending layout (offset + Text.bytes name + Text.bytes (',' :: layout.gap ending)) names

end ListLayout

namespace Text

theorem join_indented (separator indent : Text) {names : List Text} (some : names ≠ []) :
    join separator (names.map (indent ++ ·)) = indent ++ join (separator ++ indent) names := by
  induction names with
  | nil => exact absurd rfl some
  | cons name names ih =>
    cases names with
    | nil => rfl
    | cons next names =>
      calc join separator ((name :: next :: names).map (indent ++ ·))
          = (indent ++ name) ++ (separator ++ join separator ((next :: names).map (indent ++ ·))) := join_cons_cons ..
        _ = (indent ++ name) ++ (separator ++ (indent ++ join (separator ++ indent) (next :: names))) := by
            rw [ih (List.cons_ne_nil _ _)]
        _ = indent ++ join (separator ++ indent) (name :: next :: names) := by
            simp only [join_cons_cons, List.append_assoc]

end Text

open LineEnding (lf crlf)

theorem namedImports_eq {names : List Text} (some : names ≠ []) (layout : ListLayout) :
    namedImports names layout = '\x7b' :: (layout.inner lf names ++ ['\x7d']) := by
  have filled : ¬names.isEmpty = true := fun none => some (List.isEmpty_iff.mp none)
  unfold namedImports
  rw [if_neg filled]
  cases layout with
  | inline => simp [ListLayout.inner_inline]
  | lines itemIndent closeIndent trailingComma =>
    have listed := Text.join_indented [',', '\n'] itemIndent some
    rw [List.cons_append, List.cons_append, List.nil_append] at listed
    simp [ListLayout.inner_lines, lf, listed]

namespace ListLayout
variable {layout : ListLayout} {names : List Text} {ending : Text}

theorem seam_isBlank {indent? : Option Text}
    (indented : ∀ indent, indent? = some indent → ∀ c ∈ indent, isIndent c = true) (either : ending = lf ∨ ending = crlf) :
    ∀ c ∈ seam ending indent?, isBlank c = true := by
  have breaks : ∀ c ∈ ending, isBlank c = true := by rcases either with rfl | rfl <;> exact List.all_eq_true.mp rfl
  cases indent? with
  | none => exact List.forall_mem_singleton.mpr rfl
  | some indent =>
    apply List.forall_mem_append.mpr ⟨breaks, ?_⟩
    intro c member
    exact isBlank_of_isIndent (indented indent rfl c member)

theorem brace_absent (plain : ∀ name ∈ names, name.IsEntry) (indented : layout.IsIndented)
    (either : ending = lf ∨ ending = crlf) : '\x7b' ∉ layout.inner ending names ∧ '\x7d' ∉ layout.inner ending names := by
  have solid {c : Char} (other : isBlank c = false) (comma : c ≠ ',') (absent : ∀ name ∈ names, c ∉ name) :
      c ∉ layout.inner ending names := by
    have bare {text : Text} (blank : ∀ c ∈ text, isBlank c = true) : c ∉ text := fun member =>
      Bool.eq_false_iff.mp other (blank c member)
    intro member
    rcases List.mem_append.mp member with lead | member
    · exact bare (seam_isBlank indented.1 either) lead
    rcases List.mem_append.mp member with listed | member
    · rcases Text.mem_join listed with between | ⟨name, inside, here⟩
      · rcases List.mem_cons.mp between with same | lead
        · exact comma same
        · exact bare (seam_isBlank indented.1 either) lead
      · exact absent name inside here
    rcases List.mem_append.mp member with last | tail
    · split at last
      next => exact comma (List.mem_singleton.mp last)
      next => cases last
    · exact bare (seam_isBlank indented.2 either) tail
  exact ⟨solid (by decide) (by decide) fun name member here => ((plain name member).1 _ here).2.1 rfl,
    solid (by decide) (by decide) fun name member here => ((plain name member).1 _ here).2.2.1 rfl⟩

theorem inner_pieces (some : names ≠ []) (plain : ∀ name ∈ names, name.IsEntry) (indented : layout.IsIndented)
    (either : ending = lf ∨ ending = crlf) :
    (Text.splitOn ',' (layout.inner ending names)).map Text.trim = names ++ if layout.endsInComma then [[]] else [] :=
  Text.pieces_join some plain (seam_isBlank indented.1 either) (seam_isBlank indented.2 either)

/-- The names of a list are its entries. Only an empty last name would be taken for what a last comma leaves. -/
theorem inner_entries (some : names ≠ []) (plain : ∀ name ∈ names, name.IsEntry) (indented : layout.IsIndented)
    (either : ending = lf ∨ ending = crlf) (told : layout.endsInComma = true ∨ names.getLast? ≠ .some []) :
    Text.entries (layout.inner ending names) = names := by
  rw [Text.entries, inner_pieces some plain indented either]
  cases comma : layout.endsInComma with
  | true => simp
  | false =>
    rw [comma] at told
    rcases told with never | last
    · cases never
    · simp [last]

end ListLayout

/-! ### Written line breaks -/

namespace LineEnding

theorem normalize_plain {text : Text} (plain : '\n' ∉ text) (last : text.getLast? ≠ some '\r') (rest : Text) :
    normalize crlf (text ++ rest) = text ++ normalize crlf rest := by
  induction text with
  | nil => rfl
  | cons c text ih =>
    obtain ⟨other, clear⟩ := not_or.mp (mt List.mem_cons.mpr plain)
    have alone : c = '\r' → (text ++ rest).head? ≠ some '\n' := by
      rintro rfl
      cases text with
      | nil => exact absurd rfl last
      | cons d text =>
        intro feed
        cases feed
        exact clear (List.mem_cons_self ..)
    have later : text.getLast? ≠ some '\r' := by
      cases text with
      | nil => simp
      | cons d text => rwa [List.getLast?_cons_cons] at last
    have behind := ih clear later
    rw [normalize_crlf] at behind ⊢
    rw [List.cons_append, replaceAll_crlf_other alone, replaceAll_lf_cons, if_neg (Ne.symm other), behind]
    rfl

end LineEnding

namespace ListLayout
variable {layout : ListLayout} {names : List Text} {ending rest : Text}

theorem seam_written {indent? : Option Text}
    (indented : ∀ indent, indent? = some indent → ∀ c ∈ indent, isIndent c = true) :
    LineEnding.normalize crlf (seam lf indent? ++ rest) = seam crlf indent? ++ LineEnding.normalize crlf rest := by
  cases indent? with
  | none => exact LineEnding.normalize_cons (by decide) (by decide) crlf rest
  | some indent =>
    have plain : LineEnding.normalize crlf (indent ++ rest) = indent ++ LineEnding.normalize crlf rest := by
      apply LineEnding.normalize_plain
      · intro feed
        cases indented indent rfl _ feed
      · intro last
        cases indented indent rfl _ (List.mem_of_getLast? last)
    calc LineEnding.normalize crlf ('\n' :: (indent ++ rest))
        = crlf ++ LineEnding.normalize crlf (indent ++ rest) := LineEnding.normalize_break _
      _ = crlf ++ (indent ++ LineEnding.normalize crlf rest) := by rw [plain]

theorem gap_written (indented : layout.IsIndented) :
    LineEnding.normalize crlf (layout.gap lf ++ rest) = layout.gap crlf ++ LineEnding.normalize crlf rest :=
  seam_written indented.1

theorem foot_written (indented : layout.IsIndented) :
    LineEnding.normalize crlf (layout.foot lf ++ rest) = layout.foot crlf ++ LineEnding.normalize crlf rest :=
  seam_written indented.2

theorem names_written (indented : layout.IsIndented) (plain : ∀ name ∈ names, name.IsEntry) :
    LineEnding.normalize crlf (Text.join (',' :: layout.gap lf) names ++ rest) =
      Text.join (',' :: layout.gap crlf) names ++ LineEnding.normalize crlf rest := by
  induction names with
  | nil => rfl
  | cons name names ih =>
    obtain ⟨entry, plain⟩ := List.forall_mem_cons.mp plain
    have alone (rest : Text) : LineEnding.normalize crlf (name ++ rest) = name ++ LineEnding.normalize crlf rest := by
      apply LineEnding.normalize_plain entry.newline_absent
      intro last
      cases (Text.solid_of_trim entry.2).2 _ last
    cases names with
    | nil => exact alone rest
    | cons next names =>
      have comma (rest : Text) : LineEnding.normalize crlf (',' :: rest) = ',' :: LineEnding.normalize crlf rest :=
        LineEnding.normalize_cons (by decide) (by decide) crlf rest
      simp only [Text.join_cons_cons, List.append_assoc, List.cons_append, alone, comma, gap_written indented, ih plain]

/-- Line breaks are the only thing in a printed list that depends on how lines end. -/
theorem namedImports_written (some : names ≠ []) (plain : ∀ name ∈ names, name.IsEntry) (indented : layout.IsIndented)
    (either : ending = lf ∨ ending = crlf) :
    LineEnding.normalize ending (namedImports names layout) = '\x7b' :: (layout.inner ending names ++ ['\x7d']) := by
  rw [namedImports_eq some]
  rcases either with rfl | rfl
  · exact if_pos rfl
  · have brace (rest : Text) : LineEnding.normalize crlf ('\x7b' :: rest) = '\x7b' :: LineEnding.normalize crlf rest :=
      LineEnding.normalize_cons (by decide) (by decide) crlf rest
    have comma (rest : Text) : LineEnding.normalize crlf ((if layout.endsInComma then [','] else []) ++ rest) =
        (if layout.endsInComma then [','] else []) ++ LineEnding.normalize crlf rest := by
      split
      next => exact LineEnding.normalize_cons (by decide) (by decide) crlf rest
      next => rfl
    have closing : LineEnding.normalize crlf ['\x7d'] = ['\x7d'] := by decide
    simp only [inner, List.append_assoc, brace, gap_written indented, names_written indented plain, comma,
      foot_written indented, closing]

end ListLayout

/-! ### Layouts of printed lists -/

theorem Text.lastLine_break {line : Text} (plain : '\n' ∉ line) (front : Text) : (front ++ '\n' :: line).lastLine = line := by
  have kept : ∀ c ∈ line.reverse, decide (c ≠ '\n') = true := by
    intro c member
    apply decide_eq_true
    rintro rfl
    exact plain (List.mem_reverse.mp member)
  rw [lastLine, List.reverse_append, List.reverse_cons, List.append_assoc, List.takeWhile_append_of_pos kept]
  simp

theorem Text.indentation_self {indent : Text} (indented : ∀ c ∈ indent, isIndent c = true) : indent.indentation = indent := by
  rw [indentation, ← List.append_nil indent, List.takeWhile_append_of_pos indented]
  rfl

theorem lineIndent_break {ending indent : Text} {c : Char} (front rest : Text) (either : ending = lf ∨ ending = crlf)
    (indented : ∀ c ∈ indent, isIndent c = true) (other : isIndent c = false) :
    lineIndent (front ++ (ending ++ (indent ++ c :: rest))) (Text.bytes (front ++ (ending ++ indent))) = indent := by
  have plain : '\n' ∉ indent := by
    intro feed
    cases indented _ feed
  have line : (front ++ (ending ++ indent)).lastLine = indent := by
    rcases either with rfl | rfl
    · exact Text.lastLine_break plain front
    · have apart : front ++ (crlf ++ indent) = (front ++ ['\r']) ++ '\n' :: indent := List.append_cons ..
      rw [apart]
      exact Text.lastLine_break plain _
  have whole : front ++ (ending ++ (indent ++ c :: rest)) = (front ++ (ending ++ indent)) ++ c :: rest := by
    simp only [List.append_assoc]
  rw [whole, lineIndent_front other, line, Text.indentation_self indented]

/-- A list that is read from a source as it was printed, with its entries where their names were put. -/
structure ListLayout.Printed (ending source : Text) (list : Node) (present : List ImportSpecifier) (names : List Text)
    (layout : ListLayout) : Prop where
  place : ∃ before after, source = before ++ (list.text ++ after) ∧ Text.bytes before = list.start
  text : list.text = LineEnding.normalize ending (namedImports names layout)
  entries : present.map (fun specifier => (specifier.node.start, specifier.text)) =
    layout.places ending (list.start + Text.bytes ('\x7b' :: layout.gap ending)) names

namespace ListLayout
variable {layout : ListLayout} {names : List Text} {ending source : Text} {list : Node} {present : List ImportSpecifier}

theorem places_names (ending : Text) (layout : ListLayout) (offset : Nat) (names : List Text) :
    (layout.places ending offset names).map Prod.snd = names := by
  induction names generalizing offset with
  | nil => rfl
  | cons name names ih => exact congrArg _ (ih _)

theorem places_last (ending : Text) (layout : ListLayout) (offset : Nat) {names : List Text} (some : names ≠ []) :
    ∃ start name, (layout.places ending offset names).getLast? = .some (start, name) ∧
      start + Text.bytes name = offset + Text.bytes (Text.join (',' :: layout.gap ending) names) := by
  induction names generalizing offset with
  | nil => exact absurd rfl some
  | cons name names ih =>
    cases names with
    | nil => exact ⟨offset, name, rfl, rfl⟩
    | cons next names =>
      obtain ⟨start, last, found, stop⟩ := ih (offset + Text.bytes name + Text.bytes (',' :: layout.gap ending)) (List.cons_ne_nil _ _)
      refine ⟨start, last, ?_, ?_⟩
      · rw [← found, places, places, List.getLast?_cons_cons]
      · rw [stop, Text.join_cons_cons, Text.bytes_append, Text.bytes_append]
        omega

/-- No blank stands where the first name does, even if that name is empty. -/
theorem names_head {d : Char} (gap tail : Text) (plain : ∀ name ∈ names, name.IsEntry) (other : isIndent d = false) :
    ∃ c rest, Text.join (',' :: gap) names ++ d :: tail = c :: rest ∧ isIndent c = false := by
  cases names with
  | nil => exact ⟨d, tail, rfl, other⟩
  | cons name names =>
    cases name with
    | cons c name =>
      have firm := (Text.solid_of_trim (plain _ (List.mem_cons_self ..)).2).1 c name rfl
      cases names with
      | nil => exact ⟨c, _, rfl, isIndent_of_solid firm⟩
      | cons next names =>
        rw [Text.join_cons_cons]
        exact ⟨c, _, rfl, isIndent_of_solid firm⟩
    | nil =>
      cases names with
      | nil => exact ⟨d, tail, rfl, other⟩
      | cons next names => exact ⟨',', _, rfl, by decide⟩

theorem Printed.whole (printed : Printed ending source list present names layout) (some : names ≠ [])
    (plain : ∀ name ∈ names, name.IsEntry) (indented : layout.IsIndented) (either : ending = lf ∨ ending = crlf) :
    ∃ before after, Text.bytes before = list.start ∧ list.text = '\x7b' :: (layout.inner ending names ++ ['\x7d']) ∧
      source = before ++ ('\x7b' :: (layout.inner ending names ++ '\x7d' :: after)) := by
  obtain ⟨before, after, rfl, start⟩ := printed.place
  have text := printed.text.trans (namedImports_written some plain indented either)
  refine ⟨before, after, start, text, ?_⟩
  rw [text, List.cons_append, List.append_assoc]
  rfl

theorem lineIndent_close {itemIndent closeIndent before after : Text} {comma : Bool} (either : ending = lf ∨ ending = crlf)
    (indented : (lines itemIndent closeIndent comma).IsIndented) (names : List Text) :
    lineIndent (before ++ ('\x7b' :: ((lines itemIndent closeIndent comma).inner ending names ++ '\x7d' :: after)))
        (Text.bytes (before ++ '\x7b' :: (lines itemIndent closeIndent comma).inner ending names)) = closeIndent := by
  let front := before ++ '\x7b' :: (ending ++ itemIndent ++ (Text.join (',' :: (ending ++ itemIndent)) names ++
    (if comma then [','] else [])))
  have place := lineIndent_break front after either (indented.2 closeIndent rfl) (show isIndent '\x7d' = false by decide)
  simpa only [front, inner_lines, List.append_assoc, List.cons_append] using place

theorem lineIndent_first {itemIndent closeIndent before after : Text} {comma : Bool} (either : ending = lf ∨ ending = crlf)
    (indented : (lines itemIndent closeIndent comma).IsIndented) (plain : ∀ name ∈ names, name.IsEntry) :
    lineIndent (before ++ ('\x7b' :: ((lines itemIndent closeIndent comma).inner ending names ++ '\x7d' :: after)))
        (Text.bytes (before ++ '\x7b' :: (lines itemIndent closeIndent comma).gap ending)) = itemIndent := by
  obtain ⟨d, tail, behind, other⟩ : ∃ d tail,
      (if comma then [','] else []) ++ (ending ++ (closeIndent ++ '\x7d' :: after)) = d :: tail ∧ isIndent d = false := by
    rcases either with rfl | rfl <;> cases comma <;> exact ⟨_, _, rfl, by decide⟩
  obtain ⟨c, rest, first, solid⟩ := names_head (ending ++ itemIndent) tail plain other
  have place := lineIndent_break (before ++ ['\x7b']) rest either (indented.1 itemIndent rfl) solid
  rw [← first, ← behind] at place
  simpa only [gap_lines, inner_lines, List.append_assoc, List.cons_append, List.nil_append] using place

theorem tail_comma {itemIndent closeIndent : Text} {comma : Bool} (either : ending = lf ∨ ending = crlf)
    (indented : (lines itemIndent closeIndent comma).IsIndented) :
    ((if comma then [','] else []) ++ (ending ++ closeIndent)).contains ',' = comma := by
  have absent : ',' ∉ ending ++ closeIndent := Text.comma_absent_of_blank (seam_isBlank indented.2 either)
  cases comma with
  | true => rfl
  | false => exact Bool.eq_false_iff.mpr fun there => absent (List.contains_iff_mem.mp there)

theorem newline_absent_inline (plain : ∀ name ∈ names, name.IsEntry) : '\n' ∉ inline.inner ending names := by
  intro feed
  rw [inner_inline, List.mem_append, List.mem_append] at feed
  rcases feed with lead | listed | tail
  · exact absurd lead (by decide)
  · rcases Text.mem_join listed with between | ⟨name, member, inside⟩
    · exact absurd between (by decide)
    · exact (plain name member).newline_absent inside
  · exact absurd tail (by decide)

theorem Printed.first (printed : Printed ending source list present names layout) (some : names ≠ []) :
    ∃ specifier, present.head? = .some specifier ∧
      specifier.node.start = list.start + Text.bytes ('\x7b' :: layout.gap ending) := by
  have heads := congrArg List.head? printed.entries
  cases names with
  | nil => exact absurd rfl some
  | cons name names =>
    rw [List.head?_map, places, List.head?_cons] at heads
    obtain ⟨specifier, found, place⟩ := Option.map_eq_some_iff.mp heads
    exact ⟨specifier, found, congrArg Prod.fst place⟩

theorem Printed.last (printed : Printed ending source list present names layout) (some : names ≠ []) :
    ∃ specifier, present.getLast? = .some specifier ∧ specifier.node.stop =
      list.start + Text.bytes ('\x7b' :: (layout.gap ending ++ Text.join (',' :: layout.gap ending) names)) := by
  obtain ⟨start, name, final, stop⟩ :=
    places_last ending layout (list.start + Text.bytes ('\x7b' :: layout.gap ending)) some
  have lasts := congrArg List.getLast? printed.entries
  rw [List.getLast?_map, final] at lasts
  obtain ⟨specifier, found, place⟩ := Option.map_eq_some_iff.mp lasts
  obtain ⟨rfl, rfl⟩ := Prod.mk.inj place
  refine ⟨specifier, found, ?_⟩
  rw [specifier.node.stop_eq]
  simp only [Text.bytes, Text.bytes_append] at stop ⊢
  rw [ImportSpecifier.text] at stop
  omega

/-- The layout of a printed list is the one that it was printed in, wherever the list stands. -/
theorem Printed.layout_eq (printed : Printed ending source list present names layout) (some : names ≠ [])
    (plain : ∀ name ∈ names, name.IsEntry) (indented : layout.IsIndented) (either : ending = lf ∨ ending = crlf) :
    Import.layout source list present = layout := by
  obtain ⟨before, after, start, text, whole⟩ := printed.whole some plain indented either
  obtain ⟨first, heads, opens⟩ := printed.first some
  obtain ⟨last, lasts, ends⟩ := printed.last some
  unfold Import.layout
  cases layout with
  | inline =>
    have one : ¬list.text.contains '\n' = true := by
      rw [List.contains_iff_mem, text, List.mem_cons, List.mem_append, not_or, not_or]
      exact ⟨by decide, newline_absent_inline plain, by decide⟩
    exact if_neg one
  | lines itemIndent closeIndent comma =>
    have broken : list.text.contains '\n' = true := by
      have feed : '\n' ∈ ending := by rcases either with rfl | rfl <;> decide
      rw [List.contains_iff_mem, text, inner_lines]
      simp [feed]
    have close : list.stop - 1 =
        Text.bytes (before ++ '\x7b' :: (lines itemIndent closeIndent comma).inner ending names) := by
      have brace : Text.bytes ['\x7d'] = 1 := rfl
      rw [list.stop_eq, text, ← start, Text.bytes_append, Text.bytes, Text.bytes, Text.bytes_append, brace]
      omega
    have closeAgain : lineIndent source (list.stop - 1) = closeIndent := by
      rw [whole, close]
      exact lineIndent_close either indented names
    have itemAgain : lineIndent source first.node.start = itemIndent := by
      rw [whole, opens, ← start, ← Text.bytes_append]
      exact lineIndent_first either indented plain
    have tail : Text.slice? last.node.stop (list.stop - 1) source =
        .some ((if comma then [','] else []) ++ (ending ++ closeIndent)) := by
      have slice := Text.slice?_append (before ++ '\x7b' :: ((ending ++ itemIndent) ++ Text.join (',' :: (ending ++ itemIndent)) names))
        ((if comma then [','] else []) ++ (ending ++ closeIndent)) ('\x7d' :: after)
      rw [whole, close, ends, ← start, ← Text.bytes_append, inner_lines]
      rw [← Text.bytes_append] at slice
      simpa only [gap_lines, List.append_assoc, List.cons_append] using slice
    rw [if_pos broken, heads, lasts]
    dsimp only
    rw [closeAgain, itemAgain, tail, Option.getD_some, tail_comma either indented]

end ListLayout

end Graft
