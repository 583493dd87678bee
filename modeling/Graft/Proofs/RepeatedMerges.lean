import Graft.Proofs.PrintedLists
import Graft.Proofs.SpecifierMerge

/-! Names merged into one list of imports again and again. Each time the list is printed in the layout that it has then,
so it is enough that a printed list has the layout that it was printed in. -/

namespace Graft

/-- The list that names from a module are merged into. -/
structure Listing where
  program : Program
  module : Text
  it : Import
  list : Node
  found : program.importOfModule? module = some it
  listed : it.namedList? = some list

namespace Listing

def entries (listing : Listing) : List Entry := listing.it.specifiers.map Entry.ofSpecifier

def layout (listing : Listing) : ListLayout := Import.layout listing.program.source listing.list listing.it.specifiers

def ending (listing : Listing) : Text := LineEnding.detect listing.program.source

def change (listing : Listing) (style : Style) (requested : List Text) : Change :=
  listing.program.upsertImport style listing.module requested

def merged (listing : Listing) (requested : List Text) : List Text :=
  (Entry.merge listing.entries requested).map Entry.text

def printed (listing : Listing) (requested : List Text) : Text :=
  LineEnding.normalize listing.ending (namedImports (listing.merged requested) listing.layout)

/-- Names are merged into a list, and the new text is read. Of the reader it is taken for granted that the printed list
is found where it was put, with its entries at their names. -/
structure Merge (style : Style) (requested : List Text) (old new : Listing) : Prop where
  source : new.program.source = (old.change style requested).code old.program
  kept : (old.change style requested).patch = none → new = old
  span : (old.change style requested).patch ≠ none →
    new.list.span = ⟨old.list.start, old.list.start + Text.bytes (old.printed requested)⟩
  entries : (old.change style requested).patch ≠ none →
    new.it.specifiers.map (fun specifier => (specifier.node.start, specifier.text)) =
      old.layout.places old.ending (new.list.start + Text.bytes ('\x7b' :: old.layout.gap old.ending)) (old.merged requested)

inductive Merges (style : Style) : List (List Text) → Listing → Listing → Prop
  | none (listing : Listing) : Merges style [] listing listing
  | more {requested : List Text} {requests : List (List Text)} {old next new : Listing}
      (first : old.Merge style requested next) (later : Merges style requests next new) :
      Merges style (requested :: requests) old new

/-- All that is listed can be told apart by commas. -/
def IsPlain (listing : Listing) : Prop := ∀ specifier ∈ listing.it.specifiers, specifier.text.IsEntry

instance (listing : Listing) : Decidable listing.IsPlain :=
  List.decidableBAll (fun specifier : ImportSpecifier => specifier.text.IsEntry) listing.it.specifiers

theorem stands (listing : Listing) : listing.list.Stands listing.program.source :=
  (Import.namedList?_stands (Program.importOfModule?_stands listing.found) listing.listed).1

theorem patch_eq (listing : Listing) (style : Style) (requested : List Text) :
    (listing.change style requested).patch =
      if Entry.merge listing.entries requested = listing.entries then none
      else some ⟨listing.list.span, namedImports (listing.merged requested) listing.layout⟩ := by
  rw [change, Program.upsertImport, listing.found]
  unfold Import.extend
  dsimp only
  rw [listing.listed]
  rfl

end Listing

theorem lineIndent_isIndent (source : Text) (offset : Nat) : ∀ c ∈ lineIndent source offset, isIndent c = true := by
  intro c member
  unfold lineIndent at member
  split at member
  next => cases member
  next => exact List.all_eq_true.mp List.all_takeWhile c member

theorem Import.layout_isIndented (source : Text) (list : Node) (present : List ImportSpecifier) :
    (layout source list present).IsIndented := by
  have close := lineIndent_isIndent source (list.stop - 1)
  unfold layout
  split
  next =>
    apply ListLayout.isIndented_lines _ close
    split
    next first _ => exact lineIndent_isIndent source first.node.start
    next =>
      have unit : "  ".toList.all isIndent = true := rfl
      exact List.forall_mem_append.mpr ⟨close, List.all_eq_true.mp unit⟩
  next => exact ListLayout.isIndented_inline

namespace Listing
variable {style : Style} {old new : Listing} {requested : List Text}

/-- A merge that changes anything puts the printed list in the place of the old one. -/
theorem change_code (listing : Listing) (style : Style) (requested : List Text)
    (patched : (listing.change style requested).patch ≠ none) :
    ∃ front back, Text.bytes front = listing.list.start ∧
      (listing.change style requested).code listing.program = front ++ (listing.printed requested ++ back) := by
  rw [patch_eq] at patched
  unfold Change.code Document.print
  rw [patch_eq, if_neg fun same => patched (if_pos same)]
  let patch : Patch := ⟨listing.list.span, namedImports (listing.merged requested) listing.layout⟩
  have fits : patch.span.Fits listing.program.source := listing.stands.span_fits
  obtain ⟨front, back, taken, -, spliced⟩ := PatchSet.applyWith_single listing.ending fits
  obtain ⟨⟨_, rest⟩, cut, rfl⟩ := Option.map_eq_some_iff.mp taken
  refine ⟨_, back, (Text.splitAt?_eq_some cut).2, ?_⟩
  rw [← List.append_assoc]
  exact congrArg (Option.getD · _) spliced

theorem Merge.text (merge : old.Merge style requested new) (patched : (old.change style requested).patch ≠ none) :
    new.list.text = old.printed requested := by
  have start : new.list.start = old.list.start := congrArg Span.start (merge.span patched)
  have stop : new.list.stop = old.list.start + Text.bytes (old.printed requested) := congrArg Span.stop (merge.span patched)
  obtain ⟨front, back, here, code⟩ := old.change_code style requested patched
  obtain ⟨before, after, whole, place⟩ := new.stands.place
  rw [merge.source, code] at whole
  have rest := (Text.append_inj_of_bytes whole (by rw [here, place, start])).2
  rw [new.list.stop_eq, start] at stop
  exact (Text.append_inj_of_bytes rest (Nat.add_left_cancel stop).symm).1.symm

theorem Merge.printed (merge : old.Merge style requested new) (patched : (old.change style requested).patch ≠ none) :
    old.layout.Printed old.ending new.program.source new.list new.it.specifiers (old.merged requested) :=
  ⟨new.stands.place, merge.text patched, merge.entries patched⟩

/-- What is merged is what was listed or requested. -/
theorem merged_plain (plain : old.IsPlain) (asked : ∀ name ∈ requested, name.IsEntry) :
    ∀ name ∈ old.merged requested, name.IsEntry := by
  intro name member
  obtain ⟨entry, merged, rfl⟩ := List.mem_map.mp member
  rcases List.mem_append.mp (mem_sortBy.mp merged) with listed | added
  · obtain ⟨specifier, there, rfl⟩ := List.mem_map.mp listed
    exact plain specifier there
  · obtain ⟨name, missing, rfl⟩ := List.mem_map.mp added
    rw [Entry.additions_eq, Names.mem_additions] at missing
    exact asked name missing.1

theorem merged_ne_nil (changed : Entry.merge old.entries requested ≠ old.entries) : old.merged requested ≠ [] := by
  intro none
  have empty := List.map_eq_nil_iff.mp none
  have sizes := congrArg List.length empty
  rw [Entry.merge, sortBy_eq_insertionSort, List.length_insertionSort, List.length_append] at sizes
  apply changed
  rw [empty, List.length_eq_zero_iff.mp (Nat.eq_zero_of_add_eq_zero_right sizes)]

/-- Merging names keeps the layout of a list. -/
theorem Merge.keeps (merge : old.Merge style requested new) (plain : old.IsPlain) (asked : ∀ name ∈ requested, name.IsEntry) :
    new.layout = old.layout ∧ new.IsPlain := by
  by_cases same : Entry.merge old.entries requested = old.entries
  · rw [merge.kept (by rw [patch_eq, if_pos same])]
    exact ⟨rfl, plain⟩
  · have patched : (old.change style requested).patch ≠ none := by
      rw [patch_eq, if_neg same]
      exact Option.some_ne_none _
    have names := merged_plain plain asked
    constructor
    · exact (merge.printed patched).layout_eq (merged_ne_nil same) names (Import.layout_isIndented ..)
        (LineEnding.detect_cases _)
    · intro specifier member
      apply names
      have texts := congrArg (List.map Prod.snd) (merge.printed patched).entries
      rw [ListLayout.places_names, List.map_map] at texts
      rw [← texts]
      exact List.mem_map_of_mem member

/-- So does merging again and again. -/
theorem Merges.keeps {requests : List (List Text)} (merges : Merges style requests old new) (plain : old.IsPlain)
    (asked : ∀ requested ∈ requests, ∀ name ∈ requested, name.IsEntry) : new.layout = old.layout ∧ new.IsPlain := by
  induction merges with
  | none => exact ⟨rfl, plain⟩
  | more first later ih =>
    obtain ⟨here, asked⟩ := List.forall_mem_cons.mp asked
    obtain ⟨same, kept⟩ := first.keeps plain here
    obtain ⟨again, last⟩ := ih kept asked
    exact ⟨again.trans same, last⟩

end Listing

open LineEnding (lf crlf)

/-- The names of a printed list are found again between its commas. The layout of a list is the one that it was printed
in, and it stays the same however often names are merged in. -/
theorem namedImports_stable {names : List Text} {layout : ListLayout} (some : names ≠ [])
    (plain : ∀ name ∈ names, name.IsEntry) (indented : layout.IsIndented) :
    (∃ inner, namedImports names layout = '\x7b' :: (inner ++ ['\x7d']) ∧ '\x7b' ∉ inner ∧ '\x7d' ∉ inner ∧
      (Text.splitOn ',' inner).map Text.trim = names ++ (if layout.endsInComma then [[]] else []) ∧
      (layout.endsInComma = true ∨ names.getLast? ≠ .some [] → Text.entries inner = names)) ∧
    (∀ ending source list present, ending = lf ∨ ending = crlf → layout.Printed ending source list present names →
      Import.layout source list present = layout) ∧
    ∀ (style : Style) (requests : List (List Text)) (old new : Listing), old.IsPlain →
      (∀ requested ∈ requests, ∀ name ∈ requested, name.IsEntry) → Listing.Merges style requests old new →
      new.layout = old.layout := by
  have either : lf = lf ∨ lf = crlf := .inl rfl
  obtain ⟨opens, closes⟩ := ListLayout.brace_absent plain indented either
  refine ⟨⟨layout.inner lf names, namedImports_eq some layout, opens, closes, ?_, ?_⟩, ?_, ?_⟩
  · exact ListLayout.inner_pieces some plain indented either
  · exact ListLayout.inner_entries some plain indented either
  · intro ending source list present either printed
    exact printed.layout_eq some plain indented either
  · intro style requests old new listed asked merges
    exact (merges.keeps listed asked).1

/-- `a` and `b as c` on lines of their own, perhaps with `B` between them. -/
def onLines (more : List Tree) : Tree :=
  Entry.importing ([.leaf none .spacing "\n\t".toList,
    .node none .importSpecifier [.leaf (some .name) .identifier ['a']], .leaf none .symbol [',']] ++ more ++
    [.leaf none .spacing "\n\t".toList, Entry.aliased, .leaf none .symbol [','], .leaf none .spacing ['\n']])

def moreOnLines : Tree :=
  onLines [.leaf none .spacing "\n\t".toList, .node none .importSpecifier [.leaf (some .name) .identifier ['B']],
    .leaf none .symbol [',']]

def twoLines : Program :=
  ⟨"import\x7b\n\ta,\n\tb as c,\n\x7dfrom'm'".toList, .node none .program [onLines []], by decide, by decide⟩

def threeLines : Program :=
  ⟨"import\x7b\n\ta,\n\tB,\n\tb as c,\n\x7dfrom'm'".toList, .node none .program [moreOnLines], by decide, by decide⟩

def twoListed : Listing :=
  ⟨twoLines, ['m'], ⟨⟨0, onLines []⟩⟩, (Import.namedList? ⟨⟨0, onLines []⟩⟩).get (by decide), rfl, (Option.some_get _).symm⟩

def threeListed : Listing :=
  ⟨threeLines, ['m'], ⟨⟨0, moreOnLines⟩⟩, (Import.namedList? ⟨⟨0, moreOnLines⟩⟩).get (by decide), rfl, (Option.some_get _).symm⟩

theorem namedImports_stable_lines : Listing.Merges {} [[['B']]] twoListed threeListed ∧
    (ListLayout.lines ['\t'] [] true).Printed lf threeLines.source threeListed.list threeListed.it.specifiers
      [['a'], ['B'], "b as c".toList] ∧
    threeListed.layout = twoListed.layout ∧ threeListed.layout = .lines ['\t'] [] true := by
  have merges : Listing.Merges {} [[['B']]] twoListed threeListed := by
    refine .more ⟨?_, ?_, ?_, ?_⟩ (.none _)
    · decide
    · intro never
      cases never
    · intro _
      decide
    · intro _
      decide
  have printed : (ListLayout.lines ['\t'] [] true).Printed lf threeLines.source threeListed.list threeListed.it.specifiers
      [['a'], ['B'], "b as c".toList] := ⟨threeListed.stands.place, by decide, by decide⟩
  have plain : ∀ name ∈ [['a'], ['B'], "b as c".toList], Text.IsEntry name := by decide
  have indented : (ListLayout.lines ['\t'] [] true).IsIndented :=
    ListLayout.isIndented_lines (List.forall_mem_singleton.mpr rfl) (List.forall_mem_nil _) true
  obtain ⟨-, again, stable⟩ := namedImports_stable (List.cons_ne_nil _ _) plain indented
  refine ⟨merges, printed, ?_, ?_⟩
  · exact stable {} [[['B']]] twoListed threeListed (by decide) (by decide) merges
  · exact again lf threeLines.source threeListed.list threeListed.it.specifiers (.inl rfl) printed

/-- A single empty name is printed as two blanks, and these read back as nothing. -/
theorem namedImports_empty_lost : ([[]] : List Text) ≠ [] ∧ (∀ name ∈ ([[]] : List Text), name.IsEntry) ∧
    ListLayout.inline.IsIndented ∧
    ¬∃ inner, namedImports [[]] .inline = '\x7b' :: (inner ++ ['\x7d']) ∧ Text.entries inner = [[]] := by
  refine ⟨List.cons_ne_nil _ _, by decide, ListLayout.isIndented_inline, ?_⟩
  rintro ⟨inner, printed, read⟩
  have blanks : namedImports [[]] .inline = '\x7b' :: ("  ".toList ++ ['\x7d']) := by decide
  obtain rfl : inner = "  ".toList :=
    List.append_cancel_right (List.cons.inj (printed.symm.trans blanks)).2
  have none : Text.entries "  ".toList = [] := by decide
  cases none.symm.trans read

end Graft
