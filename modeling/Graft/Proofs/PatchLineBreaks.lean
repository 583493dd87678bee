import Mathlib.Data.List.Basic
import Graft.Proofs.SequentialSplice

/-! Line breaks of patches. Which patches are spliced in, and what is copied around them, does not depend on how their
line breaks are written. Written as carriage return and line feed, a text has no other breaks, reads as before, and is
not changed again; so a text with such breaks alone keeps to them. -/

namespace Graft

namespace Text

/-- Every line feed stands behind a carriage return. -/
def IsCrlf (text : Text) : Prop := ∀ front back, text = front ++ '\n' :: back → front.getLast? = some '\r'

/-- Between a carriage return and its line feed. -/
def InsideBreak (text : Text) (offset : Nat) : Prop :=
  ∃ front back, text = front ++ '\r' :: '\n' :: back ∧ bytes front + 1 = offset

theorem isCrlf_of_absent {text : Text} (plain : '\n' ∉ text) : text.IsCrlf := by
  rintro front back rfl
  simp at plain

theorem isCrlf_break : LineEnding.crlf.IsCrlf := by
  intro front back split
  obtain ⟨rfl, -⟩ : front = ['\r'] ∧ back = [] := by
    cases front with
    | nil => cases split
    | cons c front =>
      obtain ⟨rfl, rest⟩ := List.cons.inj split
      cases front with
      | nil => simpa using rest.symm
      | cons d front =>
        have none := (List.cons.inj rest).2
        cases front <;> cases none
  rfl

theorem IsCrlf.append {one two : Text} (first : one.IsCrlf) (second : two.IsCrlf) : IsCrlf (one ++ two) := by
  intro front back split
  rcases List.append_eq_append_iff.mp split with ⟨middle, rfl, rest⟩ | ⟨middle, rfl, rest⟩
  · have ends := second middle back rest
    cases middle with
    | nil => cases ends
    | cons c middle => rwa [List.getLast?_append_of_ne_nil _ (List.cons_ne_nil _ _)]
  · cases middle with
    | nil => exact absurd (second [] back (by simpa using rest.symm)) nofun
    | cons c middle =>
      obtain ⟨rfl, -⟩ := List.cons.inj rest
      exact first front middle rfl

theorem IsCrlf.flatMap {α : Type} {items : List α} {text : α → Text} (each : ∀ item ∈ items, (text item).IsCrlf) :
    IsCrlf (items.flatMap text) := by
  induction items with
  | nil => exact isCrlf_of_absent List.not_mem_nil
  | cons item items ih =>
    obtain ⟨here, rest⟩ := List.forall_mem_cons.mp each
    exact here.append (ih rest)

/-- What is copied starts with no line feed, unless its carriage return was cut off. -/
theorem IsCrlf.slice {text gap : Text} {start stop : Nat} (crlf : text.IsCrlf) (outside : ¬text.InsideBreak start)
    (cut : slice? start stop text = some gap) : gap.IsCrlf := by
  unfold slice? at cut
  split at cut
  next =>
    obtain ⟨rest, dropped, taken⟩ := Option.bind_eq_some_iff.mp cut
    obtain ⟨⟨before, _⟩, first, rfl⟩ := Option.map_eq_some_iff.mp dropped
    obtain ⟨⟨_, behind⟩, second, rfl⟩ := Option.map_eq_some_iff.mp taken
    obtain ⟨rfl, size⟩ := splitAt?_eq_some first
    obtain ⟨rfl, -⟩ := splitAt?_eq_some second
    rintro front back rfl
    have ends := crlf (before ++ front) (back ++ behind) (by simp)
    cases front with
    | cons c front => rwa [List.getLast?_append_of_ne_nil _ (List.cons_ne_nil _ _)] at ends
    | nil =>
      rw [List.append_nil] at ends
      obtain ⟨shorter, rfl⟩ := List.getLast?_eq_some_iff.mp ends
      refine absurd ⟨shorter, back ++ behind, by simp, ?_⟩ outside
      rw [← size, bytes_append]
      rfl
  next => cases cut

end Text

namespace LineEnding
open Text (replaceAll)

theorem replaceAll_lf_cons (c : Char) (rest : Text) :
    replaceAll lf crlf (c :: rest) = (if c = '\n' then crlf else [c]) ++ replaceAll lf crlf rest := by
  by_cases feed : c = '\n'
  · rw [if_pos feed, feed]
    simp [replaceAll, Text.replaceAll.go, lf, List.isPrefixOf]
  · simp [replaceAll, Text.replaceAll.go, lf, List.isPrefixOf, feed, Ne.symm feed]

theorem replaceAll_crlf_break (rest : Text) : replaceAll crlf lf ('\r' :: '\n' :: rest) = '\n' :: replaceAll crlf lf rest := by
  simp [replaceAll, Text.replaceAll.go, lf, crlf, List.isPrefixOf]

theorem replaceAll_crlf_other {c : Char} {rest : Text} (other : c = '\r' → rest.head? ≠ some '\n') :
    replaceAll crlf lf (c :: rest) = c :: replaceAll crlf lf rest := by
  have absent : crlf.isPrefixOf (c :: rest) = false := by
    cases rest with
    | nil => simp [crlf, List.isPrefixOf]
    | cons d rest =>
      by_cases same : c = '\r'
      · have differs : d ≠ '\n' := by simpa using other same
        simp [crlf, List.isPrefixOf, Ne.symm differs]
      · simp [crlf, List.isPrefixOf, Ne.symm same]
  simp [replaceAll, Text.replaceAll.go, absent]

theorem head?_replaceAll_lf (text : Text) : (replaceAll lf crlf text).head? ≠ some '\n' := by
  cases text with
  | nil => exact nofun
  | cons c rest =>
    rw [replaceAll_lf_cons]
    split
    next => exact nofun
    next other => simpa using other

/-- Reading undoes writing, whatever carriage returns there were. -/
theorem replaceAll_replaceAll (text : Text) : replaceAll crlf lf (replaceAll lf crlf text) = text := by
  induction text with
  | nil => rfl
  | cons c rest ih =>
    rw [replaceAll_lf_cons]
    split
    next feed =>
      rw [feed]
      exact (replaceAll_crlf_break _).trans (congrArg _ ih)
    next => exact (replaceAll_crlf_other fun _ => head?_replaceAll_lf rest).trans (congrArg _ ih)

theorem replaceAll_lf_isCrlf (text : Text) : (replaceAll lf crlf text).IsCrlf := by
  induction text with
  | nil => exact Text.isCrlf_of_absent List.not_mem_nil
  | cons c rest ih =>
    rw [replaceAll_lf_cons]
    refine Text.IsCrlf.append ?_ ih
    split
    next => exact Text.isCrlf_break
    next other => exact Text.isCrlf_of_absent (by simpa using Ne.symm other)

theorem normalize_crlf (text : Text) : normalize crlf text = replaceAll lf crlf (replaceAll crlf lf text) :=
  if_neg (by decide)

theorem normalize_isCrlf (text : Text) : (normalize crlf text).IsCrlf := by
  rw [normalize_crlf]
  exact replaceAll_lf_isCrlf _

theorem replaceAll_normalize (text : Text) : replaceAll crlf lf (normalize crlf text) = replaceAll crlf lf text := by
  rw [normalize_crlf, replaceAll_replaceAll]

theorem normalize_normalize (text : Text) : normalize crlf (normalize crlf text) = normalize crlf text := by
  rw [normalize_crlf (normalize crlf text), replaceAll_normalize, ← normalize_crlf]

end LineEnding

namespace PatchSet

/-- Patches that are spliced in, each with what is copied before it, and what is copied behind all of them. -/
structure Splicing where
  parts : List (Text × Patch)
  rest : Text

def Splicing.written (write : Text → Text) (splicing : Splicing) : Text :=
  splicing.parts.flatMap (fun part => part.1 ++ write part.2.text) ++ splicing.rest

def splicingFrom (source : Text) : Nat → List Patch → Option Splicing
  | done, [] => (Text.slice? done (Text.bytes source) source).map fun rest => ⟨[], rest⟩
  | done, patch :: patches =>
    if patch.span.start < done || Text.bytes source < patch.span.stop then splicingFrom source done patches
    else
      (Text.slice? done patch.span.start source).bind fun gap =>
        (splicingFrom source patch.span.stop patches).map fun splicing =>
          ⟨(gap, patch) :: splicing.parts, splicing.rest⟩

def splicing (set : PatchSet) (source : Text) : Option Splicing := splicingFrom source 0 (Patch.sort set.patches)

variable {source : Text} {done : Nat}

/-- Line endings matter only to the texts of patches. -/
theorem splice_written (ending : Text) (patches : List Patch) : splice ending source done patches =
    (splicingFrom source done patches).map (Splicing.written (LineEnding.normalize ending)) := by
  induction patches generalizing done with
  | nil =>
    rw [splice, splicingFrom]
    cases Text.slice? done (Text.bytes source) source <;> rfl
  | cons patch patches ih =>
    rw [splice, splicingFrom]
    split
    next => exact ih
    next =>
      cases Text.slice? done patch.span.start source with
      | none => rfl
      | some gap =>
        rw [Option.bind_some, ih]
        cases splicingFrom source patch.span.stop patches with
        | none => rfl
        | some splicing => simp [Splicing.written]

/-- The patches that are spliced in are those that survive. -/
theorem splicingFrom_survivors {patches : List (Patch × Nat)} {splicing : Splicing}
    (spliced : splicingFrom source done (patches.map Prod.fst) = some splicing) :
    splicing.parts.map Prod.snd = (survivorsFrom (Text.bytes source) done patches).map Prod.fst := by
  induction patches generalizing done splicing with
  | nil =>
    obtain ⟨rest, -, rfl⟩ := Option.map_eq_some_iff.mp spliced
    rfl
  | cons patch patches ih =>
    rw [List.map_cons, splicingFrom] at spliced
    rw [survivorsFrom]
    split at spliced
    next gone =>
      rw [if_pos gone]
      exact ih spliced
    next kept =>
      obtain ⟨gap, -, spliced⟩ := Option.bind_eq_some_iff.mp spliced
      obtain ⟨later, found, rfl⟩ := Option.map_eq_some_iff.mp spliced
      rw [if_neg kept, List.map_cons, List.map_cons, ih found]

/-- What is copied keeps its breaks whole, if no patch ends inside one. -/
theorem splicingFrom_isCrlf (crlf : source.IsCrlf) {patches : List Patch} (outside : ¬source.InsideBreak done)
    (ends : ∀ patch ∈ patches, ¬source.InsideBreak patch.span.stop) {splicing : Splicing}
    (spliced : splicingFrom source done patches = some splicing) :
    (∀ part ∈ splicing.parts, part.1.IsCrlf) ∧ splicing.rest.IsCrlf := by
  induction patches generalizing done splicing with
  | nil =>
    obtain ⟨rest, cut, rfl⟩ := Option.map_eq_some_iff.mp spliced
    exact ⟨by simp, crlf.slice outside cut⟩
  | cons patch patches ih =>
    obtain ⟨here, later⟩ := List.forall_mem_cons.mp ends
    rw [splicingFrom] at spliced
    split at spliced
    next => exact ih outside later spliced
    next =>
      obtain ⟨gap, cut, spliced⟩ := Option.bind_eq_some_iff.mp spliced
      obtain ⟨behind, found, rfl⟩ := Option.map_eq_some_iff.mp spliced
      obtain ⟨gaps, rest⟩ := ih here later found
      exact ⟨List.forall_mem_cons.mpr ⟨crlf.slice outside cut, gaps⟩, rest⟩

theorem apply_written (set : PatchSet) (source : Text) :
    set.apply source = (set.splicing source).map (Splicing.written id) := by
  have same : Splicing.written (LineEnding.normalize LineEnding.lf) = Splicing.written id := by
    funext splicing
    simp only [Splicing.written, LineEnding.normalize, if_true, id]
  rw [apply, applyWith, splice_written, same, splicing]

theorem splicing_survivors {set : PatchSet} {spliced : Splicing} (found : set.splicing source = some spliced) :
    spliced.parts.map Prod.snd = (survivorsFrom (Text.bytes source) 0 set.placed).map Prod.fst := by
  rw [splicing, ← map_placed] at found
  exact splicingFrom_survivors found

theorem applyWith_isCrlf {set : PatchSet} (crlf : source.IsCrlf)
    (ends : ∀ patch ∈ set.patches, ¬source.InsideBreak patch.span.stop) {text : Text}
    (applied : set.applyWith LineEnding.crlf source = some text) : text.IsCrlf := by
  rw [applyWith, splice_written] at applied
  obtain ⟨spliced, found, rfl⟩ := Option.map_eq_some_iff.mp applied
  have outside : ¬source.InsideBreak 0 := by
    rintro ⟨front, back, -, none⟩
    exact Nat.succ_ne_zero _ none
  obtain ⟨gaps, rest⟩ := splicingFrom_isCrlf crlf outside (fun patch member => ends patch (mem_sortBy.mp member)) found
  exact (Text.IsCrlf.flatMap fun part member =>
    (gaps part member).append (LineEnding.normalize_isCrlf part.2.text)).append rest

/-- Carriage returns before line feeds are written in the texts of patches alone. The same patches survive and the same
slices are copied as without them. A text that is written anew has no line feed without a carriage return, is otherwise
the same, and is not changed when it is written again. So if a text has no line feed without a carriage return, and no
patch ends between the two, it has none afterwards. -/
theorem applyWith_crlf (set : PatchSet) (source : Text) :
    set.apply source = (set.splicing source).map (Splicing.written id) ∧
    set.applyWith LineEnding.crlf source =
      (set.splicing source).map (Splicing.written (LineEnding.normalize LineEnding.crlf)) ∧
    (∀ spliced, set.splicing source = some spliced →
      spliced.parts.map Prod.snd = (survivorsFrom (Text.bytes source) 0 set.placed).map Prod.fst) ∧
    (∀ text, (LineEnding.normalize LineEnding.crlf text).IsCrlf ∧
      Text.replaceAll LineEnding.crlf LineEnding.lf (LineEnding.normalize LineEnding.crlf text) =
        Text.replaceAll LineEnding.crlf LineEnding.lf text ∧
      LineEnding.normalize LineEnding.crlf (LineEnding.normalize LineEnding.crlf text) =
        LineEnding.normalize LineEnding.crlf text) ∧
    (source.IsCrlf → (∀ patch ∈ set.patches, ¬source.InsideBreak patch.span.stop) →
      ∀ text, set.applyWith LineEnding.crlf source = some text → text.IsCrlf) := by
  refine ⟨apply_written set source, splice_written _ _, fun _ => splicing_survivors, fun text => ?_, ?_⟩
  · exact ⟨LineEnding.normalize_isCrlf text, LineEnding.replaceAll_normalize text, LineEnding.normalize_normalize text⟩
  · exact fun crlf ends text applied => applyWith_isCrlf crlf ends applied

/-- Lines with breaks of both kinds, inserted between lines with one kind. -/
theorem applyWith_crlf_insertion :
    let set : PatchSet := ⟨[.insertion 3 "x\ny\r\n".toList]⟩
    let source : Text := "a\r\nb\r\n".toList
    source.IsCrlf ∧ (∀ patch ∈ set.patches, ¬source.InsideBreak patch.span.stop) ∧
      set.applyWith LineEnding.crlf source = some "a\r\nx\r\ny\r\nb\r\n".toList ∧
      Text.IsCrlf "a\r\nx\r\ny\r\nb\r\n".toList := by
  intro set source
  have crlf : source.IsCrlf := by
    have letter : ∀ c : Char, c ≠ '\n' → Text.IsCrlf [c] := fun c other => Text.isCrlf_of_absent (by simpa using other.symm)
    exact (((letter 'a' (by decide)).append Text.isCrlf_break).append (letter 'b' (by decide))).append Text.isCrlf_break
  have ends : ∀ patch ∈ set.patches, ¬source.InsideBreak patch.span.stop := by
    intro patch member
    rw [List.mem_singleton.mp member]
    rintro ⟨front, back, split, size⟩
    have place : "a\r".toList = front := (Text.append_inj_of_bytes split (by rw [Nat.succ.inj size]; rfl)).1
    subst place
    simp [source] at split
  have applied : set.applyWith LineEnding.crlf source = some "a\r\nx\r\ny\r\nb\r\n".toList := by decide
  exact ⟨crlf, ends, applied, (applyWith_crlf set source).2.2.2.2 crlf ends _ applied⟩

end PatchSet
end Graft
