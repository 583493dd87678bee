import Graft.Proofs.BlockTurns
import Graft.Proofs.ChangedPlaces

/-! Chunks are one way to write down tagged lines. Reports do not depend on how lines are divided into chunks, and the
chunks of two texts are the one division in which neighbours have different tags; what is added stands behind what is
removed. -/

namespace Graft

/-- Nothing is removed directly behind what is added. -/
def Tag.InOrder (first second : Tag) : Prop := first = .added → second ≠ .removed

namespace Block
variable {α : Type}

theorem tagged_inOrder (block : Block α) : block.tagged.IsChain fun one two => one.1.InOrder two.1 := by
  cases block with
  | keep items =>
    rw [tagged, List.isChain_map]
    exact List.Pairwise.isChain (List.pairwise_of_forall fun _ _ never => by cases never)
  | change removed added =>
    rw [tagged, List.isChain_append, List.isChain_map, List.isChain_map]
    refine ⟨List.Pairwise.isChain (List.pairwise_of_forall fun _ _ never => by cases never),
      List.Pairwise.isChain (List.pairwise_of_forall fun _ _ _ never => by cases never), ?_⟩
    intro one last two _ isAdded
    obtain ⟨item, _, rfl⟩ := List.mem_map.mp (List.mem_of_mem_getLast? last)
    cases isAdded

theorem tag_of_isKept {block : Block α} (kept : block.isKept) : ∀ item ∈ block.tagged, item.1 = .context := by
  cases block with
  | keep items =>
    intro item member
    obtain ⟨_, _, rfl⟩ := List.mem_map.mp member
    rfl
  | change => cases kept

/-- Between two changes something is kept. -/
theorem InTurn.inOrder {blocks : List (Block α)} (inTurn : InTurn blocks) :
    (blocks.flatMap tagged).IsChain fun one two => one.1.InOrder two.1 := by
  have some : [] ∉ blocks.map tagged := by
    intro member
    obtain ⟨block, listed, empty⟩ := List.mem_map.mp member
    exact inTurn.filled block listed empty
  rw [List.flatMap_def, List.isChain_flatten some, List.isChain_map]
  constructor
  · intro items member
    obtain ⟨block, _, rfl⟩ := List.mem_map.mp member
    exact block.tagged_inOrder
  · refine inTurn.turns.imp fun first second differ one last two next isAdded isRemoved => ?_
    -- of two neighbours one is kept
    cases kept : first.isKept with
    | true => cases (tag_of_isKept kept _ (List.mem_of_mem_getLast? last)).symm.trans isAdded
    | false =>
      have other : second.isKept := by simpa [kept] using differ.symm
      cases (tag_of_isKept other _ (List.mem_of_mem_head? next)).symm.trans isRemoved

end Block

namespace Diff

def linesOf (chunks : List Chunk) : List (Tag × Text) := chunks.flatMap fun chunk => chunk.lines.map (chunk.tag, ·)

/-- No chunk is empty, and neighbours have different tags. -/
structure Canonical (chunks : List Chunk) : Prop where
  filled : ∀ chunk ∈ chunks, chunk.lines ≠ []
  apart : chunks.IsChain fun one two => one.tag ≠ two.tag

/-! ### Gathering lines -/

theorem linesOf_cons (tag : Tag) (line : Text) (chunks : List Chunk) :
    linesOf (cons tag line chunks) = (tag, line) :: linesOf chunks := by
  cases chunks with
  | nil => rfl
  | cons chunk chunks =>
    rw [cons]
    split
    next same => simp [linesOf, same]
    next => rfl

theorem linesOf_gather (lines : List (Tag × Text)) : linesOf (gather lines) = lines := by
  induction lines with
  | nil => rfl
  | cons line lines ih => rw [gather, linesOf_cons, ih]

theorem head?_cons (tag : Tag) (line : Text) (chunks : List Chunk) :
    (cons tag line chunks).head?.map Chunk.tag = some tag := by
  cases chunks with
  | nil => rfl
  | cons chunk chunks =>
    rw [cons]
    split <;> rfl

theorem head?_gather (lines : List (Tag × Text)) : (gather lines).head?.map Chunk.tag = lines.head?.map Prod.fst := by
  cases lines with
  | nil => rfl
  | cons line lines => exact head?_cons line.1 line.2 (gather lines)

/-- Chunks that lines are gathered into change their tags where the lines do. -/
theorem gather_isChain {follows : Tag → Tag → Prop} {lines : List (Tag × Text)}
    (chain : lines.IsChain fun one two => follows one.1 two.1) :
    (gather lines).IsChain fun one two => one.tag ≠ two.tag ∧ follows one.tag two.tag := by
  induction lines with
  | nil => exact .nil
  | cons line lines ih =>
    obtain ⟨next, rest⟩ := List.isChain_cons.mp chain
    have heads := head?_gather lines
    have later := ih rest
    rw [gather]
    cases found : gather lines with
    | nil => exact .singleton _
    | cons chunk chunks =>
      rw [found] at heads later
      rw [cons]
      split
      next same =>
        refine List.isChain_cons.mpr ⟨fun second member => ?_, later.tail⟩
        have both := (List.isChain_cons.mp later).1 second member
        rwa [same] at both
      next other =>
        refine .cons_cons ⟨fun same => other same.symm, ?_⟩ later
        obtain ⟨second, first, same⟩ := Option.map_eq_some_iff.mp heads.symm
        exact same ▸ next second first

theorem gather_canonical (lines : List (Tag × Text)) : Canonical (gather lines) := by
  have chain : lines.IsChain fun _ _ => True := List.Pairwise.isChain (List.pairwise_of_forall fun _ _ => trivial)
  exact ⟨(gather_chunkTags lines).2, (@gather_isChain (fun _ _ => True) lines chain).imp fun _ _ both => both.1⟩

theorem gather_chunk {tag : Tag} {lines : List Text} (filled : lines ≠ []) {rest : List (Tag × Text)}
    (other : ∀ chunk, (gather rest).head? = some chunk → tag ≠ chunk.tag) :
    gather (lines.map (tag, ·) ++ rest) = ⟨tag, lines⟩ :: gather rest := by
  induction lines with
  | nil => exact absurd rfl filled
  | cons line lines ih =>
    rw [List.map_cons, List.cons_append, gather]
    cases lines with
    | nil =>
      rw [List.map_nil, List.nil_append]
      cases found : gather rest with
      | nil => rfl
      | cons chunk chunks =>
        rw [cons, if_neg]
        exact fun same => other chunk (by rw [found]; rfl) same.symm
    | cons next lines => rw [ih (List.cons_ne_nil _ _), cons, if_pos rfl]

/-- There is one canonical way to divide lines into chunks. -/
theorem gather_linesOf {chunks : List Chunk} (canonical : Canonical chunks) : gather (linesOf chunks) = chunks := by
  obtain ⟨filled, apart⟩ := canonical
  induction chunks with
  | nil => rfl
  | cons chunk chunks ih =>
    obtain ⟨some, filled⟩ := List.forall_mem_cons.mp filled
    obtain ⟨next, apart⟩ := List.isChain_cons.mp apart
    have same := ih filled apart
    have behind : ∀ other, (gather (linesOf chunks)).head? = Option.some other → chunk.tag ≠ other.tag := by
      rw [same]
      exact next
    exact (gather_chunk some behind).trans (congrArg _ same)

/-! ### Reports -/

theorem chunkTags_eq (chunks : List Chunk) : chunkTags chunks = (linesOf chunks).map Prod.fst := by
  simp [chunkTags, linesOf, List.map_flatMap, Function.comp_def]

theorem signed_eq (chunks : List Chunk) :
    signed chunks = (linesOf chunks).map fun line => signOf line.1 :: line.2 := by
  simp [signed, linesOf, List.map_flatMap, Function.comp_def]

theorem ranges_congr {one two : List Chunk} (filled : ∀ chunk ∈ one, chunk.lines ≠ [])
    (filled' : ∀ chunk ∈ two, chunk.lines ≠ []) (same : linesOf one = linesOf two) : ranges one = ranges two := by
  have places : ∀ chunks : List Chunk, (∀ chunk ∈ chunks, chunk.lines ≠ []) →
      ranges chunks = (runsFrom [] [] (chunkTags chunks)).map fun run => placeOf run.1 run.2 :=
    fun _ filled => @rangesFrom_eq_map _ filled [] [] List.not_mem_nil
  rw [places one filled, places two filled', chunkTags_eq, chunkTags_eq, same]

theorem preview_congr {one two : List Chunk} (same : linesOf one = linesOf two) (limit : Nat) :
    preview one limit = preview two limit := by
  rw [preview, preview, signed_eq, signed_eq, same]

/-! ### The chunks of two texts -/

theorem blocks_inTurn (old new : Text) : Block.InTurn (blocks old new) :=
  Script.blocksFrom_inTurn (Script.settle_filled (Myers.scriptFrom_filled _ _ _)) [] [] []

theorem chunks_eq (old new : Text) :
    chunks old new = gather ((tagged old new).map fun line => (line.1, Line.content line.2)) := rfl

theorem chunks_inOrder (old new : Text) :
    (chunks old new).IsChain fun one two => one.tag ≠ two.tag ∧ one.tag.InOrder two.tag := by
  rw [chunks_eq]
  refine gather_isChain ?_
  rw [List.isChain_map]
  exact (blocks_inTurn old new).inOrder

/-- How lines are divided into chunks does not matter to the reports on them. Chunks that are not empty and hold the same
lines behind the same tags have the same changed places and, with every limit, the same preview. The chunks of two texts
are the only ones of these lines that are not empty and have other tags than their neighbours; none that is added stands
before one that is removed. -/
theorem reports_of_lines (old new : Text) :
    (∀ one two : List Chunk, (∀ chunk ∈ one, chunk.lines ≠ []) → (∀ chunk ∈ two, chunk.lines ≠ []) →
      linesOf one = linesOf two → ranges one = ranges two ∧ ∀ limit, preview one limit = preview two limit) ∧
    linesOf (chunks old new) = (tagged old new).map (fun line => (line.1, Line.content line.2)) ∧
    Canonical (chunks old new) ∧
    (∀ other, Canonical other → linesOf other = linesOf (chunks old new) → other = chunks old new) ∧
    (chunks old new).IsChain fun first second => ¬(first.tag = .added ∧ second.tag = .removed) := by
  refine ⟨?_, linesOf_gather _, gather_canonical _, ?_, ?_⟩
  · exact fun one two filled filled' same => ⟨ranges_congr filled filled' same, preview_congr same⟩
  · intro other canonical lines
    rw [← gather_linesOf canonical, lines]
    exact gather_linesOf (gather_canonical _)
  · exact (chunks_inOrder old new).imp fun _ _ both neighbours => both.2 neighbours.1 neighbours.2

/-- A removed chunk in two pieces, before an added one. -/
theorem reports_of_lines_divided :
    let whole : List Chunk := [⟨.removed, ["a".toList, "b".toList]⟩, ⟨.added, ["c".toList]⟩]
    let divided : List Chunk := [⟨.removed, ["a".toList]⟩, ⟨.removed, ["b".toList]⟩, ⟨.added, ["c".toList]⟩]
    (∀ chunk ∈ whole, chunk.lines ≠ []) ∧ (∀ chunk ∈ divided, chunk.lines ≠ []) ∧ linesOf whole = linesOf divided ∧
      ranges whole = ranges divided ∧ ∀ limit, preview whole limit = preview divided limit := by
  intro whole divided
  have filled : ∀ chunk ∈ whole, chunk.lines ≠ [] := by decide
  have filled' : ∀ chunk ∈ divided, chunk.lines ≠ [] := by decide
  have same : linesOf whole = linesOf divided := by decide
  exact ⟨filled, filled', same, (reports_of_lines [] []).1 whole divided filled filled' same⟩

end Diff
end Graft
