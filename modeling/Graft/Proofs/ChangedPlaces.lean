import Graft.Proofs.EqualReport
import Graft.Proofs.PreviewSides

/-! Changed places are the maximal runs of changed lines. Each run is reported once, in order, with the number of common
lines before it; so there are none exactly between equal texts. -/

namespace Graft.Diff

/-- Lines of which all are changed, between common lines or an end of the whole. -/
structure MaximalRun (tags before run : List Tag) : Prop where
  split : ∃ after, tags = before ++ (run ++ after) ∧ ∀ tag, after.head? = some tag → tag = Tag.context
  nonempty : run ≠ []
  changed : Tag.context ∉ run
  opens : ∀ tag, before.getLast? = some tag → tag = Tag.context

/-- The place that a run of changed lines is reported at. -/
def placeOf (before run : List Tag) : EditRange :=
  ⟨before.count .context, if .removed ∈ run ∧ .added ∈ run then before.count .context else before.count .context - 1⟩

/-- An open run and what comes before it, if there is one. -/
def openRun (before run : List Tag) : List (List Tag × List Tag) := if run.isEmpty then [] else [(before, run)]

/-- The maximal runs of lines with what comes before each, where a run may be open before these lines. -/
def runsFrom (before run : List Tag) : List Tag → List (List Tag × List Tag)
  | [] => openRun before run
  | .context :: tags => openRun before run ++ runsFrom (before ++ run ++ [.context]) [] tags
  | tag :: tags => runsFrom before (run ++ [tag]) tags

/-! ### Maximal runs -/

section
variable {before run rest before' run' tags : List Tag}

theorem MaximalRun.eq_open (maximal : MaximalRun (before ++ (run ++ rest)) before' run')
    (changed : Tag.context ∉ run) (stops : ∀ tag, rest.head? = some tag → tag = Tag.context)
    (behind : before.length ≤ before'.length) (early : before'.length ≤ before.length + run.length) :
    before' = before ∧ run' = run := by
  obtain ⟨after, split, closes⟩ := maximal.split
  obtain ⟨middle, rfl⟩ : ∃ middle, before' = before ++ middle := by
    obtain ⟨more, same⟩ := List.prefix_of_prefix_length_le (List.prefix_append before _)
      (split ▸ List.prefix_append before' _) behind
    exact ⟨more, same.symm⟩
  rw [List.append_assoc, List.append_cancel_left_eq] at split
  obtain ⟨run, rfl⟩ : ∃ more, run = middle ++ more := by
    obtain ⟨more, same⟩ := List.prefix_of_prefix_length_le (split ▸ List.prefix_append middle _)
      (List.prefix_append run rest) (by simpa using early)
    exact ⟨more, same.symm⟩
  -- what stands before a maximal run does not end with a changed line
  have none : middle = [] := by
    rcases List.eq_nil_or_concat middle with none | ⟨front, tag, rfl⟩
    · exact none
    · have common := maximal.opens tag (by simp)
      subst common
      simp at changed
  subst none
  simp only [List.nil_append] at split changed ⊢
  refine ⟨List.append_nil before, ?_⟩
  rcases List.append_eq_append_iff.mp split with ⟨more, longer, rfl⟩ | ⟨more, rfl, shorter⟩
  · cases more with
    | nil => rw [longer, List.append_nil]
    | cons tag more =>
      have common := stops tag rfl
      subst common
      exact absurd (by rw [longer]; simp) maximal.changed
  · cases more with
    | nil => rw [List.append_nil]
    | cons tag more =>
      have common := closes tag (by rw [shorter]; rfl)
      subst common
      simp at changed

theorem mem_openRun (changed : Tag.context ∉ run) (opens : ∀ tag, before.getLast? = some tag → tag = Tag.context)
    (stops : ∀ tag, rest.head? = some tag → tag = Tag.context) :
    (before', run') ∈ openRun before run ↔ MaximalRun (before ++ (run ++ rest)) before' run' ∧
      before.length ≤ before'.length ∧ before'.length ≤ before.length + run.length := by
  constructor
  · unfold openRun
    split
    next => simp
    next some =>
      rw [List.mem_singleton, Prod.mk.injEq]
      rintro ⟨rfl, rfl⟩
      exact ⟨⟨⟨rest, rfl, stops⟩, by simpa using some, changed, opens⟩, Nat.le_refl _, Nat.le_add_right ..⟩
  · rintro ⟨maximal, behind, early⟩
    obtain ⟨rfl, rfl⟩ := maximal.eq_open changed stops behind early
    rw [openRun, if_neg (by simpa using maximal.nonempty)]
    exact List.mem_singleton_self _

/-- What is found are the maximal runs behind some lines. -/
theorem mem_runsFrom (changed : Tag.context ∉ run) (opens : ∀ tag, before.getLast? = some tag → tag = Tag.context) :
    (before', run') ∈ runsFrom before run tags ↔
      MaximalRun (before ++ (run ++ tags)) before' run' ∧ before.length ≤ before'.length := by
  induction tags generalizing before run with
  | nil =>
    rw [runsFrom, mem_openRun changed opens (by simp : ∀ tag, ([] : List Tag).head? = some tag → tag = Tag.context)]
    refine and_congr_right fun maximal => and_iff_left_of_imp fun _ => ?_
    obtain ⟨after, split, -⟩ := maximal.split
    have size := congrArg List.length split
    simp only [List.length_append, List.length_nil] at size
    omega
  | cons tag tags ih =>
    cases tag with
    | context =>
      have whole : before ++ run ++ [.context] ++ ([] ++ tags) = before ++ (run ++ .context :: tags) := by simp
      rw [runsFrom, List.mem_append, ih (by simp) (by simp), whole,
        mem_openRun changed opens (by simp : ∀ tag, (Tag.context :: tags).head? = some tag → tag = Tag.context),
        ← and_or_left]
      refine and_congr_right fun _ => ?_
      simp only [List.length_append, List.length_singleton]
      omega
    | removed | added =>
      rw [runsFrom, ih (by simpa using changed) opens, List.append_assoc, List.singleton_append]
      simp

theorem runsFrom_pairwise (changed : Tag.context ∉ run) (opens : ∀ tag, before.getLast? = some tag → tag = Tag.context) :
    (runsFrom before run tags).Pairwise fun one two => one.1.length < two.1.length := by
  have alone : ∀ before run, (openRun before run).Pairwise fun one two => one.1.length < two.1.length := by
    intro before run
    unfold openRun
    split
    next => exact .nil
    next => exact List.pairwise_singleton ..
  induction tags generalizing before run with
  | nil => exact alone before run
  | cons tag tags ih =>
    cases tag with
    | context =>
      rw [runsFrom, List.pairwise_append]
      refine ⟨alone before run, ih (by simp) (by simp), fun one first two second => ?_⟩
      have late := ((mem_runsFrom (by simp) (by simp)).mp second).2
      unfold openRun at first
      split at first
      next => cases first
      next =>
        cases List.mem_singleton.mp first
        simp only [List.length_append, List.length_singleton] at late ⊢
        omega
    | removed | added => exact ih (by simpa using changed) opens

theorem runsFrom_eq_nil (none : runsFrom before run tags = []) : run = [] ∧ ∀ tag ∈ tags, tag = Tag.context := by
  have closed : ∀ {before run}, openRun before run = [] → run = [] := by
    intro before run none
    unfold openRun at none
    split at none
    next empty => exact List.isEmpty_iff.mp empty
    next => cases none
  induction tags generalizing before run with
  | nil => exact ⟨closed none, by simp⟩
  | cons tag tags ih =>
    cases tag with
    | context =>
      obtain ⟨here, later⟩ := List.append_eq_nil_iff.mp none
      exact ⟨closed here, List.forall_mem_cons.mpr ⟨rfl, (ih later).2⟩⟩
    | removed | added => exact absurd (ih none).1 (by simp)

/-- Of two maximal runs, the later one has more common lines before it. -/
theorem MaximalRun.count_lt (first : MaximalRun tags before run) (second : MaximalRun tags before' run')
    (earlier : before.length < before'.length) : before.count Tag.context < before'.count Tag.context := by
  obtain ⟨after, rfl, closes⟩ := first.split
  obtain ⟨after', split, -⟩ := second.split
  have past : before.length + run.length < before'.length := by
    refine Nat.lt_of_not_le fun inside => ?_
    obtain ⟨rfl, -⟩ := second.eq_open first.changed closes (Nat.le_of_lt earlier) inside
    exact Nat.lt_irrefl _ earlier
  rw [← List.append_assoc] at split
  obtain ⟨between, rfl⟩ := List.prefix_of_prefix_length_le (List.prefix_append (before ++ run) after)
    (split ▸ List.prefix_append before' _) (by simpa using Nat.le_of_lt past)
  cases between with
  | nil => simp at past
  | cons tag between =>
    rw [List.append_assoc, List.append_assoc] at split
    rw [List.append_assoc, List.append_cancel_left_eq, List.append_cancel_left_eq] at split
    have common := closes tag (by rw [split]; rfl)
    rw [common]
    simp only [List.count_append, List.count_cons_self]
    omega

end

/-! ### Reported places -/

def chunkTags (chunks : List Chunk) : List Tag := chunks.flatMap fun chunk => chunk.lines.map fun _ => chunk.tag

/-- Gathering lines into chunks keeps their tags, and leaves no chunk empty. -/
theorem gather_chunkTags (lines : List (Tag × Text)) :
    chunkTags (gather lines) = lines.map Prod.fst ∧ ∀ chunk ∈ gather lines, chunk.lines ≠ [] := by
  induction lines with
  | nil => simp [gather, chunkTags]
  | cons line lines ih =>
    obtain ⟨same, filled⟩ := ih
    obtain ⟨tag, text⟩ := line
    rw [gather, List.map_cons, ← same]
    cases found : gather lines with
    | nil => simp [cons, chunkTags]
    | cons chunk chunks =>
      rw [found] at filled
      rw [cons]
      split
      next joined =>
        refine ⟨by simp only [chunkTags, List.flatMap_cons, List.map_cons, List.cons_append, joined], ?_⟩
        exact List.forall_mem_cons.mpr ⟨by simp, fun other member => filled other (List.mem_cons_of_mem _ member)⟩
      next =>
        refine ⟨by simp [chunkTags], ?_⟩
        exact List.forall_mem_cons.mpr ⟨by simp, filled⟩

theorem runsFrom_changed {more : List Tag} (changed : Tag.context ∉ more) (before run tags : List Tag) :
    runsFrom before run (more ++ tags) = runsFrom before (run ++ more) tags := by
  induction more generalizing run with
  | nil => simp
  | cons tag more ih =>
    have later : Tag.context ∉ more := fun member => changed (List.mem_cons_of_mem _ member)
    cases tag with
    | context => simp at changed
    | removed | added =>
      rw [List.cons_append, runsFrom, ih later, List.append_assoc, List.singleton_append]
      exact Tag.noConfusion

theorem runsFrom_common (before run tags : List Tag) (count : Nat) :
    runsFrom before run (List.replicate (count + 1) .context ++ tags) =
      openRun before run ++ runsFrom (before ++ run ++ List.replicate (count + 1) .context) [] tags := by
  induction count generalizing before run with
  | zero => rfl
  | succ count ih =>
    rw [List.replicate_succ, List.cons_append, runsFrom, ih]
    simp [openRun]

/-- A run of changes as it is kept while chunks are read. -/
def keptRun (before run : List Tag) : Option OpenRun :=
  if run.isEmpty then none else some ⟨before.count .context, .added ∈ run, .removed ∈ run⟩

theorem close_keptRun {before run : List Tag} :
    ((keptRun before run).map fun open_ => open_.close (before.count .context)).toList =
      (openRun before run).map fun run => placeOf run.1 run.2 := by
  unfold keptRun openRun
  split
  next => rfl
  next => simp [OpenRun.close, placeOf, and_comm]

theorem keptRun_append (before run : List Tag) (tag : Tag) (count : Nat) :
    let kept := (keptRun before run).getD ⟨before.count .context, false, false⟩
    keptRun before (run ++ List.replicate (count + 1) tag) =
      some ⟨kept.start, kept.added || tag = .added, kept.removed || tag = .removed⟩ := by
  unfold keptRun
  cases run with
  | nil => simp [eq_comm]
  | cons first run => simp [eq_comm, Bool.or_assoc]

/-- The ranges of chunks are the places of the maximal runs. -/
theorem rangesFrom_eq_map {chunks : List Chunk} (filled : ∀ chunk ∈ chunks, chunk.lines ≠ []) {before run : List Tag}
    (changed : Tag.context ∉ run) : rangesFrom (before.count .context) (keptRun before run) chunks =
      (runsFrom before run (chunkTags chunks)).map fun run => placeOf run.1 run.2 := by
  induction chunks generalizing before run with
  | nil => exact close_keptRun
  | cons chunk chunks ih =>
    obtain ⟨tag, lines⟩ := chunk
    obtain ⟨some, rest⟩ := List.forall_mem_cons.mp filled
    obtain ⟨count, size⟩ : ∃ count, lines.length = count + 1 := Nat.exists_eq_add_one.mpr (List.length_pos_iff.mpr some)
    have tags : chunkTags (⟨tag, lines⟩ :: chunks) = List.replicate (count + 1) tag ++ chunkTags chunks := by
      simp [chunkTags, List.map_const', size]
    rw [tags, rangesFrom]
    cases tag with
    | context =>
      have none : Tag.context ∉ [] := List.not_mem_nil
      have counted : (before ++ run ++ List.replicate (count + 1) Tag.context).count Tag.context =
          before.count .context + lines.length := by
        simp [List.count_append, List.count_eq_zero.mpr changed, size]
      rw [runsFrom_common, List.map_append, ← close_keptRun, ← ih rest none, counted]
      rfl
    | removed | added =>
      rw [runsFrom_changed (by simp), ← ih rest (by simp [changed]), keptRun_append]

/-! ### Reports -/

theorem report_edits (old new : Text) (limit : Nat) : (report old new limit).edits =
    (runsFrom [] [] ((tagged old new).map Prod.fst)).map fun run => placeOf run.1 run.2 := by
  obtain ⟨tags, filled⟩ := gather_chunkTags ((tagged old new).map fun line => (line.1, Line.content line.2))
  have same := @rangesFrom_eq_map _ filled [] [] List.not_mem_nil
  rw [tags, List.map_map] at same
  exact same

theorem eq_of_common {old new : Text} (common : ∀ line ∈ tagged old new, line.1 = Tag.context) : old = new := by
  obtain ⟨first, second⟩ := tagged_sides old new
  apply Line.split_injective
  rw [← first, ← second, Tag.oldItems, Tag.newItems]
  congr 1
  refine List.filter_congr fun line member => ?_
  rw [common line member]
  rfl

/-- The places that are reported are those of the maximal runs of changed lines, one for each run and in their order. A
place starts behind as many lines as are common before the run; it ends where it starts if lines are both removed and
added, and one before if they are only removed or only added. There are no places exactly between equal texts. -/
theorem report_edits_runs (old new : Text) (limit : Nat) :
    ∃ runs : List (List Tag × List Tag),
      (∀ before run, (before, run) ∈ runs ↔ MaximalRun ((tagged old new).map Prod.fst) before run) ∧
      (runs.Pairwise fun one two => one.1.length < two.1.length) ∧
      (report old new limit).edits = runs.map (fun run => placeOf run.1 run.2) ∧
      ((report old new limit).edits.Pairwise fun one two => one.start < two.start) ∧
      (∀ edit ∈ (report old new limit).edits,
        0 ≤ edit.start ∧ edit.start ≤ ((tagged old new).map Prod.fst).count Tag.context) ∧
      ((report old new limit).edits = [] ↔ old = new) := by
  have listed : ∀ before run, (before, run) ∈ runsFrom [] [] ((tagged old new).map Prod.fst) ↔
      MaximalRun ((tagged old new).map Prod.fst) before run := by
    intro before run
    simpa using @mem_runsFrom [] [] before run ((tagged old new).map Prod.fst) (by simp) (by simp)
  have ordered := @runsFrom_pairwise [] [] ((tagged old new).map Prod.fst) (by simp) (by simp)
  rw [report_edits]
  refine ⟨_, listed, ordered, rfl, ?_, ?_, ?_⟩
  · rw [List.pairwise_map]
    refine ordered.imp_of_mem fun {one two} first second earlier => ?_
    have fewer := ((listed _ _).mp first).count_lt ((listed _ _).mp second) earlier
    exact Int.ofNat_lt.mpr fewer
  · intro edit member
    obtain ⟨⟨before, run⟩, found, rfl⟩ := List.mem_map.mp member
    obtain ⟨after, split, -⟩ := ((listed _ _).mp found).split
    refine ⟨Int.natCast_nonneg _, Int.ofNat_le.mpr ?_⟩
    rw [split, List.count_append]
    exact Nat.le_add_right ..
  · constructor
    · intro none
      have common := (runsFrom_eq_nil (List.map_eq_nil_iff.mp none)).2
      exact eq_of_common fun line member => common line.1 (List.mem_map_of_mem member)
    · rintro rfl
      rw [← report_edits old old limit]
      exact report_self old limit

end Graft.Diff
