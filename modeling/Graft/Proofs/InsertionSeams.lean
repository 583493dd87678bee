import Graft.Proofs.EditFrame

/-! Where new statements go. An anchor stands between two statements of a program: those before it end before the
offset at which the new text is inserted, those behind it start behind that offset, and so none of them is cut. -/

namespace Graft

namespace Program

/-- An offset that lies between the first statements of a program and the others. -/
structure Seam (program : Program) (front back : List Node) (offset : Nat) : Prop where
  split : program.statements = front ++ back
  before : ∀ statement ∈ front, statement.stop ≤ offset
  behind : ∀ statement ∈ back, offset ≤ statement.start

theorem statements_ordered (program : Program) :
    program.statements.Pairwise fun first second => first.stop ≤ second.start :=
  program.root.namedChildren_ordered.filter _

theorem statements_split_ordered {program : Program} {front back : List Node} {statement : Node}
    (split : program.statements = front ++ statement :: back) :
    (∀ other ∈ front, other.stop ≤ statement.start) ∧ ∀ other ∈ back, statement.stop ≤ other.start := by
  have ordered := program.statements_ordered
  rw [split, List.pairwise_append] at ordered
  obtain ⟨_, behind, across⟩ := ordered
  exact ⟨fun other member => across other member statement (List.mem_cons_self ..), (List.pairwise_cons.mp behind).1⟩

theorem mem_statements {program : Program} {node : Node} :
    node ∈ program.statements ↔ node ∈ program.topLevel ∧ node.kind ≠ .comment ∧ node.kind ≠ .hashBangLine := by
  rw [statements, List.mem_filter, Bool.and_eq_true, decide_eq_true_eq, decide_eq_true_eq]

end Program

namespace Anchor
variable {program : Program}

theorem stop_le_endOf (program : Program) (statement : Node) : statement.stop ≤ endOf program statement := by
  unfold endOf
  cases last : (tailComments program statement).getLast? with
  | none => exact Nat.le_refl _
  | some comment =>
    have member := List.takeWhile_subset _ (List.mem_of_mem_getLast? last)
    have behind : statement.stop ≤ comment.start := of_decide_eq_true (List.mem_filter.mp member).2
    exact Nat.le_trans behind (Node.Stands.start_le_stop comment)

/-- Nothing but comments stands between a statement and the end of its last line's comments. -/
theorem endOf_le {statement other : Node} (member : other ∈ program.statements)
    (behind : statement.stop ≤ other.start) : endOf program statement ≤ other.start := by
  unfold endOf
  cases last : (tailComments program statement).getLast? with
  | none => exact behind
  | some comment =>
    obtain ⟨here, code, _⟩ := Program.mem_statements.mp member
    have ordered : (program.topLevel.filter fun node => statement.stop ≤ node.start).Pairwise
        fun first second => first.stop ≤ second.start :=
      program.root.namedChildren_ordered.filter _
    have follows : other ∈ program.topLevel.filter fun node => statement.stop ≤ node.start :=
      List.mem_filter.mpr ⟨here, decide_eq_true behind⟩
    -- the comments are a front of what follows the statement, and the other statement is not one of them
    have parts : tailComments program statement ++ _ = program.topLevel.filter fun node => statement.stop ≤ node.start :=
      List.takeWhile_append_dropWhile
    rw [← parts] at ordered follows
    rcases List.mem_append.mp follows with tail | rest
    · have comment := List.all_eq_true.mp List.all_takeWhile other tail
      exact absurd (of_decide_eq_true (Bool.and_eq_true_iff.mp comment).1) code
    · exact (List.pairwise_append.mp ordered).2.2 comment (List.mem_of_mem_getLast? last) other rest

theorem endOf_seam {front back : List Node} {statement : Node} (split : program.statements = front ++ statement :: back) :
    program.Seam (front ++ [statement]) back (endOf program statement) := by
  obtain ⟨before, behind⟩ := Program.statements_split_ordered split
  have past := stop_le_endOf program statement
  refine ⟨by rw [split, List.append_assoc, List.singleton_append], ?_, ?_⟩
  · intro other member
    rcases List.mem_append.mp member with member | member
    · have wide := Node.Stands.start_le_stop statement
      have ends := before other member
      omega
    · cases List.mem_singleton.mp member
      exact past
  · intro other member
    exact endOf_le (split ▸ List.mem_append_right _ (List.mem_cons_of_mem _ member)) (behind other member)

theorem top_seam (program : Program) (text : Text) :
    program.Seam [] program.statements (Anchor.top.insertion program text).span.start := by
  refine ⟨rfl, by simp, ?_⟩
  intro other member
  obtain ⟨here, _, code⟩ := Program.mem_statements.mp member
  unfold insertion
  split
  next => contradiction
  next =>
    split
    next first found =>
      have early : lineStart program.source first.start ≤ first.start :=
        (program.topLevel_stands (List.mem_of_find?_eq_some found)).start_boundary.lineStart.2
      refine Nat.le_trans early ?_
      obtain ⟨_, front, back, split, lines⟩ := List.find?_eq_some_iff_append.mp found
      have ordered := program.root.namedChildren_ordered
      rw [show program.root.namedChildren = front ++ first :: back from split, List.pairwise_append] at ordered
      rw [split, List.mem_append, List.mem_cons] at here
      rcases here with here | rfl | here
      · exact absurd code (by simpa using lines other here)
      · exact Nat.le_refl _
      · have wide := Node.Stands.start_le_stop first
        have next := (List.pairwise_cons.mp ordered.2.1).1 other here
        omega
    next none =>
      exact absurd code (by simpa using List.find?_eq_none.mp none other here)

/-- An insertion has nothing but line breaks around the text. -/
theorem insertion_breaks (anchor : Anchor) (program : Program) (text : Text) :
    ∃ before after, (∀ c ∈ before ++ after, c = '\n') ∧
      anchor.insertion program text = .insertion (anchor.insertion program text).span.start (before ++ text ++ after) := by
  have ahead : ∀ offset, ∃ before after, (∀ c ∈ before ++ after, c = '\n') ∧
      Patch.insertion offset ('\n' :: text) = .insertion offset (before ++ text ++ after) :=
    fun _ => ⟨['\n'], [], by simp, by simp⟩
  have behind : ∀ offset, ∃ before after, (∀ c ∈ before ++ after, c = '\n') ∧
      Patch.insertion offset (text ++ ['\n']) = .insertion offset (before ++ text ++ after) :=
    fun _ => ⟨[], ['\n'], by simp, rfl⟩
  cases anchor with
  | after statement => exact ahead _
  | top =>
    simp only [insertion]
    split
    next => exact behind _
    next =>
      split
      next => exact ahead _
      next =>
        split
        next => exact ⟨[], [], by simp, by simp [Patch.insertion]⟩
        next => exact behind _

end Anchor
end Graft
