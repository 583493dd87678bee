import Graft.Proofs.EditFrame
import Graft.Proofs.WalkOrder
import Mathlib.Data.List.Basic

/-! The functions that a new body can be for. All named functions at the top level are listed in document order, those
of one statement in the order of its variables, and the first with the name that is looked for is taken. -/

namespace Graft

/-- A function at the top level and the name that it goes by. -/
structure Candidate where
  name : Text
  target : FunctionTarget

def FunctionDeclaration.candidate? (it : FunctionDeclaration) : Option Candidate :=
  it.name?.bind fun name => it.body?.map fun body => ⟨name, body, .declaration⟩

def Declarator.candidate? (it : Declarator) : Option Candidate :=
  it.name?.bind fun name => (it.arrow?.bind ArrowFunction.body?).map fun body => ⟨name, body, .arrow⟩

/-- The functions that a statement gives a name. -/
def Node.candidates (statement : Node) : List Candidate :=
  match statement.construct with
  | .functionDeclaration it => it.candidate?.toList
  | .variableDeclaration it => it.declarators.filterMap Declarator.candidate?
  | .exportDefault it => (it.function?.bind FunctionDeclaration.candidate?).toList
  | _ => []

/-- The functions that have a name at the top level, in document order. -/
def Program.candidates (program : Program) : List Candidate := program.statements.flatMap Node.candidates

/-! ### Parentheses -/

/-- A node inside of any number of parentheses, each with comments before what is in it. -/
inductive Node.Within (core : Node) : Node → Prop
  | core : Within core core
  | parentheses {node inner : Node} {comments others : List Node} (kind : node.kind = .parenthesizedExpression)
    (split : node.namedChildren = comments ++ inner :: others) (skipped : ∀ comment ∈ comments, comment.kind = .comment)
    (solid : inner.kind ≠ .comment) (below : Within core inner) : Within core node

namespace Node

theorem bare_go_within (steps : Nat) (node : Node) : Within (bare.go steps node) node := by
  induction steps generalizing node with
  | zero => exact .core
  | succ steps ih =>
    rw [bare.go]
    split
    next kind =>
      split
      next inner found =>
        obtain ⟨solid, comments, others, split, skipped⟩ := List.find?_eq_some_iff_append.mp found
        refine .parentheses kind split (fun comment member => ?_) (by simpa using solid) (ih inner)
        simpa using skipped comment member
      next => exact .core
    next => exact .core

/-- With enough steps all parentheses around a node are left. -/
theorem Within.bare_go {core node : Node} (within : core.Within node) (other : core.kind ≠ .parenthesizedExpression)
    {steps : Nat} (enough : node.tree.size ≤ steps) : bare.go steps node = core := by
  induction within generalizing steps with
  | core =>
    cases steps with
    | zero => rfl
    | succ steps => rw [bare.go, if_neg other]
  | @parentheses node inner comments others kind split skipped solid below ih =>
    have inside : inner ∈ node.children := (mem_namedChildren (by rw [split]; simp)).1
    have smaller := size_child inside
    cases steps with
    | zero => omega
    | succ steps =>
      have found : node.namedChildren.find? (fun child => child.kind ≠ .comment) = some inner := by
        rw [split, List.find?_append, List.find?_eq_none.mpr (by simpa using skipped), Option.none_or,
          List.find?_cons_of_pos (by simpa using solid)]
      rw [bare.go, if_pos kind, found]
      exact ih (by omega)

end Node

/-- A variable stands for an arrow function that is its value, perhaps inside of parentheses. -/
theorem Declarator.arrow?_iff {it : Declarator} {arrow : Node} : it.arrow? = some ⟨arrow⟩ ↔
    arrow.kind = .arrowFunction ∧ ∃ value, it.value? = some value ∧ arrow.Within value := by
  unfold arrow?
  cases it.value? with
  | none => simp
  | some value =>
    rw [Option.map_some]
    dsimp only
    constructor
    · intro found
      split at found
      next kind =>
        cases found
        exact ⟨kind, value, rfl, Node.bare_go_within _ _⟩
      next => cases found
    · rintro ⟨kind, _, ⟨⟩, within⟩
      have same : value.bare = arrow := within.bare_go (by rw [kind]; decide) (Nat.le_refl _)
      rw [same, if_pos kind]

/-! ### The first with a name -/

section
variable (name : Text)

theorem FunctionDeclaration.target?_eq (it : FunctionDeclaration) :
    it.target? name = (it.candidate?.toList.find? fun first => first.name = name).map Candidate.target := by
  unfold target? candidate?
  cases it.name? with
  | none => simp
  | some other => cases it.body? <;> by_cases same : other = name <;> simp [same]

theorem Declarator.target?_eq (it : Declarator) :
    it.target? name = (it.candidate?.toList.find? fun first => first.name = name).map Candidate.target := by
  unfold target? candidate?
  cases it.name? with
  | none => simp
  | some other => cases it.arrow?.bind ArrowFunction.body? <;> by_cases same : other = name <;> simp [same]

theorem Node.functionTarget?_eq (statement : Node) :
    statement.functionTarget? name = (statement.candidates.find? fun first => first.name = name).map Candidate.target := by
  unfold functionTarget? candidates
  cases statement.construct with
  | functionDeclaration it => exact it.target?_eq name
  | variableDeclaration it =>
    dsimp only
    rw [List.filterMap_eq_flatMap_toList, List.find?_flatMap, List.map_findSome?]
    exact congrArg (fun find => it.declarators.findSome? find) (funext fun declarator => declarator.target?_eq name)
  | exportDefault it =>
    dsimp only
    cases it.function? with
    | none => rfl
    | some function => exact function.target?_eq name
  | _ => rfl

theorem Program.functionNamed?_eq (program : Program) :
    program.functionNamed? name = (program.candidates.find? fun first => first.name = name).map Candidate.target := by
  rw [functionNamed?, candidates, List.find?_flatMap, List.map_findSome?]
  exact congrArg (fun find => program.statements.findSome? find) (funext fun statement => statement.functionTarget?_eq name)

end

theorem Program.functionNamed?_some {program : Program} {name : Text} {target : FunctionTarget} :
    program.functionNamed? name = some target ↔ ∃ before after, program.candidates = before ++ ⟨name, target⟩ :: after ∧
      ∀ other ∈ before, other.name ≠ name := by
  rw [functionNamed?_eq, Option.map_eq_some_iff]
  constructor
  · rintro ⟨first, found, rfl⟩
    obtain ⟨same, before, after, split, others⟩ := List.find?_eq_some_iff_append.mp found
    cases of_decide_eq_true same
    exact ⟨before, after, split, fun other member => by simpa using others other member⟩
  · rintro ⟨before, after, split, others⟩
    exact ⟨_, List.find?_eq_some_iff_append.mpr
      ⟨decide_eq_true rfl, before, after, split, fun other member => by simpa using others other member⟩, rfl⟩

theorem Program.functionNamed?_none {program : Program} {name : Text} :
    program.functionNamed? name = none ↔ ∀ candidate ∈ program.candidates, candidate.name ≠ name := by
  rw [functionNamed?_eq, Option.map_eq_none_iff, List.find?_eq_none]
  simp

/-! ### The new body -/

/-- A function without a match is a miss; else the body is read and printed in the place of the old one. -/
theorem Program.updateFunctionBody_ok {program : Program} {style : Style} {name body : Text} {change : Change} :
    program.updateFunctionBody style name body = .ok change ↔
      program.functionNamed? name = none ∧ change = .miss ∨
        ∃ target snippet, program.functionNamed? name = some target ∧ target.shell.parseBody body = .ok snippet ∧
          change = .done ⟨target.body.span, style.block snippet (lineIndent program.source target.body.start)⟩ := by
  unfold updateFunctionBody
  split
  next none => simp [none, eq_comm]
  next target found =>
    constructor
    · intro done
      obtain ⟨snippet, read, made⟩ := Except.ok_of_bind done
      cases made
      exact .inr ⟨target, snippet, found, Operation.readPiece_eq_ok.mp read, rfl⟩
    · rintro (⟨none, -⟩ | ⟨other, snippet, again, read, rfl⟩)
      · cases found.symm.trans none
      · cases found.symm.trans again
        rw [Operation.readPiece_eq_ok.mpr read]
        rfl

/-- What a new body is printed as: a block for the line that the old one started on, with the line ending of the text. -/
def FunctionTarget.printed (target : FunctionTarget) (style : Style) (source : Text) (snippet : Snippet) : Text :=
  LineEnding.normalize (LineEnding.detect source) (style.block snippet (lineIndent source target.body.start))

/-- A text in which another one stands in the place of a function's body, and else nothing has changed. -/
def FunctionTarget.Rebodied (target : FunctionTarget) (source printed code : Text) : Prop :=
  ∃ front back, source = front ++ (target.body.text ++ back) ∧ Text.bytes front = target.body.start ∧
    code = front ++ (printed ++ back)

theorem Config.edit_body {config : Config} {request : Request} {outcome : Outcome} {name body : Text}
    (asked : Operation.ofRequest request = .ok (.updateFunctionBody name body)) (done : config.edit request = .ok outcome) :
    ∃ program, Program.parse request.content = .ok program ∧
      (program.functionNamed? name = none ∧ outcome.applied = false ∧ outcome.code = request.content ∨
        ∃ target snippet, program.functionNamed? name = some target ∧ target.shell.parseBody body = .ok snippet ∧
          outcome.applied = true ∧
          target.Rebodied request.content (target.printed config.style request.content snippet) outcome.code) := by
  obtain ⟨program, operation, change, framed⟩ := config.edit_framed request outcome done
  have ran := framed.ran
  cases framed.asked.symm.trans asked
  have source := (Program.parse_ok framed.read).1
  refine ⟨program, framed.read, ?_⟩
  rcases Program.updateFunctionBody_ok.mp ran with ⟨missed, rfl⟩ | ⟨target, snippet, found, read, rfl⟩
  · exact .inl ⟨missed, framed.applied, framed.untouched rfl⟩
  · obtain ⟨-, -, -, front, back, taken, dropped, code⟩ := framed.replaced _ rfl
    obtain ⟨before, after, whole, start⟩ := (Program.functionNamed?_stands found).place
    rw [source] at whole code
    -- the two cuts are before and behind the body
    have first : front = before := by
      rw [whole, show (Patch.mk target.body.span _).span.start = Text.bytes before from start.symm, Text.take?_append] at taken
      exact (Option.some.inj taken).symm
    have rest : back = after := by
      have stop : target.body.stop = Text.bytes (before ++ target.body.text) := by
        rw [target.body.stop_eq, Text.bytes_append, start]
      rw [whole, ← List.append_assoc, show (Patch.mk target.body.span _).span.stop = _ from stop, Text.drop?_append] at dropped
      exact (Option.some.inj dropped).symm
    refine .inr ⟨target, snippet, found, read, framed.applied, before, after, whole, start, ?_⟩
    rw [code, first, rest, List.append_assoc]
    rfl

/-- The function that is looked for is the first of all candidates with its name, where a variable is one if its value
is an arrow function inside of any number of parentheses. A successful edit puts the new body in the place of its body
and leaves all bytes outside of it alone. -/
theorem Program.first_function {source : Text} {program : Program} (read : Program.parse source = .ok program) (name : Text) :
    (program.functionNamed? name = none ↔ ∀ candidate ∈ program.candidates, candidate.name ≠ name) ∧
    (∀ target, program.functionNamed? name = some target ↔
      ∃ before after, program.candidates = before ++ ⟨name, target⟩ :: after ∧ ∀ other ∈ before, other.name ≠ name) ∧
    (∀ declarator : Declarator, ∀ arrow, declarator.arrow? = some ⟨arrow⟩ ↔
      arrow.kind = .arrowFunction ∧ ∃ value, declarator.value? = some value ∧ arrow.Within value) ∧
    ∀ (config : Config) (request : Request) (outcome : Outcome) (body : Text), request.content = source →
      Operation.ofRequest request = .ok (.updateFunctionBody name body) → config.edit request = .ok outcome →
      (program.functionNamed? name = none → outcome.applied = false ∧ outcome.code = source) ∧
      ∀ target, program.functionNamed? name = some target → outcome.applied = true ∧
        ∃ snippet, target.shell.parseBody body = .ok snippet ∧
          target.Rebodied source (target.printed config.style source snippet) outcome.code := by
  refine ⟨functionNamed?_none, fun target => functionNamed?_some, fun declarator arrow => Declarator.arrow?_iff, ?_⟩
  rintro config request outcome body rfl asked done
  obtain ⟨other, again, made⟩ := Config.edit_body asked done
  cases read.symm.trans again
  rcases made with ⟨missed, applied, code⟩ | ⟨target, snippet, found, parsed, applied, rebodied⟩
  · refine ⟨fun _ => ⟨applied, code⟩, fun target found => ?_⟩
    cases missed.symm.trans found
  · refine ⟨fun missed => ?_, fun other again => ?_⟩
    · cases found.symm.trans missed
    cases found.symm.trans again
    exact ⟨applied, snippet, parsed, rebodied⟩

def arrowRequest (content body : Text) : Request where
  action := .updateFunctionBody
  selector := some { functionName := some ['f'] }
  payload := some { functionBody := some body }
  content := content

theorem arrowRequest_asked {content body : Text} (filled : body.isEmpty = false) :
    Operation.ofRequest (arrowRequest content body) = .ok (.updateFunctionBody ['f'] body) := by
  cases body with
  | nil => cases filled
  | cons c rest => rfl

namespace Program

def bodyPlace? (program : Program) : Option (FunctionShell × Span) :=
  (program.functionNamed? ['f']).map fun target => (target.shell, target.body.span)

def withBody? (program : Program) (body : Text) : Option (Bool × Text) :=
  (program.updateFunctionBody {} ['f'] body).toOption.map fun change => (change.applied, change.code program)

end Program

theorem arrowRequest_edit {config : Config} {content body code : Text} {program : Program} {applied : Bool}
    (plain : config.style = {}) (small : Text.bytes content ≤ config.maxBytes) (filled : body.isEmpty = false)
    (read : Program.parse content = .ok program) (made : program.withBody? body = some (applied, code)) :
    ∃ outcome, config.edit (arrowRequest content body) = .ok outcome ∧ outcome.applied = applied ∧ outcome.code = code := by
  obtain ⟨change, ran, same⟩ := Option.map_eq_some_iff.mp made
  obtain ⟨rfl, rfl⟩ := Prod.mk.inj same
  have ran : (Operation.updateFunctionBody ['f'] body).run config.style program = .ok change := by
    rw [plain]
    exact Except.ok_of_toOption ran
  exact ⟨_, Config.edit_ok.mpr ⟨program, _, change, small, read, arrowRequest_asked filled, ran, rfl⟩, rfl, rfl⟩

/-- A variable and an arrow function of the same name, in parentheses. -/
def nestedArrow : Request := arrowRequest "let f=1\r\nvar g,f=((()=>2))\r\n".toList "g()".toList

/-- What the arrow function comes to. -/
def nestedBlock : Text := "let f=1\r\nvar g,f=((()=>\x7b\r\n  g()\r\n\x7d))\r\n".toList

set_option maxRecDepth 100000 in
theorem parse_nestedArrow :
    (Program.parse nestedArrow.content).toOption.map (fun program =>
      (program.bodyPlace?, program.withBody? "g()".toList)) = some (some (.arrow, ⟨23, 24⟩), some (true, nestedBlock)) ∧
    (Program.parse nestedBlock).toOption.map Program.bodyPlace? = some (some (.arrow, ⟨23, 34⟩)) := by
  decide +kernel

theorem Program.first_function_nested : ∃ program outcome target snippet, Program.parse nestedArrow.content = .ok program ∧
    program.functionNamed? ['f'] = some target ∧ target.shell = .arrow ∧ target.body.span = ⟨23, 24⟩ ∧
    Operation.ofRequest nestedArrow = .ok (.updateFunctionBody ['f'] "g()".toList) ∧
    Config.edit {} nestedArrow = .ok outcome ∧ outcome.applied = true ∧ outcome.code = nestedBlock ∧
    target.shell.parseBody "g()".toList = .ok snippet ∧
    target.Rebodied nestedArrow.content (target.printed {} nestedArrow.content snippet) outcome.code ∧
    ∃ before after, program.candidates = before ++ ⟨['f'], target⟩ :: after ∧ ∀ other ∈ before, other.name ≠ ['f'] := by
  obtain ⟨program, found, results⟩ := Option.map_eq_some_iff.mp parse_nestedArrow.1
  obtain ⟨place, made⟩ := Prod.mk.inj results
  obtain ⟨target, named, same⟩ := Option.map_eq_some_iff.mp place
  obtain ⟨shell, span⟩ := Prod.mk.inj same
  have read := Except.ok_of_toOption found
  have small : Text.bytes nestedArrow.content ≤ ({} : Config).maxBytes := by decide
  obtain ⟨outcome, done, -, code⟩ := arrowRequest_edit rfl small rfl read made
  have asked : Operation.ofRequest nestedArrow = .ok (.updateFunctionBody ['f'] "g()".toList) := arrowRequest_asked rfl
  obtain ⟨-, first, -, edits⟩ := Program.first_function read ['f']
  obtain ⟨applied, snippet, parsed, rebodied⟩ := (edits {} nestedArrow outcome _ rfl asked done).2 target named
  exact ⟨program, outcome, target, snippet, read, named, shell, span, asked, done, applied, code, parsed, rebodied,
    (first target).mp named⟩

end Graft
