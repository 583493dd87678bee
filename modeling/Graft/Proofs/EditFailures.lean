import Graft.Edit.Run
import Graft.Proofs.Results

/-! When an edit fails, and how. What an action asks a request for is listed in the order of asking, and the causes to
fail are those of a relation in which each cause holds only where those before it do not: the size of the text, the
text itself, what the request lacks, and what it brings that cannot be read. An edit fails for just these causes. -/

namespace Graft

/-! ### What requests say -/

/-- What an action requires, in the order of asking. -/
def Action.requirements : Action → List Requirement
  | upsertImport => [.imports, .module]
  | updateFunctionBody => [.functionName, .functionBody]
  | replaceElement => [.tag, .replacement]
  | replaceAttributes => [.tag, .attributes]
  | insertAfterLastImport => [.insertText]
  | insertAtTop => [.insertText]

namespace Request

def imports? (request : Request) : Option ImportPayload := request.payload.bind Payload.imports

def functionName? (request : Request) : Option Text := request.selector.bind Selector.functionName

def functionBody? (request : Request) : Option Text := request.payload.bind Payload.functionBody

def tag? (request : Request) : Option Text := request.selector.bind Selector.tag

def replacement? (request : Request) : Option Text := request.payload.bind Payload.replacement

def attributes? (request : Request) : Option Json.Members := request.payload.bind Payload.attributes

def insertText? (request : Request) : Option Text := request.payload.bind Payload.insertText

/-- Whether a request has what is required. An empty text counts as missing, an empty list of attributes does not. -/
def has (request : Request) : Requirement → Bool
  | .imports => request.imports?.isSome
  | .module => request.imports?.any fun imports => !imports.module.isEmpty
  | .functionName => request.functionName?.any fun text => !text.isEmpty
  | .functionBody => request.functionBody?.any fun text => !text.isEmpty
  | .tag => request.tag?.any fun text => !text.isEmpty
  | .replacement => request.replacement?.any fun text => !text.isEmpty
  | .attributes => request.attributes?.isSome
  | .insertText => request.insertText?.any fun text => !text.isEmpty

def lacking? (request : Request) : Option Requirement :=
  request.action.requirements.find? fun requirement => !request.has requirement

end Request

/-! ### Causes -/

/-- Why a program refuses a request that has all it requires. Nothing else is refused: bringing in imports and replacing
attributes always succeed. -/
inductive Program.Refuses (program : Program) (request : Request) : EditError → Prop
  /-- A body is read in the shell of the function that was found; without one it is not read. -/
  | functionBody {name body : Text} {target : FunctionTarget} {error : ParseError}
      (action : request.action = .updateFunctionBody)
      (named : request.functionName? = some name) (brought : request.functionBody? = some body)
      (found : program.functionNamed? name = some target) (unread : target.shell.parseBody body = .error error) :
      program.Refuses request (.piece .functionBody error)
  | replacement {text : Text} {error : ParseError} (action : request.action = .replaceElement)
      (brought : request.replacement? = some text) (unread : ParsedExpression.parse text = .error error) :
      program.Refuses request (.piece .replacement error)
  | notMarkup {text : Text} {expression : ParsedExpression} (action : request.action = .replaceElement)
      (brought : request.replacement? = some text) (read : ParsedExpression.parse text = .ok expression)
      (other : expression.isMarkup = false) :
      program.Refuses request (.invalid .notMarkup)
  | insertText {text : Text} {error : ParseError}
      (action : request.action = .insertAfterLastImport ∨ request.action = .insertAtTop)
      (brought : request.insertText? = some text) (unread : Program.parse text = .error error) :
      program.Refuses request (.piece .insertText error)

/-- Why an edit fails, each cause behind those that are looked at before it. -/
inductive Config.Fails (config : Config) (request : Request) : EditError → Prop
  | tooLarge (large : config.maxBytes < Text.bytes request.content) :
      config.Fails request (.tooLarge (Text.bytes request.content) config.maxBytes)
  | content {error : ParseError} (small : Text.bytes request.content ≤ config.maxBytes)
      (unread : Program.parse request.content = .error error) : config.Fails request (.content error)
  | lacks {program : Program} {requirement : Requirement} (small : Text.bytes request.content ≤ config.maxBytes)
      (read : Program.parse request.content = .ok program) (lacking : request.lacking? = some requirement) :
      config.Fails request (.invalid (.lacks request.action requirement))
  | refused {program : Program} {error : EditError} (small : Text.bytes request.content ≤ config.maxBytes)
      (read : Program.parse request.content = .ok program) (complete : request.lacking? = none)
      (refuses : program.Refuses request error) : config.Fails request error

/-! ### Operations -/

/-- A field of a record that may be missing, if a missing record counts as one without the field. -/
theorem Option.apply_getD {α β : Type} {field : α → Option β} {default : α} (none : field default = none)
    (record : Option α) : field (record.getD default) = record.bind field := by
  cases record with
  | none => exact none
  | some _ => rfl

namespace Operation

/-- The operation that a request asks for holds what the request says. -/
def AskedBy (request : Request) : Operation → Prop
  | upsertImport module specifiers => request.action = .upsertImport ∧ request.imports? = some ⟨module, specifiers⟩
  | updateFunctionBody name body =>
    request.action = .updateFunctionBody ∧ request.functionName? = some name ∧ request.functionBody? = some body
  | replaceElement tag replacement =>
    request.action = .replaceElement ∧ request.tag? = some tag ∧ request.replacement? = some replacement
  | replaceAttributes tag attributes =>
    request.action = .replaceAttributes ∧ request.tag? = some tag ∧ request.attributes? = some attributes
  | insertAfterLastImport text => request.action = .insertAfterLastImport ∧ request.insertText? = some text
  | insertAtTop text => request.action = .insertAtTop ∧ request.insertText? = some text

/-- What has been read of a request for a requirement: what the request says, if it has what is required. -/
def Read {α : Type} (request : Request) (requirement : Requirement) (said : Option α) (read : Except EditError α) : Prop :=
  (∃ value, said = some value ∧ read = .ok value ∧ request.has requirement = true) ∨
    (read = .error (.invalid (.lacks request.action requirement)) ∧ request.has requirement = false)

def Asked (request : Request) (asked : Except EditError Operation) : Prop :=
  (∃ operation, asked = .ok operation ∧ request.lacking? = none ∧ operation.AskedBy request) ∨
    ∃ requirement, asked = .error (.invalid (.lacks request.action requirement)) ∧ request.lacking? = some requirement

section
variable {α β : Type} {request : Request} {requirement : Requirement}

theorem required_read {said : Option α} (has : request.has requirement = said.isSome) :
    Read request requirement said (required request.action requirement said) := by
  cases said with
  | none => exact .inr ⟨rfl, has⟩
  | some value => exact .inl ⟨value, rfl, rfl, has⟩

theorem requiredText_read {said : Option Text} (has : request.has requirement = said.any fun text => !text.isEmpty) :
    Read request requirement said (requiredText request.action requirement said) := by
  cases said with
  | none => exact .inr ⟨rfl, has⟩
  | some text =>
    cases text with
    | nil => exact .inr ⟨rfl, has⟩
    | cons c text => exact .inl ⟨c :: text, rfl, rfl, has⟩

theorem asked_one {said : Option α} {read : Except EditError α} {make : α → Operation}
    (list : request.action.requirements = [requirement]) (first : Read request requirement said read)
    (asks : ∀ value, said = some value → (make value).AskedBy request) :
    Asked request (do return make (← read)) := by
  unfold Asked Request.lacking?
  rw [list]
  rcases first with ⟨value, told, rfl, has⟩ | ⟨rfl, lacks⟩
  · exact .inl ⟨make value, rfl, by simp [has], asks value told⟩
  · exact .inr ⟨requirement, rfl, by simp [lacks]⟩

theorem asked_two {other : Requirement} {said : Option α} {read : Except EditError α} {told : α → Option β}
    {reads : α → Except EditError β} {make : α → β → Operation}
    (list : request.action.requirements = [requirement, other]) (first : Read request requirement said read)
    (second : ∀ one, said = some one → Read request other (told one) (reads one))
    (asks : ∀ one two, said = some one → told one = some two → (make one two).AskedBy request) :
    Asked request (do
      let one ← read
      let two ← reads one
      return make one two) := by
  unfold Asked Request.lacking?
  rw [list]
  rcases first with ⟨one, told, rfl, has⟩ | ⟨rfl, lacks⟩
  · rcases second one told with ⟨two, also, read, met⟩ | ⟨read, lacks⟩
    · exact .inl ⟨make one two, by simp only [bind, Except.bind, read]; rfl, by simp [has, met], asks one two told also⟩
    · exact .inr ⟨other, by simp only [bind, Except.bind, read], by simp [has, lacks]⟩
  · exact .inr ⟨requirement, rfl, by simp [lacks]⟩

end

theorem ofRequest_asked (request : Request) : Asked request (ofRequest request) := by
  have functionName : (request.selector.getD {}).functionName = request.functionName? := Option.apply_getD rfl _
  have tag : (request.selector.getD {}).tag = request.tag? := Option.apply_getD rfl _
  have imports : (request.payload.getD {}).imports = request.imports? := Option.apply_getD rfl _
  have functionBody : (request.payload.getD {}).functionBody = request.functionBody? := Option.apply_getD rfl _
  have replacement : (request.payload.getD {}).replacement = request.replacement? := Option.apply_getD rfl _
  have attributes : (request.payload.getD {}).attributes = request.attributes? := Option.apply_getD rfl _
  have insertText : (request.payload.getD {}).insertText = request.insertText? := Option.apply_getD rfl _
  -- a missing selector or payload counts as an empty one
  unfold ofRequest
  simp only [functionName, tag, imports, functionBody, replacement, attributes, insertText]
  split
  next action =>
    refine asked_two (by rw [action]; rfl) (required_read rfl) (fun one said => requiredText_read ?_) ?_
    · simp [Request.has, said]
    · intro one two said also
      cases also
      exact ⟨action, said⟩
  next action =>
    exact asked_two (by rw [action]; rfl) (requiredText_read rfl) (fun _ _ => requiredText_read rfl)
      fun name body named brought => ⟨action, named, brought⟩
  next action =>
    exact asked_two (by rw [action]; rfl) (requiredText_read rfl) (fun _ _ => requiredText_read rfl)
      fun tag replacement named brought => ⟨action, named, brought⟩
  next action =>
    exact asked_two (by rw [action]; rfl) (requiredText_read rfl) (fun _ _ => required_read rfl)
      fun tag attributes named brought => ⟨action, named, brought⟩
  next action =>
    exact asked_one (by rw [action]; rfl) (requiredText_read rfl) fun text brought => ⟨action, brought⟩
  next action =>
    exact asked_one (by rw [action]; rfl) (requiredText_read rfl) fun text brought => ⟨action, brought⟩

end Operation

/-! ### Running -/

namespace Program
variable {program : Program} {style : Style} {error : EditError}

theorem updateFunctionBody_eq_error {name body : Text} : program.updateFunctionBody style name body = .error error ↔
    ∃ target cause, program.functionNamed? name = some target ∧ target.shell.parseBody body = .error cause ∧
      error = .piece .functionBody cause := by
  unfold updateFunctionBody
  split
  next none => simp [none]
  next target found =>
    rw [Except.bind_eq_error, Operation.readPiece_eq_error, found]
    simp [pure, Except.pure]

theorem replaceElement_eq_error {tag replacement : Text} : program.replaceElement tag replacement = .error error ↔
    (∃ cause, ParsedExpression.parse replacement = .error cause ∧ error = .piece .replacement cause) ∨
      ∃ expression, ParsedExpression.parse replacement = .ok expression ∧ expression.isMarkup = false ∧
        error = .invalid .notMarkup := by
  unfold replaceElement
  rw [Except.bind_eq_error, Operation.readPiece_eq_error]
  apply or_congr_right
  constructor
  · rintro ⟨expression, read, failed⟩
    refine ⟨expression, Operation.readPiece_eq_ok.mp read, ?_⟩
    split at failed
    next => split at failed <;> cases failed
    next other =>
      cases failed
      exact ⟨Bool.eq_false_iff.mpr other, rfl⟩
  · rintro ⟨expression, read, other, rfl⟩
    refine ⟨expression, Operation.readPiece_eq_ok.mpr read, ?_⟩
    rw [if_neg (Bool.eq_false_iff.mp other)]

theorem insertStatements_eq_error {anchor : Anchor} {text : Text} : program.insertStatements anchor text = .error error ↔
    ∃ cause, Program.parse text = .error cause ∧ error = .piece .insertText cause := by
  unfold insertStatements parseStatements
  rw [Except.bind_eq_error, Operation.readPiece_eq_error]
  cases Program.parse text with
  | error cause => simp [Except.map, Operation.readPiece]
  | ok read => simp [Except.map, Operation.readPiece, pure, Except.pure]

end Program

theorem Operation.run_eq_error {operation : Operation} {request : Request} (asked : operation.AskedBy request)
    {style : Style} {program : Program} {error : EditError} :
    operation.run style program = .error error ↔ program.Refuses request error := by
  cases operation with
  | upsertImport module specifiers =>
    obtain ⟨action, _⟩ := asked
    refine ⟨fun failed => (by cases failed), fun refuses => ?_⟩
    cases refuses <;> simp_all
  | updateFunctionBody name body =>
    obtain ⟨action, named, brought⟩ := asked
    refine Program.updateFunctionBody_eq_error.trans ⟨?_, fun refuses => ?_⟩
    · rintro ⟨target, cause, found, unread, rfl⟩
      exact .functionBody action named brought found unread
    · cases refuses <;> simp_all
  | replaceElement tag replacement =>
    obtain ⟨action, _, brought⟩ := asked
    refine Program.replaceElement_eq_error.trans ⟨?_, fun refuses => ?_⟩
    · rintro (⟨cause, unread, rfl⟩ | ⟨expression, read, other, rfl⟩)
      · exact .replacement action brought unread
      · exact .notMarkup action brought read other
    · cases refuses <;> simp_all
  | replaceAttributes tag attributes =>
    obtain ⟨action, _⟩ := asked
    refine ⟨fun failed => (by cases failed), fun refuses => ?_⟩
    cases refuses <;> simp_all
  | insertAfterLastImport text =>
    obtain ⟨action, brought⟩ := asked
    refine Program.insertStatements_eq_error.trans ⟨?_, fun refuses => ?_⟩
    · rintro ⟨cause, unread, rfl⟩
      exact .insertText (.inl action) brought unread
    · cases refuses <;> simp_all
  | insertAtTop text =>
    obtain ⟨action, brought⟩ := asked
    refine Program.insertStatements_eq_error.trans ⟨?_, fun refuses => ?_⟩
    · rintro ⟨cause, unread, rfl⟩
      exact .insertText (.inr action) brought unread
    · cases refuses <;> simp_all

namespace Config
variable {config : Config} {request : Request} {program : Program} {error : EditError}

theorem fails_iff_of_large (large : config.maxBytes < Text.bytes request.content) :
    config.Fails request error ↔ error = .tooLarge (Text.bytes request.content) config.maxBytes := by
  constructor
  · intro fails
    cases fails with
    | tooLarge _ => rfl
    | content small _ | lacks small _ _ | refused small _ _ _ => exact absurd large (Nat.not_lt.mpr small)
  · rintro rfl
    exact .tooLarge large

section
variable (small : Text.bytes request.content ≤ config.maxBytes)
include small

theorem fails_iff_of_unread {cause : ParseError} (unread : Program.parse request.content = .error cause) :
    config.Fails request error ↔ error = .content cause := by
  constructor
  · intro fails
    cases fails with
    | tooLarge large => exact absurd large (Nat.not_lt.mpr small)
    | content _ other => cases unread.symm.trans other; rfl
    | lacks _ read _ | refused _ read _ _ => cases unread.symm.trans read
  · rintro rfl
    exact .content small unread

variable (read : Program.parse request.content = .ok program)
include read

theorem fails_iff_of_lacking {requirement : Requirement} (lacking : request.lacking? = some requirement) :
    config.Fails request error ↔ error = .invalid (.lacks request.action requirement) := by
  constructor
  · intro fails
    cases fails with
    | tooLarge large => exact absurd large (Nat.not_lt.mpr small)
    | content _ unread => cases read.symm.trans unread
    | lacks _ _ other => cases lacking.symm.trans other; rfl
    | refused _ _ complete _ => cases lacking.symm.trans complete
  · rintro rfl
    exact .lacks small read lacking

theorem fails_iff_of_complete (complete : request.lacking? = none) :
    config.Fails request error ↔ program.Refuses request error := by
  constructor
  · intro fails
    cases fails with
    | tooLarge large => exact absurd large (Nat.not_lt.mpr small)
    | content _ unread => cases read.symm.trans unread
    | lacks _ _ lacking => cases complete.symm.trans lacking
    | refused _ other _ refuses => cases read.symm.trans other; exact refuses
  · exact .refused small read complete

end

/-- An edit fails just for the causes that are listed, in their order. -/
theorem edit_eq_error_iff (config : Config) (request : Request) (error : EditError) :
    config.edit request = .error error ↔ config.Fails request error := by
  unfold edit checkSize
  by_cases large : config.maxBytes < Text.bytes request.content
  · rw [if_pos large, fails_iff_of_large large]
    exact ⟨fun failed => by cases failed; rfl, fun same => by rw [same]; rfl⟩
  have small := Nat.not_lt.mp large
  rw [if_neg large]
  cases read : Program.parse request.content with
  | error cause =>
    rw [fails_iff_of_unread small read]
    exact ⟨fun failed => by cases failed; rfl, fun same => by rw [same]; rfl⟩
  | ok program =>
    rcases Operation.ofRequest_asked request with ⟨operation, asked, complete, holds⟩ | ⟨requirement, asked, lacking⟩
    · rw [fails_iff_of_complete small read complete, ← Operation.run_eq_error holds, asked]
      cases ran : operation.run config.style program <;> simp [bind, Except.bind, pure, Except.pure, ran]
    · rw [fails_iff_of_lacking small read lacking, asked]
      exact ⟨fun failed => by cases failed; rfl, fun same => by rw [same]; rfl⟩

end Config
end Graft
