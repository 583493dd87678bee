import Graft.Proofs.StrictReading
import Graft.Wire.Request

/-! The two readers of requests. One looks the action up while it reads, the other reads the whole text first. They
differ in nothing else, so they read the same requests, and a text whose only fault is its action is told apart from
all others by the second. -/

namespace Graft

open Json (Fault Field Reader Record Strict StrictParse)

namespace Action

theorem ofTag?_tag (action : Action) : ofTag? action.tag = some action := by
  cases action <;> decide

theorem tag_of_ofTag? {tag : Text} {action : Action} (found : ofTag? tag = some action) : action.tag = tag := by
  simpa using List.find?_some found

end Action

/-! ### Actions read in two ways -/

section
variable {α β : Type}

def Request.Draft.map (as : α → β) (draft : Request.Draft α) : Request.Draft β :=
  ⟨draft.action.map as, draft.selector, draft.payload, draft.content⟩

def RequestOf.map (as : α → β) (wire : RequestOf α) : RequestOf β :=
  ⟨as wire.action, wire.selector, wire.payload, wire.content⟩

variable {as : α → β} {unknown : Fault → β → Prop} {first : Reader α} {second : Reader β}

/-- Why the strict reader is lost shows in the action of the lenient one's draft. -/
def Request.Draft.Lost (unknown : Fault → β → Prop) (fault : Fault) (draft : Request.Draft β) : Prop :=
  ∃ action, draft.action = some action ∧ unknown fault action

theorem RequestOf.record_strict (name other : String)
    (reads : ∀ depth text, StrictParse (fun action it => it = as action) unknown (first depth text) (second depth text)) :
    Record.Strict (fun draft it => it = draft.map as) (Request.Draft.Lost unknown) (fun wire it => it = wire.map as)
      (fun fault it => unknown fault it.action) (RequestOf.record name first) (RequestOf.record other second) := by
  refine ⟨?_, ?_, rfl, ?_, ?_, ?_⟩
  · refine .cons ?_ (.cons ?_ (.cons ?_ (.cons ?_ .nil)))
    · refine ⟨rfl, rfl, ?_, ?_, ?_⟩
      · rintro draft _ rfl
        simp [Field.of, Request.Draft.map]
      · rintro draft _ depth text rfl _
        refine (reads depth text).bind ?_ ?_
        · rintro ⟨action, rest⟩ ⟨_, _⟩ ⟨rfl, rfl⟩ _
          exact .both ⟨rfl, rfl⟩
        · rintro fault ⟨action, rest⟩ result reason _ read
          cases read
          exact ⟨action, rfl, reason⟩
      · rintro fault it depth text result ⟨action, here, _⟩ free
        simp [Field.of, here] at free
    all_goals
      refine Field.of_strict ?_ ?_ ?_
      · rintro draft _ rfl
        rfl
      · rintro draft _ part rfl
        rfl
      · exact fun fault it part reason => reason
  · simp only [record, List.pairwise_cons, List.forall_mem_cons]
    simp [Field.of_apart]
  · simp [record, Field.of]
  · rintro draft _ rfl
    cases action : draft.action with
    | none => simp only [record, Request.Draft.map, action]; exact .neither
    | some given => simp only [record, Request.Draft.map, action]; exact .both rfl
  · rintro fault it result ⟨action, here, reason⟩ finished
    simp only [record, here] at finished
    cases finished
    exact reason

end

namespace Request

/-- An action that is looked up at once is lost where its text is no action's. -/
def UnknownTag (fault : Fault) (tag : Text) : Prop :=
  Action.ofTag? tag = none ∧ fault = .rejected (EditError.unknownAction tag).message

theorem readAction_strict (depth : Nat) (text : Text) :
    StrictParse (fun action tag => tag = action.tag) UnknownTag (readAction depth text) (Wire.text depth text) := by
  unfold readAction Wire.text
  cases Json.text text with
  | error fault => exact .neither
  | ok result =>
    obtain ⟨tag, rest⟩ := result
    cases found : Action.ofTag? tag with
    | none => simp only [bind, Except.bind, found]; exact .lost ⟨found, rfl⟩
    | some action =>
      simp only [bind, Except.bind, found]
      exact .both ⟨(Action.tag_of_ofTag? found).symm, rfl⟩

/-- Looking the action up at once reads what reading all of the text and looking it up then does. -/
theorem ofJsonDirect_strict (name : String) (text : Text) :
    Strict (fun wire it => it = wire.map Action.tag) (fun fault it => UnknownTag fault it.action)
      (Json.decode (RequestOf.record "EditRequest" readAction).read text)
      (Json.decode (RequestOf.record name Wire.text).read text) :=
  Record.decode_strict (RequestOf.record_strict "EditRequest" name readAction_strict) text

/-- The name of a record is nothing but a part of its faults. -/
theorem decode_name (name other : String) {text : Text} {wire : RequestOf Text}
    (read : Json.decode (RequestOf.record name Wire.text).read text = .ok wire) :
    Json.decode (RequestOf.record other Wire.text).read text = .ok wire := by
  have alike : ∀ depth text, StrictParse (fun tag it => it = id tag) (fun _ _ => False) (Wire.text depth text)
      (Wire.text depth text) := by
    intro depth text
    cases Wire.text depth text with
    | error fault => exact .neither
    | ok result => exact .both ⟨rfl, rfl⟩
  have same := Record.decode_strict (RequestOf.record_strict name other alike) text
  rw [read] at same
  generalize Json.decode (RequestOf.record other Wire.text).read text = result at same
  cases same with
  | both related =>
    rw [related]
    rfl

/-- The two readers read the same requests. What the one calls an unknown action the other refuses for its action alone:
the text has the shape of a request, in which all else is well typed. -/
theorem readers_agree (text : Text) :
    (∀ request, ofJson text = .ok request ↔ ofJsonDirect text = .ok request) ∧
      ∀ tag, ofJson text = .error (.unknownAction tag) ↔
        ofJsonDirect text = .error (.rejected (EditError.unknownAction tag).message) ∧ Action.ofTag? tag = none ∧
          ∃ shape, Json.decode (RequestOf.record "EditRequest" Wire.text).read text = .ok shape ∧ shape.action = tag := by
  have strict := ofJsonDirect_strict "WireRequest" text
  have renamed : ∀ shape, Json.decode (RequestOf.record "EditRequest" Wire.text).read text = .ok shape ↔
      Json.decode (RequestOf.record "WireRequest" Wire.text).read text = .ok shape :=
    fun shape => ⟨decode_name _ _, decode_name _ _⟩
  simp only [renamed]
  unfold ofJson ofJsonDirect
  generalize Json.decode (RequestOf.record "EditRequest" readAction).read text = direct at strict
  generalize Json.decode (RequestOf.record "WireRequest" Wire.text).read text = wire at strict
  cases strict with
  | both related =>
    rw [related]
    simp [RequestOf.map, Action.ofTag?_tag, Except.map]
  | @lost _ shape reason =>
    obtain ⟨none, rfl⟩ := reason
    simp only [none, Except.map]
    refine ⟨by simp, fun tag => ⟨?_, ?_⟩⟩
    · intro same
      cases same
      exact ⟨rfl, none, shape, rfl, rfl⟩
    · rintro ⟨_, _, _, same, rfl⟩
      cases same
      rfl
  | neither => simp [Except.map]

end Request
end Graft
