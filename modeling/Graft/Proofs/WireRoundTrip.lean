import Graft.Proofs.RequestReaders
import Graft.Proofs.SpelledRecords
import Graft.Wire.Config
import Graft.Wire.Outcome

/-! What is written as JSON is read back. Requests, outcomes and configurations are taken from every spelling of the
value that they are written as, and so from the compact and from the indented text. -/

namespace Graft

open Json (Ends Field IsGap IsInteger Members Record Runs Spells Takes Value)
open Diff (EditRange)

/-! ### Requests -/

/-- The draft of a selector, where a part that is missing has not been read. -/
def Selector.draft (selector : Selector) : Selector.Draft :=
  ⟨selector.functionName.map some, selector.tag.map some⟩

theorem getD_map_some {α : Type} (part : Option α) : (part.map some).getD none = part := by
  cases part <;> rfl

theorem Selector.finish_draft (selector : Selector) : Selector.record.finish selector.draft = .ok selector := by
  change Except.ok (Selector.mk _ _) = _
  rw [draft, getD_map_some, getD_map_some]

theorem Selector.record_takes {depth : Nat} (left : 2 ≤ depth) (selector : Selector) :
    Takes (Selector.record.read depth) selector.toJson selector := by
  have names : Runs (Selector.record.member (depth - 1)) {}
      (Wire.optionalMember "functionName" (selector.functionName.map .string))
      (Selector.draft { functionName := selector.functionName }) :=
    Record.optional_runs (fun name => Selector.draft { functionName := name }) rfl rfl
      (fun _ => rfl) (fun it _ => Json.text_takes it) (by rintro _ ⟨⟩)
  have tags : Runs (Selector.record.member (depth - 1)) (Selector.draft { functionName := selector.functionName })
      (Wire.optionalMember "jsxTag" (selector.tag.map .string)) selector.draft :=
    Record.optional_runs (fun tag => Selector.draft { selector with tag }) rfl rfl
      (fun _ => rfl) (fun it _ => Json.text_takes it) (by rintro _ ⟨⟩)
  exact Record.read_takes left (names.append tags) selector.finish_draft

theorem ImportPayload.record_takes {depth : Nat} (left : 3 ≤ depth) (payload : ImportPayload) :
    Takes (ImportPayload.record.read depth) payload.toJson payload := by
  have module : Takes (ImportPayload.record.member (depth - 1) "module".toList {}) (.string payload.module)
      { module := some payload.module } :=
    Record.member_takes rfl rfl rfl (Json.text_takes payload.module)
  have specifiers : Takes (ImportPayload.record.member (depth - 1) "specifiers".toList { module := some payload.module })
      (.array (payload.specifiers.map .string)) { module := some payload.module, specifiers := some payload.specifiers } :=
    Record.member_takes rfl rfl rfl (Json.texts_takes (by omega) payload.specifiers)
  exact Record.read_takes (by omega) (.cons module (.cons specifiers (.nil _))) rfl

def Payload.draft (payload : Payload) : Payload.Draft :=
  ⟨payload.imports.map some, payload.functionBody.map some, payload.replacement.map some, payload.attributes.map some,
    payload.insertText.map some⟩

theorem Payload.finish_draft (payload : Payload) : Payload.record.finish payload.draft = .ok payload := by
  change Except.ok (Payload.mk _ _ _ _ _) = _
  simp only [draft, getD_map_some]

/-- The attributes can be written with integers only. -/
def Payload.IsPlain (payload : Payload) : Prop :=
  ∀ attributes, payload.attributes = some attributes → (Value.object attributes).IsPlain

/-- How deep a payload's attributes may be nested. -/
def Payload.Fits (payload : Payload) (depth : Nat) : Prop :=
  ∀ attributes, payload.attributes = some attributes → (Value.object attributes).nesting < depth

theorem Payload.record_takes {depth : Nat} (left : 4 ≤ depth) (payload : Payload) (plain : payload.IsPlain)
    (fits : payload.Fits (depth - 1)) : Takes (Payload.record.read depth) payload.toJson payload := by
  obtain ⟨imports, body, replacement, attributes, inserted⟩ := payload
  -- every member starts with the draft that those before it leave, whether they are written or not
  have imported : Runs (Payload.record.member (depth - 1)) {} (Wire.optionalMember "import" (imports.map ImportPayload.toJson))
      (Payload.draft { imports }) :=
    Record.optional_runs (fun imports => Payload.draft { imports }) rfl rfl (fun _ => rfl)
      (fun it _ => it.record_takes (by omega)) (by rintro _ ⟨⟩)
  have bodies : Runs (Payload.record.member (depth - 1)) (Payload.draft { imports })
      (Wire.optionalMember "functionBody" (body.map .string)) (Payload.draft { imports, functionBody := body }) :=
    Record.optional_runs (fun body => Payload.draft { imports, functionBody := body }) rfl rfl
      (fun _ => rfl) (fun it _ => Json.text_takes it) (by rintro _ ⟨⟩)
  have replacements : Runs (Payload.record.member (depth - 1)) (Payload.draft { imports, functionBody := body })
      (Wire.optionalMember "jsxReplaceWith" (replacement.map .string))
      (Payload.draft { imports, functionBody := body, replacement }) :=
    Record.optional_runs (fun replacement => Payload.draft { imports, functionBody := body, replacement }) rfl rfl
      (fun _ => rfl) (fun it _ => Json.text_takes it) (by rintro _ ⟨⟩)
  have given : Runs (Payload.record.member (depth - 1)) (Payload.draft { imports, functionBody := body, replacement })
      (Wire.optionalMember "jsxAttributes" (attributes.map .object))
      (Payload.draft { imports, functionBody := body, replacement, attributes }) :=
    Record.optional_runs (fun attributes => Payload.draft { imports, functionBody := body, replacement, attributes }) rfl
      rfl (fun _ => rfl) (fun it here => Json.object_takes (fits it here) (plain it here)) (by rintro _ ⟨⟩)
  have insertions : Runs (Payload.record.member (depth - 1))
      (Payload.draft { imports, functionBody := body, replacement, attributes })
      (Wire.optionalMember "insertText" (inserted.map .string))
      (Payload.draft ⟨imports, body, replacement, attributes, inserted⟩) :=
    Record.optional_runs (fun inserted => Payload.draft ⟨imports, body, replacement, attributes, inserted⟩) rfl rfl
      (fun _ => rfl) (fun it _ => Json.text_takes it) (by rintro _ ⟨⟩)
  exact Record.read_takes (by omega)
    ((((imported.append bodies).append replacements).append given).append insertions) (finish_draft _)

/-- The draft of a request whose action is known, and whose content may still have to be read. -/
def Request.Draft.of {α : Type} (action : α) (selector : Option Selector) (payload : Option Payload)
    (content : Option Text) : Request.Draft α :=
  ⟨some action, selector.map some, payload.map some, content⟩

theorem RequestOf.record_takes {α : Type} {depth : Nat} {tag : Text} (name : String) (action : Json.Reader α)
    (wire : RequestOf α) (left : 5 ≤ depth) (named : Takes (action (depth - 1)) (.string tag) wire.action)
    (plain : ∀ payload ∈ wire.payload, payload.IsPlain) (fits : ∀ payload ∈ wire.payload, payload.Fits (depth - 2)) :
    Takes ((RequestOf.record name action).read depth)
      (.object ([("action".toList, .string tag)] ++
        Wire.optionalMember "selector" (wire.selector.map Selector.toJson) ++
        Wire.optionalMember "payload" (wire.payload.map Payload.toJson) ++ [("content".toList, .string wire.content)]))
      wire := by
  obtain ⟨it, selector, payload, content⟩ := wire
  have actions : Runs ((RequestOf.record name action).member (depth - 1)) {} [("action".toList, .string tag)]
      (.of it none none none) :=
    .cons (Record.member_takes rfl rfl rfl named) (.nil _)
  have selectors : Runs ((RequestOf.record name action).member (depth - 1)) (.of it none none none)
      (Wire.optionalMember "selector" (selector.map Selector.toJson)) (.of it selector none none) :=
    Record.optional_runs (fun selector => Request.Draft.of it selector none none) rfl rfl (fun _ => rfl)
      (fun selector _ => selector.record_takes (by omega)) (by rintro _ ⟨⟩)
  have payloads : Runs ((RequestOf.record name action).member (depth - 1)) (.of it selector none none)
      (Wire.optionalMember "payload" (payload.map Payload.toJson)) (.of it selector payload none) :=
    Record.optional_runs (fun payload => Request.Draft.of it selector payload none) rfl rfl (fun _ => rfl)
      (fun payload here => payload.record_takes (by omega) (plain payload here) (fits payload here)) (by rintro _ ⟨⟩)
  have contents : Runs ((RequestOf.record name action).member (depth - 1)) (.of it selector payload none)
      [("content".toList, .string content)] (.of it selector payload (some content)) :=
    .cons (Record.member_takes rfl rfl rfl (Json.text_takes content)) (.nil _)
  refine Record.read_takes (by omega) (((actions.append selectors).append payloads).append contents) ?_
  change Except.ok (RequestOf.mk _ _ _ _) = _
  simp only [Request.Draft.of, getD_map_some, Option.getD_some]

theorem Selector.toJson_plain (selector : Selector) : selector.toJson.IsPlain := by
  refine ⟨?_, ?_⟩
  · rw [List.map_append]
    exact ((Json.optionalMember_keys ..).append (Json.optionalMember_keys ..)).nodup (by decide)
  · simp [Value.plainMembers_append, Json.plainMembers_optional, Value.IsPlain]

theorem ImportPayload.toJson_plain (payload : ImportPayload) : payload.toJson.IsPlain := by
  have keys : ["module".toList, "specifiers".toList].Nodup := by decide
  refine ⟨keys, ?_⟩
  simp [Value.PlainMembers, Value.IsPlain, Value.plainItems_iff]

theorem Payload.toJson_plain {payload : Payload} (plain : payload.IsPlain) : payload.toJson.IsPlain := by
  refine ⟨?_, ?_⟩
  · -- the keys that are written are some of all keys
    simp only [List.map_append]
    exact (((((Json.optionalMember_keys ..).append (Json.optionalMember_keys ..)).append
      (Json.optionalMember_keys ..)).append (Json.optionalMember_keys ..)).append (Json.optionalMember_keys ..)).nodup
        (by decide)
  · simp only [Value.plainMembers_append, Json.plainMembers_optional]
    refine ⟨⟨⟨⟨?_, ?_⟩, ?_⟩, plain⟩, ?_⟩
    · exact fun imports _ => imports.toJson_plain
    all_goals simp [Value.IsPlain]

namespace Request

def IsPlain (request : Request) : Prop := ∀ payload ∈ request.payload, payload.IsPlain

theorem toJson_plain {request : Request} (plain : request.IsPlain) : request.toJson.IsPlain := by
  refine ⟨?_, ?_⟩
  · simp only [List.map_append]
    exact ((((List.Sublist.refl ["action".toList]).append (Json.optionalMember_keys ..)).append
      (Json.optionalMember_keys ..)).append (List.Sublist.refl ["content".toList])).nodup (by decide)
  · simp only [Value.plainMembers_append, Json.plainMembers_optional]
    refine ⟨⟨⟨?_, ?_⟩, ?_⟩, ?_⟩
    · simp [Value.PlainMembers, Value.IsPlain]
    · exact fun selector _ => selector.toJson_plain
    · exact fun payload here => Payload.toJson_plain (plain payload here)
    · simp [Value.PlainMembers, Value.IsPlain]

/-- A payload is written one level down in its request, and its attributes another. -/
theorem fits_of_nesting {request : Request} {depth : Nat} (shallow : request.toJson.nesting < depth) {payload : Payload}
    (here : payload ∈ request.payload) : payload.Fits (depth - 2) := by
  intro attributes given
  have outer : payload.toJson.nesting < request.toJson.nesting :=
    Value.nesting_lt_of_member (List.mem_append_left _ (List.mem_append_right _
      (Json.mem_optionalMember.mpr ⟨_, congrArg (Option.map Payload.toJson) here, rfl⟩)))
  have inner : (Value.object attributes).nesting < payload.toJson.nesting :=
    Value.nesting_lt_of_member (List.mem_append_left _ (List.mem_append_right _
      (Json.mem_optionalMember.mpr ⟨_, congrArg (Option.map Value.object) given, rfl⟩)))
  omega

theorem ofJson_printed {request : Request} (plain : request.IsPlain) (shallow : request.toJson.nesting < Json.depthLimit)
    (level : Nat) : ofJson request.toJson.compact = .ok request ∧ ofJson (request.toJson.pretty level) = .ok request := by
  obtain ⟨compact, pretty⟩ := Json.decode_printed
    (RequestOf.record_takes "WireRequest" Wire.text ⟨request.action.tag, request.selector, request.payload, request.content⟩
      (by decide) (Json.text_takes request.action.tag) plain fun payload here => fits_of_nesting shallow here)
    (toJson_plain plain) level
  constructor
  · rw [ofJson, toJson, compact]
    simp only [Action.ofTag?_tag]
    rfl
  · rw [ofJson, toJson, pretty]
    simp only [Action.ofTag?_tag]
    rfl

end Request

/-! ### Outcomes -/

def Diff.EditRange.IsSized (range : EditRange) : Prop :=
  (-(twoTo 63 : Int) ≤ range.start ∧ range.start ≤ twoTo 63 - 1) ∧ -(twoTo 63 : Int) ≤ range.stop ∧ range.stop ≤ twoTo 63 - 1

instance (range : EditRange) : Decidable range.IsSized := inferInstanceAs (Decidable ((_ ∧ _) ∧ _ ∧ _))

theorem Diff.EditRange.record_takes {depth : Nat} (left : 2 ≤ depth) {range : EditRange} (sized : range.IsSized) :
    Takes (EditRange.record.read depth) range.toJson range := by
  obtain ⟨first, last⟩ := sized
  have starts : Takes (EditRange.record.member (depth - 1) "start".toList {}) (.number (.integer range.start))
      { start := some range.start } :=
    Record.member_takes rfl rfl rfl (Json.signed_takes first.1 first.2)
  have stops : Takes (EditRange.record.member (depth - 1) "end".toList { start := some range.start })
      (.number (.integer range.stop)) { start := some range.start, stop := some range.stop } :=
    Record.member_takes rfl rfl rfl (Json.signed_takes last.1 last.2)
  exact Record.read_takes left (.cons starts (.cons stops (.nil _))) rfl

theorem Diff.EditRange.toJson_plain {range : EditRange} (sized : range.IsSized) : range.toJson.IsPlain := by
  have keys : ["start".toList, "end".toList].Nodup := by decide
  have wide : (twoTo 63 - 1 : Int) ≤ maxInteger := by decide
  obtain ⟨⟨low, high⟩, low', high'⟩ := sized
  exact ⟨keys, ⟨low, Int.le_trans high wide⟩, ⟨low', Int.le_trans high' wide⟩, trivial⟩

namespace TimedOutcome

/-- An outcome whose numbers are integers of 64 bits. -/
def IsSized (outcome : TimedOutcome) : Prop :=
  outcome.elapsed ≤ maxInteger ∧ ∀ range ∈ outcome.edits, range.IsSized

instance (outcome : TimedOutcome) : Decidable outcome.IsSized := inferInstanceAs (Decidable (_ ∧ _))

theorem record_takes {depth : Nat} (left : 4 ≤ depth) {outcome : TimedOutcome} (sized : outcome.IsSized) :
    Takes (record.read depth) outcome.toJson outcome := by
  obtain ⟨⟨applied, code, edits, preview⟩, elapsed⟩ := outcome
  have applies : Takes (record.member (depth - 1) "applied".toList {}) (.bool applied) { applied := some applied } :=
    Record.member_takes rfl rfl rfl (Json.bool_takes applied)
  have codes : Takes (record.member (depth - 1) "code".toList { applied := some applied }) (.string code)
      { applied := some applied, code := some code } :=
    Record.member_takes rfl rfl rfl (Json.text_takes code)
  have ranges : List.Forall₂ (Takes (EditRange.record.read (depth - 1 - 1))) (edits.map EditRange.toJson) edits := by
    rw [List.forall₂_map_left_iff]
    exact List.forall₂_same.mpr fun range member => EditRange.record_takes (by omega) (sized.2 range member)
  have places : Takes (record.member (depth - 1) "edits".toList { applied := some applied, code := some code })
      (.array (edits.map EditRange.toJson)) { applied := some applied, code := some code, edits := some edits } :=
    Record.member_takes rfl rfl rfl (Json.list_takes (by omega) ranges)
  have previews : Takes (record.member (depth - 1) "previewDiff".toList
      { applied := some applied, code := some code, edits := some edits }) (.string preview)
      { applied := some applied, code := some code, edits := some edits, preview := some preview } :=
    Record.member_takes rfl rfl rfl (Json.text_takes preview)
  have times : Takes (record.member (depth - 1) "elapsedMs".toList
      { applied := some applied, code := some code, edits := some edits, preview := some preview })
      (.number (.integer elapsed)) ⟨some applied, some code, some edits, some preview, some elapsed⟩ :=
    Record.member_takes rfl rfl rfl (Json.natural_takes _ sized.1)
  exact Record.read_takes (by omega)
    (.cons applies (.cons codes (.cons places (.cons previews (.cons times (.nil _)))))) rfl

theorem toJson_plain {outcome : TimedOutcome} (sized : outcome.IsSized) : outcome.toJson.IsPlain := by
  have keys : ["applied".toList, "code".toList, "edits".toList, "previewDiff".toList, "elapsedMs".toList].Nodup := by decide
  have positive : -(twoTo 63 : Int) ≤ 0 := by decide
  refine ⟨keys, trivial, trivial, ?_, trivial, ⟨?_, Int.ofNat_le.mpr sized.1⟩, trivial⟩
  · refine Value.plainItems_iff.mpr fun item member => ?_
    obtain ⟨range, inside, rfl⟩ := List.mem_map.mp member
    exact EditRange.toJson_plain (sized.2 range inside)
  · omega

end TimedOutcome

/-! ### Configurations -/

theorem Quote.read_takes (depth : Nat) (quote : Quote) : Takes (Quote.read depth) (.string quote.name) quote := by
  refine Json.variant_takes depth ?_
  cases quote <;> rfl

def Style.IsSized (style : Style) : Prop := style.indentWidth ≤ maxInteger

instance (style : Style) : Decidable style.IsSized := inferInstanceAs (Decidable (_ ≤ _))

theorem Style.record_takes {depth : Nat} (left : 2 ≤ depth) {style : Style} (sized : style.IsSized) :
    Takes (Style.record.read depth) style.toJson style := by
  have widths : Takes (Style.record.member (depth - 1) "indentWidth".toList {}) (.ofNat style.indentWidth)
      { indentWidth := some style.indentWidth } :=
    Record.member_takes rfl rfl rfl (Json.natural_takes _ sized)
  have quotes : Takes (Style.record.member (depth - 1) "quoteStyle".toList { indentWidth := some style.indentWidth })
      (.string style.quote.name) { indentWidth := some style.indentWidth, quote := some style.quote } :=
    Record.member_takes rfl rfl rfl (Quote.read_takes _ style.quote)
  exact Record.read_takes left (.cons widths (.cons quotes (.nil _))) rfl

namespace Config

def IsSized (config : Config) : Prop :=
  config.maxBytes ≤ maxInteger ∧ config.maxPreviewLines ≤ maxInteger ∧ config.style.IsSized

instance (config : Config) : Decidable config.IsSized := inferInstanceAs (Decidable (_ ∧ _ ∧ _))

theorem record_takes {depth : Nat} (left : 3 ≤ depth) {config : Config} (sized : config.IsSized) :
    Takes (record.read depth) config.toJson config := by
  obtain ⟨bytes, lines, style⟩ := config
  have sizes : Takes (record.member (depth - 1) "maxContentBytes".toList {}) (.ofNat bytes) { maxBytes := some bytes } :=
    Record.member_takes rfl rfl rfl (Json.natural_takes _ sized.1)
  have previews : Takes (record.member (depth - 1) "maxPreviewLines".toList { maxBytes := some bytes }) (.ofNat lines)
      { maxBytes := some bytes, maxPreviewLines := some lines } :=
    Record.member_takes rfl rfl rfl (Json.natural_takes _ sized.2.1)
  have styles : Takes (record.member (depth - 1) "print".toList { maxBytes := some bytes, maxPreviewLines := some lines })
      style.toJson { maxBytes := some bytes, maxPreviewLines := some lines, style := some style } :=
    Record.member_takes rfl rfl rfl (Style.record_takes (by omega) sized.2.2)
  exact Record.read_takes (by omega) (.cons sizes (.cons previews (.cons styles (.nil _)))) rfl

theorem toJson_plain {config : Config} (sized : config.IsSized) : config.toJson.IsPlain := by
  have keys : ["maxContentBytes".toList, "maxPreviewLines".toList, "print".toList].Nodup := by decide
  have inner : ["indentWidth".toList, "quoteStyle".toList].Nodup := by decide
  have fits : ∀ n ≤ maxInteger, (Value.ofNat n).IsPlain := by
    intro n small
    have positive : -(twoTo 63 : Int) ≤ 0 := by decide
    exact ⟨by omega, Int.ofNat_le.mpr small⟩
  exact ⟨keys, fits _ sized.1, fits _ sized.2.1, ⟨inner, fits _ sized.2.2, trivial, trivial⟩, trivial⟩

end Config

/-! ### Round trips -/

/-- Whatever is written, compactly or over several lines, is read back as it was. Requests must not hold floating-point
numbers, which are not written as they are read, and the reader must be able to follow their nesting. -/
theorem Wire.round_trip :
    (∀ (request : Request) (level : Nat), request.IsPlain → request.toJson.nesting < Json.depthLimit →
      Request.ofJson request.toJson.compact = .ok request ∧
        Request.ofJson (request.toJson.pretty level) = .ok request) ∧
    (∀ (outcome : TimedOutcome) (level : Nat), outcome.IsSized →
      TimedOutcome.ofJson outcome.toJson.compact = .ok outcome ∧
        TimedOutcome.ofJson (outcome.toJson.pretty level) = .ok outcome) ∧
    ∀ (config : Config) (level : Nat), config.IsSized →
      Config.ofJson config.toJson.compact = .ok config ∧ Config.ofJson (config.toJson.pretty level) = .ok config := by
  refine ⟨?_, ?_, ?_⟩
  · intro request level plain shallow
    exact Request.ofJson_printed plain shallow level
  · intro outcome level sized
    exact Json.decode_printed (TimedOutcome.record_takes (by decide) sized) (TimedOutcome.toJson_plain sized) level
  · intro config level sized
    exact Json.decode_printed (Config.record_takes (by decide) sized) (Config.toJson_plain sized) level

/-- Attributes with an integer at either end of what can be written, an empty selector and control characters. -/
def Request.edgeRequest : Request where
  action := .replaceAttributes
  selector := some {}
  payload := some {
    attributes := some [("b\n".toList, .array [.number (.integer (-twoTo 63)), .object [("".toList, .null)]]),
      ("a".toList, .number (.integer maxInteger))] }
  content := "\x00\"\\é".toList

theorem Wire.round_trip_edge :
    Request.ofJson Request.edgeRequest.toJson.compact = .ok Request.edgeRequest ∧
      TimedOutcome.ofJson (TimedOutcome.toJson ⟨⟨true, [], [⟨1, 0⟩, ⟨-3, 4⟩], ['\r']⟩, maxInteger⟩).compact =
        .ok ⟨⟨true, [], [⟨1, 0⟩, ⟨-3, 4⟩], ['\r']⟩, maxInteger⟩ ∧
      Config.ofJson (Config.toJson ⟨0, maxInteger, ⟨4, .double⟩⟩).compact = .ok ⟨0, maxInteger, ⟨4, .double⟩⟩ := by
  refine ⟨(Wire.round_trip.1 _ 0 ?_ ?_).1, (Wire.round_trip.2.1 _ 0 ?_).1, (Wire.round_trip.2.2 _ 0 ?_).1⟩
  · rintro payload ⟨⟩ attributes ⟨⟩
    simp [Value.IsPlain, Value.PlainMembers, Value.PlainItems]
    decide
  · decide
  · decide
  · decide

end Graft
