import Graft.Edit.Outcome
import Graft.Json.Record

/-! Outcomes as JSON. -/

namespace Graft

open Json (Field Record Reader Value)
open Diff (EditRange)

structure EditRangeDraft where
  start : Option Int := none
  stop : Option Int := none

def Diff.EditRange.record : Record EditRangeDraft EditRange where
  name := "EditRange".toList
  blank := {}
  fields := [
    .of "start" true (·.start) (fun draft value => { draft with start := some value }) (fun _ => Json.signed),
    .of "end" true (·.stop) (fun draft value => { draft with stop := some value }) (fun _ => Json.signed)]
  finish draft := do return ⟨← Json.need "start" draft.start, ← Json.need "end" draft.stop⟩

structure OutcomeDraft where
  applied : Option Bool := none
  code : Option Text := none
  edits : Option (List EditRange) := none
  preview : Option Text := none
  elapsed : Option Nat := none

def TimedOutcome.record : Record OutcomeDraft TimedOutcome where
  name := "EditResult".toList
  blank := {}
  fields := [
    .of "applied" true (·.applied) (fun draft value => { draft with applied := some value }) (fun _ => Json.bool),
    .of "code" true (·.code) (fun draft value => { draft with code := some value }) (fun _ => Json.text),
    .of "edits" true (·.edits) (fun draft value => { draft with edits := some value })
      (Json.list Diff.EditRange.record.read),
    .of "previewDiff" true (·.preview) (fun draft value => { draft with preview := some value }) (fun _ => Json.text),
    .of "elapsedMs" true (·.elapsed) (fun draft value => { draft with elapsed := some value })
      (fun _ => Json.duration)]
  finish draft := do
    return { applied := ← Json.need "applied" draft.applied, code := ← Json.need "code" draft.code,
             edits := ← Json.need "edits" draft.edits, preview := ← Json.need "previewDiff" draft.preview,
             elapsed := ← Json.need "elapsedMs" draft.elapsed }

def TimedOutcome.ofJson (text : Text) : Except Json.Fault TimedOutcome := Json.decode TimedOutcome.record.read text

def Diff.EditRange.toJson (range : EditRange) : Value :=
  .object [("start".toList, .number (.integer range.start)), ("end".toList, .number (.integer range.stop))]

def TimedOutcome.toJson (outcome : TimedOutcome) : Value :=
  .object [("applied".toList, .bool outcome.applied), ("code".toList, .string outcome.code),
    ("edits".toList, .array (outcome.edits.map Diff.EditRange.toJson)),
    ("previewDiff".toList, .string outcome.preview), ("elapsedMs".toList, .number (.integer outcome.elapsed))]

end Graft
