import Graft.Diff.Report

/-! What comes out of an edit. -/

namespace Graft

/-- The new text and how it differs from the old. An edit that found nothing to do is not applied. -/
structure Outcome where
  applied : Bool
  code : Text
  edits : List Diff.EditRange
  preview : Text
  deriving DecidableEq

structure TimedOutcome extends Outcome where
  elapsed : Nat
  deriving DecidableEq

namespace Outcome

/-- Texts, each on a line of its own. -/
def lines (texts : List Text) : Text := texts.flatMap (· ++ ['\n'])

def rangeLine (range : Diff.EditRange) : Text :=
  'L' :: Text.ofInt range.start ++ "-L".toList ++ Text.ofInt range.stop

def heading (outcome : Outcome) (path : Option Text) : Text :=
  lines (path.toList.map ("// EDIT: ".toList ++ ·) ++
    ["// Applied: ".toList ++ if outcome.applied then "true".toList else "false".toList])

/-- A summary for readers: changed places and changed lines. -/
def summary (outcome : Outcome) (before : Text) (path : Option Text) : Text :=
  outcome.heading path ++
    if outcome.applied then
      lines ([[], "// Changes:".toList] ++ outcome.edits.map rangeLine ++ [[], "// Diff:".toList]) ++
        Diff.unified before outcome.code
    else lines ["[No matching target]".toList]

end Outcome
end Graft
