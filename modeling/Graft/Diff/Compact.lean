import Graft.Diff.Myers

/-! Moving changes to where they join others. An added run that ends like the kept run before it can as
well be added earlier, and one that starts like the kept run after it can be added later; where it
meets another change of its kind the two become one. -/

namespace Graft.Script
variable {α : Type}

/-- A run of a script with what comes before it, nearest first, and after it. -/
structure Focus (α : Type) where
  before : List (Run α)
  current : Run α
  after : List (Run α)

namespace Focus

def keepAfter (items : List α) : List (Run α) → List (Run α)
  | ⟨.context, next⟩ :: runs => ⟨.context, items ++ next⟩ :: runs
  | runs => ⟨.context, items⟩ :: runs

def keepBefore (items : List α) : List (Run α) → List (Run α)
  | ⟨.context, previous⟩ :: runs => ⟨.context, previous ++ items⟩ :: runs
  | runs => ⟨.context, items⟩ :: runs

variable [DecidableEq α]

def moveUp : Nat → Focus α → Focus α
  | 0, focus => focus
  | steps + 1, focus =>
    match focus.before with
    | [] => focus
    | previous :: before =>
      match focus.current.tag, previous.tag with
      | .context, _ => focus
      | .removed, .context =>
        if previous.items.isEmpty then moveUp steps { focus with before } else focus
      | .added, .context =>
        let shared := Myers.sharedEnd previous.items focus.current.items
        if 0 < shared then
          let rest := previous.items.take (previous.items.length - shared)
          let moved := previous.items.drop (previous.items.length - shared)
          let added := focus.current.items.take (focus.current.items.length - shared)
          moveUp steps {
            before := run .context rest ++ before
            current := ⟨.added, moved ++ added⟩
            after := keepAfter moved focus.after }
        else if previous.items.isEmpty then moveUp steps { focus with before }
        else focus
      | .removed, .removed =>
        moveUp steps { focus with before, current := ⟨.removed, previous.items ++ focus.current.items⟩ }
      | .added, .added =>
        moveUp steps { focus with before, current := ⟨.added, previous.items ++ focus.current.items⟩ }
      | _, _ => moveUp steps { focus with before, after := previous :: focus.after }

def moveDown : Nat → Focus α → Focus α
  | 0, focus => focus
  | steps + 1, focus =>
    match focus.after with
    | [] => focus
    | next :: after =>
      match focus.current.tag, next.tag with
      | .context, _ => focus
      | .removed, .context =>
        if next.items.isEmpty then moveDown steps { focus with after } else focus
      | .added, .context =>
        let shared := Myers.sharedStart next.items focus.current.items
        if 0 < shared then
          let moved := next.items.take shared
          moveDown steps {
            before := keepBefore moved focus.before
            current := ⟨.added, focus.current.items.drop shared ++ moved⟩
            after := run .context (next.items.drop shared) ++ after }
        else if next.items.isEmpty then moveDown steps { focus with after }
        else focus
      | .removed, .removed =>
        moveDown steps { focus with after, current := ⟨.removed, focus.current.items ++ next.items⟩ }
      | .added, .added =>
        moveDown steps { focus with after, current := ⟨.added, focus.current.items ++ next.items⟩ }
      | _, _ => moveDown steps { focus with after, before := next :: focus.before }

end Focus

variable [DecidableEq α]

/-- Move all runs of one tag, one after the other, up and down again. -/
def settleFrom (tag : Tag) (reach : Nat) : Nat → List (Run α) → List (Run α) → List (Run α)
  | 0, before, after => before.reverse ++ after
  | _ + 1, before, [] => before.reverse
  | steps + 1, before, current :: after =>
    if current.tag = tag then
      let settled := Focus.moveDown reach (Focus.moveUp reach ⟨before, current, after⟩)
      settleFrom tag reach steps (settled.current :: settled.before) settled.after
    else settleFrom tag reach steps (current :: before) after

/-- A bound on the moves in a script. -/
def reach (script : List (Run α)) : Nat :=
  4 * (script.length + (script.flatMap Run.items).length) + 8

/-- Move first what is removed, then what is added. -/
def settle (script : List (Run α)) : List (Run α) :=
  let bound := reach script
  settleFrom .added bound bound [] (settleFrom .removed bound bound [] script)

end Graft.Script
