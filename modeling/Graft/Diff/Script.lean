/-! Edit scripts. A script is a list of runs that are kept, removed or added. Reading it without what
is added gives the old list, without what is removed the new one; every way of changing a script below
keeps both readings. -/

namespace Graft

/-- What a script does with a run of items. -/
inductive Tag where
  | context
  | removed
  | added
  deriving DecidableEq

/-- Neighbouring items with one tag. -/
structure Run (α : Type) where
  tag : Tag
  items : List α

/-- Items that are kept, or items that others take the place of. -/
inductive Block (α : Type) where
  | keep (items : List α)
  | change (removed added : List α)

variable {α : Type}

namespace Run

def old (run : Run α) : List α := if run.tag = .added then [] else run.items

def new (run : Run α) : List α := if run.tag = .removed then [] else run.items

end Run

namespace Script

/-- The list that a script starts from. -/
def old (script : List (Run α)) : List α := script.flatMap Run.old

/-- The list that a script arrives at. -/
def new (script : List (Run α)) : List α := script.flatMap Run.new

/-- A run, unless it would be empty. -/
def run (tag : Tag) (items : List α) : List (Run α) := if items.isEmpty then [] else [⟨tag, items⟩]

/-- A block for what has been removed and added since the last kept run. -/
def change (removed added : List α) : List (Block α) :=
  if removed.isEmpty && added.isEmpty then [] else [.change removed added]

def keep (items : List α) : List (Block α) := if items.isEmpty then [] else [.keep items]

/-- Gather what is removed and added between kept runs, the removed items first. -/
def blocksFrom (kept removed added : List α) : List (Run α) → List (Block α)
  | [] => keep kept ++ change removed added
  | ⟨.context, items⟩ :: runs =>
    if removed.isEmpty && added.isEmpty then blocksFrom (kept ++ items) [] [] runs
    else keep kept ++ change removed added ++ blocksFrom items [] [] runs
  | ⟨.removed, items⟩ :: runs => blocksFrom kept (removed ++ items) added runs
  | ⟨.added, items⟩ :: runs => blocksFrom kept removed (added ++ items) runs

def blocks (script : List (Run α)) : List (Block α) := blocksFrom [] [] [] script

end Script

namespace Block

def tagged : Block α → List (Tag × α)
  | keep items => items.map (Tag.context, ·)
  | change removed added => removed.map (Tag.removed, ·) ++ added.map (Tag.added, ·)

/-- Cut a long kept run down to its last items. -/
def keepEnd (context : Nat) : Block α → Block α
  | keep items => keep (items.drop (items.length - context))
  | block => block

def keepStart (context : Nat) : Block α → Block α
  | keep items => keep (items.take context)
  | block => block

def mapHead (f : Block α → Block α) : List (Block α) → List (Block α)
  | [] => []
  | block :: blocks => f block :: blocks

def mapLast (f : Block α → Block α) : List (Block α) → List (Block α)
  | [] => []
  | [block] => [f block]
  | block :: blocks => block :: mapLast f blocks

/-- Split blocks into groups at kept runs of more than twice the context; each group keeps that much of
them. A group of kept items alone is left out at the end. -/
def groupsFrom (context : Nat) (group : List (Block α)) : List (Block α) → List (List (Block α))
  | [] =>
    match group with
    | [] => []
    | [keep _] => []
    | _ => [group]
  | keep items :: blocks =>
    if context * 2 < items.length then
      (group ++ [keep (items.take context)]) ::
        groupsFrom context [keep (items.drop (items.length - context))] blocks
    else groupsFrom context (group ++ [keep items]) blocks
  | block :: blocks => groupsFrom context (group ++ [block]) blocks

def groups (context : Nat) (blocks : List (Block α)) : List (List (Block α)) :=
  groupsFrom context [] (mapLast (keepStart context) (mapHead (keepEnd context) blocks))

end Block
end Graft
