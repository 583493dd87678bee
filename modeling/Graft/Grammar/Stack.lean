import Graft.Grammar.State
import Graft.Syntax.Tree

/-! Stacks of trees. A stack is one way to read the text so far: symbols with their trees, and the state
after each of them. Ways that lead to the same state at the same place are kept as one stack with several
links below its top. -/

namespace Graft

structure StackEntry where
  symbol : Symbol
  /-- Its trees, last one first. A node or token is one tree behind its spacing. -/
  trees : List Tree
  weight : Int := 0
  /-- The number of entries it was made of. -/
  count : Nat := 0
  /-- The bytes of spacing before it, and all its bytes with these. -/
  padding : Nat := 0
  width : Nat := 0
  isExtra : Bool := false

/-- A stack. Its number tells it from all others; the weight is that of the heaviest way. -/
inductive Stack where
  | bottom (state : State) (rest : Text)
  | top (number : Nat) (state : State) (offset : Nat) (rest : Text) (weight : Int) (height : Nat)
      (links : List (StackEntry × Stack))

namespace Stack

def number : Stack → Nat
  | bottom _ _ => 0
  | top number _ _ _ _ _ _ => number

def state : Stack → State
  | bottom state _ => state
  | top _ state _ _ _ _ _ => state

/-- The bytes that have been read. -/
def offset : Stack → Nat
  | bottom _ _ => 0
  | top _ _ offset _ _ _ _ => offset

def rest : Stack → Text
  | bottom _ rest => rest
  | top _ _ _ rest _ _ _ => rest

def weight : Stack → Int
  | bottom _ _ => 0
  | top _ _ _ _ weight _ _ => weight

/-- A bound on the number of entries on any way down. -/
def height : Stack → Nat
  | bottom _ _ => 0
  | top _ _ _ _ _ height _ => height

def links : Stack → List (StackEntry × Stack)
  | bottom _ _ => []
  | top _ _ _ _ _ _ links => links

def push (number : Nat) (entry : StackEntry) (state : State) (offset : Nat) (rest : Text) (below : Stack) : Stack :=
  top number state offset rest (below.weight + entry.weight) (below.height + 1) [(entry, below)]

/-! ### Merging -/

/-- Whether two stacks are at the same place in the same state. -/
def meets (one two : Stack) : Bool :=
  one.offset = two.offset && one.state.same two.state

/-- Whether two entries that end at one place are alike from outside. -/
def alike (one two : StackEntry × Stack) : Bool :=
  one.1.symbol = two.1.symbol && one.1.isExtra = two.1.isExtra && one.1.count = two.1.count &&
    one.1.padding = two.1.padding && one.2.offset = two.2.offset

mutual

/-- Add a link to a stack. Of two links to the same stack below with entries that are alike, the heavier
is kept; if the stacks below meet, they are merged. -/
def addLink : Nat → StackEntry × Stack → Stack → Stack
  | 0, _, stack => stack
  | _ + 1, _, bottom state rest => bottom state rest
  | fuel + 1, link, top number state offset rest weight height links =>
    let added := link.2.weight + link.1.weight
    match joinLink fuel weight link links with
    | some (links, weight) => top number state offset rest weight height links
    | none =>
      top number state offset rest (max weight added) (max height (link.2.height + 1)) (links ++ [link])

/-- Let a link become part of one of others, if it can, and find the weight that results. -/
def joinLink : Nat → Int → StackEntry × Stack → List (StackEntry × Stack) → Option (List (StackEntry × Stack) × Int)
  | 0, _, _, _ => none
  | _ + 1, _, _, [] => none
  | fuel + 1, weight, link, other :: others =>
    let added := link.2.weight + link.1.weight
    let goOn (_ : Unit) :=
      (joinLink fuel weight link others).map fun (links, weight) => (other :: links, weight)
    if !alike other link then goOn ()
    else if other.2.number = link.2.number then
      if other.1.weight < link.1.weight then some (link :: others, added) else some (other :: others, weight)
    else if other.2.meets link.2 then
      let below := link.2.links.foldl (fun below link => addLink fuel link below) other.2
      some ((other.1, below) :: others, max weight added)
    else goOn ()

end

def merge (one two : Stack) : Stack :=
  two.links.foldl (fun stack link => addLink (one.height + two.height + 16) link stack) one

/-! ### Taking entries off -/

/-- A way down from a stack: the entries taken off so far, and how many are still to be taken. -/
structure Descent where
  entries : List StackEntry
  missing : Nat
  below : Stack

/-- One step down each way. Where a stack has several links, the first is taken in place and the others
are added at the end. -/
def descend : Nat → List Descent → List (List StackEntry × Stack)
  | 0, _ => []
  | fuel + 1, descents =>
    let done := descents.filter fun descent => descent.missing = 0
    let going := descents.filter fun descent => descent.missing ≠ 0
    let take (descent : Descent) (link : StackEntry × Stack) : Descent :=
      ⟨link.1 :: descent.entries, if link.1.isExtra then descent.missing else descent.missing - 1, link.2⟩
    let first := going.filterMap fun descent => descent.below.links.head?.map (take descent)
    let others := going.flatMap fun descent => descent.below.links.tail.map (take descent)
    done.map (fun descent => (descent.entries, descent.below)) ++
      (if going.isEmpty then [] else descend fuel (first ++ others))

/-- All ways to take a number of entries off a stack. Comments in between do not count. -/
def pop (count : Nat) (stack : Stack) : List (List StackEntry × Stack) :=
  descend (stack.height + 1) [⟨[], count, stack⟩]

/-- All entries on all ways down to the bottom. -/
def unwind : Nat → List (List StackEntry × Stack) → List (List StackEntry)
  | 0, _ => []
  | fuel + 1, ways =>
    let done := (ways.filter fun way => way.2.links.isEmpty).map Prod.fst
    let going := ways.flatMap fun way => way.2.links.map fun link => (link.1 :: way.1, link.2)
    done ++ (if going.isEmpty then [] else unwind fuel going)

end Stack

/-! ### Making phrases -/

namespace StackEntry

/-- The same tree as another kind of node. -/
def recast (kind : Kind) : Tree → Tree
  | .leaf role _ text => .leaf role kind text
  | .node role _ children => .node role kind children

/-- One node of trees, given last one first. Spacing before the first token stays outside. -/
def enclose (kind : Kind) (trees : List Tree) : List Tree :=
  let trees := trees.reverse
  let isSpacing (tree : Tree) : Bool := tree.kind = .spacing
  .node none kind (trees.dropWhile isSpacing) :: (trees.takeWhile isSpacing).reverse

/-- The trees of an entry as a step of a phrase has them. -/
def apply (step : Step) (entry : StackEntry) : List Tree :=
  let renamed :=
    match step.rename with
    | none => entry.trees
    | some kind =>
      match entry.symbol with
      | .phrase (.group _) => enclose kind entry.trees
      | _ => entry.trees.map fun tree => if tree.kind = .spacing then tree else recast kind tree
  match step.role with
  | none => renamed
  | some role => renamed.map fun tree => if tree.isTrivia then tree else tree.withRole role

/-- A way through the steps of a phrase for some symbols. -/
def trace (steps : Array Step) : List Nat → List Symbol → Option (List Step)
  | _, [] => some []
  | starts, symbol :: symbols =>
    starts.findSome? fun start =>
      match steps[start]? with
      | none => none
      | some step =>
        if step.symbol = symbol && (!symbols.isEmpty || step.final.isSome) then
          (trace steps (step.next.map Prod.fst) symbols).map (step :: ·)
        else none

def gather : List StackEntry → List Step → List Tree → List Tree
  | [], _, trees => trees
  | entry :: entries, steps, trees =>
    if entry.isExtra then gather entries steps (entry.trees ++ trees)
    else
      match steps with
      | [] => gather entries [] (entry.trees ++ trees)
      | step :: steps => gather entries steps (entry.apply step ++ trees)

def weigh (entries : List StackEntry) : Int := entries.foldl (fun weight entry => weight + entry.weight) 0

/-- One entry for a phrase that is made of others. -/
def ofPhrase (phrase : Phrase) (entries : List StackEntry) : StackEntry :=
  let steps := Grammar.stepsOf phrase.code
  let symbols := (entries.filter fun entry => !entry.isExtra).map StackEntry.symbol
  let trees := gather entries ((trace steps.steps steps.starts symbols).getD []) []
  { symbol := .phrase phrase
    trees :=
      match phrase with
      | .node kind => enclose kind trees
      | .group _ => trees
    weight := weigh entries + Grammar.weightTable.getD phrase.code 0
    count := entries.length
    padding := (entries.head?.map StackEntry.padding).getD 0
    width := entries.foldl (fun width entry => width + entry.width) 0 }

/-- The place of a symbol in an order of all symbols: tokens come first. -/
def orderOf : Symbol → Nat
  | .token token => token.code
  | .phrase phrase => 256 + Grammar.orderTable.getD phrase.code 0

/-- Whether some entries are a better way to make a phrase than others. -/
def better (one two : List StackEntry) : Bool :=
  if weigh two < weigh one then true
  else if weigh one < weigh two then false
  else if one.length ≠ two.length then one.length < two.length
  else ((one.zip two).find? fun (a, b) => a.symbol ≠ b.symbol || a.count ≠ b.count).any fun (a, b) =>
    orderOf a.symbol < orderOf b.symbol || (a.symbol = b.symbol && a.count < b.count)

end StackEntry
end Graft
