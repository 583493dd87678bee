import Graft.Grammar.Stack
import Graft.Grammar.Scanner

/-! Reading a text as a program. Several ways to read it are followed at once, from left to right and
side by side. A way that comes to a token which cannot stand there is given up; ways that meet are
merged, and the heavier of two readings is kept. -/

namespace Graft

inductive Progress where
  | going
  /-- It came to a token that cannot stand there. -/
  | stuck
  /-- It has been merged into another one, or has reached the end. -/
  | gone
  deriving DecidableEq

/-- A way to read a text. -/
structure Version where
  stack : Stack
  progress : Progress := .going

/-- All ways that are followed, the next free number of a stack, and the best reading that reached the
end. -/
structure Machine where
  versions : List Version
  fresh : Nat
  finished : Option (List StackEntry)

namespace Machine

/-- The most ways that are followed. -/
def limit : Nat := 6

/-- The most ways that are kept while one token is read. -/
def overflow : Nat := 10

def stop (machine : Machine) (index : Nat) (progress : Progress) : Machine :=
  { machine with versions := machine.versions.modify index fun version => { version with progress } }

def entryOf (reading : Reading) (text : Text) : StackEntry :=
  let spacing := text.take reading.spacing
  let text := (text.drop reading.spacing).take reading.length
  let before : List Tree := if spacing.isEmpty then [] else [.leaf none .spacing spacing]
  { symbol := .token reading.token
    trees := if text.isEmpty then before else .leaf none reading.token.kind text :: before
    padding := Text.bytes spacing
    width := Text.bytes spacing + Text.bytes text
    isExtra := reading.token.isExtra }

/-- Put a token on a stack. A comment leaves the state as it is. -/
def shift (number : Nat) (reading : Reading) (stack : Stack) : Stack :=
  let entry := entryOf reading stack.rest
  let state := if entry.isExtra then stack.state else stack.state.next entry.symbol
  stack.push number entry state (stack.offset + entry.width)
    (stack.rest.drop (reading.spacing + reading.length))

def follow (machine : Machine) (index : Nat) (reading : Reading) (stack : Stack) : Machine :=
  { machine with
    versions := machine.versions.set index { stack := shift machine.fresh reading stack }
    fresh := machine.fresh + 1 }

/-- Put a phrase on a stack in place of what it was made of, and then the comments after it. -/
def place (number : Nat) (phrase : Phrase) (entries : List StackEntry) (rest : Text) (below : Stack) : Stack :=
  let extras := (entries.reverse.takeWhile StackEntry.isExtra).reverse
  let entry := StackEntry.ofPhrase phrase (entries.take (entries.length - extras.length))
  let state := below.state.next (.phrase phrase)
  let stack := below.push number entry state (below.offset + entry.width) rest
  extras.foldl
    (fun stack extra => stack.push (stack.number + 1) extra state (stack.offset + extra.width) rest) stack

/-- The ways to take entries off that end at the same stack, in order. -/
def regroup : List (List StackEntry × Stack) → List (List (List StackEntry) × Stack)
  | [] => []
  | (entries, below) :: others =>
    match regroup others with
    | groups =>
      match groups.find? fun group => group.2.number = below.number with
      | some group =>
        (entries :: group.1, below) :: groups.filter fun other => other.2.number ≠ below.number
      | none => ([entries], below) :: groups

/-- The best of several ways to make a phrase: the first that no other is better than. -/
def choose : List (List StackEntry) → List StackEntry
  | [] => []
  | first :: others => others.foldl (fun best other => if StackEntry.better other best then other else best) first

/-- The first way after some others that a stack meets. -/
def meeting? (stack : Stack) (first : Nat) (versions : List Version) : Option Nat :=
  let meets (version : Version) : Bool := version.progress = .going && version.stack.meets stack
  ((versions.drop first).findIdx? meets).map (first + ·)

/-- Add a way, or merge it into one that it meets, the one it came from left out. -/
def enter (machine : Machine) (source : Nat) (stack : Stack) : Machine :=
  let merged (index : Nat) : Machine :=
    { machine with versions := machine.versions.modify index fun version =>
        { version with stack := version.stack.merge stack } }
  match (meeting? stack 0 (machine.versions.take source)).or (meeting? stack (source + 1) machine.versions) with
  | some index => merged index
  | none =>
    if overflow < machine.versions.length then machine
    else { machine with versions := machine.versions ++ [{ stack := stack }] }

/-- Take the last trees of a way together as a phrase. There may be several ways to do so. -/
def reduce (machine : Machine) (source : Nat) (stack : Stack) (reduction : Reduction) : Machine :=
  let phrase := Grammar.phraseTable.getD reduction.phrase (.node .program)
  (regroup (stack.pop reduction.count)).foldl
    (fun machine (ways, below) =>
      let made := place machine.fresh phrase (choose ways) stack.rest below
      ({ machine with fresh := made.number + 1 } : Machine).enter source made)
    machine

def mayEnd (state : State) : Bool :=
  state.items.isEmpty || state.items.any fun item =>
    item.phrase = (Phrase.node .program).code && item.final?.isSome

def keepBetter (best : Option (List StackEntry)) (way : List StackEntry) : Option (List StackEntry) :=
  match best with
  | none => some way
  | some best => if StackEntry.better way best then some way else some best

def finish (machine : Machine) (reading : Reading) (stack : Stack) : Machine :=
  let entry := entryOf reading stack.rest
  let ways := Stack.unwind (stack.height + 1) [([{ entry with isExtra := true }], stack)]
  { machine with finished := ways.foldl keepBetter machine.finished }

def process : Nat → Machine → Nat → Reading → Machine
  | 0, machine, index, _ => machine.stop index .stuck
  | fuel + 1, machine, index, reading =>
    match machine.versions[index]? with
    | none => machine
    | some version =>
      let stack := version.stack
      if reading.token.isExtra then
        machine.follow index reading stack
      else if reading.token = .finish && mayEnd stack.state then
        (machine.finish reading stack).stop index .gone
      else
        let actions := Actions.of stack.state reading.token
        let step (state : Machine × Option Nat) (reduction : Reduction) : Machine × Option Nat :=
          let made := state.1.reduce index stack reduction
          (made, if state.1.versions.length < made.versions.length then some state.1.versions.length else state.2)
        let (made, latest) := actions.reductions.foldl step (machine, none)
        if actions.shifts then
          made.follow index reading stack
        else
          match latest.bind fun latest => made.versions[latest]?.map fun version => (latest, version) with
          | some (latest, version) =>
            process fuel { made with versions := (made.versions.eraseIdx latest).set index version } index reading
          | none =>
            if !actions.reductions.isEmpty then made.stop index .gone
            else if reading.isWord && reading.token ≠ .identifier && Token.identifier.isIn stack.state.valid then
              process fuel machine index { reading with token := .identifier }
            else machine.stop index .stuck

def advance (fuel : Nat) (machine : Machine) (index : Nat) : Machine :=
  match machine.versions[index]? with
  | none => machine
  | some version =>
    match Scanner.next? version.stack.state.valid version.stack.rest with
    | none => machine.stop index .stuck
    | some reading => process fuel machine index reading

/-- Let each way catch up with the one before it, and the first one get ahead of all. -/
def round : Nat → Nat → Machine → Nat → Nat → Machine × Nat
  | _, 0, machine, _, reached => (machine, reached)
  | fuel, steps + 1, machine, index, reached =>
    match machine.versions[index]? with
    | none => (machine, reached)
    | some version =>
      if version.progress ≠ .going then round fuel steps machine (index + 1) reached
      else
        let machine := advance fuel machine index
        let offset := (machine.versions[index]?.map fun version => version.stack.offset).getD 0
        if reached < offset || (0 < index && offset = reached) then
          round fuel steps machine (index + 1) offset
        else round fuel steps machine index reached

/-- Put a way among others: it is merged into the first it meets, and heavier ways come first. -/
def settle (weight : Int) : Version → List Version → List Version
  | version, [] => [version]
  | version, other :: others =>
    if other.progress = .going && version.progress = .going && other.stack.meets version.stack then
      { other with stack := other.stack.merge version.stack } :: others
    else if other.stack.weight < weight then version :: settle weight other others
    else other :: settle weight version others

/-- Give up ways that are stuck while others are going, merge those that meet, and keep the best. -/
def condense (machine : Machine) : Machine :=
  let versions := machine.versions.filter fun version => version.progress ≠ .gone
  let versions :=
    if versions.any fun version => version.progress = .going then
      versions.filter fun version => version.progress = .going
    else versions
  { machine with versions :=
      (versions.foldl (fun settled version => settle version.stack.weight version settled) []).take limit }

def run : Nat → Nat → Machine → Nat → Machine
  | _, 0, machine, _ => machine
  | fuel, rounds + 1, machine, reached =>
    let (machine, reached) := round fuel fuel machine 0 reached
    let machine := machine.condense
    if machine.versions.any fun version => version.progress = .going then run fuel rounds machine reached
    else machine

def read (text : Text) : Machine :=
  let fuel := 64 * (text.length + 16)
  run fuel fuel ⟨[{ stack := .bottom .start text }], 1, none⟩ 0

def forest? (machine : Machine) : Option (List Tree) :=
  machine.finished.map fun entries => entries.flatMap fun entry => entry.trees.reverse

/-- Of the ways that are stuck, the one that came furthest. -/
def furthest? (machine : Machine) : Option Stack :=
  machine.versions.foldl
    (fun best version => match best with
      | none => some version.stack
      | some best => if best.offset < version.stack.offset then some version.stack else some best)
    none

end Machine

/-! ### What stands in the way -/

namespace Stack

/-- Tokens that are told apart without regard to what can come next. -/
def anyToken : TokenSet :=
  Scanner.wordSet ||| Token.number.set ||| Token.privateName.set |||
    Grammar.union (Mark.all.map fun mark => (Token.mark mark).set)

/-- The next token, which cannot stand there. -/
def obstacle? (stack : Stack) : Option Reading := Scanner.plain? anyToken stack.rest

def symbols : Nat → Stack → List Symbol
  | 0, _ => []
  | fuel + 1, stack =>
    match stack.links.head? with
    | none => []
    | some (entry, below) => entry.symbol :: symbols fuel below

/-- The length of an operator on top of the stack that waits for its second operand inside a block. -/
def danglingOperator? (stack : Stack) : Option Nat :=
  match stack.symbols stack.height with
  | .token (.mark mark) :: below =>
    if below.contains (.token (.mark .openBrace)) &&
        stack.state.items.any fun item => item.phrase = (Phrase.node .binaryExpression).code then
      some mark.text.length
    else none
  | _ => none

/-- A closing bracket that would make sense of the next token if it stood before it. -/
def missing? (stack : Stack) (obstacle : Reading) : Option Mark :=
  [Mark.closeParen, .closeBracket, .closeBrace].find? fun mark =>
    let machine : Machine := ⟨[{ stack := stack }], stack.number + 1, none⟩
    let closed := machine.process (16 * (stack.height + 16)) 0 { token := .mark mark, spacing := 0, length := 0 }
    closed.versions.any fun version =>
      version.progress = .going &&
        !(Actions.of version.stack.state obstacle.token).reductions.isEmpty

end Stack
end Graft
