import Graft.Grammar.Analysis
import Graft.Order

/-! States. A state says which phrases have been begun at some place of a text, how far each of them has
come, and what can come after each. From a state and the next token it follows what may be done:
read the token, or take the last trees together as a phrase. Where both could be done, or two phrases
could be made, strengths decide; where they do not, all is tried. -/

namespace Graft

/-- A phrase that has been begun: the last step taken in it, how many steps have been taken, and the
tokens that can come after the phrase. -/
structure Item where
  phrase : Nat
  step : Nat
  count : Nat
  ahead : TokenSet
  deriving DecidableEq

/-- The phrases that have been begun at some place, and what follows from them: the phrases that can
begin here, those of them that come next with what can follow, and the tokens that can come next. -/
structure State where
  items : List Item
  corners : PhraseSet
  spines : List (Nat × TokenSet)
  valid : TokenSet

namespace Item

/-- The step of a phrase that was taken last. -/
def step? (item : Item) : Option Step := Grammar.stepAt? item.phrase item.step

def ways (item : Item) : List (Nat × Step × Strength) :=
  match item.step? with
  | none => []
  | some step =>
    step.next.filterMap fun (next, strength) =>
      (Grammar.stepAt? item.phrase next).map fun step => (next, step, strength)

/-- The strength of an item that may end, if it may. -/
def final? (item : Item) : Option Strength := item.step?.bind Step.final

/-- What can follow a step that an item goes on with. -/
def after (item : Item) (next : Nat) (step : Step) : TokenSet :=
  Grammar.followOf item.phrase next ||| (if step.final.isSome then item.ahead else 0)

/-- Add an item to others; if it is there already, more can come after it. -/
def insert (item : Item) : List Item → List Item
  | [] => [item]
  | other :: others =>
    if other.phrase = item.phrase && other.step = item.step && other.count = item.count then
      { other with ahead := other.ahead ||| item.ahead } :: others
    else other :: insert item others

end Item

namespace State

def ofItems (items : List Item) : State :=
  let spines := items.flatMap fun item =>
    item.ways.filterMap fun (next, step, _) =>
      (Grammar.Step.phrase? step).map fun phrase => (phrase, item.after next step)
  { items
    spines
    corners := Grammar.union (spines.map fun (phrase, _) => Grammar.cornersOf phrase)
    valid := Grammar.union (items.map fun item =>
      Grammar.union (item.ways.map fun (_, step, _) => Grammar.firstOf step.symbol) |||
        (if item.final?.isSome then item.ahead else 0)) }

def start : State :=
  let program := (Phrase.node .program).code
  { items := []
    spines := [(program, Token.finish.set)]
    corners := Grammar.cornersOf program
    valid := Token.finish.set ||| Grammar.firstOf (.phrase (.node .program)) }

/-- What can come after a phrase that begins here. -/
def aheadOf (state : State) (phrase : Nat) : TokenSet :=
  (Grammar.leadsOf phrase).foldl
      (fun tokens (lead, follow) => if state.corners.testBit lead then tokens ||| follow else tokens) 0 |||
    state.spines.foldl
      (fun tokens (spine, follow) =>
        if (Grammar.unitsOf spine).testBit phrase then tokens ||| follow else tokens) 0

def next (state : State) (symbol : Symbol) : State :=
  let begun := state.items.foldl
    (fun items item => item.ways.foldl
      (fun items (next, step, _) =>
        if step.symbol = symbol then
          Item.insert { item with step := next, count := item.count + 1 } items
        else items) items) []
  let started := (Grammar.startersOf symbol).filterMap fun (phrase, step) =>
    if state.corners.testBit phrase then
      some { phrase, step, count := 1, ahead := state.aheadOf phrase : Item }
    else none
  ofItems (begun ++ started)

/-- Two states are the same if they have the same items in some order. -/
def same (one two : State) : Bool :=
  one.items.length = two.items.length && one.items.all fun item => two.items.contains item

end State

/-! ### Strength -/

namespace Grammar

/-- What takes part in a comparison: a level of strength and the phrases that have it. -/
structure Contender where
  level : Level
  phrases : List Phrase

namespace Contender

/-- Whether an entry of a ranking is about a contender. -/
def has (contender : Contender) : Ranked → Bool
  | .degree degree => contender.level = .degree degree
  | .phrase phrase => contender.phrases.contains phrase

end Contender

def rank (one two : Contender) : List Ranked → Bool → Bool → Option Ordering
  | [], _, _ => none
  | entry :: entries, seenOne, seenTwo =>
    if one.has entry then if seenTwo then some .lt else rank one two entries true seenTwo
    else if two.has entry then if seenOne then some .gt else rank one two entries seenOne true
    else rank one two entries seenOne seenTwo

/-- The number of a level that has no name. No strength at all counts as zero. -/
def numberOf : Level → Option Int
  | .plain => some 0
  | .number value => some value
  | .degree _ => none

/-- Which of two contenders is the stronger. Names are compared by rank, and so is what has no strength;
other numbers are compared as they are. -/
def compare (one two : Contender) : Ordering :=
  let byRank := (rankings.findSome? fun ranking => rank one two ranking false false).getD .eq
  match numberOf one.level, numberOf two.level with
  | some first, some second => if first = 0 && second = 0 then byRank else Ord.compare first second
  | _, _ => byRank

end Grammar

/-! ### Actions -/

/-- Taking the last trees together as a phrase. -/
structure Reduction where
  phrase : Nat
  count : Nat
  deriving DecidableEq

/-- What may be done in a state before a token. -/
structure Actions where
  reductions : List Reduction
  shifts : Bool

namespace Actions

/-- The reductions that are left so far, and the strength they have. -/
structure Rivals where
  reductions : List Reduction := []
  best : Grammar.Contender := ⟨.plain, []⟩
  sides : List (Option Side) := []

/-- Let an item that may end contend with others: it gives way to stronger ones and drives out weaker
ones. -/
def contend (rivals : Rivals) (item : Item) : Rivals :=
  match item.final? with
  | none => rivals
  | some strength =>
    let phrase := Grammar.phraseTable.getD item.phrase (.node .program)
    let reduction : Reduction := ⟨item.phrase, item.count⟩
    let alone : Rivals := ⟨[reduction], ⟨strength.level, [phrase]⟩, [strength.side]⟩
    if rivals.reductions.isEmpty then alone
    else
      match Grammar.compare ⟨strength.level, [phrase]⟩ rivals.best with
      | .gt => alone
      | .lt => rivals
      | .eq =>
        ⟨rivals.reductions ++ [reduction], ⟨strength.level, rivals.best.phrases ++ [phrase]⟩,
          rivals.sides ++ [strength.side]⟩

def precedes (one two : Item) : Bool :=
  one.count < two.count ||
    (one.count = two.count &&
      Grammar.orderTable.getD one.phrase 0 ≤ Grammar.orderTable.getD two.phrase 0)

def of (state : State) (token : Token) : Actions :=
  let endings := sortBy precedes (state.items.filter fun item =>
    item.final?.isSome && token.isIn item.ahead && item.phrase ≠ (Phrase.node .program).code)
  let goings : List (Nat × Strength) := state.items.flatMap fun item =>
    item.ways.filterMap fun (_, step, strength) =>
      if token.isIn (Grammar.firstOf step.symbol) then some (item.phrase, strength) else none
  let shifts := !goings.isEmpty || (state.items.isEmpty && token.isIn state.valid && token ≠ .finish)
  let rivals := endings.foldl contend {}
  if endings.isEmpty then ⟨[], shifts⟩
  else if !shifts then ⟨rivals.reductions, false⟩
  else
    let phrases := goings.map Prod.fst ++ endings.map Item.phrase
    let phraseOf (code : Nat) : Phrase := Grammar.phraseTable.getD code (.node .program)
    if phrases.all (fun phrase => phrases.head? = some phrase && (phraseOf phrase).isRepetition) then
      ⟨rivals.reductions, false⟩
    else
      let orders := goings.map fun (phrase, strength) =>
        Grammar.compare ⟨strength.level, [phraseOf phrase]⟩ rivals.best
      let more := orders.contains .gt
      let less := orders.contains .lt
      if more && !less then ⟨[], true⟩
      else if less && !more then ⟨rivals.reductions, false⟩
      else if more && less then ⟨rivals.reductions, true⟩
      else if rivals.sides.all (· = some .left) then ⟨rivals.reductions, false⟩
      else if rivals.sides.all (· = some .right) then ⟨[], true⟩
      else ⟨rivals.reductions, true⟩

end Actions
end Graft
