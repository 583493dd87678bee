import Graft.Grammar.Program
import Graft.Grammar.Table

/-! What follows from the grammar as a whole: with which tokens and phrases a phrase can start, and what
can come after a phrase that starts another one. Sets of tokens and sets of phrases are natural numbers
with one bit for each member. -/

namespace Graft

abbrev TokenSet := Nat

/-- A set of phrases, by their numbers. -/
abbrev PhraseSet := Nat

namespace Token

def isIn (token : Token) (tokens : TokenSet) : Bool := tokens.testBit token.code

end Token

namespace Grammar

def union (sets : List Nat) : Nat := sets.foldl (· ||| ·) 0

/-! ### Steps -/

def productionTable : Table (List Production) :=
  .group Phrase.limit (productions.map fun production => (production.phrase.code, production))

def productionAt? (code : Nat) : Option Production := (productionTable.getD code []).head?

def stepTable : Table Steps :=
  tabulate Phrase.limit fun code =>
    match productionAt? code with
    | some production => production.rule.toSteps
    | none => ⟨#[], []⟩

def stepsOf (phrase : Nat) : Steps := stepTable.getD phrase ⟨#[], []⟩

def stepAt? (phrase index : Nat) : Option Step := (stepsOf phrase).steps[index]?

/-- The steps that a phrase can start with. -/
def startsOf (phrase : Nat) : List (Nat × Step) :=
  (stepsOf phrase).starts.filterMap fun index => (stepAt? phrase index).map fun step => (index, step)

def Step.phrase? (step : Step) : Option Nat :=
  match step.symbol with
  | .token _ => none
  | .phrase phrase => some phrase.code

/-! ### Starts of phrases -/

/-- All that can be reached from some numbers by going on from each. -/
def reach (goOn : Nat → List Nat) : Nat → List Nat → Nat → Nat
  | 0, _, seen => seen
  | _ + 1, [], seen => seen
  | steps + 1, place :: places, seen =>
    if seen.testBit place then reach goOn steps places seen
    else reach goOn steps (goOn place ++ places) (seen ||| 1 <<< place)

/-- More steps than it takes to reach all phrases. -/
def reachLimit : Nat := 4096

/-- The phrases that can stand at the start of a phrase, itself among them. -/
def cornerTable : Table PhraseSet :=
  tabulate Phrase.limit fun phrase =>
    reach (fun phrase => (startsOf phrase).filterMap fun (_, step) => Step.phrase? step) reachLimit [phrase] 0

def cornersOf (phrase : Nat) : PhraseSet := cornerTable.getD phrase 0

/-- The phrases that a phrase can consist of alone, itself among them. -/
def unitTable : Table PhraseSet :=
  tabulate Phrase.limit fun phrase =>
    reach (fun phrase => (startsOf phrase).filterMap fun (_, step) =>
      if step.final.isSome then Step.phrase? step else none) reachLimit [phrase] 0

def unitsOf (phrase : Nat) : PhraseSet := unitTable.getD phrase 0

/-- The tokens that a phrase starts with directly. -/
def directTable : Table TokenSet :=
  tabulate Phrase.limit fun phrase =>
    union ((startsOf phrase).map fun (_, step) =>
      match step.symbol with
      | .token token => token.set
      | .phrase _ => 0)

/-- The tokens that a phrase can start with. -/
def firstTable : Table TokenSet :=
  tabulate Phrase.limit fun phrase => directTable.union (cornersOf phrase)

def firstOf (symbol : Symbol) : TokenSet :=
  match symbol with
  | .token token => token.set
  | .phrase phrase => firstTable.getD phrase.code 0

/-! ### What comes after -/

/-- The tokens that can come after each step of a phrase inside that phrase. -/
def followTable : Table (Array TokenSet) :=
  tabulate Phrase.limit fun phrase =>
    (stepsOf phrase).steps.map fun step =>
      union (step.next.filterMap fun (next, _) => (stepAt? phrase next).map fun step => firstOf step.symbol)

def followOf (phrase index : Nat) : TokenSet := (followTable.getD phrase #[]).getD index 0

/-- For each phrase, the phrases that can start with it and go on, and the tokens they go on with. -/
def leadTable : Table (List (Nat × TokenSet)) :=
  let leads : List (PhraseSet × Nat × TokenSet) :=
    (List.range Phrase.limit).flatMap fun phrase =>
      (startsOf phrase).filterMap fun (index, step) =>
        match Step.phrase? step with
        | some start => if step.next.isEmpty then none else some (unitsOf start, phrase, followOf phrase index)
        | none => none
  tabulate Phrase.limit fun phrase =>
    leads.filterMap fun (units, lead) => if units.testBit phrase then some lead else none

def leadsOf (phrase : Nat) : List (Nat × TokenSet) := leadTable.getD phrase []

/-- For each token, the phrases that can start with it directly, and the step for it. -/
def tokenStartTable : Table (List (Nat × Nat)) :=
  .group 256 ((List.range Phrase.limit).flatMap fun phrase =>
    (startsOf phrase).filterMap fun (index, step) =>
      match step.symbol with
      | .token token => some (token.code, phrase, index)
      | .phrase _ => none)

def phraseStartTable : Table (List (Nat × Nat)) :=
  .group Phrase.limit ((List.range Phrase.limit).flatMap fun phrase =>
    (startsOf phrase).filterMap fun (index, step) =>
      (Step.phrase? step).map fun start => (start, phrase, index))

def startersOf (symbol : Symbol) : List (Nat × Nat) :=
  match symbol with
  | .token token => tokenStartTable.getD token.code []
  | .phrase phrase => phraseStartTable.getD phrase.code []

/-! ### Order, weight and kind of phrases -/

def orderTable : Table Nat :=
  tabulate Phrase.limit fun code => productions.findIdx fun production => production.phrase.code = code

def weightTable : Table Int :=
  tabulate Phrase.limit fun code =>
    match productionAt? code with
    | some production => production.weight
    | none => 0

def phraseTable : Table Phrase :=
  tabulate Phrase.limit fun code =>
    match productionAt? code with
    | some production => production.phrase
    | none => .node .program

end Grammar
end Graft
