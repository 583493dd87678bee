import Graft.Grammar.Phrase

/-! Rules. A rule says what a phrase is made of. It also says how strongly its parts hold together,
which decides between two readings of a text where one of them has to give way. -/

namespace Graft

/-- Named degrees of strength. The grammar says which of two is stronger. -/
inductive Degree where
  | member | templateCall | call | new_ | unaryVoid | power | times | plus | shift | relation
  | equality | bitwiseAnd | bitwiseXor | bitwiseOr | logicalAnd | logicalOr | ternary | assign
  | declaration | literal | object | instantiation | unary | binary | extends_
  deriving DecidableEq

/-- How strongly the parts of a phrase hold together. -/
inductive Level where
  | plain
  | number (value : Int)
  | degree (degree : Degree)
  deriving DecidableEq

/-- Which of two equally strong readings is taken: the one that ends the phrase on the left, or the one
that goes on to the right. -/
inductive Side where
  | left | right
  deriving DecidableEq

structure Strength where
  level : Level := .plain
  side : Option Side := none
  deriving DecidableEq

inductive Rule where
  | nothing
  | symbol (symbol : Symbol)
  | pair (first second : Rule)
  | either (first second : Rule)
  | strong (level : Level) (side : Option Side) (rule : Rule)
  /-- The trees that a rule reads play a role for the node around them. -/
  | role (role : Role) (rule : Rule)
  /-- What a rule reads is a node of another kind. -/
  | rename (kind : Kind) (rule : Rule)

namespace Rule

def token (token : Token) : Rule := symbol (.token token)
def word (word : Keyword) : Rule := token (.word word)
def mark (mark : Mark) : Rule := token (.mark mark)
def node (kind : Kind) : Rule := symbol (.phrase (.node kind))
def group (group : Group) : Rule := symbol (.phrase (.group group))

def seq : List Rule → Rule
  | [] => nothing
  | rule :: rules => rules.foldl pair rule

def oneOf : List Rule → Rule
  | [] => nothing
  | rule :: rules => rules.foldl either rule

def opt (rule : Rule) : Rule := either rule nothing

def words (words : List Keyword) : Rule := oneOf (words.map word)
def nodes (kinds : List Kind) : Rule := oneOf (kinds.map node)

def prec (degree : Degree) (rule : Rule) : Rule := strong (.degree degree) none rule

def precLeft (degree : Degree) (rule : Rule) : Rule := strong (.degree degree) (some .left) rule
def precRight (degree : Degree) (rule : Rule) : Rule := strong (.degree degree) (some .right) rule

/-- A rule of no strength that ends on the left. -/
def toLeft (rule : Rule) : Rule := strong (.number 0) (some .left) rule

def toRight (rule : Rule) : Rule := strong (.number 0) (some .right) rule

end Rule

/-- What a phrase is made of. The weight of a phrase counts towards the reading that it is part of: of
two readings of one text the heavier is taken. -/
structure Production where
  phrase : Phrase
  rule : Rule
  weight : Int := 0

namespace Production

def node (kind : Kind) (rule : Rule) : Production := { phrase := .node kind, rule }
def group (group : Group) (rule : Rule) : Production := { phrase := .group group, rule }

/-- One or more of the same, each behind those before it. -/
def repetition (group : Group) (rule : Rule) : Production :=
  { phrase := .group group, rule := .pair (.opt (.group group)) rule }

end Production

/-! ### Steps

The rule of a phrase is taken apart into steps, one for each symbol in it. From each step the phrase
goes on to other steps or ends. -/

/-- One symbol of a phrase. The strength behind each way on, and behind the end, is that of the
innermost rule around what is joined. -/
structure Step where
  symbol : Symbol
  role : Option Role
  rename : Option Kind
  next : List (Nat × Strength)
  final : Option Strength

structure Surroundings where
  strength : Strength := {}
  role : Option Role := none
  rename : Option Kind := none

/-- The steps of a rule, numbered from some number on: the symbols, the steps it can start with, those
it can end with and how strongly, and the ways from one step to the next. -/
structure Layout where
  symbols : List (Symbol × Option Role × Option Kind)
  starts : List Nat
  ends : List (Nat × Strength)
  ways : List (Nat × Nat × Strength)
  isEmpty : Bool

namespace Rule

/-- Take a rule apart. Where the second of two rules is left out, the first one does not stand at the end
of the rule around it, so that its own strength does not count. -/
def layout (around : Surroundings) (first : Nat) : Rule → Layout
  | nothing => ⟨[], [], [], [], true⟩
  | symbol it => ⟨[(it, around.role, around.rename)], [first], [(first, around.strength)], [], false⟩
  | pair one two =>
    let front := one.layout around first
    let back := two.layout around (first + front.symbols.length)
    ⟨front.symbols ++ back.symbols,
      front.starts ++ (if front.isEmpty then back.starts else []),
      back.ends ++ (if back.isEmpty then front.ends.map fun (step, _) => (step, around.strength) else []),
      front.ways ++ back.ways ++
        front.ends.flatMap fun (step, _) => back.starts.map fun next => (step, next, around.strength),
      front.isEmpty && back.isEmpty⟩
  | either one two =>
    let front := one.layout around first
    let back := two.layout around (first + front.symbols.length)
    ⟨front.symbols ++ back.symbols, front.starts ++ back.starts, front.ends ++ back.ends,
      front.ways ++ back.ways, front.isEmpty || back.isEmpty⟩
  | strong level side rule =>
    rule.layout { around with strength := ⟨level, side.or around.strength.side⟩ } first
  | role it rule => rule.layout { around with role := some it } first
  | rename kind rule => rule.layout { around with rename := some kind } first

end Rule

structure Steps where
  steps : Array Step
  starts : List Nat

namespace Layout

def toSteps (layout : Layout) : Steps where
  steps := (layout.symbols.zipIdx.map fun ((symbol, role, rename), index) =>
    { symbol, role, rename
      next := layout.ways.filterMap fun (step, next, strength) =>
        if step = index then some (next, strength) else none
      final := (layout.ends.find? fun (step, _) => step = index).map Prod.snd : Step }).toArray
  starts := layout.starts

end Layout

def Rule.toSteps (rule : Rule) : Steps := (rule.layout {} 0).toSteps

end Graft
