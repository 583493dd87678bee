/-! Floating-point numbers of 64 bits, as exact natural numbers. Every such number is a whole multiple
of the smallest positive one, `2 ^ (-1074)`. -/

namespace Graft

/-- The number `mantissa * 2 ^ (shift - 1074)`, or its negative. -/
structure Double where
  negative : Bool
  mantissa : Nat
  shift : Nat
  deriving DecidableEq

def twoTo (exponent : Nat) : Nat := Nat.pow 2 exponent

def tenTo (exponent : Nat) : Nat := Nat.pow 10 exponent

/-- The greatest integer of 64 bits. -/
def maxInteger : Nat := twoTo 64 - 1

/-- Divide and round to the nearest whole number; a half goes to the even neighbour. -/
def roundDiv (num den : Nat) : Nat :=
  let quotient := num / den
  let twice := 2 * (num % den)
  if twice < den then quotient
  else if den < twice then quotient + 1
  else if quotient % 2 = 0 then quotient else quotient + 1

namespace Double

def isZero (x : Double) : Bool := x.mantissa = 0

def precision : Nat := 53

/-- The greatest shift of a number that is not infinite. -/
def maxShift : Nat := 2045

/-- How many smallest numbers make up a number. -/
def quanta (x : Double) : Nat := x.mantissa * twoTo x.shift

/-- The shift that leaves a whole number of quanta with no more bits than a mantissa has. -/
def shiftFor (quanta : Nat) : Nat := quanta.log2 + 1 - precision

/-- Bring a mantissa that was rounded up to one bit too many back into range. -/
def carry (mantissa shift : Nat) : Option Double :=
  let x : Double :=
    if mantissa = twoTo precision then ⟨false, twoTo (precision - 1), shift + 1⟩ else ⟨false, mantissa, shift⟩
  if x.shift ≤ maxShift then some x else none

/-- The number nearest to a fraction; none if that is infinite. -/
def ofRatio (num den : Nat) : Option Double :=
  let shift := shiftFor (num * twoTo 1074 / den)
  carry (roundDiv (num * twoTo 1074) (den * twoTo shift)) shift

def ofNat (n : Nat) : Option Double := ofRatio n 1

/-- The product of two numbers without their signs. -/
def mul (x y : Double) : Option Double := ofRatio (x.quanta * y.quanta) (twoTo 2148)

def div (x y : Double) : Option Double := ofRatio x.quanta y.quanta

def withSign (negative : Bool) (x : Double) : Double := { x with negative }

/-- The greatest power of ten that is not infinite. -/
def maxPower : Nat := 308

/-- Divide by a power of ten, at most the greatest in one step. After two steps of the greatest power
nothing is left of any integer of 64 bits, so that three steps are enough. -/
def divPower (x : Double) (exponent : Nat) : Nat → Option Double
  | 0 => some x
  | steps + 1 =>
    if exponent ≤ maxPower then (ofNat (tenTo exponent)).bind x.div
    else if x.isZero then some x
    else do
      let smaller ← x.div (← ofNat (tenTo maxPower))
      divPower smaller (exponent - maxPower) steps

/-- The number that digits and a decimal exponent stand for, computed by one multiplication or division
by a power of ten, each rounded. -/
def ofDecimal (digits : Nat) (exponent : Int) : Option Double := do
  let x ← ofNat digits
  match exponent with
  | .ofNat e => if e ≤ maxPower then x.mul (← ofNat (tenTo e)) else if x.isZero then some x else none
  | .negSucc e => divPower x (e + 1) 3

end Double
end Graft
