import Graft.Number.Double
import Graft.Text.Basic

/-! The shortest decimal that reads back as a floating-point number: of all decimals nearer to it than to
any other number, those with the fewest digits, and of these the nearest. -/

namespace Graft

/-- The number `digits * 10 ^ exponent`. -/
structure Decimal where
  digits : Nat
  exponent : Int
  deriving DecidableEq

namespace Double

/-- A number and the ends of the interval that rounds to it, all in quarters of the smallest number. -/
structure Interval where
  low : Nat
  value : Nat
  high : Nat
  /-- Whether the ends belong to the interval. -/
  closed : Bool

/-- The numbers that round to a number. Below a power of two the neighbours are nearer. -/
def interval (x : Double) : Interval :=
  let gap := twoTo x.shift
  let value := 4 * x.quanta
  let below := if x.mantissa = twoTo (precision - 1) && 0 < x.shift then gap else 2 * gap
  ⟨value - below, value, value + 2 * gap, x.mantissa % 2 = 0⟩

def one : Nat := twoTo 1076

namespace Interval

/-- The ratio `a / b` that turns quarters of the smallest number into units of `10 ^ exponent`. -/
def scale (exponent : Int) : Nat × Nat :=
  match exponent with
  | .ofNat e => (1, one * tenTo e)
  | .negSucc e => (tenTo (e + 1), one)

/-- Whether a multiple of `10 ^ exponent` lies in the interval. -/
def has (it : Interval) (exponent : Int) (digits : Nat) : Bool :=
  let (a, b) := scale exponent
  if it.closed then it.low * a ≤ digits * b && digits * b ≤ it.high * a
  else it.low * a < digits * b && digits * b < it.high * a

/-- The multiple of `10 ^ exponent` nearest to the value among its two neighbours that lie in the
interval; of two that are equally near, the even one. -/
def nearest? (it : Interval) (exponent : Int) : Option Nat :=
  let (a, b) := scale exponent
  let below := it.value * a / b
  match it.has exponent below, it.has exponent (below + 1) with
  | true, true => some (roundDiv (it.value * a) b)
  | true, false => some below
  | false, true => some (below + 1)
  | false, false => none

/-- The place of the first digit: the value is at least `10 ^ place` and less than ten times that. -/
def place (it : Interval) : Int :=
  ((Nat.toDigits 10 (it.value * tenTo 330 / one)).length : Int) - 331

/-- Try more and more digits, down to units of `10 ^ exponent`. -/
def search (it : Interval) : Nat → Int → Decimal
  | 0, exponent => ⟨0, exponent⟩
  | tries + 1, exponent =>
    match it.nearest? exponent with
    | some digits => ⟨digits, exponent⟩
    | none => search it tries (exponent - 1)

end Interval
end Double

namespace Decimal

def strip (it : Decimal) : Decimal :=
  go it.digits it.exponent (Nat.toDigits 10 it.digits).length
where
  go (digits : Nat) (exponent : Int) : Nat → Decimal
    | 0 => ⟨digits, exponent⟩
    | steps + 1 => if digits % 10 = 0 then go (digits / 10) (exponent + 1) steps else ⟨digits, exponent⟩

end Decimal

/-- The shortest decimal that reads back as a number, its sign left out. Seventeen digits are always
enough. -/
def Double.shortest (x : Double) : Decimal :=
  (x.interval.search 17 x.interval.place).strip

/-- How numbers are written: with a point between two places of the first digit, and a decimal exponent
outside of them. -/
structure NumberFormat where
  /-- The greatest number of digits before the point. -/
  before : Nat
  /-- The greatest number of zeros between the point and the first digit. -/
  after : Nat

namespace NumberFormat

/-- A decimal whose first digit stands `point` places before the point. -/
def plain (digits : Text) (point : Int) : Text :=
  match point with
  | .ofNat 0 => "0.".toList ++ digits
  | .negSucc zeros => "0.".toList ++ List.replicate (zeros + 1) '0' ++ digits
  | .ofNat point =>
    if digits.length ≤ point then digits ++ List.replicate (point - digits.length) '0' ++ ".0".toList
    else digits.take point ++ '.' :: digits.drop point

/-- A decimal with one digit before the point and an exponent behind. -/
def scientific (digits : Text) (exponent : Int) : Text :=
  let fraction := match digits.drop 1 with
    | [] => []
    | rest => '.' :: rest
  digits.take 1 ++ fraction ++ 'e' :: (if exponent < 0 then '-' else '+') :: Text.ofNat exponent.natAbs

def write (format : NumberFormat) (it : Decimal) : Text :=
  let digits := Text.ofNat it.digits
  let point := it.exponent + digits.length
  if -(format.after : Int) ≤ point && point ≤ format.before then plain digits point
  else scientific digits (point - 1)

/-- Up to sixteen digits before the point, and up to four zeros behind it. -/
def standard : NumberFormat := ⟨16, 4⟩

end NumberFormat

def Double.text (x : Double) : Text :=
  (if x.negative then ['-'] else []) ++
    if x.isZero then "0.0".toList else NumberFormat.standard.write x.shortest

end Graft
