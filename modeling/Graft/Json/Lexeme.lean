import Graft.Json.Value
import Graft.Text.Digits

/-! The words of JSON: blanks, strings and numbers. -/

namespace Graft.Json

/-- What may stand between the words of JSON. -/
def isGap (c : Char) : Bool := c = ' ' || c = '\n' || c = '\t' || c = '\r'

def skipGap (text : Text) : Text := text.dropWhile isGap

/-! ### Strings -/

def hexValue? (c : Char) : Option Nat :=
  let n := c.toNat
  if 48 ≤ n && n ≤ 57 then some (n - 48)
  else if 97 ≤ n && n ≤ 102 then some (n - 87)
  else if 65 ≤ n && n ≤ 70 then some (n - 55)
  else none

def hexUnit? : Text → Option (Nat × Text)
  | a :: b :: c :: d :: rest => do
    let a ← hexValue? a
    let b ← hexValue? b
    let c ← hexValue? c
    let d ← hexValue? d
    return (((a * 16 + b) * 16 + c) * 16 + d, rest)
  | _ => none

/-- The first of the two units that a character beyond the basic plane is written with. -/
def isLeading (unit : Nat) : Bool := 0xD800 ≤ unit && unit < 0xDC00

def isTrailing (unit : Nat) : Bool := 0xDC00 ≤ unit && unit < 0xE000

/-- The character that one or two units of four digits stand for. -/
def escapedUnit? (text : Text) : Option (Char × Text) := do
  let (unit, rest) ← hexUnit? text
  if isTrailing unit then none
  else if isLeading unit then
    match rest with
    | '\\' :: 'u' :: rest => do
      let (second, rest) ← hexUnit? rest
      if isTrailing second then some (Char.ofNat (0x10000 + (unit - 0xD800) * 0x400 + (second - 0xDC00)), rest)
      else none
    | _ => none
  else some (Char.ofNat unit, rest)

def shortEscape? (c : Char) : Option Char :=
  match c with
  | '"' => some '"'
  | '\\' => some '\\'
  | '/' => some '/'
  | 'b' => some '\x08'
  | 'f' => some '\x0c'
  | 'n' => some '\n'
  | 'r' => some '\r'
  | 't' => some '\t'
  | _ => none

def escaped? : Text → Option (Char × Text)
  | [] => none
  | c :: rest => if c = 'u' then escapedUnit? rest else (shortEscape? c).map fun c => (c, rest)

/-- Whether a character must not stand in a string as it is. -/
def isControl (c : Char) : Bool := c.toNat < 0x20

/-- The rest of a string up to its closing quote, in a number of characters at most. -/
def stringWithin : Nat → Text → Option (Text × Text)
  | 0, _ => none
  | _ + 1, [] => none
  | steps + 1, c :: rest =>
    if c = '"' then some ([], rest)
    else if c = '\\' then do
      let (c, rest) ← escaped? rest
      let (text, rest) ← stringWithin steps rest
      return (c :: text, rest)
    else if isControl c then none
    else do
      let (text, rest) ← stringWithin steps rest
      return (c :: text, rest)

def string? (text : Text) : Option (Text × Text) := stringWithin text.length text

/-! ### Numbers -/

structure Numeral where
  negative : Bool
  whole : Text
  fraction : Option Text
  exponent : Option (Bool × Text)

def digits? (text : Text) : Option (Text × Text) :=
  match text.takeWhile isDigit with
  | [] => none
  | digits => some (digits, text.dropWhile isDigit)

/-- The digits before the point. Only zero itself starts with a zero. -/
def whole? (text : Text) : Option (Text × Text) :=
  match digits? text with
  | some ('0' :: _ :: _, _) => none
  | result => result

def fraction? (text : Text) : Option (Option Text × Text) :=
  match text with
  | '.' :: rest => (digits? rest).map fun (digits, rest) => (some digits, rest)
  | _ => some (none, text)

/-- The digits of an exponent behind its sign; the first part says whether it is negative. -/
def exponent? (text : Text) : Option (Option (Bool × Text) × Text) :=
  match text with
  | c :: rest =>
    if c = 'e' || c = 'E' then
      let (negative, rest) := match rest with
        | '+' :: rest => (false, rest)
        | '-' :: rest => (true, rest)
        | _ => (false, rest)
      (digits? rest).map fun (digits, rest) => (some (negative, digits), rest)
    else some (none, text)
  | [] => some (none, text)

def numeral? (text : Text) : Option (Numeral × Text) := do
  let (negative, text) := match text with
    | '-' :: rest => (true, rest)
    | _ => (false, text)
  let (whole, text) ← whole? text
  let (fraction, text) ← fraction? text
  let (exponent, text) ← exponent? text
  return (⟨negative, whole, fraction, exponent⟩, text)

/-- Append digits to a number while it fits into 64 bits. The second part is the digits that do not. -/
def append (value : Nat) : Text → Nat × Text
  | [] => (value, [])
  | digit :: digits =>
    let next := value * 10 + digitValue digit
    if next ≤ maxInteger then append next digits else (value, digit :: digits)

/-- The integer that a numeral without fraction and exponent stands for. Zero with a sign is none, and
neither is what does not fit into 64 bits. -/
def integer? (negative : Bool) (value : Nat) : Option Int :=
  if !negative then some value
  else if value = 0 || twoTo 63 < value then none
  else some (-(value : Int))

namespace Numeral

/-- The digits that fit into 64 bits, and the exponent that goes with them. Digits before the point that
do not fit count as zeros; digits behind it that do not fit are left out. -/
def scaled (it : Numeral) : Nat × Int :=
  let (value, left) := append 0 it.whole
  let fraction := it.fraction.getD []
  let (value, lost) := append value fraction
  let written : Int := match it.exponent with
    | none => 0
    | some (negative, digits) => if negative then -(digits.value : Int) else digits.value
  (value, (left.length : Int) - (fraction.length - lost.length : Nat) + written)

/-- A numeral as a floating-point number, unless that is infinite. -/
def double? (it : Numeral) : Option Double :=
  let (value, exponent) := it.scaled
  (Double.ofDecimal value exponent).map (Double.withSign it.negative)

def number? (it : Numeral) : Option Number :=
  let double := it.double?.map Number.double
  match it.fraction, it.exponent, append 0 it.whole with
  | none, none, (value, []) => (integer? it.negative value).elim double fun value => some (.integer value)
  | _, _, _ => double

end Numeral

def number? (text : Text) : Option (Number × Text) := do
  let (numeral, rest) ← numeral? text
  return (← numeral.number?, rest)

end Graft.Json
