import Graft.Text.Basic

/-! Decimal digits. -/

namespace Graft

def isDigit (c : Char) : Bool := '0' ≤ c && c ≤ '9'

def digitValue (c : Char) : Nat := c.toNat - '0'.toNat

def Text.value (digits : Text) : Nat := digits.foldl (fun value digit => value * 10 + digitValue digit) 0

end Graft
