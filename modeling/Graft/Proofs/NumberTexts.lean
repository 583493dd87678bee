import Graft.Json.Lexeme

/-! Integers as they are written. The digits of a natural number are read back as the number, and an integer of 64 bits
that is written out in JSON is read as that integer, whatever follows that cannot belong to a number. -/

namespace Graft

/-! ### Digits -/

namespace Text

theorem isDigit_of_mem_ofNat {n : Nat} {c : Char} (member : c ∈ ofNat n) : Graft.isDigit c = true :=
  Nat.isDigit_of_mem_toDigits (by decide) (by decide) member

theorem ofNat_ne_nil (n : Nat) : ofNat n ≠ [] := Nat.toDigits_ne_nil

theorem ofInt_front (n : Int) : ∃ c rest, ofInt n = c :: rest ∧ (c = '-' ∨ Graft.isDigit c = true) := by
  cases n with
  | ofNat n =>
    obtain ⟨c, rest, digits⟩ := List.exists_cons_of_ne_nil (ofNat_ne_nil n)
    exact ⟨c, rest, digits, .inr (isDigit_of_mem_ofNat (n := n) (by rw [digits]; exact List.mem_cons_self ..))⟩
  | negSucc n => exact ⟨'-', ofNat (n + 1), rfl, .inl rfl⟩

theorem value_ofNat (n : Nat) : (ofNat n).value = n := by
  have same : (fun value digit => value * 10 + digitValue digit) =
      fun value (digit : Char) => 10 * value + (digit.toNat - '0'.toNat) := by
    funext value digit
    rw [digitValue, Nat.mul_comm]
  rw [value, same]
  exact Nat.ofDigitChars_toDigits (by decide) (by decide)

/-- Only zero is written with a zero in front. -/
theorem ofNat_zero_front {n : Nat} {digits : Text} (front : ofNat n = '0' :: digits) : digits = [] := by
  induction n using Nat.strongRecOn generalizing digits with
  | ind n ih =>
    unfold ofNat at front
    rw [Nat.toDigits_eq_if (by decide)] at front
    split at front
    next => exact (List.cons.inj front).2.symm
    next large =>
      have shorter : n / 10 < n := by omega
      obtain ⟨c, more, leading⟩ := List.exists_cons_of_ne_nil (ofNat_ne_nil (n / 10))
      rw [show Nat.toDigits 10 (n / 10) = c :: more from leading, List.cons_append] at front
      obtain ⟨rfl, rfl⟩ := List.cons.inj front
      have none := ih (n / 10) shorter leading
      have worth := value_ofNat (n / 10)
      rw [leading, none] at worth
      have zero : value ['0'] = 0 := rfl
      omega

end Text

namespace Json

/-- Whether a character may go on with a number that has digits only. -/
def goesOn (c : Char) : Bool := isDigit c || c = '.' || c = 'e' || c = 'E'

theorem digits?_append {digits rest : Text} (present : digits ≠ []) (all : ∀ c ∈ digits, isDigit c = true)
    (ends : ∀ c, rest.head? = some c → isDigit c = false) : digits? (digits ++ rest) = some (digits, rest) := by
  have taken : rest.takeWhile isDigit = [] ∧ rest.dropWhile isDigit = rest := by
    cases rest with
    | nil => exact ⟨rfl, rfl⟩
    | cons c rest => simp [ends c rfl]
  rw [digits?, List.takeWhile_append_of_pos all, List.dropWhile_append_of_pos all, taken.1, taken.2, List.append_nil]
  cases digits with
  | nil => exact absurd rfl present
  | cons c digits => rfl

theorem le_foldl_digits (digits : Text) (value : Nat) :
    value ≤ digits.foldl (fun value digit => value * 10 + digitValue digit) value := by
  induction digits generalizing value with
  | nil => exact Nat.le_refl _
  | cons digit digits ih =>
    have next := ih (value * 10 + digitValue digit)
    rw [List.foldl_cons]
    omega

theorem append_of_fits {digits : Text} {value : Nat}
    (fits : digits.foldl (fun value digit => value * 10 + digitValue digit) value ≤ maxInteger) :
    append value digits = (digits.foldl (fun value digit => value * 10 + digitValue digit) value, []) := by
  induction digits generalizing value with
  | nil => rfl
  | cons digit digits ih =>
    rw [List.foldl_cons] at fits ⊢
    have next := Nat.le_trans (le_foldl_digits digits _) fits
    rw [append, if_pos next, ih fits]

theorem append_ofNat {n : Nat} (fits : n ≤ maxInteger) : append 0 (Text.ofNat n) = (n, []) := by
  have worth : (Text.ofNat n).foldl (fun value digit => value * 10 + digitValue digit) 0 = n := Text.value_ofNat n
  rw [append_of_fits (by rw [worth]; exact fits), worth]

/-! ### Integers -/

def IsInteger (n : Int) : Prop := -(twoTo 63 : Int) ≤ n ∧ n ≤ maxInteger

instance (n : Int) : Decidable (IsInteger n) := inferInstanceAs (Decidable (_ ∧ _))

section
variable {rest : Text} (ends : ∀ c, rest.head? = some c → goesOn c = false)
include ends

theorem numeral?_ofNat (n : Nat) (negative : Bool) :
    numeral? ((if negative then ['-'] else []) ++ Text.ofNat n ++ rest) =
      some (⟨negative, Text.ofNat n, none, none⟩, rest) := by
  obtain ⟨d, more, digits⟩ := List.exists_cons_of_ne_nil (Text.ofNat_ne_nil n)
  have whole : whole? (Text.ofNat n ++ rest) = some (Text.ofNat n, rest) := by
    have read : digits? (Text.ofNat n ++ rest) = some (Text.ofNat n, rest) :=
      digits?_append (Text.ofNat_ne_nil n) (fun c member => Text.isDigit_of_mem_ofNat member) fun c head => by
        have other := ends c head
        simp only [goesOn, Bool.or_eq_false_iff] at other
        exact other.1.1.1
    rw [whole?, read]
    split
    next zero found =>
      rw [Option.some.injEq, Prod.mk.injEq] at found
      have none := Text.ofNat_zero_front found.1
      cases none
    next => rfl
  have fraction : fraction? rest = some (none, rest) := by
    unfold fraction?
    split
    next => simpa [goesOn] using ends '.' rfl
    next => rfl
  have exponent : exponent? rest = some (none, rest) := by
    unfold exponent?
    split
    next c rest =>
      have other := ends c rfl
      simp only [goesOn, Bool.or_eq_false_iff, decide_eq_false_iff_not] at other
      rw [if_neg (by simp [other.1.2, other.2])]
    next => rfl
  -- without a sign the digits come first, so that none is read
  have unsigned : ∀ text, Text.ofNat n ++ rest ≠ '-' :: text := by
    intro text same
    rw [digits, List.cons_append] at same
    cases same
    have digit : isDigit '-' = true := Text.isDigit_of_mem_ofNat (n := n) (by rw [digits]; exact List.mem_cons_self ..)
    cases digit
  cases negative with
  | false => simp [numeral?, whole, fraction, exponent]
  | true => simp [numeral?, whole, fraction, exponent]

/-- An integer of 64 bits is read as it was written. -/
theorem number?_ofInt {n : Int} (fits : IsInteger n) : number? (Text.ofInt n ++ rest) = some (.integer n, rest) := by
  cases n with
  | ofNat n =>
    have small : n ≤ maxInteger := by
      exact Int.ofNat_le.mp fits.2
    have read := numeral?_ofNat ends n false
    simp only [Bool.false_eq_true, if_false, List.nil_append] at read
    have meant : Numeral.number? ⟨false, Text.ofNat n, none, none⟩ = some (.integer n) := by
      simp [Numeral.number?, append_ofNat small, integer?]
    rw [number?, Text.ofInt, read]
    simp [meant]
  | negSucc n =>
    have low : n + 1 ≤ twoTo 63 := by
      have bound := fits.1
      omega
    have small : n + 1 ≤ maxInteger := Nat.le_trans low (by decide)
    have read := numeral?_ofNat ends (n + 1) true
    have meant : Numeral.number? ⟨true, Text.ofNat (n + 1), none, none⟩ = some (.integer (.negSucc n)) := by
      simp [Numeral.number?, append_ofNat small, integer?, Nat.not_lt.mpr low, Int.negSucc_eq]
    simp only [if_true, List.singleton_append] at read
    rw [number?, Text.ofInt, read]
    simp [meant]

end

end Json
end Graft
