import Graft.Json.Lexeme
import Graft.Json.Value

/-! Strings as they are written. A string that is written in quotes is read as itself, whichever characters it holds,
and what stands behind its closing quote is left. -/

namespace Graft.Json

theorem Value.quote_append (text rest : Text) : quote text ++ rest = '"' :: (text.flatMap escape ++ '"' :: rest) := by
  rw [quote, List.cons_append, List.cons_append, List.append_assoc, List.singleton_append]

theorem hexValue?_hexDigit {n : Nat} (small : n < 16) : hexValue? (Value.hexDigit n) = some n := by
  have all : ∀ digit : Fin 16, hexValue? (Value.hexDigit digit) = some digit.val := by decide
  exact all ⟨n, small⟩

/-- A control character is found again behind four digits. -/
theorem escapedUnit?_control {c : Char} (control : c.toNat < 0x20) (rest : Text) :
    escapedUnit? ('0' :: '0' :: Value.hexDigit (c.toNat / 16) :: Value.hexDigit (c.toNat % 16) :: rest) =
      some (c, rest) := by
  have zero : hexValue? '0' = some 0 := rfl
  have unit : ((0 * 16 + 0) * 16 + c.toNat / 16) * 16 + c.toNat % 16 = c.toNat := by omega
  have read : hexUnit? ('0' :: '0' :: Value.hexDigit (c.toNat / 16) :: Value.hexDigit (c.toNat % 16) :: rest) =
      some (c.toNat, rest) := by
    rw [hexUnit?, zero, hexValue?_hexDigit (by omega), hexValue?_hexDigit (by omega)]
    simp only [Option.bind_eq_bind, Option.bind_some, unit]
    rfl
  have single : isTrailing c.toNat = false ∧ isLeading c.toNat = false := by
    simp only [isTrailing, isLeading, Bool.and_eq_false_iff, decide_eq_false_iff_not]
    omega
  simp [escapedUnit?, read, single.1, single.2, Char.ofNat_toNat]

/-- A character is written as itself, or behind a backslash from where it is read back. -/
theorem escape_cases (c : Char) (rest : Text) :
    (Value.escape c = [c] ∧ c ≠ '"' ∧ c ≠ '\\' ∧ isControl c = false) ∨
      ∃ more, Value.escape c = '\\' :: more ∧ escaped? (more ++ rest) = some (c, rest) := by
  unfold Value.escape
  split
  case h_8 _ quote slash _ _ _ _ _ =>
    by_cases control : c.toNat < 0x20
    · right
      refine ⟨_, if_pos control, ?_⟩
      rw [List.cons_append, escaped?, if_pos rfl]
      exact escapedUnit?_control control rest
    · left
      exact ⟨if_neg control, quote, slash, decide_eq_false control⟩
  all_goals
    right
    exact ⟨_, rfl, rfl⟩

theorem stringWithin_quoted (text rest : Text) (steps : Nat) :
    stringWithin (text.length + 1 + steps) (text.flatMap Value.escape ++ '"' :: rest) = some (text, rest) := by
  induction text with
  | nil => rw [List.length_nil, Nat.zero_add, Nat.add_comm]; rfl
  | cons c text ih =>
    have enough : (c :: text).length + 1 + steps = (text.length + 1 + steps) + 1 := by
      rw [List.length_cons]
      omega
    rw [List.flatMap_cons, List.append_assoc, enough]
    rcases escape_cases c (text.flatMap Value.escape ++ '"' :: rest) with ⟨plain, quote, slash, free⟩ | ⟨more, behind, read⟩
    · rw [plain, List.singleton_append, stringWithin, if_neg quote, if_neg slash, free, if_neg Bool.false_ne_true, ih]
      rfl
    · rw [behind, List.cons_append, stringWithin, if_neg (by decide), if_pos rfl, read]
      simp only [Option.bind_eq_bind, Option.bind_some, ih]
      rfl

theorem string?_quoted (text rest : Text) : string? (text.flatMap Value.escape ++ '"' :: rest) = some (text, rest) := by
  have long : text.length ≤ (text.flatMap Value.escape).length := by
    induction text with
    | nil => exact Nat.le_refl _
    | cons c text ih =>
      have some : 0 < (Value.escape c).length := by
        rcases escape_cases c [] with ⟨plain, _⟩ | ⟨more, behind, _⟩
        · simp [plain]
        · simp [behind]
      rw [List.flatMap_cons, List.length_append, List.length_cons]
      omega
  obtain ⟨steps, same⟩ : ∃ steps, (text.flatMap Value.escape ++ '"' :: rest).length = text.length + 1 + steps :=
    Nat.exists_eq_add_of_le (by rw [List.length_append, List.length_cons]; omega)
  rw [string?, same, stringWithin_quoted]

end Graft.Json
