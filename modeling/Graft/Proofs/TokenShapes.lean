import Graft.Edit.Run

/-! What tokens look like. The scanner measures the text that it is given; here is what that says about the
characters of each token and of the spacing before it. -/

namespace Graft

def IsComment (text : Text) : Prop :=
  (∃ body, text = '/' :: '/' :: body ∧ '\n' ∉ body) ∨ ∃ body, text = '/' :: '*' :: (body ++ ['*', '/'])

def IsPageComment (text : Text) : Prop :=
  ∃ blanks mark body, text = blanks ++ mark ++ body ∧ (∀ c ∈ blanks, isSpacing c = true) ∧
    (mark = ['<', '!', '-', '-'] ∨ mark = ['-', '-', '>']) ∧ '\n' ∉ body

/-- A character of a name: one that can stand there as it is, or part of an escape. -/
def isNamePart (c : Char) : Bool := Lexeme.isNameChar c || c = '\\' || c = '\x7b' || c = '\x7d'

/-- What the text of a token looks like, as far as tokens differ in it. -/
def Token.Shape : Token → Text → Prop
  | finish, text => text = []
  | lineEnd, text => text = []
  | headEnd, text => text = []
  | mark it, text => text = it.text.toList
  | word it, text => text = it.text.toList
  | comment, text => IsComment text
  | pageComment, text => IsPageComment text
  | hashBang, text => ∃ body, text = '#' :: '!' :: body ∧ '\n' ∉ body
  | identifier, text => text ≠ [] ∧ ∀ c ∈ text, isNamePart c = true
  | privateName, text => ∃ name, text = '#' :: name
  | number, text => ∃ c rest, text = c :: rest ∧ (isDigit c = true ∨ c = '.')
  | _, _ => True

/-- What a reading says of the text that it is at the start of. -/
structure Reading.Fits (reading : Reading) (text : Text) : Prop where
  spacing : ∀ c ∈ text.take reading.spacing, isSpacing c = true
  shape : reading.token.Shape ((text.drop reading.spacing).take reading.length)
  /-- A word that is no keyword here can be read as a name. -/
  name : reading.isWord = true → Token.identifier.Shape ((text.drop reading.spacing).take reading.length)

namespace Lexeme

theorem take_run (isMember : Char → Bool) (text : Text) : text.take (run isMember text) = text.takeWhile isMember := by
  rw [run]
  exact (List.prefix_iff_eq_take.mp (List.takeWhile_prefix _)).symm

theorem mem_take_run {isMember : Char → Bool} {text : Text} {c : Char} (member : c ∈ text.take (run isMember text)) :
    isMember c = true := by
  rw [take_run] at member
  exact List.all_eq_true.mp List.all_takeWhile c member

theorem isSpacing_of_isAsciiBlank {c : Char} (blank : isAsciiBlank c = true) : isSpacing c = true := by
  simp only [isAsciiBlank, isSpacing, isBlank, Bool.or_eq_true, Bool.and_eq_true, decide_eq_true_eq] at *
  omega

/-! ### Comments -/

theorem blockEnd_shape (text : Text) : ∀ (count stop : Nat), blockEnd text count = some stop →
    ∃ body rest, text = body ++ '*' :: '/' :: rest ∧ stop = count + body.length + 2 := by
  induction text with
  | nil =>
    intro count stop ends
    cases ends
  | cons c rest ih =>
    intro count stop ends
    rw [blockEnd.eq_def] at ends
    split at ends
    next same => cases same
    next rest' same =>
      cases same
      cases ends
      exact ⟨[], rest', rfl, rfl⟩
    next c' rest' _ same =>
      cases same
      split at ends
      next => cases ends
      next =>
        obtain ⟨body, tail, rfl, rfl⟩ := ih _ _ ends
        exact ⟨c :: body, tail, rfl, by simp; omega⟩

theorem comment_shape (text : Text) (here : comment text ≠ 0) : IsComment (text.take (comment text)) := by
  unfold comment at *
  split at here
  next rest =>
    refine .inl ⟨rest.take (run (fun c => !endsLine c) rest), ?_, ?_⟩
    · simp [Nat.add_comm 2]
    · intro member
      have := mem_take_run member
      simp [endsLine] at this
  next rest =>
    cases ends : blockEnd rest 2 with
    | none => simp [ends] at here
    | some stop =>
      obtain ⟨body, tail, rfl, rfl⟩ := blockEnd_shape rest 2 stop ends
      refine .inr ⟨body, ?_⟩
      have long : 2 + body.length + 2 = (body ++ ['*', '/']).length + 2 := by simp; omega
      have whole : body ++ '*' :: '/' :: tail = (body ++ ['*', '/']) ++ tail := by simp
      simp only [Option.getD_some, long, List.take_succ_cons, whole, List.take_left]
  next => exact absurd rfl here

theorem pageComment_shape (text : Text) (here : pageComment text ≠ 0) :
    ∃ mark body, text.take (pageComment text) = mark ++ body ∧
      (mark = ['<', '!', '-', '-'] ∨ mark = ['-', '-', '>']) ∧ '\n' ∉ body := by
  have plain : ∀ rest : Text, '\n' ∉ rest.take (run pageComment.inLine rest) := by
    intro rest member
    have := mem_take_run member
    simp [pageComment.inLine] at this
  unfold pageComment at *
  split at here
  next rest => exact ⟨_, _, by simp [Nat.add_comm 4], .inl rfl, plain rest⟩
  next rest => exact ⟨_, _, by simp [Nat.add_comm 3], .inr rfl, plain rest⟩
  next => exact absurd rfl here

theorem hashBang_shape (text : Text) (here : hashBang text ≠ 0) :
    ∃ body, text.take (hashBang text) = '#' :: '!' :: body ∧ '\n' ∉ body := by
  unfold hashBang at *
  split at here
  next rest =>
    refine ⟨rest.take (run (fun c => c ≠ '\n' && c ≠ '\x00') rest), by simp [Nat.add_comm 2], ?_⟩
    intro member
    have := mem_take_run member
    simp at this
  next => exact absurd rfl here

/-! ### Names and numbers -/

theorem isNamePart_of_isHex {c : Char} (hex : isHex c = true) : isNamePart c = true := by
  simp only [isHex, isDigit, Char.le_def, UInt32.le_iff_toNat_le, Bool.or_eq_true, Bool.and_eq_true,
    decide_eq_true_eq] at hex
  simp only [isNamePart, isNameChar, isSpacing, isBlank, Bool.or_eq_true, Bool.and_eq_true, Bool.not_eq_true',
    decide_eq_true_eq, Bool.or_eq_false_iff, Bool.and_eq_false_iff, decide_eq_false_iff_not, Char.toNat]
  have zero : ('0' : Char).val.toNat = 48 := rfl
  have nine : ('9' : Char).val.toNat = 57 := rfl
  have a : ('a' : Char).val.toNat = 97 := rfl
  have f : ('f' : Char).val.toNat = 102 := rfl
  have upperA : ('A' : Char).val.toNat = 65 := rfl
  have upperF : ('F' : Char).val.toNat = 70 := rfl
  left; left; left
  omega

theorem unicodeEscape_parts (text : Text) : ∀ c ∈ text.take (unicodeEscape text), isNamePart c = true := by
  unfold unicodeEscape
  split
  next rest =>
    dsimp only
    split
    next closed =>
      obtain ⟨_, closed⟩ := Bool.and_eq_true_iff.mp closed
      intro c member
      change c ∈ '\\' :: 'u' :: '\x7b' :: rest.take (run isHex rest + 1) at member
      rw [List.take_add_one] at member
      simp only [List.mem_cons, List.mem_append] at member
      rcases member with rfl | rfl | rfl | member | member
      · rfl
      · rfl
      · rfl
      · exact isNamePart_of_isHex (mem_take_run member)
      · rw [← List.head?_drop] at member
        cases last : (rest.drop (run isHex rest)).head? with
        | none => simp [last] at member
        | some brace =>
          simp only [last, Option.toList_some, List.mem_singleton] at member
          simp only [last, Option.any_some, decide_eq_true_eq] at closed
          subst member closed
          rfl
    next => simp
  next a b c d rest =>
    split
    next hex =>
      simp only [Bool.and_eq_true] at hex
      intro x member
      simp only [List.take_succ_cons, List.take_zero, List.mem_cons, List.not_mem_nil, or_false] at member
      rcases member with rfl | rfl | rfl | rfl | rfl | rfl
      · rfl
      · rfl
      · exact isNamePart_of_isHex hex.1.1.1
      · exact isNamePart_of_isHex hex.1.1.2
      · exact isNamePart_of_isHex hex.1.2
      · exact isNamePart_of_isHex hex.2
    next => simp
  next => simp

theorem nameUnit_parts (text : Text) : ∀ c ∈ text.take (nameUnit text), isNamePart c = true := by
  unfold nameUnit
  split
  next => simp
  next c rest =>
    split
    next plain =>
      intro x member
      simp only [List.take_succ_cons, List.take_zero, List.mem_singleton] at member
      subst member
      simp [isNamePart, plain]
    next => exact unicodeEscape_parts _

/-- The characters that are counted are parts of a name, if those of the escape that has begun are. -/
theorem nameUnits_parts (text : Text) : ∀ (skip count : Nat), (∀ c ∈ text.take skip, isNamePart c = true) →
    ∃ more, nameUnits text skip count = count + more ∧ ∀ c ∈ text.take more, isNamePart c = true := by
  induction text with
  | nil =>
    intro skip count _
    exact ⟨0, by simp [nameUnits], by simp⟩
  | cons c rest ih =>
    intro skip count begun
    cases skip with
    | succ skip =>
      obtain ⟨more, counted, parts⟩ := ih skip (count + 1) fun x member => begun x (List.mem_cons_of_mem c member)
      refine ⟨more + 1, by rw [nameUnits, counted]; omega, ?_⟩
      intro x member
      rcases List.mem_cons.mp member with rfl | member
      · exact begun x (List.mem_cons_self ..)
      · exact parts x member
    | zero =>
      have unit := nameUnit_parts (c :: rest)
      rw [nameUnits]
      split
      next => exact ⟨0, rfl, by simp⟩
      next skip counted =>
        rw [counted] at unit
        obtain ⟨more, counted, parts⟩ := ih skip (count + 1) fun x member => unit x (List.mem_cons_of_mem c member)
        refine ⟨more + 1, by rw [counted]; omega, ?_⟩
        intro x member
        rcases List.mem_cons.mp member with rfl | member
        · exact unit x (List.mem_cons_self ..)
        · exact parts x member

theorem word_shape (text : Text) (here : word text ≠ 0) : Token.identifier.Shape (text.take (word text)) := by
  unfold word at *
  split at here
  next => exact absurd rfl here
  next c rest =>
    split at here
    next => exact absurd rfl here
    next digit =>
      obtain ⟨more, counted, parts⟩ := nameUnits_parts (c :: rest) 0 0 (by simp)
      rw [counted, Nat.zero_add] at here
      simp only [digit, counted, Nat.zero_add]
      cases more with
      | zero => exact absurd rfl here
      | succ more => exact ⟨by simp, parts⟩

theorem privateName_shape (text : Text) (here : privateName text ≠ 0) :
    ∃ name, text.take (privateName text) = '#' :: name := by
  unfold privateName at *
  split at here
  next rest =>
    split at here
    next => exact absurd rfl here
    next counted =>
      refine ⟨rest.take (word rest), ?_⟩
      cases length : word rest with
      | zero => exact absurd length counted
      | succ => simp
  next => exact absurd rfl here

theorem digits_head {text : Text} (here : digits isDigit text ≠ 0) : ∃ c rest, text = c :: rest ∧ isDigit c = true := by
  unfold digits at here
  split at here
  next c rest =>
    split at here
    next digit => exact ⟨c, rest, rfl, digit⟩
    next => exact absurd rfl here
  next => exact absurd rfl here

theorem number_head {text : Text} (here : number text ≠ 0) :
    ∃ c rest, text = c :: rest ∧ (isDigit c = true ∨ c = '.') := by
  cases text with
  | nil => exact absurd rfl here
  | cons c rest =>
    refine ⟨c, rest, rfl, ?_⟩
    by_cases digit : isDigit c = true
    · exact .inl digit
    right
    have nonzero : c ≠ '0' := by rintro rfl; exact digit rfl
    have plain : digits isDigit (c :: rest) = 0 := by
      refine Decidable.byContradiction fun some_digit => ?_
      obtain ⟨_, _, same, isDigit⟩ := digits_head some_digit
      cases same
      exact digit isDigit
    have whole : wholePart (c :: rest) = 0 := by
      unfold wholePart
      split
      next same => cases same; exact absurd rfl nonzero
      next => exact plain
    have prefixless : number (c :: rest) = decimal (c :: rest) := by
      unfold number
      split
      next same => cases same; exact absurd rfl nonzero
      next => simp
    rw [prefixless] at here
    simp only [decimal, plain, whole, List.drop_zero, Nat.lt_irrefl, decide_false, Bool.false_and, if_false,
      Bool.false_eq_true] at here
    split at here
    next same => cases same; rfl
    next => simp at here

theorem number_shape (text : Text) (here : number text ≠ 0) : Token.number.Shape (text.take (number text)) := by
  obtain ⟨c, rest, same, first⟩ := number_head here
  cases length : number text with
  | zero => exact absurd length here
  | succ more => exact ⟨c, rest.take more, by rw [same]; rfl, first⟩

end Lexeme

/-! ### Readings -/

namespace Reading

theorem longest_mem {readings : List Reading} {best : Reading} (found : longest readings = some best) :
    best ∈ readings := by
  cases readings with
  | nil => cases found
  | cons one others =>
    cases found
    have better : ∀ (others : List Reading) (one : Reading), others.foldl longer one ∈ one :: others := by
      intro others
      induction others with
      | nil => simp
      | cons other others ih =>
        intro one
        have := ih (longer one other)
        rcases List.mem_cons.mp this with same | later
        · rw [List.foldl_cons, same, longer]
          split <;> simp
        · exact List.mem_cons_of_mem _ (List.mem_cons_of_mem _ later)
    exact better others one

theorem Fits.direct {token : Token} {length : Nat} {text : Text} (shape : token.Shape (text.take length)) :
    Fits { token, spacing := 0, length } text := by
  refine ⟨by simp, ?_, fun word => by cases word⟩
  exact shape

theorem Fits.behind {token : Token} {isSkipped : Char → Bool} {length : Nat} {text : Text}
    (skips : ∀ c, isSkipped c = true → isSpacing c = true)
    (shape : token.Shape ((text.drop (Lexeme.run isSkipped text)).take length)) :
    Fits { token, spacing := Lexeme.run isSkipped text, length } text := by
  refine ⟨?_, shape, fun word => by cases word⟩
  intro c member
  exact skips c (Lexeme.mem_take_run member)

end Reading

namespace Scanner
variable {valid : TokenSet} {text : Text} {found : Reading}

theorem reading_some {token : Token} {spacing length : Nat} (read : reading token spacing length = some found) :
    length ≠ 0 ∧ found = { token, spacing, length } := by
  unfold reading at read
  split at read
  next => cases read
  next some_length =>
    cases read
    exact ⟨some_length, rfl⟩

theorem class?_some {token : Token} {measure : Text → Nat} {spacing : Nat}
    (read : class? valid token measure spacing text = some found) :
    measure text ≠ 0 ∧ found = { token, spacing, length := measure text } := by
  unfold class? at read
  split at read
  next => exact reading_some read
  next => cases read

/-- Tokens whose shape is not told, directly at the start of a text. -/
theorem class?_direct {token : Token} {measure : Text → Nat} (read : class? valid token measure 0 text = some found)
    (plain : ∀ text, token.Shape text) : found.Fits text := by
  obtain ⟨_, rfl⟩ := class?_some read
  exact .direct (plain _)

theorem class?_behind {token : Token} {measure : Text → Nat}
    (read : class? valid token measure (Lexeme.spacing text) (text.drop (Lexeme.spacing text)) = some found)
    (shape : ∀ text, measure text ≠ 0 → token.Shape (text.take (measure text))) : found.Fits text := by
  obtain ⟨here, rfl⟩ := class?_some read
  exact .behind (fun _ => id) (shape _ here)

theorem word?_fits (read : word? valid (Lexeme.spacing text) (text.drop (Lexeme.spacing text)) = some found) :
    found.Fits text := by
  unfold word? at read
  split at read
  next => cases read
  next =>
    dsimp only at read
    split at read
    next => cases read
    next here =>
      have name := Lexeme.word_shape _ here
      split at read
      next =>
        cases read
        exact .behind (fun _ => id) name
      next keyword known =>
        cases read
        refine ⟨fun c => Lexeme.mem_take_run, ?_, fun _ => name⟩
        dsimp only
        split
        next =>
          have same := List.find?_some known
          exact (of_decide_eq_true same).symm
        next => exact name

theorem mark?_fits (read : mark? valid (Lexeme.spacing text) (text.drop (Lexeme.spacing text)) = some found) :
    found.Fits text := by
  obtain ⟨mark, _, made⟩ := List.mem_filterMap.mp (Reading.longest_mem read)
  split at made
  next here =>
    cases made
    obtain ⟨_, starts⟩ := Bool.and_eq_true_iff.mp here
    have taken := List.prefix_iff_eq_take.mp (List.isPrefixOf_iff_prefix.mp starts)
    exact .behind (fun _ => id) taken.symm
  next => cases made

theorem direct?_fits (read : direct? valid text = some found) : found.Fits text := by
  unfold direct? at read
  rcases Option.or_eq_some_iff.mp read with read | ⟨_, read⟩
  · exact class?_direct read fun _ => trivial
  rcases Option.or_eq_some_iff.mp read with read | ⟨_, read⟩
  · exact class?_direct read fun _ => trivial
  rcases Option.or_eq_some_iff.mp read with read | ⟨_, read⟩
  · exact class?_direct read fun _ => trivial
  rcases Option.or_eq_some_iff.mp read with read | ⟨_, read⟩
  · exact class?_direct read fun _ => trivial
  exact class?_direct read fun _ => trivial

theorem plain?_fits (read : plain? valid text = some found) : found.Fits text := by
  unfold plain? at read
  dsimp only at read
  split at read
  next =>
    cases read
    exact .behind (fun _ => id) List.take_zero
  next =>
    have member := Reading.longest_mem read
    simp only [List.mem_filterMap, id_eq, exists_eq_right, List.mem_cons, List.not_mem_nil, or_false] at member
    rcases member with read | read | read | read | read | read | read | read | read | read | read
    · exact class?_direct read.symm fun _ => trivial
    · exact class?_direct read.symm fun _ => trivial
    · obtain ⟨here, rfl⟩ := reading_some read.symm
      exact .behind (fun _ => id) (Lexeme.comment_shape _ here)
    · exact class?_behind read.symm Lexeme.hashBang_shape
    · exact class?_behind read.symm Lexeme.number_shape
    · exact class?_behind read.symm Lexeme.privateName_shape
    · exact class?_behind read.symm fun _ _ => trivial
    · exact class?_behind read.symm fun _ _ => trivial
    · exact word?_fits read.symm
    · exact mark?_fits read.symm
    · exact class?_direct read.symm fun _ => trivial

theorem lineEnd?_fits (read : lineEnd? valid text = some found) : found.Fits text := by
  unfold lineEnd? at read
  dsimp only at read
  split at read
  next =>
    cases read
    exact .direct List.take_zero
  next =>
    split at read
    next =>
      obtain ⟨_, rfl⟩ := reading_some read
      exact .behind (fun _ => Lexeme.isSpacing_of_isAsciiBlank) trivial
    next => cases read

theorem pageComment?_fits (read : pageComment? valid text = some found) : found.Fits text := by
  have blank : ∀ c : Char, (isAsciiBlank c || c.toNat = 0x2028 || c.toNat = 0x2029) = true → isSpacing c = true := by
    intro c blank
    simp only [isAsciiBlank, isSpacing, isBlank, Bool.or_eq_true, Bool.and_eq_true, decide_eq_true_eq] at *
    omega
  unfold pageComment? at read
  dsimp only at read
  generalize blanks : Lexeme.run (fun c => isAsciiBlank c || c.toNat = 0x2028 || c.toNat = 0x2029) text = width at read
  split at read
  next => cases read
  next here =>
    obtain ⟨mark, body, taken, marked, plain⟩ := Lexeme.pageComment_shape _ here
    split at read
    next =>
      cases read
      refine .direct ⟨text.take width, mark, body, ?_, ?_, marked, plain⟩
      · rw [List.take_add, taken, List.append_assoc]
      · subst blanks
        exact fun c member => blank c (Lexeme.mem_take_run member)
    next =>
      cases read
      subst blanks
      exact .behind blank ⟨[], mark, body, taken, by simp, marked, plain⟩

/-- Every token that the scanner reads looks as it should. -/
theorem next?_fits (read : next? valid text = some found) : found.Fits text := by
  have plain : (direct? valid text).or (plain? valid text) = some found → found.Fits text := by
    intro read
    rcases Option.or_eq_some_iff.mp read with read | ⟨_, read⟩
    · exact direct?_fits read
    · exact plain?_fits read
  unfold next? at read
  dsimp only at read
  split at read
  next =>
    split at read
    next => exact plain read
    next =>
      rcases Option.or_eq_some_iff.mp read with read | ⟨_, read⟩
      · obtain ⟨_, rfl⟩ := reading_some read
        exact .direct trivial
      · exact plain read
  next =>
    split at read
    next markup =>
      cases read
      exact class?_direct markup fun _ => trivial
    next =>
      split at read
      next =>
        rcases Option.or_eq_some_iff.mp read with read | ⟨_, read⟩
        · exact lineEnd?_fits read
        · exact plain read
      next =>
        split at read
        next => exact plain read
        next =>
          rcases Option.or_eq_some_iff.mp read with read | ⟨_, read⟩
          · exact pageComment?_fits read
          · exact plain read

end Scanner
end Graft
