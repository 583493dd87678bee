import Graft.Edit.Operation
import Graft.Grammar.Lexeme
import Graft.Proofs.LiteralTexts
import Graft.Proofs.NumberTexts

/-! Attributes as they are read. Each stands behind a space: a name, and perhaps a value behind an equals sign. A string
ends at the next quote of its own and has no escapes; in braces stands `false`, a number or a string literal. Read in this
way the attributes that are printed into a tag are the members that they were printed from, each with its value. -/

namespace Graft

/-- What an attribute says. -/
inductive AttributeReading where
  | present
  | off
  | number (text : Text)
  | string (text : Text)
  deriving DecidableEq

def Json.Value.reading : Json.Value → AttributeReading
  | .bool true => .present
  | .bool false => .off
  | .number value => .number value.text
  | .string text => .string text
  | value => .string value.spoken

namespace AttributeReading

def isNamePart (c : Char) : Bool := Lexeme.isNameChar c || c = '-' || c = ':' || c = '.'

def isNumberPart (c : Char) : Bool := isDigit c || c = '-' || c = '+' || c = '.' || c = 'e' || c = 'E'

/-- A string up to the next occurrence of its quote. -/
def string? (mark : Char) (text : Text) : Option (AttributeReading × Text) :=
  match text.dropWhile (· ≠ mark) with
  | [] => none
  | _ :: rest => some (.string (text.takeWhile (· ≠ mark)), rest)

def literal? (quote : Quote) (text : Text) : Option (AttributeReading × Text) := do
  let (body, rest) ← quote.body? false text
  return (.string (← Quote.decode? body), rest)

def expression? (text : Text) : Option (AttributeReading × Text) :=
  match text with
  | '\'' :: rest => literal? .single rest
  | '"' :: rest => literal? .double rest
  | 'f' :: 'a' :: 'l' :: 's' :: 'e' :: rest => some (.off, rest)
  | _ =>
    match text.takeWhile isNumberPart with
    | [] => none
    | digits => some (.number digits, text.dropWhile isNumberPart)

def value? (text : Text) : Option (AttributeReading × Text) :=
  match text with
  | '\'' :: rest => string? '\'' rest
  | '"' :: rest => string? '"' rest
  | '\x7b' :: rest =>
    match expression? rest with
    | some (reading, '\x7d' :: rest) => some (reading, rest)
    | _ => none
  | _ => none

/-- An attribute: its name, what it says, and what follows. -/
def attribute? (text : Text) : Option ((Text × AttributeReading) × Text) :=
  match text.takeWhile isNamePart, text.dropWhile isNamePart with
  | [], _ => none
  | name, '=' :: rest => (value? rest).map fun (reading, rest) => ((name, reading), rest)
  | name, rest => some ((name, .present), rest)

def endsTag (text : Text) : Bool := text.head?.all fun c => c = '>' || c = '/'

/-- The attributes at the start of a text, each behind spaces, and what ends the tag; so many of them at most. -/
def attributesWithin : Nat → Text → Option (List (Text × AttributeReading) × Text)
  | 0, _ => none
  | steps + 1, text =>
    if endsTag (text.dropWhile (· = ' ')) then some ([], text.dropWhile (· = ' '))
    else if text.head? ≠ some ' ' then none
    else do
      let (found, rest) ← attribute? (text.dropWhile (· = ' '))
      let (others, rest) ← attributesWithin steps rest
      return (found :: others, rest)

def attributes? (text : Text) : Option (List (Text × AttributeReading) × Text) :=
  attributesWithin (text.length + 1) text

def IsName (name : Text) : Prop := name ≠ [] ∧ ∀ c ∈ name, isNamePart c = true

instance (name : Text) : Decidable (IsName name) :=
  decidable_of_iff (name ≠ [] ∧ name.all isNamePart = true) (and_congr_right fun _ => List.all_eq_true)

/-- A text that no name and no value goes on with. -/
def Ends (text : Text) : Prop := ∀ c, text.head? = some c → isNamePart c = false ∧ c ≠ '='

/-! ### Numbers -/

theorem numeric_ofNat (n : Nat) : (Text.ofNat n).all isNumberPart = true :=
  List.all_eq_true.mpr fun c member => by simp [isNumberPart, Text.isDigit_of_mem_ofNat member]

theorem numeric_plain {digits : Text} (all : digits.all isNumberPart = true) (point : Int) :
    (NumberFormat.plain digits point).all isNumberPart = true := by
  have zeros : ∀ n, (List.replicate n '0').all isNumberPart = true := by
    intro n
    rw [List.all_replicate]
    split <;> decide
  have front : ∀ n, (digits.take n).all isNumberPart = true :=
    fun n => List.all_eq_true.mpr fun c member => List.all_eq_true.mp all c (List.mem_of_mem_take member)
  have back : ∀ n, (digits.drop n).all isNumberPart = true :=
    fun n => List.all_eq_true.mpr fun c member => List.all_eq_true.mp all c (List.mem_of_mem_drop member)
  have point : "0.".toList.all isNumberPart = true ∧ ".0".toList.all isNumberPart = true ∧ isNumberPart '.' = true := by
    decide
  unfold NumberFormat.plain
  split
  · rw [List.all_append, point.1, all, Bool.and_self]
  · rw [List.all_append, List.all_append, point.1, zeros, all, Bool.and_self, Bool.and_self]
  · split
    · rw [List.all_append, List.all_append, all, zeros, point.2.1, Bool.and_self, Bool.and_self]
    · rw [List.all_append, List.all_cons, front, point.2.2, back, Bool.and_self, Bool.and_self]

theorem numeric_scientific {digits : Text} (all : digits.all isNumberPart = true) (exponent : Int) :
    (NumberFormat.scientific digits exponent).all isNumberPart = true := by
  have front : (digits.take 1).all isNumberPart = true :=
    List.all_eq_true.mpr fun c member => List.all_eq_true.mp all c (List.mem_of_mem_take member)
  have back : (digits.drop 1).all isNumberPart = true :=
    List.all_eq_true.mpr fun c member => List.all_eq_true.mp all c (List.mem_of_mem_drop member)
  have marks : isNumberPart 'e' = true ∧ isNumberPart '-' = true ∧ isNumberPart '+' = true ∧ isNumberPart '.' = true := by
    decide
  have sign : isNumberPart (if exponent < 0 then '-' else '+') = true := by
    split
    · exact marks.2.1
    · exact marks.2.2.1
  unfold NumberFormat.scientific
  dsimp only
  rw [List.all_append, List.all_append, List.all_cons, List.all_cons, front, marks.1, sign, numeric_ofNat]
  split
  next => rfl
  next => rw [List.all_cons, marks.2.2.2, back]; rfl

theorem numeric_text (number : Json.Number) : number.text ≠ [] ∧ number.text.all isNumberPart = true := by
  cases number with
  | integer value =>
    obtain ⟨c, rest, front, -⟩ := Text.ofInt_front value
    refine ⟨by rw [Json.Number.text, front]; exact List.cons_ne_nil _ _, ?_⟩
    cases value with
    | ofNat n => exact numeric_ofNat n
    | negSucc n => exact (Bool.and_eq_true _ _).mpr ⟨by decide, numeric_ofNat (n + 1)⟩
  | double value =>
    have written : ∀ decimal, NumberFormat.standard.write decimal ≠ [] ∧
        (NumberFormat.standard.write decimal).all isNumberPart = true := by
      intro decimal
      unfold NumberFormat.write
      dsimp only
      split
      · refine ⟨?_, numeric_plain (numeric_ofNat _) _⟩
        unfold NumberFormat.plain
        split
        · simp
        · simp
        · split <;> simp
      · exact ⟨by simp [NumberFormat.scientific], numeric_scientific (numeric_ofNat _) _⟩
    have digits : (if value.isZero then "0.0".toList else NumberFormat.standard.write value.shortest) ≠ [] ∧
        (if value.isZero then "0.0".toList else NumberFormat.standard.write value.shortest).all isNumberPart = true := by
      split
      · decide
      · exact written _
    rw [Json.Number.text, Double.text, List.all_append, digits.2, Bool.and_true]
    refine ⟨fun empty => digits.1 (List.append_eq_nil_iff.mp empty).2, ?_⟩
    split <;> decide

/-! ### Values -/

theorem string?_closed {mark : Char} {text : Text} (absent : mark ∉ text) (rest : Text) :
    string? mark (text ++ mark :: rest) = some (.string text, rest) := by
  have other : ∀ c ∈ text, (decide (c ≠ mark)) = true := fun c member => decide_eq_true fun same => absent (same ▸ member)
  rw [string?, List.dropWhile_append_of_pos other, List.takeWhile_append_of_pos other, List.dropWhile_cons,
    List.takeWhile_cons, decide_eq_false (not_not_intro rfl)]
  simp

theorem literal?_printed (quote : Quote) (text rest : Text) :
    literal? quote (text.flatMap quote.escape ++ quote.char :: rest) = some (.string text, rest) := by
  rw [literal?, quote.body?_escaped]
  simp [quote.decode?_escaped]

theorem expression?_literal (quote : Quote) (text rest : Text) :
    expression? (quote.literal text ++ '\x7d' :: rest) = some (.string text, '\x7d' :: rest) := by
  have read := literal?_printed quote text ('\x7d' :: rest)
  rw [Quote.literal, List.cons_append, List.cons_append, List.append_assoc, List.singleton_append]
  cases quote <;> exact read

theorem expression?_number (number : Json.Number) (rest : Text) :
    expression? (number.text ++ '\x7d' :: rest) = some (.number number.text, '\x7d' :: rest) := by
  obtain ⟨some, numeric⟩ := numeric_text number
  obtain ⟨c, digits, text⟩ := List.exists_cons_of_ne_nil some
  have first : isNumberPart c = true := List.all_eq_true.mp numeric c (by rw [text]; exact List.mem_cons_self ..)
  have all : ∀ c ∈ number.text, isNumberPart c = true := List.all_eq_true.mp numeric
  have taken : (number.text ++ '\x7d' :: rest).takeWhile isNumberPart = number.text := by
    rw [List.takeWhile_append_of_pos all]
    exact List.append_nil _
  have left : (number.text ++ '\x7d' :: rest).dropWhile isNumberPart = '\x7d' :: rest := by
    rw [List.dropWhile_append_of_pos all]
    rfl
  unfold expression?
  -- the first character starts neither a literal nor `false`
  split
  case h_4 => rw [taken, left, text]
  all_goals
    next same =>
      rw [text, List.cons_append] at same
      rw [(List.cons.inj same).1] at first
      exact absurd first (by decide)

/-- The string of an attribute is read as its text, whichever way it is written. -/
theorem value?_attributeString (quote : Quote) (text rest : Text) :
    value? (quote.attributeString text ++ rest) = some (.string text, rest) := by
  have quoted : ∀ {mark : Char}, mark = '\'' ∨ mark = '"' → mark ∉ text →
      value? (mark :: text ++ [mark] ++ rest) = some (.string text, rest) := by
    intro mark known absent
    rw [List.cons_append, List.cons_append, List.append_assoc, List.singleton_append]
    rcases known with rfl | rfl <;> exact string?_closed absent rest
  unfold Quote.attributeString
  split
  next plain => exact quoted (by cases quote <;> simp [Quote.char]) (by simpa using plain)
  next =>
    split
    next plain => exact quoted (by cases quote <;> simp [Quote.alternate]) (by simpa using plain)
    next =>
      rw [List.cons_append, List.cons_append, List.append_assoc, List.singleton_append, value?, expression?_literal]
      rfl

/-! ### Attributes -/

theorem attribute?_valued {name text rest : Text} {reading : AttributeReading} (named : IsName name)
    (read : value? text = some (reading, rest)) : attribute? (name ++ '=' :: text) = some ((name, reading), rest) := by
  obtain ⟨some, parts⟩ := named
  obtain ⟨c, more, rfl⟩ := List.exists_cons_of_ne_nil some
  have taken : ('=' :: text).takeWhile isNamePart = [] ∧ ('=' :: text).dropWhile isNamePart = '=' :: text := ⟨rfl, rfl⟩
  rw [attribute?, List.takeWhile_append_of_pos parts, List.dropWhile_append_of_pos parts, taken.1, taken.2,
    List.append_nil]
  simp [read]

theorem attribute?_bare {name rest : Text} (named : IsName name) (ends : Ends rest) :
    attribute? (name ++ rest) = some ((name, .present), rest) := by
  obtain ⟨some, parts⟩ := named
  obtain ⟨c, more, rfl⟩ := List.exists_cons_of_ne_nil some
  rw [attribute?, List.takeWhile_append_of_pos parts, List.dropWhile_append_of_pos parts]
  cases rest with
  | nil => simp
  | cons d rest =>
    obtain ⟨other, valued⟩ := ends d rfl
    rw [List.takeWhile_cons, List.dropWhile_cons, other]
    simp [valued]

theorem attribute?_tagAttribute (quote : Quote) {name rest : Text} (named : IsName name) (value : Json.Value)
    (ends : Ends rest) : attribute? (quote.tagAttribute name value ++ rest) = some ((name, value.reading), rest) := by
  have spoken : ∀ text, attribute? (name ++ '=' :: quote.attributeString text ++ rest) = some ((name, .string text), rest) := by
    intro text
    rw [List.append_assoc, List.cons_append]
    exact attribute?_valued named (value?_attributeString quote text rest)
  cases value with
  | null => exact spoken _
  | string text => exact spoken text
  | array items => exact spoken _
  | object members => exact spoken _
  | bool flag =>
    cases flag with
    | true => exact attribute?_bare named ends
    | false =>
      rw [Quote.tagAttribute, List.append_assoc]
      exact attribute?_valued named rfl
  | number number =>
    have read : value? ('\x7b' :: (number.text ++ '\x7d' :: rest)) = some (.number number.text, rest) := by
      rw [value?, expression?_number]
      rfl
    rw [Quote.tagAttribute, List.append_assoc, List.append_assoc, List.append_assoc]
    exact attribute?_valued named read

theorem tagAttribute_front (quote : Quote) (name : Text) (value : Json.Value) :
    ∃ behind, quote.tagAttribute name value = name ++ behind := by
  unfold Quote.tagAttribute
  split
  · exact ⟨[], (List.append_nil _).symm⟩
  · exact ⟨_, rfl⟩
  · exact ⟨_, (List.append_assoc ..).trans (List.append_assoc ..)⟩
  · exact ⟨_, rfl⟩

theorem attributeText_eq (style : Style) (attributes : Json.Members) :
    Program.attributeText style attributes =
      attributes.flatMap fun (name, value) => ' ' :: style.quote.tagAttribute name value := by
  rw [Program.attributeText]
  induction attributes with
  | nil => rfl
  | cons first others ih =>
    cases others with
    | nil => simp [Text.join]
    | cons second others =>
      simp only [List.isEmpty_cons, Bool.false_eq_true, if_false, List.map_cons, List.flatMap_cons, Text.join] at ih ⊢
      rw [← ih]
      simp

theorem length_le_printed (quote : Quote) (attributes : Json.Members) :
    attributes.length ≤ (attributes.flatMap fun (name, value) => ' ' :: quote.tagAttribute name value).length := by
  induction attributes with
  | nil => exact Nat.le_refl _
  | cons entry attributes ih =>
    rw [List.flatMap_cons, List.length_append, List.length_cons, List.length_cons]
    omega

theorem attributesWithin_printed (quote : Quote) {attributes : Json.Members} {rest : Text} (steps : Nat)
    (named : ∀ entry ∈ attributes, IsName entry.1) (ends : endsTag (rest.dropWhile (· = ' ')) = true) :
    attributesWithin (attributes.length + 1 + steps)
        ((attributes.flatMap fun (name, value) => ' ' :: quote.tagAttribute name value) ++ rest) =
      some (attributes.map fun (name, value) => (name, value.reading), rest.dropWhile (· = ' ')) := by
  have stop : Ends rest := by
    intro c head
    obtain ⟨others, rfl⟩ := List.head?_eq_some_iff.mp head
    rw [List.dropWhile_cons] at ends
    split at ends
    next space => rw [of_decide_eq_true space]; decide
    next =>
      simp only [endsTag, List.head?_cons, Option.all_some, Bool.or_eq_true, decide_eq_true_eq] at ends
      rcases ends with rfl | rfl <;> decide
  induction attributes with
  | nil => simp [Nat.add_comm 1, attributesWithin, ends]
  | cons entry attributes ih =>
    obtain ⟨name, value⟩ := entry
    obtain ⟨here, later⟩ := List.forall_mem_cons.mp named
    have next : Ends ((attributes.flatMap fun (name, value) => ' ' :: quote.tagAttribute name value) ++ rest) := by
      cases attributes with
      | nil => exact stop
      | cons => exact fun c head => Option.some.inj head ▸ by decide
    -- the name starts neither with a space nor with a mark that ends the tag
    obtain ⟨c, after, front, part⟩ : ∃ c after, quote.tagAttribute name value = c :: after ∧ isNamePart c = true := by
      obtain ⟨c, more, first⟩ := List.exists_cons_of_ne_nil here.1
      obtain ⟨behind, same⟩ := tagAttribute_front quote name value
      exact ⟨c, more ++ behind, same.trans (congrArg (· ++ behind) first), here.2 c (first ▸ List.mem_cons_self ..)⟩
    have other : ∀ {d}, isNamePart d = false → c ≠ d := by
      rintro d never rfl
      rw [part] at never
      cases never
    have read := attribute?_tagAttribute quote here value next
    have bare : ∀ text, (' ' :: (quote.tagAttribute name value ++ text)).dropWhile (· = ' ') =
        quote.tagAttribute name value ++ text := by
      intro text
      rw [front, List.cons_append, List.dropWhile_cons, decide_eq_true rfl, List.dropWhile_cons,
        decide_eq_false (other (by decide))]
      rfl
    have goes : ∀ text, endsTag (quote.tagAttribute name value ++ text) = false := by
      intro text
      rw [front, List.cons_append, endsTag, List.head?_cons, Option.all_some,
        decide_eq_false (other (by decide)), decide_eq_false (other (by decide))]
      rfl
    have enough : (⟨name, value⟩ :: attributes).length + 1 + steps = attributes.length + 1 + steps + 1 := by
      rw [List.length_cons]
      omega
    rw [enough, List.flatMap_cons, List.append_assoc, List.cons_append, attributesWithin, bare, goes,
      if_neg Bool.false_ne_true, if_neg (by simp), read]
    simp [ih later]

/-- What ends a tag is read on from the attributes in it, whether a space is kept before it or not. -/
theorem attributes?_attributeText (style : Style) {attributes : Json.Members} {rest : Text} (spaced : Bool)
    (named : ∀ entry ∈ attributes, IsName entry.1) (ends : endsTag rest = true) :
    attributes? (Program.attributeText style attributes ++ (if spaced then [' '] else []) ++ rest) =
      some (attributes.map fun (name, value) => (name, value.reading), rest) := by
  have unspaced : rest.dropWhile (· = ' ') = rest := by
    cases rest with
    | nil => rfl
    | cons c rest =>
      simp only [endsTag, List.head?_cons, Option.all_some, Bool.or_eq_true, decide_eq_true_eq] at ends
      rcases ends with rfl | rfl <;> rfl
  have same : ((if spaced then [' '] else []) ++ rest).dropWhile (· = ' ') = rest := by
    cases spaced with
    | false => exact unspaced
    | true => exact unspaced
  have long := length_le_printed style.quote attributes
  rw [attributeText_eq, List.append_assoc, attributes?, List.length_append]
  obtain ⟨steps, enough⟩ : ∃ steps, (attributes.flatMap fun (name, value) => ' ' :: style.quote.tagAttribute name value).length +
      ((if spaced then [' '] else []) ++ rest).length + 1 = attributes.length + 1 + steps :=
    Nat.exists_eq_add_of_le (by omega)
  rw [enough, attributesWithin_printed style.quote steps named (by rw [same]; exact ends), same]

/-- The attributes that are put into a tag are read back as the members that they were made from, in order and each with
what its value says, up to what ends the tag. -/
theorem replaceAttributes_reads (style : Style) (attributes : Json.Members) (rest : Text)
    (named : ∀ entry ∈ attributes, IsName entry.1) (ends : endsTag rest = true) :
    (∀ spaced : Bool, attributes? (Program.attributeText style attributes ++ (if spaced then [' '] else []) ++ rest) =
      some (attributes.map fun (name, value) => (name, value.reading), rest)) ∧
    ∀ (program : Program) (tag : Text) (patch : Patch), (program.replaceAttributes style tag attributes).patch = some patch →
      attributes? (patch.text ++ rest) = some (attributes.map fun (name, value) => (name, value.reading), rest) := by
  refine ⟨fun spaced => attributes?_attributeText style spaced named ends, fun program tag patch patched => ?_⟩
  unfold Program.replaceAttributes at patched
  split at patched
  next => cases patched
  next slot found =>
    cases patched
    exact attributes?_attributeText style _ named ends

/-- Members with values of every kind, some of which look like more attributes or like the end of the tag. -/
def mixedMembers : Json.Members :=
  [("on".toList, .bool true), ("off".toList, .bool false), ("n".toList, .number (.integer (-3))),
    ("xlink:href".toList, .string "it's /> b='c'\n".toList), ("data-x".toList, .string "it's \"q\" \\\x7d c=\x7bfalse\x7d".toList),
    ("list".toList, .array [.number (.integer 1), .null, .string "'a\"".toList]), ("o".toList, .object [("k".toList, .null)])]

/-- Values with both quotes, braces, backslashes, equals signs and line breaks, before the end of a tag that closes itself. -/
theorem replaceAttributes_reads_mixed :
    (∀ entry ∈ mixedMembers, IsName entry.1) ∧ endsTag ['/', '>'] = true ∧
      attributes? (Program.attributeText {} mixedMembers ++ [' '] ++ ['/', '>']) =
        some (mixedMembers.map fun (name, value) => (name, value.reading), ['/', '>']) := by
  have named : ∀ entry ∈ mixedMembers, IsName entry.1 := by decide
  exact ⟨named, rfl, (replaceAttributes_reads {} mixedMembers ['/', '>'] named rfl).1 true⟩

end AttributeReading
end Graft
