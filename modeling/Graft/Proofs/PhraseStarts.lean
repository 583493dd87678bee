import Graft.Proofs.LeadingTexts

/-! Characters that phrases do not start with. Whatever a phrase starts with is found by going from first symbol
to first symbol until a token is met, so a set of phrases that is closed under this and meets only tokens that
avoid some characters avoids them itself. -/

namespace Graft

namespace Rule

def mayBeEmpty : Rule → Bool
  | nothing => true
  | symbol _ => false
  | pair one two => one.mayBeEmpty && two.mayBeEmpty
  | either one two => one.mayBeEmpty || two.mayBeEmpty
  | strong _ _ rule => rule.mayBeEmpty
  | role _ rule => rule.mayBeEmpty
  | rename _ rule => rule.mayBeEmpty

def heads : Rule → List Symbol
  | nothing => []
  | symbol it => [it]
  | pair one two => one.heads ++ if one.mayBeEmpty then two.heads else []
  | either one two => one.heads ++ two.heads
  | strong _ _ rule => rule.heads
  | role _ rule => rule.heads
  | rename _ rule => rule.heads

theorem spellings_head (rule : Rule) : ∀ (role : Option Role) (rename : Option Kind) (word : List Letter),
    word ∈ rule.spellings role rename →
    word = [] ∧ rule.mayBeEmpty = true ∨ ∃ letter others, word = letter :: others ∧ letter.symbol ∈ rule.heads := by
  induction rule with
  | nothing =>
    intro role rename word member
    exact .inl ⟨List.mem_singleton.mp member, rfl⟩
  | symbol it =>
    intro role rename word member
    exact .inr ⟨_, _, List.mem_singleton.mp member, List.mem_singleton_self it⟩
  | pair one two front back =>
    intro role rename word member
    obtain ⟨first, here, member⟩ := List.mem_flatMap.mp member
    obtain ⟨second, there, rfl⟩ := List.mem_map.mp member
    rcases front role rename first here with ⟨rfl, empty⟩ | ⟨letter, others, rfl, listed⟩
    · rcases back role rename second there with ⟨rfl, empty'⟩ | ⟨letter, others, rfl, listed⟩
      · exact .inl ⟨rfl, by simp [mayBeEmpty, empty, empty']⟩
      · exact .inr ⟨letter, others, rfl, by simp [heads, empty, listed]⟩
    · exact .inr ⟨letter, others ++ second, rfl, List.mem_append_left _ listed⟩
  | either one two front back =>
    intro role rename word member
    rcases List.mem_append.mp member with member | member
    · rcases front role rename word member with ⟨rfl, empty⟩ | ⟨letter, others, rfl, listed⟩
      · exact .inl ⟨rfl, by simp [mayBeEmpty, empty]⟩
      · exact .inr ⟨letter, others, rfl, List.mem_append_left _ listed⟩
    · rcases back role rename word member with ⟨rfl, empty⟩ | ⟨letter, others, rfl, listed⟩
      · exact .inl ⟨rfl, by simp [mayBeEmpty, empty]⟩
      · exact .inr ⟨letter, others, rfl, List.mem_append_right _ listed⟩
  | strong level side rule inner => exact fun role rename => inner role rename
  | role it rule inner => exact fun _ rename => inner (some it) rename
  | rename it rule inner => exact fun role _ => inner role (some it)

end Rule

/-- Whether a token is known to start with none of some characters. -/
def Token.avoids (chars : List Char) : Token → Bool
  | mark it => it.text.toList.head?.any fun c => !isSpacing c && !chars.contains c
  | word it => it.text.toList.head?.any fun c => !isSpacing c && !chars.contains c
  | identifier => chars.all fun c => !isNamePart c
  | privateName => !chars.contains '#'
  | number => chars.all fun c => !isDigit c && c ≠ '.'
  | _ => false

theorem isSpacing_of_isNamePart {c : Char} (part : isNamePart c = true) : isSpacing c = false := by
  simp only [isNamePart, Lexeme.isNameChar, Bool.or_eq_true, decide_eq_true_eq, Bool.and_eq_true,
    Bool.not_eq_true'] at part
  rcases part with ((part | rfl) | rfl) | rfl
  · exact part.2
  · rfl
  · rfl
  · rfl

theorem isSpacing_of_isDigit {c : Char} (digit : isDigit c = true) : isSpacing c = false := by
  simp only [isDigit, Char.le_def, UInt32.le_iff_toNat_le, Bool.and_eq_true, decide_eq_true_eq] at digit
  have zero : ('0' : Char).val.toNat = 48 := rfl
  have nine : ('9' : Char).val.toNat = 57 := rfl
  simp only [isSpacing, isBlank, Char.toNat, Bool.or_eq_false_iff, Bool.and_eq_false_iff, decide_eq_false_iff_not]
  omega

theorem Token.starts {token : Token} {chars : List Char} {text : Text} (avoids : token.avoids chars = true)
    (shape : token.Shape text) : ∃ c rest, text = c :: rest ∧ isSpacing c = false ∧ c ∉ chars := by
  have fixed : ∀ text : Text, (text.head?.any fun c => !isSpacing c && !chars.contains c) = true →
      ∃ c rest, text = c :: rest ∧ isSpacing c = false ∧ c ∉ chars := by
    intro text first
    cases text with
    | nil => cases first
    | cons c rest =>
      simp only [List.head?_cons, Option.any_some, Bool.and_eq_true, Bool.not_eq_true', List.contains_eq_mem,
        decide_eq_false_iff_not] at first
      exact ⟨c, rest, rfl, first⟩
  unfold Token.avoids at avoids
  split at avoids
  next it =>
    cases shape
    exact fixed _ avoids
  next it =>
    cases shape
    exact fixed _ avoids
  next =>
    obtain ⟨some, parts⟩ := shape
    obtain ⟨c, rest, rfl⟩ := List.exists_cons_of_ne_nil some
    have part := parts c (List.mem_cons_self ..)
    refine ⟨c, rest, rfl, isSpacing_of_isNamePart part, fun listed => ?_⟩
    have other := List.all_eq_true.mp avoids c listed
    rw [part] at other
    cases other
  next =>
    obtain ⟨name, rfl⟩ := shape
    exact ⟨'#', name, rfl, rfl, by simpa using avoids⟩
  next =>
    obtain ⟨c, rest, rfl, first⟩ := shape
    have head : isSpacing c = false := by
      rcases first with digit | rfl
      · exact isSpacing_of_isDigit digit
      · rfl
    refine ⟨c, rest, rfl, head, fun listed => ?_⟩
    have other := List.all_eq_true.mp avoids c listed
    simp only [Bool.and_eq_true, Bool.not_eq_true', decide_eq_true_eq] at other
    rcases first with digit | point
    · rw [digit] at other
      cases other.1
    · exact other.2 point
  next => cases avoids

/-- Whether a symbol is known to avoid characters, given which phrases do. -/
def Symbol.avoids (chars : List Char) (known : Phrase → Bool) : Symbol → Bool
  | token it => it.avoids chars
  | phrase it => known it

/-- Whether phrases, none of which may be empty, start with each other and with tokens that avoid characters. -/
def Grammar.avoid (chars : List Char) (known : Phrase → Bool) : Bool :=
  productions.all fun production => !known production.phrase ||
    !production.rule.mayBeEmpty && production.rule.heads.all (Symbol.avoids chars known)

section
variable {chars : List Char} {known : Phrase → Bool}

theorem Forest.ahead_avoids (solid : ∀ c ∈ chars, isSolid c = true) {gap : List Tree} (between : ∀ tree ∈ gap, tree.IsGap)
    {text : Text} (later : ∃ c rest, Text.ahead text = c :: rest ∧ c ∉ chars) :
    ∃ c rest, Text.ahead (Forest.text gap ++ text) = c :: rest ∧ c ∉ chars := by
  induction gap with
  | nil => exact later
  | cons tree gap ih =>
    rw [Forest.text, List.append_assoc]
    rcases (between tree (List.mem_cons_self ..)).ahead_cases with ⟨-, blank⟩ | ⟨c, rest, first, loose⟩
    · rw [Text.ahead_append blank]
      exact ih fun tree member => between tree (List.mem_cons_of_mem _ member)
    · refine ⟨c, _, Text.ahead_append_cons first _, fun listed => ?_⟩
      rw [solid c listed] at loose
      cases loose

/-- What comes first in parts is a comment or their first symbol. -/
theorem Part.ahead_avoids (solid : ∀ c ∈ chars, isSolid c = true) {parts : List Part}
    (derived : ∀ part ∈ parts, Derives part.letter.symbol part.trees) {letter : Letter} {others : List Letter}
    (word : Part.word parts = letter :: others)
    (first : ∀ part ∈ parts, part.letter = letter → ∃ c rest, Text.ahead (Forest.text part.trees) = c :: rest ∧ c ∉ chars) :
    ∃ c rest, Text.ahead (Forest.text (parts.flatMap Part.dressed)) = c :: rest ∧ c ∉ chars := by
  induction parts with
  | nil => cases word
  | cons part parts ih =>
    simp only [List.flatMap_cons, Forest.text_append, Part.dressed, Letter.text_dress]
    have here : part ∈ part :: parts := List.mem_cons_self ..
    cases extra : part.isExtra with
    | false =>
      simp only [Part.word, List.filter_cons, extra, Bool.not_false, if_true, List.map_cons] at word
      obtain ⟨c, rest, ahead, avoided⟩ := first part here (List.cons.inj word).1
      exact ⟨c, _, Text.ahead_append_cons ahead _, avoided⟩
    | true =>
      simp only [Part.word, List.filter_cons, extra, Bool.not_true, Bool.false_eq_true, if_false] at word
      obtain ⟨c, rest, ahead, avoided⟩ := ih (fun other member => derived other (List.mem_cons_of_mem _ member)) word
        (fun other member => first other (List.mem_cons_of_mem _ member))
      exact Forest.ahead_avoids solid ((derived part here).extra_gap extra) ⟨c, rest, ahead, avoided⟩

theorem Grammar.production_phrase {phrase : Phrase} {production : Production}
    (known : Grammar.productionOf? phrase.code = some production) : production.phrase = phrase := by
  have same := List.find?_some known
  exact Phrase.code_injective (of_decide_eq_true same)

/-- Phrases that are known to avoid characters do. -/
theorem Derives.ahead_avoids (solid : ∀ c ∈ chars, isSolid c = true) (closed : Grammar.avoid chars known = true)
    {symbol : Symbol} {trees : List Tree} (derived : Derives symbol trees) (avoids : symbol.avoids chars known = true) :
    ∃ c rest, Text.ahead (Forest.text trees) = c :: rest ∧ c ∉ chars := by
  induction derived with
  | token blank shape =>
    obtain ⟨c, rest, rfl, head, avoided⟩ := Token.starts avoids shape
    rw [Token.text_trees, Text.ahead_append blank]
    exact ⟨c, rest, Text.ahead_cons head rest, avoided⟩
  | @phrase phrase production parts found spells plain firm derived ih =>
    have named := Grammar.production_phrase found
    have rule := List.all_eq_true.mp closed production (List.mem_of_find?_eq_some found)
    have inside : known production.phrase = true := by rw [named]; exact avoids
    rw [inside, Bool.not_true, Bool.false_or, Bool.and_eq_true, Bool.not_eq_true'] at rule
    have ahead : ∃ c rest, Text.ahead (Forest.text (parts.flatMap Part.dressed)) = c :: rest ∧ c ∉ chars := by
      rcases production.rule.spellings_head none none _ spells with ⟨-, empty⟩ | ⟨letter, others, word, head⟩
      · rw [rule.1] at empty
        cases empty
      · refine Part.ahead_avoids solid derived word fun part member same => ih part member ?_
        rw [same]
        exact List.all_eq_true.mp rule.2 _ head
    cases phrase with
    | group => exact ahead
    | node kind => rwa [Phrase.wrap, Forest.text_enclose]

theorem Spelled.ahead_avoids (solid : ∀ c ∈ chars, isSolid c = true) (closed : Grammar.avoid chars known = true)
    {letter : Letter} {word : List Letter} {trees : List Tree} (spelled : Spelled (letter :: word) trees)
    (avoids : letter.symbol.avoids chars known = true) {rest goal : Text} {c : Char}
    (next : Text.ahead (Forest.text trees ++ rest) = c :: goal) : c ∉ chars := by
  cases spelled with
  | @letter _ _ gap made others between derived later =>
    obtain ⟨d, more, ahead, avoided⟩ := derived.ahead_avoids solid closed avoids
    obtain ⟨e, more', ahead', avoided'⟩ := Forest.ahead_avoids solid between ⟨d, more, ahead, avoided⟩
    rw [Forest.text_append, Forest.text_append, Letter.text_dress, List.append_assoc,
      Text.ahead_append_cons ahead'] at next
    rw [← (List.cons.inj next).1]
    exact avoided'

end

end Graft
