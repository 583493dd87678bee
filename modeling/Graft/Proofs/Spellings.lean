import Graft.Json.Reader
import Graft.Proofs.NumberTexts
import Graft.Proofs.StringTexts

/-! The texts of a JSON value. A value can be written with any blanks between its words, and the two ways in which values
are printed are among these spellings. What a parser takes is said of values here: it reads every spelling of a value,
and stops behind it. -/

namespace Graft.Json

/-! ### Blanks -/

def IsGap (text : Text) : Prop := ∀ c ∈ text, isGap c = true

theorem isGap_nil : IsGap [] := by simp [IsGap]

theorem IsGap.append {first second : Text} (blank : IsGap first) (other : IsGap second) : IsGap (first ++ second) := by
  intro c member
  exact (List.mem_append.mp member).elim (blank c) (other c)

theorem skipGap_append {gap : Text} (blank : IsGap gap) (text : Text) : skipGap (gap ++ text) = skipGap text :=
  List.dropWhile_append_of_pos blank

theorem skipGap_mark {c : Char} (solid : isGap c = false) (text : Text) : skipGap (c :: text) = c :: text :=
  List.dropWhile_cons_of_neg (Bool.eq_false_iff.mp solid)

theorem skipGap_to {gap : Text} {c : Char} (blank : IsGap gap) (solid : isGap c = false) (text : Text) :
    skipGap (gap ++ c :: text) = c :: text := by
  rw [skipGap_append blank, skipGap_mark solid]

/-- What may stand behind a value: nothing, or first a blank, a comma or a mark that closes a container. -/
def Ends (rest : Text) : Prop := ∀ c, rest.head? = some c → isGap c = true ∨ c = ',' ∨ c = ']' ∨ c = '\x7d'

theorem ends_nil : Ends [] := by simp [Ends]

theorem ends_gap {gap rest : Text} (blank : IsGap gap) (ends : Ends rest) : Ends (gap ++ rest) := by
  cases gap with
  | nil => exact ends
  | cons c gap =>
    intro other head
    cases head
    exact .inl (blank c (List.mem_cons_self ..))

theorem Ends.no_digit {rest : Text} (ends : Ends rest) : ∀ c, rest.head? = some c → goesOn c = false := by
  intro c head
  rcases ends c head with gap | rfl | rfl | rfl
  · simp only [isGap, Bool.or_eq_true, decide_eq_true_eq] at gap
    rcases gap with ((rfl | rfl) | rfl) | rfl <;> rfl
  all_goals rfl

/-! ### Spellings -/

/-- What stands before an item of a container: blanks, and a comma unless it is the first. -/
inductive Lead : Bool → Text → Prop
  | first {gap : Text} : IsGap gap → Lead true gap
  | next {before gap : Text} : IsGap before → IsGap gap → Lead false (before ++ ',' :: gap)

theorem Lead.append {first : Bool} {lead gap : Text} (leads : Lead first lead) (blank : IsGap gap) :
    Lead first (lead ++ gap) := by
  cases leads with
  | first before => exact .first (before.append blank)
  | next before behind => rw [List.append_assoc, List.cons_append]; exact .next before (behind.append blank)

mutual

/-- The texts of a value. A floating-point number has none here. -/
inductive Spells : Value → Text → Prop
  | null : Spells .null "null".toList
  | bool (value : Bool) : Spells (.bool value) (Value.word value)
  | integer (value : Int) : Spells (.number (.integer value)) (Text.ofInt value)
  | string (value : Text) : Spells (.string value) (Value.quote value)
  | array {items : List Value} {text : Text} : SpellsItems true items text → Spells (.array items) ('[' :: text)
  | object {members : Members} {text : Text} : SpellsMembers true members text → Spells (.object members) ('\x7b' :: text)

/-- The texts of the items that are left of an array, up to its closing bracket. -/
inductive SpellsItems : Bool → List Value → Text → Prop
  | close {first : Bool} {gap : Text} : IsGap gap → SpellsItems first [] (gap ++ [']'])
  | item {first : Bool} {lead : Text} {value : Value} {text : Text} {items : List Value} {rest : Text} : Lead first lead →
    Spells value text → SpellsItems false items rest → SpellsItems first (value :: items) (lead ++ (text ++ rest))

inductive SpellsMembers : Bool → Members → Text → Prop
  | close {first : Bool} {gap : Text} : IsGap gap → SpellsMembers first [] (gap ++ ['\x7d'])
  | member {first : Bool} {lead : Text} (key : Text) {before gap : Text} {value : Value} {text : Text} {members : Members}
    {rest : Text} : Lead first lead → IsGap before → IsGap gap → Spells value text → SpellsMembers false members rest →
    SpellsMembers first ((key, value) :: members)
      (lead ++ (Value.quote key ++ (before ++ ':' :: (gap ++ (text ++ rest)))))

end

/-- The first character of a spelling says what it is a spelling of. -/
theorem Spells.head {value : Value} {text : Text} (spelled : Spells value text) : ∃ c rest, text = c :: rest ∧
    isGap c = false ∧ c ≠ ']' ∧ (c = 'n' → value = .null) := by
  cases spelled with
  | null => exact ⟨'n', "ull".toList, rfl, rfl, by decide, fun _ => rfl⟩
  | bool flag =>
    cases flag with
    | true => exact ⟨'t', "rue".toList, rfl, rfl, by decide, fun same => absurd same (by decide)⟩
    | false => exact ⟨'f', "alse".toList, rfl, rfl, by decide, fun same => absurd same (by decide)⟩
  | integer n =>
    obtain ⟨c, rest, front, sign⟩ := Text.ofInt_front n
    refine ⟨c, rest, front, ?_, ?_, ?_⟩
    · cases gap : isGap c with
      | false => rfl
      | true =>
        simp only [isGap, Bool.or_eq_true, decide_eq_true_eq] at gap
        rcases gap with ((rfl | rfl) | rfl) | rfl <;> simp +decide at sign
    · rintro rfl
      simp +decide at sign
    · rintro rfl
      simp +decide at sign
  | string value => exact ⟨'"', _, rfl, rfl, by decide, fun same => absurd same (by decide)⟩
  | array items => exact ⟨'[', _, rfl, rfl, by decide, fun same => absurd same (by decide)⟩
  | object members => exact ⟨'\x7b', _, rfl, rfl, by decide, fun same => absurd same (by decide)⟩

theorem Lead.ends {lead : Text} (leads : Lead false lead) (rest : Text) : Ends (lead ++ rest) := by
  cases leads with
  | next before _ =>
    rw [List.append_assoc]
    exact ends_gap before fun c head => by cases head; exact .inr (.inl rfl)

theorem SpellsItems.ends {items : List Value} {text : Text} (spelled : SpellsItems false items text) (rest : Text) :
    Ends (text ++ rest) := by
  cases spelled with
  | close blank =>
    rw [List.append_assoc]
    exact ends_gap blank fun c head => by cases head; exact .inr (.inr (.inl rfl))
  | item leads _ _ => rw [List.append_assoc]; exact leads.ends _

theorem SpellsMembers.ends {members : Members} {text : Text} (spelled : SpellsMembers false members text) (rest : Text) :
    Ends (text ++ rest) := by
  cases spelled with
  | close blank =>
    rw [List.append_assoc]
    exact ends_gap blank fun c head => by cases head; exact .inr (.inr (.inr rfl))
  | member _ leads _ _ _ _ => rw [List.append_assoc]; exact leads.ends _

/-! ### Printed values -/

namespace Value

mutual

/-- A value whose numbers are integers of 64 bits, and whose objects have no key twice. -/
def IsPlain : Value → Prop
  | null => True
  | bool _ => True
  | number (.integer value) => IsInteger value
  | number (.double _) => False
  | string _ => True
  | array items => PlainItems items
  | object members => (members.map Prod.fst).Nodup ∧ PlainMembers members

def PlainItems : List Value → Prop
  | [] => True
  | item :: items => item.IsPlain ∧ PlainItems items

def PlainMembers : Members → Prop
  | [] => True
  | (_, value) :: members => value.IsPlain ∧ PlainMembers members

end

mutual

/-- How many containers are open at once at most. -/
def nesting : Value → Nat
  | array items => nestingItems items + 1
  | object members => nestingMembers members + 1
  | _ => 0

def nestingItems : List Value → Nat
  | [] => 0
  | item :: items => max item.nesting (nestingItems items)

def nestingMembers : Members → Nat
  | [] => 0
  | (_, value) :: members => max value.nesting (nestingMembers members)

end

theorem plainItems_iff {items : List Value} : PlainItems items ↔ ∀ item ∈ items, item.IsPlain := by
  induction items with
  | nil => simp [PlainItems]
  | cons item items ih => simp [PlainItems, ih]

theorem plainMembers_iff {members : Members} : PlainMembers members ↔ ∀ member ∈ members, member.2.IsPlain := by
  induction members with
  | nil => simp [PlainMembers]
  | cons member members ih => simp [PlainMembers, ih]

theorem plainMembers_append {front back : Members} :
    PlainMembers (front ++ back) ↔ PlainMembers front ∧ PlainMembers back := by
  simp only [plainMembers_iff, List.forall_mem_append]

theorem nesting_lt_of_item {items : List Value} {item : Value} (member : item ∈ items) :
    item.nesting < (array items).nesting := by
  rw [nesting, Nat.lt_succ_iff]
  induction items with
  | nil => cases member
  | cons first items ih =>
    rw [nestingItems]
    rcases List.mem_cons.mp member with rfl | member
    · exact Nat.le_max_left ..
    · exact Nat.le_trans (ih member) (Nat.le_max_right ..)

theorem nesting_lt_of_member {members : Members} {key : Text} {value : Value} (member : (key, value) ∈ members) :
    value.nesting < (object members).nesting := by
  rw [nesting, Nat.lt_succ_iff]
  induction members with
  | nil => cases member
  | cons first members ih =>
    rw [nestingMembers]
    rcases List.mem_cons.mp member with rfl | member
    · exact Nat.le_max_left ..
    · exact Nat.le_trans (ih member) (Nat.le_max_right ..)

mutual

theorem compact_spells (value : Value) (plain : value.IsPlain) : Spells value value.compact := by
  cases value with
  | null => exact .null
  | bool value => exact .bool value
  | number value =>
    cases value with
    | integer value => exact .integer value
    | double value => simp [IsPlain] at plain
  | string value => exact .string value
  | array items =>
    rw [IsPlain] at plain
    rw [compact]
    cases items with
    | nil => exact .array (.close isGap_nil)
    | cons item items => exact .array (compactItems_spells (item :: items) plain (by simp) (.first isGap_nil))
  | object members =>
    rw [IsPlain] at plain
    rw [compact]
    cases members with
    | nil => exact .object (.close isGap_nil)
    | cons member members => exact .object (compactMembers_spells (member :: members) plain.2 (by simp) (.first isGap_nil))

theorem compactItems_spells (items : List Value) (plain : PlainItems items) (present : items ≠ []) {first : Bool} {lead : Text}
    (leads : Lead first lead) : SpellsItems first items (lead ++ (compactItems items ++ [']'])) := by
  cases items with
  | nil => exact absurd rfl present
  | cons item items =>
    rw [PlainItems] at plain
    have here := compact_spells item plain.1
    cases items with
    | nil => exact .item leads here (.close isGap_nil)
    | cons next items =>
      have rest := compactItems_spells (next :: items) plain.2 (by simp) (.next isGap_nil isGap_nil)
      simpa [compactItems] using SpellsItems.item leads here rest

theorem compactMembers_spells (members : Members) (plain : PlainMembers members) (present : members ≠ []) {first : Bool}
    {lead : Text} (leads : Lead first lead) :
    SpellsMembers first members (lead ++ (compactMembers members ++ ['}'])) := by
  cases members with
  | nil => exact absurd rfl present
  | cons member members =>
    obtain ⟨key, value⟩ := member
    rw [PlainMembers] at plain
    have here := compact_spells value plain.1
    cases members with
    | nil =>
      simpa [compactMembers] using SpellsMembers.member key leads isGap_nil isGap_nil here (.close isGap_nil)
    | cons next members =>
      have rest := compactMembers_spells (next :: members) plain.2 (by simp) (.next isGap_nil isGap_nil)
      simpa [compactMembers] using SpellsMembers.member key leads isGap_nil isGap_nil here rest

end

theorem isGap_newline (level : Nat) : IsGap (newline level) := by
  intro c member
  rcases List.mem_cons.mp member with rfl | member
  · rfl
  · rw [List.eq_of_mem_replicate member]
    rfl

mutual

theorem pretty_spells (level : Nat) (value : Value) (plain : value.IsPlain) : Spells value (value.pretty level) := by
  cases value with
  | null => exact .null
  | bool value => exact .bool value
  | number value =>
    cases value with
    | integer value => exact .integer value
    | double value => simp [IsPlain] at plain
  | string value => exact .string value
  | array items =>
    rw [IsPlain] at plain
    cases items with
    | nil => exact .array (.close isGap_nil)
    | cons item items =>
      -- the line break before the bracket is a gap behind the last item
      have inside := prettyItems_spells (level + 1) (item :: items) plain (by simp) (isGap_newline level) (.first isGap_nil)
      simpa [pretty] using Spells.array inside
  | object members =>
    rw [IsPlain] at plain
    cases members with
    | nil => exact .object (.close isGap_nil)
    | cons member members =>
      have inside :=
        prettyMembers_spells (level + 1) (member :: members) plain.2 (by simp) (isGap_newline level) (.first isGap_nil)
      simpa [pretty] using Spells.object inside

theorem prettyItems_spells (level : Nat) (items : List Value) (plain : PlainItems items) (present : items ≠ []) {first : Bool}
    {lead tail : Text} (blank : IsGap tail) (leads : Lead first lead) :
    SpellsItems first items (lead ++ (prettyItems level items ++ (tail ++ [']']))) := by
  cases items with
  | nil => exact absurd rfl present
  | cons item items =>
    rw [PlainItems] at plain
    have here := pretty_spells level item plain.1
    have leads := leads.append (isGap_newline level)
    cases items with
    | nil => simpa [prettyItems] using SpellsItems.item leads here (.close blank)
    | cons next items =>
      have rest := prettyItems_spells level (next :: items) plain.2 (by simp) blank (.next isGap_nil isGap_nil)
      simpa [prettyItems] using SpellsItems.item leads here rest

theorem prettyMembers_spells (level : Nat) (members : Members) (plain : PlainMembers members) (present : members ≠ [])
    {first : Bool} {lead tail : Text} (blank : IsGap tail) (leads : Lead first lead) :
    SpellsMembers first members (lead ++ (prettyMembers level members ++ (tail ++ ['}']))) := by
  cases members with
  | nil => exact absurd rfl present
  | cons member members =>
    obtain ⟨key, value⟩ := member
    rw [PlainMembers] at plain
    have here := pretty_spells level value plain.1
    have leads := leads.append (isGap_newline level)
    have space : IsGap [' '] := by simp [IsGap, isGap]
    cases members with
    | nil => simpa [prettyMembers] using SpellsMembers.member key leads isGap_nil space here (.close blank)
    | cons next members =>
      have rest := prettyMembers_spells level (next :: members) plain.2 (by simp) blank (.next isGap_nil isGap_nil)
      simpa [prettyMembers] using SpellsMembers.member key leads isGap_nil space here rest

end

end Value

end Graft.Json
