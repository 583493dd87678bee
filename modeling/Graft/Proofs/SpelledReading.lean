import Graft.Json.Record
import Graft.Proofs.Spellings
import Mathlib.Data.List.Forall2

/-! What the readers of JSON take from the spellings of a value. Each reader has one lemma, which says of the value that
it is read for and not of any text; the readers of containers pass it on from what they hold. -/

namespace Graft.Json

/-- A parser reads a value as a result, however the value is spelled, and stops behind it. -/
def Takes {α : Type} (parser : Parser α) (value : Value) (result : α) : Prop :=
  ∀ gap text rest, IsGap gap → Spells value text → Ends rest → parser (gap ++ (text ++ rest)) = .ok (result, rest)

variable {α : Type}

/-! ### Scalars -/

theorem text_takes (it : Text) : Takes text (.string it) it := by
  intro gap text rest blank spelled _
  cases spelled
  rw [Json.text, textFor, Value.quote_append, skipGap_to blank rfl]
  simp only [string?_quoted]
  rfl

theorem bool_takes (flag : Bool) : Takes bool (.bool flag) flag := by
  intro gap text rest blank spelled _
  cases spelled
  cases flag with
  | true =>
    rw [Json.bool, show Value.word true ++ rest = 't' :: ("rue".toList ++ rest) from rfl, skipGap_to blank rfl]
    rfl
  | false =>
    rw [Json.bool, show Value.word false ++ rest = 'f' :: ("alse".toList ++ rest) from rfl, skipGap_to blank rfl]
    rfl

theorem Spells.skipGap {value : Value} {gap text : Text} (spelled : Spells value text) (blank : IsGap gap) (rest : Text) :
    Json.skipGap (gap ++ (text ++ rest)) = text ++ rest := by
  obtain ⟨c, more, rfl, solid, _⟩ := spelled.head
  exact skipGap_to blank solid _

theorem integerWithin_takes {low high it : Int} (wanted : Text) (fits : IsInteger it) (above : low ≤ it) (below : it ≤ high) :
    Takes (integerWithin low high wanted) (.number (.integer it)) it := by
  intro gap text rest blank spelled ends
  rw [integerWithin, spelled.skipGap blank]
  cases spelled
  rw [number?_ofInt ends.no_digit fits]
  simp [above, below]

theorem natural_takes {it : Nat} (wanted : Text) (fits : it ≤ maxInteger) :
    Takes (natural wanted) (.number (.integer it)) it := by
  intro gap text rest blank spelled ends
  have high : (it : Int) ≤ maxInteger := Int.ofNat_le.mpr fits
  have low : (0 : Int) ≤ it := Int.natCast_nonneg it
  have negative : -(twoTo 63 : Int) ≤ 0 := by decide
  rw [natural, integerWithin_takes wanted ⟨by omega, high⟩ low high gap text rest blank spelled ends]
  rfl

theorem signed_takes {it : Int} (low : -(twoTo 63 : Int) ≤ it) (high : it ≤ twoTo 63 - 1) :
    Takes signed (.number (.integer it)) it := by
  have wide : (twoTo 63 - 1 : Int) ≤ maxInteger := by decide
  exact integerWithin_takes _ ⟨low, Int.le_trans high wide⟩ low high

theorem optional_takes {parser : Parser α} {value : Value} {result : α} (takes : Takes parser value result)
    (present : value ≠ .null) : Takes (optional parser) value (some result) := by
  intro gap text rest blank spelled ends
  have inner := takes [] text rest isGap_nil spelled ends
  rw [List.nil_append] at inner
  -- only null starts with the letter that the reader looks for
  obtain ⟨c, more, rfl, solid, _, null⟩ := spelled.head
  rw [List.cons_append] at inner ⊢
  rw [optional, skipGap_to blank solid]
  split
  next same =>
    cases same
    exact absurd (null rfl) present
  next => rw [inner]; rfl

theorem variant_takes {variants : List (Text × α)} {name : Text} {it : α} (depth : Nat)
    (found : variants.find? (fun (other, _) => other = name) = some (name, it)) :
    Takes (variant variants depth) (.string name) it := by
  intro gap text rest blank spelled _
  cases spelled
  rw [variant, Value.quote_append, skipGap_to blank rfl]
  simp only [string?_quoted, orMalformed, bind, Except.bind, found]
  rfl

/-! ### Containers -/

theorem nextItem?_item {first : Bool} {lead text : Text} {c : Char} (leads : Lead first lead) (solid : isGap c = false)
    (other : c ≠ ']') : nextItem? first (lead ++ c :: text) = .ok (some (c :: text)) := by
  cases leads with
  | first blank =>
    rw [nextItem?, skipGap_to blank solid]
    exact if_neg other
  | next before blank =>
    rw [List.append_assoc, List.cons_append, nextItem?, skipGap_to before rfl]
    dsimp only
    rw [skipGap_to blank solid, if_neg (by decide), if_neg Bool.false_ne_true, if_pos rfl]
    split
    next same => cases same
    next same => cases same; exact absurd rfl other
    next => rfl

theorem nextItem?_close (first : Bool) {gap : Text} (blank : IsGap gap) (rest : Text) :
    nextItem? first (gap ++ ']' :: rest) = .ok none := by
  rw [nextItem?, skipGap_to blank rfl]
  exact if_pos rfl

theorem endArray_close {gap : Text} (blank : IsGap gap) (rest : Text) : endArray (gap ++ ']' :: rest) = .ok rest := by
  rw [endArray, skipGap_to blank rfl]
  rfl

theorem deeper_ok {depth : Nat} (left : 2 ≤ depth) : deeper depth = .ok (depth - 1) := by
  obtain ⟨less, rfl⟩ := Nat.exists_eq_add_of_le' left
  rfl

theorem itemsWithin_takes {item : Parser α} {values : List Value} {results : List α}
    (takes : List.Forall₂ (Takes item) values results) {first : Bool} {text rest : Text}
    (spelled : SpellsItems first values text) {steps : Nat} (enough : values.length < steps) :
    itemsWithin item steps first (text ++ rest) = .ok (results, rest) := by
  -- one step is spent on every item, and one on the closing bracket
  induction takes generalizing first text steps with
  | nil =>
    cases spelled with
    | close blank =>
      obtain ⟨steps, rfl⟩ := Nat.exists_eq_add_of_lt enough
      rw [List.append_assoc, List.singleton_append, itemsWithin, nextItem?_close first blank]
      simp only [bind, Except.bind, endArray_close blank]
      rfl
  | @cons value result values results here takes ih =>
    cases spelled with
    | @item _ lead _ text _ behind leads spelled others =>
      obtain ⟨steps, rfl⟩ : ∃ less, steps = less + 1 := ⟨steps - 1, by omega⟩
      rw [List.length_cons] at enough
      have taken := here [] text (behind ++ rest) isGap_nil spelled (others.ends rest)
      have later := ih others (show _ < steps by omega)
      obtain ⟨c, more, rfl, solid, open_, _⟩ := spelled.head
      rw [List.append_assoc, List.append_assoc, List.cons_append, itemsWithin, nextItem?_item leads solid open_]
      simp only [List.nil_append, List.cons_append] at taken
      simp only [bind, Except.bind, taken, later]
      rfl

theorem SpellsItems.length_le {first : Bool} {values : List Value} {text : Text}
    (spelled : SpellsItems first values text) : values.length ≤ text.length := by
  induction values generalizing first text with
  | nil => exact Nat.zero_le _
  | cons value values ih =>
    cases spelled with
    | item leads spelled others =>
      obtain ⟨c, more, rfl, _⟩ := spelled.head
      have rest := ih others
      simp only [List.length_append, List.length_cons]
      omega

theorem list_takes {item : Reader α} {depth : Nat} {values : List Value} {results : List α} (left : 2 ≤ depth)
    (takes : List.Forall₂ (Takes (item (depth - 1))) values results) : Takes (list item depth) (.array values) results := by
  intro gap text rest blank spelled _
  cases spelled with
  | @array _ text spelled =>
    have long := spelled.length_le
    rw [list, List.cons_append, skipGap_to blank rfl]
    simp only [deeper_ok left, bind, Except.bind, items]
    exact itemsWithin_takes takes spelled (by rw [List.length_append]; omega)

/-- Members that are read one after the other, each of which changes a state. -/
inductive Runs (member : Text → α → Parser α) : α → Members → α → Prop
  | nil (state : α) : Runs member state [] state
  | cons {state next last : α} {key : Text} {value : Value} {members : Members} : Takes (member key state) value next →
    Runs member next members last → Runs member state ((key, value) :: members) last

theorem Runs.append {member : Text → α → Parser α} {state middle last : α} {front back : Members}
    (first : Runs member state front middle) (second : Runs member middle back last) :
    Runs member state (front ++ back) last := by
  induction first with
  | nil => exact second
  | cons takes _ ih => exact .cons takes (ih second)

theorem memberKey_takes {before gap : Text} (key : Text) (blank : IsGap gap) (between : IsGap before) (rest : Text) :
    memberKey (gap ++ (Value.quote key ++ (before ++ ':' :: rest))) = .ok (key, rest) := by
  rw [memberKey, Value.quote_append, skipGap_to blank rfl]
  simp only [string?_quoted, orMalformed, bind, Except.bind]
  rw [skipGap_to between rfl]
  rfl

theorem membersWithin_takes {member : Text → α → Parser α} {state last : α} {members : Members}
    (runs : Runs member state members last) {first : Bool} {text rest : Text} (spelled : SpellsMembers first members text)
    {steps : Nat} (enough : members.length < steps) :
    membersWithin member steps first state (text ++ rest) = .ok (last, rest) := by
  induction runs generalizing first text steps with
  | nil state =>
    cases spelled with
    | close blank =>
      obtain ⟨steps, rfl⟩ := Nat.exists_eq_add_of_lt enough
      rw [List.append_assoc, List.singleton_append, membersWithin, skipGap_to blank rfl]
      exact if_pos rfl
  | @cons state next last key value members takes runs ih =>
    cases spelled with
    | @member _ lead _ before gap _ text _ behind leads between blank spelled others =>
      obtain ⟨steps, rfl⟩ : ∃ less, steps = less + 1 := ⟨steps - 1, by omega⟩
      rw [List.length_cons] at enough
      have taken := takes gap text (behind ++ rest) blank spelled (others.ends rest)
      have later := ih others (show _ < steps by omega)
      -- what is read of the key does not depend on whether a comma stands before it
      have read : ∀ gap', IsGap gap' →
          (do
            let named ← memberKey (gap' ++ (Value.quote key ++ (before ++ ':' :: (gap ++ (text ++ (behind ++ rest))))))
            let made ← member named.1 state named.2
            membersWithin member steps false made.1 made.2) = .ok (last, rest) := by
        intro gap' blank'
        rw [memberKey_takes key blank' between]
        simp only [bind, Except.bind, taken, later]
      simp only [List.append_assoc, List.cons_append]
      cases leads with
      | first ahead =>
        have same := read [] isGap_nil
        rw [List.nil_append] at same
        rw [Value.quote_append] at same ⊢
        rw [membersWithin, skipGap_to ahead rfl]
        dsimp only
        rw [if_neg (by decide), if_pos (by rfl), if_pos rfl]
        exact same
      | next ahead ahead' =>
        rw [List.append_assoc, List.cons_append, membersWithin, skipGap_to ahead rfl]
        dsimp only
        rw [if_neg (by decide), if_pos (by rfl), if_neg Bool.false_ne_true]
        exact read _ ahead'

theorem SpellsMembers.length_le {first : Bool} {members : Members} {text : Text}
    (spelled : SpellsMembers first members text) : members.length ≤ text.length := by
  induction members generalizing first text with
  | nil => exact Nat.zero_le _
  | cons member members ih =>
    cases spelled with
    | member _ leads _ _ spelled others =>
      have rest := ih others
      simp only [List.length_append, List.length_cons]
      omega

theorem members_takes {member : Text → α → Parser α} {state last : α} {found : Members}
    (runs : Runs member state found last) {text : Text} (spelled : SpellsMembers true found text) (rest : Text) :
    members member state (text ++ rest) = .ok (last, rest) := by
  have long := spelled.length_le
  exact membersWithin_takes runs spelled (by rw [List.length_append]; omega)

/-! ### Values -/

theorem scalar_number {n : Int} (fits : IsInteger n) {rest : Text} (ends : Ends rest) :
    scalar (Text.ofInt n ++ rest) = .ok (.number (.integer n), rest) := by
  have read := number?_ofInt ends.no_digit fits
  obtain ⟨c, more, front, sign⟩ := Text.ofInt_front n
  have other : c ≠ 'n' ∧ c ≠ 't' ∧ c ≠ 'f' ∧ c ≠ '"' := by
    refine ⟨?_, ?_, ?_, ?_⟩ <;> rintro rfl <;> simp +decide at sign
  rw [front, List.cons_append] at read ⊢
  simp only [scalar, if_neg other.1, if_neg other.2.1, if_neg other.2.2.1, if_neg other.2.2.2, read]
  rfl

theorem Members.put_new {key : Text} {members : Members} (new : key ∉ members.map Prod.fst) (value : Value) :
    Members.put key value members = members ++ [(key, value)] := by
  induction members with
  | nil => rfl
  | cons member members ih =>
    obtain ⟨other, old⟩ := member
    rw [List.map_cons, List.mem_cons, not_or] at new
    rw [Members.put, if_neg (Ne.symm new.1), ih new.2, List.cons_append]

theorem Takes.map {β : Type} {parser : Parser α} {value : Value} {result : α} (takes : Takes parser value result)
    (turn : α → β) : Takes (fun text => do let (value, rest) ← parser text; return (turn value, rest)) value
      (turn result) := by
  intro gap text rest blank spelled ends
  simp only [takes gap text rest blank spelled ends, bind, Except.bind]
  rfl

/-- Members with new keys are put behind those that are there. -/
theorem valueMembers_run {reader : Parser Value} {members : Members} (before : Members)
    (new : ((before ++ members).map Prod.fst).Nodup) (takes : ∀ member ∈ members, Takes reader member.2 member.2) :
    Runs (valueMember reader) before members (before ++ members) := by
  induction members generalizing before with
  | nil =>
    rw [List.append_nil]
    exact .nil before
  | cons member members ih =>
    obtain ⟨key, value⟩ := member
    obtain ⟨here, later⟩ := List.forall_mem_cons.mp takes
    have fresh : key ∉ before.map Prod.fst := by
      intro member
      rw [List.map_append, List.nodup_append] at new
      exact new.2.2 key member key (List.mem_cons_self ..) rfl
    have behind := ih (before ++ [(key, value)]) (by simpa using new) later
    rw [List.append_assoc, List.singleton_append] at behind
    refine .cons (here.map (Members.put key · before)) ?_
    rw [Members.put_new fresh]
    exact behind

theorem value_takes {depth : Nat} {it : Value} (shallow : it.nesting < depth) (plain : it.IsPlain) :
    Takes (value depth) it it := by
  induction depth generalizing it with
  | zero => exact absurd shallow (Nat.not_lt_zero _)
  | succ depth ih =>
    intro gap text rest blank spelled ends
    rw [value, spelled.skipGap blank]
    cases spelled with
    | null => rfl
    | bool flag => cases flag <;> rfl
    | integer n =>
      rw [Value.IsPlain] at plain
      obtain ⟨c, more, front, sign⟩ := Text.ofInt_front n
      have read := scalar_number plain ends
      rw [front, List.cons_append] at read ⊢
      split
      next same => cases same; simp +decide at sign
      next same => cases same; simp +decide at sign
      next => exact read
    | string text =>
      have read : orMalformed ((string? (text.flatMap Value.escape ++ '"' :: rest)).map fun found =>
          (Value.string found.1, found.2)) = .ok (.string text, rest) := by
        rw [string?_quoted]
        rfl
      rw [Value.quote_append]
      exact read
    | @array items text spelled =>
      rw [Value.IsPlain] at plain
      have long := spelled.length_le
      have takes : List.Forall₂ (Takes (value depth)) items items :=
        List.forall₂_same.mpr fun item member =>
          ih (Nat.lt_of_lt_of_le (Value.nesting_lt_of_item member) (Nat.le_of_lt_succ shallow))
            (Value.plainItems_iff.mp plain item member)
      rw [Value.nesting] at shallow
      rw [List.cons_append]
      simp only [deeper_ok (show 2 ≤ depth + 1 by omega), bind, Except.bind, Json.items]
      rw [itemsWithin_takes takes spelled (by rw [List.length_append]; omega)]
      rfl
    | @object found text spelled =>
      rw [Value.IsPlain] at plain
      -- without a key that comes twice the members stay in the order in which they are written
      have run := valueMembers_run [] plain.1 fun member inside =>
        ih (Nat.lt_of_lt_of_le (Value.nesting_lt_of_member inside) (Nat.le_of_lt_succ shallow))
          (Value.plainMembers_iff.mp plain.2 member inside)
      rw [Value.nesting] at shallow
      rw [List.cons_append]
      simp only [deeper_ok (show 2 ≤ depth + 1 by omega), bind, Except.bind, members_takes run spelled]
      rfl

theorem object_takes {depth : Nat} {members : Members} (shallow : (Value.object members).nesting < depth)
    (plain : (Value.object members).IsPlain) : Takes (object depth) (.object members) members := by
  rw [Value.IsPlain] at plain
  have run := valueMembers_run [] plain.1 fun member inside =>
    value_takes (Nat.lt_of_lt_of_le (Value.nesting_lt_of_member inside) (Nat.le_sub_one_of_lt shallow))
      (Value.plainMembers_iff.mp plain.2 member inside)
  rw [Value.nesting] at shallow
  intro gap text rest blank spelled _
  cases spelled with
  | @object _ text spelled =>
    rw [object, List.cons_append, skipGap_to blank rfl]
    simp only [deeper_ok (show 2 ≤ depth by omega), bind, Except.bind]
    exact members_takes run spelled rest

/-! ### Whole texts -/

theorem decode_takes {reader : Reader α} {value : Value} {result : α} (takes : Takes (reader depthLimit) value result)
    {text : Text} (spelled : Spells value text) : decode reader text = .ok result := by
  have read := takes [] text [] isGap_nil spelled ends_nil
  rw [List.nil_append, List.append_nil] at read
  rw [decode, read]
  rfl

/-- The two printed texts of a value are read as what its spellings are read as. -/
theorem decode_printed {reader : Reader α} {value : Value} {result : α} (takes : Takes (reader depthLimit) value result)
    (plain : value.IsPlain) (level : Nat) :
    decode reader value.compact = .ok result ∧ decode reader (value.pretty level) = .ok result :=
  ⟨decode_takes takes (value.compact_spells plain), decode_takes takes (value.pretty_spells level plain)⟩

end Graft.Json
