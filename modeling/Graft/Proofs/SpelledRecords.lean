import Graft.Proofs.SpelledReading
import Graft.Wire.Request

/-! What the readers of records take from the spellings of an object. The members are followed one by one through the
draft that they fill, and a member that is left out leaves the draft as it was. -/

namespace Graft.Json

variable {σ α β : Type}

/-- A record is read of an object whose members fill a draft that can be finished. -/
theorem Record.read_takes {record : Record σ α} {depth : Nat} {found : Members} {draft : σ} {result : α} (left : 2 ≤ depth)
    (runs : Runs (record.member (depth - 1)) record.blank found draft) (finished : record.finish draft = .ok result) :
    Takes (record.read depth) (.object found) result := by
  intro gap text rest blank spelled _
  cases spelled with
  | @object _ text spelled =>
    rw [read, List.cons_append, skipGap_to blank rfl]
    simp only [deeper_ok left, bind, Except.bind, members_takes runs spelled, finished]
    rfl

/-- A member goes to the field with its name, which nothing has filled yet. -/
theorem Record.member_takes {record : Record σ α} {name : String} {required : Bool} {get : σ → Option β}
    {set : σ → β → σ} {reader : Reader β} {depth : Nat} {draft next : σ} {value : Value} {part : β}
    (found : (record.fields.find? fun field => field.name = name.toList) = some (.of name required get set reader))
    (free : get draft = none) (filled : set draft part = next) (takes : Takes (reader depth) value part) :
    Takes (record.member depth name.toList draft) value next := by
  have unfilled : (Field.of name required get set reader).filled draft = false := congrArg Option.isSome free
  intro gap text rest blank spelled ends
  rw [member, found]
  simp only [unfilled, Bool.false_eq_true, if_false]
  rw [← filled]
  exact takes.map (set draft) gap text rest blank spelled ends

/-- Null stands for nothing, so what is there must not be spelled as null. -/
theorem orNull_takes {reader : Reader α} {depth : Nat} {value : Value} {result : α} (takes : Takes (reader depth) value result)
    (present : value ≠ .null) : Takes (Wire.orNull reader depth) value (some result) :=
  optional_takes takes present

/-- A member that is left out if there is nothing to write. The draft is given as a function of what the member holds. -/
theorem Record.optional_runs {record : Record σ α} {name : String} {required : Bool} {get : σ → Option (Option β)}
    {set : σ → Option β → σ} {reader : Reader β} {depth : Nat} {part : Option β} {encode : β → Value} (draft : Option β → σ)
    (found : (record.fields.find? fun field => field.name = name.toList) =
      some (.of name required get set (Wire.orNull reader)))
    (free : get (draft none) = none) (filled : ∀ it, set (draft none) (some it) = draft (some it))
    (takes : ∀ it, part = some it → Takes (reader depth) (encode it) it) (present : ∀ it, encode it ≠ .null) :
    Runs (record.member depth) (draft none) (Wire.optionalMember name (part.map encode)) (draft part) := by
  cases part with
  | none => exact .nil _
  | some it => exact .cons (member_takes found free (filled it) (orNull_takes (takes it rfl) (present it))) (.nil _)

theorem mem_optionalMember {name : String} {value : Option Value} {entry : Text × Value} :
    entry ∈ Wire.optionalMember name value ↔ ∃ it, value = some it ∧ entry = (name.toList, it) := by
  cases value <;> simp [Wire.optionalMember]

theorem plainMembers_optional {name : String} {part : Option β} {encode : β → Value} :
    Value.PlainMembers (Wire.optionalMember name (part.map encode)) ↔ ∀ it ∈ part, (encode it).IsPlain := by
  cases part <;> simp [Wire.optionalMember, Value.PlainMembers]

theorem optionalMember_keys (name : String) (value : Option Value) :
    ((Wire.optionalMember name value).map Prod.fst).Sublist [name.toList] := by
  cases value with
  | none => exact List.nil_sublist _
  | some it => exact List.Sublist.refl _

theorem texts_takes {depth : Nat} (left : 2 ≤ depth) (its : List Text) :
    Takes (list Wire.text depth) (.array (its.map .string)) its := by
  refine list_takes left ?_
  rw [List.forall₂_map_left_iff]
  exact List.forall₂_same.mpr fun it _ => text_takes it

end Graft.Json
