import Graft.Json.Reader

/-! Records in JSON. A record is an object of its fields in any order, or an array of them in the order
of their declaration. Fields that nobody knows are passed over. -/

namespace Graft.Json

/-- A field of a record that is gathered in a draft. -/
structure Field (σ : Type) where
  name : Text
  required : Bool
  filled : σ → Bool
  read : σ → Reader σ

/-- How a record is read: a draft is filled field by field and finished in the end. -/
structure Record (σ α : Type) where
  name : Text
  blank : σ
  fields : List (Field σ)
  finish : σ → Except Fault α

variable {σ α β : Type}

def Field.of (name : String) (required : Bool) (get : σ → Option β) (set : σ → β → σ) (reader : Reader β) :
    Field σ where
  name := name.toList
  required
  filled draft := (get draft).isSome
  read draft depth text := do
    let (value, rest) ← reader depth text
    return (set draft value, rest)

def need (name : String) : Option α → Except Fault α
  | some value => .ok value
  | none => .error (.missingField name.toList)

namespace Record

def member (record : Record σ α) (depth : Nat) (key : Text) (draft : σ) : Parser σ := fun text =>
  match record.fields.find? fun field => field.name = key with
  | some field => if field.filled draft then .error (.repeatedField key) else field.read draft depth text
  | none => (orMalformed (Skip.value text)).map fun rest => (draft, rest)

/-- The name of a record that is given as an array. -/
def arrayName (record : Record σ α) : Text :=
  "struct ".toList ++ record.name ++ " with ".toList ++ Text.ofNat record.fields.length ++ " elements".toList

/-- The fields that are left of a record that is given as an array. -/
def positional (record : Record σ α) (depth : Nat) : List (Field σ) → Nat → σ → Parser σ
  | [], _, draft, text => do return (draft, ← endArray text)
  | field :: fields, index, draft, text => do
    match ← nextItem? (index = 0) text with
    | some text => do
      let (draft, text) ← field.read draft depth text
      positional record depth fields (index + 1) draft text
    | none =>
      if field.required then .error (.wrongLength index record.arrayName)
      else positional record depth fields (index + 1) draft text

def read (record : Record σ α) : Reader α := fun depth text =>
  match skipGap text with
  | '\x7b' :: rest => do
    let (draft, rest) ← members (record.member (← deeper depth)) record.blank rest
    return (← record.finish draft, rest)
  | '[' :: rest => do
    let (draft, rest) ← record.positional (← deeper depth) record.fields 0 record.blank rest
    return (← record.finish draft, rest)
  | text => .error (mismatch ("struct ".toList ++ record.name) text)

end Record

/-- Read one of some variants that are written as their names, or as an object with the name as its only
key and null as its value. -/
def variant (variants : List (Text × α)) : Reader α := fun depth text =>
  let choose (name : Text) : Except Fault α :=
    match variants.find? fun (other, _) => other = name with
    | some (_, value) => .ok value
    | none => .error (.unknownVariant name (variants.map Prod.fst))
  match skipGap text with
  | '"' :: rest => do
    let (name, rest) ← orMalformed (string? rest)
    return (← choose name, rest)
  | '\x7b' :: rest => do
    let _ ← deeper depth
    let (name, rest) ← textFor "variant identifier".toList rest
    let value ← choose name
    match skipGap rest with
    | ':' :: rest =>
      match skipGap rest with
      | 'n' :: rest => do
        match skipGap (← orMalformed (Skip.word "ull".toList rest)) with
        | '\x7d' :: rest => return (value, rest)
        | _ => .error .malformed
      | text => .error (mismatch "unit".toList text)
    | _ => .error .malformed
  | _ => .error .malformed

end Graft.Json
