import Graft.Json.Record
import Graft.Proofs.Results
import Mathlib.Data.List.Forall2

/-! Readers that differ in how much they let pass. A strict reader looks a value up where a lenient one only takes its
text, and so it may fail in the middle of a text that the lenient one reads to its end. Running the two side by side
keeps one relation: both have read the same, or the strict one is lost for a reason that can be told from what the
lenient one has read, or both have failed. Here the relation passes through the readers of records. -/

namespace Graft.Json

/-- How the result of a strict reader stands to that of a lenient one. -/
inductive Strict {α β : Type} (same : α → β → Prop) (lost : Fault → β → Prop) : Except Fault α → Except Fault β → Prop
  | both {value : α} {other : β} : same value other → Strict same lost (.ok value) (.ok other)
  | lost {fault : Fault} {other : β} : lost fault other → Strict same lost (.error fault) (.ok other)
  | neither {fault cause : Fault} : Strict same lost (.error fault) (.error cause)

namespace Strict
variable {α β γ δ ε : Type} {same : α → β → Prop} {lost : Fault → β → Prop} {same' : γ → δ → Prop} {lost' : Fault → δ → Prop}

/-- What comes next runs side by side as well, and the lenient reader must not forget why the strict one is lost. -/
theorem bind {first : Except Fault α} {other : Except Fault β} {next : α → Except Fault γ} {goes : β → Except Fault δ}
    (start : Strict same lost first other)
    (step : ∀ value it, same value it → other = .ok it → Strict same' lost' (next value) (goes it))
    (keeps : ∀ fault it result, lost fault it → other = .ok it → goes it = .ok result → lost' fault result) :
    Strict same' lost' (first >>= next) (other >>= goes) := by
  cases start with
  | both related => exact step _ _ related rfl
  | @lost fault it reason =>
    cases read : goes it with
    | error cause => simp only [Bind.bind, Except.bind, read]; exact .neither
    | ok result => simp only [Bind.bind, Except.bind, read]; exact .lost (keeps fault it result reason rfl read)
  | neither => exact .neither

theorem after (first : Except Fault ε) {next : ε → Except Fault γ} {goes : ε → Except Fault δ}
    (step : ∀ value, Strict same' lost' (next value) (goes value)) :
    Strict same' lost' (first >>= next) (first >>= goes) := by
  cases first with
  | error fault => exact .neither
  | ok value => exact step value

end Strict

/-- The relation for parsers, which leave the same rest. -/
abbrev StrictParse {α β : Type} (same : α → β → Prop) (lost : Fault → β → Prop) (first : Except Fault (α × Text))
    (other : Except Fault (β × Text)) : Prop :=
  Strict (fun value it => same value.1 it.1 ∧ value.2 = it.2) (fun fault it => lost fault it.1) first other

variable {σ τ α β : Type} {same : σ → τ → Prop} {lost : Fault → τ → Prop}

/-! ### Members -/

section
variable {member : Text → σ → Parser σ} {other : Text → τ → Parser τ}

theorem membersWithin_keeps (keeps : ∀ key fault it text result, lost fault it → other key it text = .ok result →
      lost fault result.1) (steps : Nat) (first : Bool) {fault : Fault} {it : τ} {text : Text} {result : τ × Text}
    (reason : lost fault it) (read : membersWithin other steps first it text = .ok result) : lost fault result.1 := by
  induction steps generalizing first it text with
  | zero => cases read
  | succ steps ih =>
    rw [membersWithin] at read
    split at read
    next => cases read
    next c rest =>
      split at read
      next => cases read; exact reason
      next =>
        split at read
        next =>
          obtain ⟨⟨key, after⟩, _, read⟩ := Except.ok_of_bind read
          obtain ⟨⟨next, behind⟩, taken, read⟩ := Except.ok_of_bind read
          exact ih false (keeps key fault it after (next, behind) reason taken) read
        next => cases read

theorem membersWithin_strict
    (steps_alike : ∀ key value it text, same value it → StrictParse same lost (member key value text) (other key it text))
    (keeps : ∀ key fault it text result, lost fault it → other key it text = .ok result → lost fault result.1)
    (steps : Nat) (first : Bool) {value : σ} {it : τ} (text : Text) (related : same value it) :
    StrictParse same lost (membersWithin member steps first value text) (membersWithin other steps first it text) := by
  induction steps generalizing first value it text with
  | zero => exact .neither
  | succ steps ih =>
    rw [membersWithin, membersWithin]
    split
    next => exact .neither
    next c rest =>
      split
      next => exact .both ⟨related, rfl⟩
      next =>
        split
        next =>
          refine Strict.after _ fun ⟨key, after⟩ => ?_
          refine (steps_alike key value it after related).bind ?_ ?_
          · rintro ⟨value, rest⟩ ⟨it, _⟩ ⟨related, rfl⟩ _
            exact ih false rest related
          · rintro fault ⟨it, rest⟩ result reason _ read
            exact membersWithin_keeps keeps steps false reason read
        next => exact .neither

end

/-! ### Fields -/

/-- Two fields with one name, of which one is read strictly. -/
structure Field.Strict (same : σ → τ → Prop) (lost : Fault → τ → Prop) (field : Field σ) (other : Field τ) : Prop where
  name : field.name = other.name
  required : field.required = other.required
  filled : ∀ value it, same value it → field.filled value = other.filled it
  read : ∀ value it depth text, same value it → other.filled it = false →
    StrictParse same lost (field.read value depth text) (other.read it depth text)
  keeps : ∀ fault it depth text result, lost fault it → other.filled it = false →
    other.read it depth text = .ok result → lost fault result.1

/-- Reading one field does not fill another. -/
def Field.Apart (field other : Field τ) : Prop :=
  ∀ it depth text result, field.read it depth text = .ok result → other.filled result.1 = other.filled it

section
variable {name : String} {required : Bool} {reader : Reader β} {put : τ → β → τ} {has : τ → Option β}

theorem Field.of_strict {set : σ → β → σ} {get : σ → Option β} (gets : ∀ value it, same value it → get value = has it)
    (sets : ∀ value it part, same value it → same (set value part) (put it part))
    (keeps : ∀ fault it part, lost fault it → lost fault (put it part)) :
    Field.Strict same lost (.of name required get set reader) (.of name required has put reader) := by
  refine ⟨rfl, rfl, ?_, ?_, ?_⟩
  · intro value it related
    exact congrArg Option.isSome (gets value it related)
  · intro value it depth text related _
    exact Strict.after _ fun ⟨part, rest⟩ => .both ⟨sets value it part related, rfl⟩
  · intro fault it depth text result reason _ read
    obtain ⟨⟨part, rest⟩, _, read⟩ := Except.ok_of_bind read
    cases read
    exact keeps fault it part reason

theorem Field.of_apart {γ : Type} {other : String} {wanted : Bool} {inner : Reader γ} {set : τ → γ → τ} {get : τ → Option γ}
    (free : ∀ it part, get (put it part) = get it) :
    Field.Apart (.of name required has put reader) (.of other wanted get set inner) := by
  intro it depth text result read
  obtain ⟨⟨part, rest⟩, _, read⟩ := Except.ok_of_bind read
  cases read
  exact congrArg Option.isSome (free it part)

end

theorem find?_strict {fields : List (Field σ)} {others : List (Field τ)}
    (pairs : List.Forall₂ (Field.Strict same lost) fields others) (key : Text) :
    ((fields.find? fun field => field.name = key) = none ∧ (others.find? fun field => field.name = key) = none) ∨
      ∃ field other, (fields.find? fun field => field.name = key) = some field ∧
        (others.find? fun field => field.name = key) = some other ∧ Field.Strict same lost field other := by
  induction pairs with
  | nil => exact .inl ⟨rfl, rfl⟩
  | @cons field other fields others pair pairs ih =>
    rw [List.find?_cons, List.find?_cons, pair.name]
    by_cases named : other.name = key
    · exact .inr ⟨field, other, by simp [named], by simp [named], pair⟩
    · simpa [named] using ih

/-! ### Records -/

structure Record.Strict (same : σ → τ → Prop) (lost : Fault → τ → Prop) (same' : α → β → Prop) (lost' : Fault → β → Prop)
    (record : Record σ α) (other : Record τ β) : Prop where
  fields : List.Forall₂ (Field.Strict same lost) record.fields other.fields
  apart : other.fields.Pairwise Field.Apart
  blank : same record.blank other.blank
  unfilled : ∀ field ∈ other.fields, field.filled other.blank = false
  finish : ∀ value it, same value it → Graft.Json.Strict same' lost' (record.finish value) (other.finish it)
  keeps : ∀ fault it result, lost fault it → other.finish it = .ok result → lost' fault result

namespace Record
variable {same' : α → β → Prop} {lost' : Fault → β → Prop} {record : Record σ α} {other : Record τ β}

theorem member_keeps (pairs : List.Forall₂ (Field.Strict same lost) record.fields other.fields) (depth : Nat) (key : Text)
    (fault : Fault) (it : τ) (text : Text) (result : τ × Text) (reason : lost fault it)
    (read : other.member depth key it text = .ok result) : lost fault result.1 := by
  unfold member at read
  rcases find?_strict pairs key with ⟨_, none⟩ | ⟨_, field, _, found, pair⟩
  · rw [none] at read
    cases passed : Skip.value text with
    | none => rw [passed] at read; cases read
    | some rest => rw [passed] at read; cases read; exact reason
  · rw [found] at read
    dsimp only at read
    split at read
    next => cases read
    next unfilled => exact pair.keeps fault it depth text result reason (Bool.eq_false_iff.mpr unfilled) read

theorem member_strict (pairs : List.Forall₂ (Field.Strict same lost) record.fields other.fields) (depth : Nat) (key : Text)
    (value : σ) (it : τ) (text : Text) (related : same value it) :
    StrictParse same lost (record.member depth key value text) (other.member depth key it text) := by
  unfold member
  rcases find?_strict pairs key with ⟨none, absent⟩ | ⟨field, twin, found, there, pair⟩
  · rw [none, absent]
    cases Skip.value text with
    | none => exact .neither
    | some rest => exact .both ⟨related, rfl⟩
  · rw [found, there]
    dsimp only
    rw [pair.filled value it related]
    split
    next => exact .neither
    next unfilled => exact pair.read value it depth text related (Bool.eq_false_iff.mpr unfilled)

section
variable {fields : List (Field σ)} {others : List (Field τ)}

/-- Fields that are still to be read of an array stay unfilled. -/
theorem unfilled_behind {field : Field τ} (apart : (field :: others).Pairwise Field.Apart) {it : τ} {depth : Nat}
    {text : Text} {result : τ × Text} (read : field.read it depth text = .ok result)
    (unfilled : ∀ next ∈ others, next.filled it = false) : ∀ next ∈ others, next.filled result.1 = false := by
  intro next member
  rw [(List.pairwise_cons.mp apart).1 next member it depth text result read]
  exact unfilled next member

theorem positional_keeps (pairs : List.Forall₂ (Field.Strict same lost) fields others) (apart : others.Pairwise Field.Apart)
    (depth index : Nat) {fault : Fault} {it : τ} {text : Text} {result : τ × Text} (reason : lost fault it)
    (unfilled : ∀ field ∈ others, field.filled it = false)
    (read : other.positional depth others index it text = .ok result) : lost fault result.1 := by
  induction pairs generalizing index it text with
  | nil =>
    obtain ⟨rest, _, read⟩ := Except.ok_of_bind read
    cases read
    exact reason
  | @cons field twin fields others pair pairs ih =>
    obtain ⟨free, later⟩ := List.forall_mem_cons.mp unfilled
    have rest := (List.pairwise_cons.mp apart).2
    rw [positional] at read
    obtain ⟨found, _, read⟩ := Except.ok_of_bind read
    cases found with
    | some start =>
      obtain ⟨next, taken, read⟩ := Except.ok_of_bind read
      exact ih rest (index + 1) (pair.keeps fault it depth start next reason free taken)
        (unfilled_behind apart taken later) read
    | none =>
      dsimp only at read
      split at read
      next => cases read
      next => exact ih rest (index + 1) reason later read

theorem positional_strict (pairs : List.Forall₂ (Field.Strict same lost) fields others) (apart : others.Pairwise Field.Apart)
    (depth index : Nat) {value : σ} {it : τ} (text : Text) (related : same value it)
    (unfilled : ∀ field ∈ others, field.filled it = false) :
    StrictParse same lost (record.positional depth fields index value text)
      (other.positional depth others index it text) := by
  induction pairs generalizing index value it text with
  | nil =>
    exact Strict.after _ fun rest => .both ⟨related, rfl⟩
  | @cons field twin fields others pair pairs ih =>
    obtain ⟨free, later⟩ := List.forall_mem_cons.mp unfilled
    have rest := (List.pairwise_cons.mp apart).2
    rw [positional, positional]
    refine Strict.after _ fun found => ?_
    cases found with
    | some start =>
      refine (pair.read value it depth start related free).bind ?_ ?_
      · rintro ⟨value, text⟩ ⟨it, _⟩ ⟨related, rfl⟩ taken
        exact ih rest (index + 1) text related (unfilled_behind apart taken later)
      · rintro fault ⟨it, text⟩ result reason taken read
        exact positional_keeps pairs rest depth (index + 1) reason (unfilled_behind apart taken later) read
    | none =>
      dsimp only
      rw [pair.required]
      split
      next => exact .neither
      next => exact ih rest (index + 1) text related later

end

theorem read_strict (pair : Record.Strict same lost same' lost' record other) (depth : Nat) (text : Text) :
    StrictParse same' lost' (record.read depth text) (other.read depth text) := by
  -- a draft that both have read is finished by both
  have finishes : ∀ {first : Except Fault (σ × Text)} {twin : Except Fault (τ × Text)},
      StrictParse same lost first twin →
        StrictParse same' lost' (first >>= fun filled => do return (← record.finish filled.1, filled.2))
          (twin >>= fun filled => do return (← other.finish filled.1, filled.2)) := by
    intro first twin gathered
    refine gathered.bind ?_ ?_
    · rintro ⟨value, rest⟩ ⟨it, _⟩ ⟨related, rfl⟩ _
      refine (pair.finish value it related).bind ?_ ?_
      · intro result made done _
        exact .both ⟨done, rfl⟩
      · intro fault made result reason _ same
        cases same
        exact reason
    · rintro fault ⟨it, rest⟩ result reason _ read
      obtain ⟨made, finished, read⟩ := Except.ok_of_bind read
      cases read
      exact pair.keeps fault it made reason finished
  unfold read
  split
  next rest _ =>
    refine Strict.after _ fun inner => ?_
    exact finishes (membersWithin_strict (member_strict pair.fields inner) (member_keeps pair.fields inner) _ true rest
      pair.blank)
  next rest _ =>
    refine Strict.after _ fun inner => ?_
    exact finishes (positional_strict pair.fields pair.apart inner 0 rest pair.blank pair.unfilled)
  next => exact .neither

theorem decode_strict (pair : Record.Strict same lost same' lost' record other) (text : Text) :
    Graft.Json.Strict same' lost' (decode record.read text) (decode other.read text) := by
  refine (read_strict pair depthLimit text).bind ?_ ?_
  · rintro ⟨value, rest⟩ ⟨it, _⟩ ⟨related, rfl⟩ _
    dsimp only
    split
    next => exact .both related
    next => exact .neither
  · rintro fault ⟨it, rest⟩ result reason _ read
    dsimp only at read
    split at read
    next => cases read; exact reason
    next => cases read

end Record

end Graft.Json
