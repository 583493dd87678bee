import Graft.Print.Literal

/-! String literals as they are read. A literal is closed by the first quote of its own kind that no backslash stands
before, and a letter behind a backslash stands for one character. Read in this way a printed literal is closed where it
was closed in print, whatever follows it, and stands for the text that was printed. -/

namespace Graft.Quote

/-- The character that a letter stands for behind a backslash. -/
def meant? (c : Char) : Option Char :=
  match c with
  | '\\' => some '\\'
  | 'n' => some '\n'
  | 'r' => some '\r'
  | 't' => some '\t'
  | '\'' => some '\''
  | '"' => some '"'
  | _ => none

/-- The text before the quote that closes a literal, and what follows that quote. The flag says that a backslash came
just before, which takes the next character along. -/
def body? (quote : Quote) : Bool → Text → Option (Text × Text)
  | _, [] => none
  | true, c :: rest => (body? quote false rest).map fun (body, rest) => (c :: body, rest)
  | false, c :: rest =>
    if c = quote.char then some ([], rest)
    else (body? quote (c = '\\') rest).map fun (body, rest) => (c :: body, rest)

def decode? : Text → Option Text
  | [] => some []
  | '\\' :: c :: rest => do
    let c ← meant? c
    let text ← decode? rest
    return c :: text
  | c :: rest => if c = '\\' then none else (decode? rest).map (c :: ·)

/-- The literal that a text starts with, quotes and all, and what follows it. -/
def token? (quote : Quote) : Text → Option (Text × Text)
  | [] => none
  | c :: rest =>
    if c = quote.char then (quote.body? false rest).map fun (body, rest) => (c :: body ++ [c], rest) else none

theorem escape_cases (quote : Quote) (c : Char) :
    (quote.escape c = [c] ∧ c ≠ '\\' ∧ c ≠ quote.char ∧ c ≠ '\n' ∧ c ≠ '\r') ∨
      ∃ d, quote.escape c = ['\\', d] ∧ meant? d = some c ∧ d ≠ '\n' ∧ d ≠ '\r' := by
  unfold escape
  split
  next same => exact .inr ⟨'\\', rfl, by rw [same]; rfl, by decide, by decide⟩
  next slash =>
    split
    next same => exact .inr ⟨'n', rfl, by rw [same]; rfl, by decide, by decide⟩
    next feed =>
      split
      next same => exact .inr ⟨'r', rfl, by rw [same]; rfl, by decide, by decide⟩
      next carriage =>
        split
        next same => exact .inr ⟨'t', rfl, by rw [same]; rfl, by decide, by decide⟩
        next =>
          split
          next same => cases quote <;> exact .inr ⟨c, rfl, by rw [same]; rfl, feed, carriage⟩
          next mark => exact .inl ⟨rfl, slash, mark, feed, carriage⟩

/-- What is written between the quotes is closed by the quote behind it and by none before. -/
theorem body?_escaped (quote : Quote) (text rest : Text) :
    quote.body? false (text.flatMap quote.escape ++ quote.char :: rest) = some (text.flatMap quote.escape, rest) := by
  induction text with
  | nil => simp [body?]
  | cons c text ih =>
    rw [List.flatMap_cons, List.append_assoc]
    rcases quote.escape_cases c with ⟨plain, slash, mark, -⟩ | ⟨d, behind, -⟩
    · rw [plain, List.singleton_append, body?, if_neg mark, decide_eq_false slash, ih]
      rfl
    · -- the backslash takes the letter along, which may be the quote itself
      have other : '\\' ≠ quote.char := by cases quote <;> decide
      rw [behind, List.cons_append, List.singleton_append, body?, if_neg other, decide_eq_true rfl, body?, ih]
      rfl

theorem decode?_escaped (quote : Quote) (text : Text) : decode? (text.flatMap quote.escape) = some text := by
  induction text with
  | nil => rfl
  | cons c text ih =>
    rw [List.flatMap_cons]
    rcases quote.escape_cases c with ⟨plain, slash, -⟩ | ⟨d, behind, meant, -⟩
    · rw [plain, List.singleton_append, decode?, if_neg slash, ih]
      · rfl
      · exact fun _ _ same => absurd same slash
    · rw [behind, List.cons_append, List.singleton_append, decode?, meant, ih]
      rfl

theorem token?_literal (quote : Quote) (text rest : Text) :
    quote.token? (quote.literal text ++ rest) = some (quote.literal text, rest) := by
  rw [literal, List.cons_append, List.cons_append, List.append_assoc, token?, if_pos rfl, List.singleton_append,
    body?_escaped]
  rfl

theorem line_of_mem_literal {quote : Quote} {text : Text} {c : Char} (member : c ∈ quote.literal text) :
    c ≠ '\n' ∧ c ≠ '\r' := by
  have mark : quote.char ≠ '\n' ∧ quote.char ≠ '\r' := by cases quote <;> decide
  rw [literal, List.cons_append, List.mem_cons, List.mem_append, List.mem_flatMap, List.mem_singleton] at member
  rcases member with rfl | ⟨d, -, inside⟩ | rfl
  · exact mark
  · rcases quote.escape_cases d with ⟨plain, -, -, lines⟩ | ⟨letter, behind, -, lines⟩
    · rw [plain, List.mem_singleton] at inside
      exact inside ▸ lines
    · rw [behind, List.mem_cons, List.mem_singleton] at inside
      rcases inside with rfl | rfl
      · decide
      · exact lines
  · exact mark

/-- A printed literal is on one line, is closed by its last character and by no quote before it, and stands for the text
that was printed, so that different texts have different literals. Whatever follows, it is one token. -/
theorem literal_closed (quote : Quote) :
    (∀ text rest : Text,
      (∃ body, quote.literal text = quote.char :: (body ++ [quote.char]) ∧
        quote.body? false (body ++ quote.char :: rest) = some (body, rest) ∧ decode? body = some text) ∧
      (∀ c ∈ quote.literal text, c ≠ '\n' ∧ c ≠ '\r') ∧
      quote.token? (quote.literal text ++ rest) = some (quote.literal text, rest)) ∧
      Function.Injective quote.literal := by
  refine ⟨fun text rest => ⟨⟨text.flatMap quote.escape, rfl, ?_, ?_⟩, ?_, ?_⟩, ?_⟩
  · exact quote.body?_escaped text rest
  · exact quote.decode?_escaped text
  · exact fun c member => line_of_mem_literal member
  · exact quote.token?_literal text rest
  · intro one two same
    have bodies : one.flatMap quote.escape = two.flatMap quote.escape :=
      List.append_cancel_right (List.cons.inj same).2
    have decoded := quote.decode?_escaped one
    rw [bodies, decode?_escaped] at decoded
    exact (Option.some.inj decoded).symm

/-- Backslashes and quotes that look like escapes are read as what they are. -/
example : single.token? ("'\\\\\\'\\\\n'; x = '".toList) = some ("'\\\\\\'\\\\n'".toList, "; x = '".toList) ∧
    decode? "\\\\\\'\\\\n".toList = some "\\'\\n".toList := by decide

end Graft.Quote
