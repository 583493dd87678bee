/-! Texts are lists of characters measured in UTF-8 bytes. An offset is a byte count; it lies on a
character boundary exactly when the text splits there. -/

namespace Graft

abbrev Text := List Char

namespace Text

/-- The number of bytes a text takes in UTF-8. -/
def bytes : Text → Nat
  | [] => 0
  | c :: rest => c.utf8Size + bytes rest

/-- Cut a text after the given number of bytes. There is no cut inside a character or past the end. -/
def splitAt? : Nat → Text → Option (Text × Text)
  | 0, text => some ([], text)
  | _ + 1, [] => none
  | n + 1, c :: rest =>
    if c.utf8Size ≤ n + 1 then
      (splitAt? (n + 1 - c.utf8Size) rest).map fun (front, back) => (c :: front, back)
    else none

/-- The first bytes of a text, if they end on a character boundary. -/
def take? (n : Nat) (text : Text) : Option Text :=
  (splitAt? n text).map Prod.fst

def drop? (n : Nat) (text : Text) : Option Text :=
  (splitAt? n text).map Prod.snd

/-- The bytes from one offset up to another. -/
def slice? (start stop : Nat) (text : Text) : Option Text :=
  if start ≤ stop then (drop? start text).bind (take? (stop - start)) else none

/-- Replace every occurrence of `old`, scanning from the left and never rereading what was written.
An empty `old` occurs nowhere. -/
def replaceAll (old new : Text) (text : Text) : Text :=
  go text 0
where
  /-- `skip` characters of the current occurrence are still to be passed over. -/
  go : Text → Nat → Text
    | [], _ => []
    | _ :: rest, skip + 1 => go rest skip
    | c :: rest, 0 =>
      if !old.isEmpty && old.isPrefixOf (c :: rest) then new ++ go rest (old.length - 1)
      else c :: go rest 0

/-- Split at a separating character; a text without it is one piece. -/
def splitOn (separator : Char) : Text → List Text
  | [] => [[]]
  | c :: rest =>
    if c = separator then [] :: splitOn separator rest
    else
      match splitOn separator rest with
      | [] => [[c]]
      | piece :: pieces => (c :: piece) :: pieces

def join (separator : Text) : List Text → Text
  | [] => []
  | [piece] => piece
  | piece :: pieces => piece ++ separator ++ join separator pieces

/-- The number of line feeds before the end of a text, which is the row its end lies on. -/
def rows (text : Text) : Nat := text.count '\n'

/-- The part of a text after its last line feed. -/
def lastLine (text : Text) : Text :=
  (text.reverse.takeWhile (· ≠ '\n')).reverse

/-- The part of a text up to and including its last line feed. -/
def beforeLastLine (text : Text) : Text :=
  (text.reverse.dropWhile (· ≠ '\n')).reverse

def ofNat (n : Nat) : Text := Nat.toDigits 10 n

def ofInt : Int → Text
  | .ofNat n => ofNat n
  | .negSucc n => '-' :: ofNat (n + 1)

/-- Byte-wise order of UTF-8 texts, which is the order of their code points. -/
def compare : Text → Text → Ordering
  | [], [] => .eq
  | [], _ :: _ => .lt
  | _ :: _, [] => .gt
  | a :: as, b :: bs => if a.val < b.val then .lt else if b.val < a.val then .gt else compare as bs

end Text
end Graft
