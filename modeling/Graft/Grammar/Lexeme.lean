import Graft.Text.Blank
import Graft.Text.Digits

/-! The shapes of tokens. Each measure says how many characters at the start of a text belong to one
token of its shape; zero means that there is none. -/

namespace Graft.Lexeme

def isOctal (c : Char) : Bool := '0' ≤ c && c ≤ '7'
def isBinary (c : Char) : Bool := c = '0' || c = '1'
def isLower (c : Char) : Bool := 'a' ≤ c && c ≤ 'z'
def isLetter (c : Char) : Bool := isLower c || ('A' ≤ c && c ≤ 'Z')
def isHex (c : Char) : Bool := isDigit c || ('a' ≤ c && c ≤ 'f') || ('A' ≤ c && c ≤ 'F')

/-- The number of characters at the start of a text that are in a class. -/
def run (isMember : Char → Bool) (text : Text) : Nat := (text.takeWhile isMember).length

/-! ### Between tokens -/

def spacing (text : Text) : Nat := run isSpacing text

/-- Line separators end a line comment. No token holds a null character. -/
def endsLine (c : Char) : Bool :=
  c = '\x00' || c = '\n' || c = '\r' || c.toNat = 0x2028 || c.toNat = 0x2029

/-- The length of a text up to and including the first `*/`, added to `count`. -/
def blockEnd : Text → Nat → Option Nat
  | [], _ => none
  | '*' :: '/' :: _, count => some (count + 2)
  | c :: rest, count => if c = '\x00' then none else blockEnd rest (count + 1)

def comment : Text → Nat
  | '/' :: '/' :: rest => 2 + run (fun c => !endsLine c) rest
  | '/' :: '*' :: rest => (blockEnd rest 2).getD 0
  | _ => 0

/-- A comment to the end of its line in the manner of a page: behind `<!--` or `-->`. -/
def pageComment : Text → Nat
  | '<' :: '!' :: '-' :: '-' :: rest => 4 + run inLine rest
  | '-' :: '-' :: '>' :: rest => 3 + run inLine rest
  | _ => 0
where
  /-- Whether a character goes on with the line. -/
  inLine (c : Char) : Bool := !(c = '\x00' || c = '\n' || c.toNat = 0x2028 || c.toNat = 0x2029)

/-- A first line that names an interpreter. -/
def hashBang : Text → Nat
  | '#' :: '!' :: rest => 2 + run (fun c => c ≠ '\n' && c ≠ '\x00') rest
  | _ => 0

/-! ### Names -/

/-- A character that can stand inside a name: neither a control character, nor spacing, nor one of the
punctuation marks of ASCII other than `$` and `_`. -/
def isNameChar (c : Char) : Bool :=
  let n := c.toNat
  0x20 < n && !(n ≤ 0x2F && n ≠ 0x24) && !(0x3A ≤ n && n ≤ 0x40) && !(0x5B ≤ n && n ≤ 0x60 && n ≠ 0x5F) &&
    !(0x7B ≤ n && n ≤ 0x7E) && !isSpacing c

/-- A code point escape such as `\u0041` or one in braces, which may stand for a character. -/
def unicodeEscape : Text → Nat
  | '\\' :: 'u' :: '\x7b' :: rest =>
    let digits := run isHex rest
    if 0 < digits && (rest.drop digits).head?.any (· = '\x7d') then digits + 4 else 0
  | '\\' :: 'u' :: a :: b :: c :: d :: _ => if isHex a && isHex b && isHex c && isHex d then 6 else 0
  | _ => 0

def nameUnit : Text → Nat
  | [] => 0
  | c :: rest => if isNameChar c then 1 else unicodeEscape (c :: rest)

/-- The characters of a name; `skip` of them belong to the current escape. -/
def nameUnits : Text → Nat → Nat → Nat
  | [], _, count => count
  | _ :: rest, skip + 1, count => nameUnits rest skip (count + 1)
  | c :: rest, 0, count =>
    match nameUnit (c :: rest) with
    | 0 => count
    | more + 1 => nameUnits rest more (count + 1)

def word : Text → Nat
  | [] => 0
  | c :: rest => if isDigit c then 0 else nameUnits (c :: rest) 0 0

def privateName : Text → Nat
  | '#' :: rest => match word rest with
    | 0 => 0
    | count => count + 1
  | _ => 0

/-! ### Punctuation -/

/-- The question mark of a conditional expression. Before `:`, `)` or `,` it marks an optional
parameter instead, and `?.` is a link of a chain. -/
def conditionMark : Text → Nat
  | '?' :: '?' :: _ => 0
  | '?' :: '.' :: _ => 0
  | '?' :: rest =>
    match rest.dropWhile isAsciiBlank with
    | '.' :: digit :: _ => if isDigit digit then 1 else 0
    | c :: _ => if c = ':' || c = ')' || c = ',' || c = '.' then 0 else 1
    | [] => 1
  | _ => 0

/-! ### Numbers -/

/-- Digits after the first, each perhaps behind an underscore. -/
def moreDigits (isMember : Char → Bool) : Text → Nat → Nat
  | '_' :: c :: rest, count => if isMember c then moreDigits isMember rest (count + 2) else count
  | c :: rest, count => if isMember c then moreDigits isMember rest (count + 1) else count
  | [], count => count

def digits (isMember : Char → Bool) : Text → Nat
  | c :: rest => if isMember c then moreDigits isMember rest 1 else 0
  | [] => 0

/-- The digits of a number in another base behind its two-character mark. -/
def based (isMember : Char → Bool) (rest : Text) : Nat :=
  match digits isMember rest with
  | 0 => 0
  | count => if (rest.drop count).head? = some 'n' then count + 3 else count + 2

def exponent : Text → Nat
  | e :: rest =>
    if e = 'e' || e = 'E' then
      let sign := match rest with
        | '+' :: _ => 1
        | '-' :: _ => 1
        | _ => 0
      match digits isDigit (rest.drop sign) with
      | 0 => 0
      | count => count + sign + 1
    else 0
  | [] => 0

/-- The whole part of a number with a fraction or an exponent: zero, or digits of which at most the
first is zero. -/
def wholePart : Text → Nat
  | '0' :: c :: rest => if isDigit c && c ≠ '0' then 2 + moreDigits isDigit rest 0 else 1
  | text => digits isDigit text

def decimal (text : Text) : Nat :=
  let plain := digits isDigit text
  let plain := if 0 < plain && (text.drop plain).head? = some 'n' then plain + 1 else plain
  let whole := wholePart text
  let rest := text.drop whole
  match rest with
  | '.' :: fraction =>
    let places := digits isDigit fraction
    if whole = 0 && places = 0 then plain
    else max plain (whole + 1 + places + exponent (fraction.drop places))
  | _ => max plain (if whole = 0 then 0 else whole + exponent rest)

def number (text : Text) : Nat :=
  let prefixed := match text with
    | '0' :: mark :: rest =>
      if mark = 'x' || mark = 'X' then based isHex rest
      else if mark = 'o' || mark = 'O' then based isOctal rest
      else if mark = 'b' || mark = 'B' then based isBinary rest
      else 0
    | _ => 0
  max prefixed (decimal text)

/-! ### Strings, templates and regular expressions -/

def stringChars (quote : Char) (text : Text) : Nat :=
  run (fun c => c ≠ quote && c ≠ '\\' && c ≠ '\r' && c ≠ '\n' && c ≠ '\x00') text

/-- A backslash and what it stands before. -/
def escape : Text → Nat
  | '\\' :: c :: rest =>
    if c = 'x' then
      match rest with
      | a :: b :: _ => if isHex a && isHex b then 4 else 0
      | _ => 0
    else if c = 'u' then unicodeEscape ('\\' :: c :: rest)
    else if isOctal c then 2 + min 2 (run isOctal rest)
    else if c = '\r' || c = '?' then
      match rest with
      | d :: _ => if d = '\n' || d.toNat = 0x2028 || d.toNat = 0x2029 then 3 else 2
      | [] => 2
    else if c = '\x00' then 0
    else 2
  | _ => 0

def templateChars : Text → Nat → Nat
  | [], count => count
  | c :: rest, count =>
    if c = '\x60' || c = '\\' || c = '\x00' || (c = '$' && rest.head? = some '\x7b') then count
    else templateChars rest (count + 1)

/-- The body of a regular expression. Slashes may stand in a class of characters, whose start is
remembered because a class that is not closed is no part of the body. -/
def regexBody : Text → Option Nat → Nat → Nat
  | [], opened, count => opened.getD count
  | '\\' :: c :: rest, opened, count =>
    if c = '\n' || c = '\x00' then opened.getD count else regexBody rest opened (count + 2)
  | c :: rest, some opened, count =>
    if c = '\n' || c = '\\' || c = '\x00' then opened
    else regexBody rest (if c = ']' then none else some opened) (count + 1)
  | c :: rest, none, count =>
    if c = '/' || c = '\n' || c = '\\' || c = '\x00' then count
    else regexBody rest (if c = '[' then some count else none) (count + 1)

/-! ### Markup -/

def dashedName : Text → Nat
  | [] => 0
  | c :: rest =>
    let isPart (c : Char) : Bool := isLetter c || isDigit c || c = '_' || c = '$'
    if isPart c && !isDigit c then
      let front := run isPart rest
      if (rest.drop front).head? = some '-' then
        front + 1 + run (fun c => isPart c || c = '-') (rest.drop front)
      else 0
    else 0

/-- Text between tags. Line breaks with the blanks after them are not text of their own. -/
def markupText (text : Text) : Nat :=
  let body := text.takeWhile fun c =>
    !(c = '<' || c = '>' || c = '\x7b' || c = '\x7d' || c = '&' || c = '\x00')
  if counts body false then body.length else 0
where
  /-- Whether anything but line breaks and the blanks after them is there. -/
  counts : Text → Bool → Bool
    | [], _ => false
    | c :: rest, atBreak =>
      if c = '\n' then counts rest true
      else if atBreak && isAsciiBlank c then counts rest true
      else true

/-- The plain characters of an attribute string. An ampersand is plain unless it could start a
character reference, and what follows it is then plain too. -/
def attributeChars (quote : Char) : Text → Nat → Nat
  | [], count => count
  | '&' :: c :: rest, count =>
    if c = '#' || isLetter c || c = '\x00' then count else attributeChars quote rest (count + 2)
  | c :: rest, count =>
    if c = quote || c = '&' || c = '\x00' then count else attributeChars quote rest (count + 1)

/-- A character reference such as `&amp;` or `&#38;`. -/
def characterReference : Text → Nat
  | '&' :: '#' :: x :: rest =>
    if x = 'x' || x = 'X' then closed 3 6 (run isHex rest) rest
    else closed 2 5 (run isDigit (x :: rest)) (x :: rest)
  | '&' :: rest => closed 1 30 (run isLetter rest) rest
  | _ => 0
where
  /-- The length with its semicolon, if there are between one and `most` characters. -/
  closed (before most count : Nat) (rest : Text) : Nat :=
    if 0 < count && count ≤ most && (rest.drop count).head? = some ';' then before + count + 1 else 0

/-! ### Ends of statements -/

inductive Skipping where
  | code | line | block

/-- The text after spacing and comments in the sense of line breaks, or nothing if a slash starts
neither kind of comment. -/
def skipLoose : Skipping → Text → Option Text
  | _, [] => some []
  | .code, '/' :: '/' :: rest => skipLoose .line rest
  | .code, '/' :: '*' :: rest => skipLoose .block rest
  | .code, c :: rest =>
    if isAsciiBlank c then skipLoose .code rest else if c = '/' then none else some (c :: rest)
  | .line, c :: rest =>
    if c = '\n' then skipLoose .code rest
    else if c.toNat = 0x2028 || c.toNat = 0x2029 then some (c :: rest)
    else skipLoose .line rest
  | .block, '*' :: '/' :: rest => skipLoose .code rest
  | .block, _ :: rest => skipLoose .block rest

/-- Whether a line break ends a statement before the given text. It does not before a mark or word
that must go on with what came before; a bracket or parenthesis goes on with an expression. -/
def startsAfresh (expression signature : Bool) : Text → Bool
  | [] => true
  | '+' :: rest => rest.head? = some '+'
  | '-' :: rest => rest.head? = some '-'
  | '!' :: rest => rest.head? ≠ some '='
  | 'i' :: 'n' :: rest =>
    let tail := "stanceof".toList
    let next := if tail.isPrefixOf rest then (rest.drop tail.length).head? else rest.head?
    next.any isLetter
  | c :: _ =>
    if c = '(' || c = '[' then !expression
    else if c = '\x7b' then !signature
    else !("\x60,.;*%><=?^|&/:".toList.contains c)

/-- Whether a statement may end here without a semicolon: at the end of the text, before a closing
brace, or where a line break is followed by something that starts afresh. The flags tell whether an
expression and whether the head of a function come before. -/
def endsStatement (expression signature : Bool) : Text → Bool
  | [] => true
  | '\x7d' :: rest => expression || (rest.dropWhile isAsciiBlank).head? ≠ some ':'
  | c :: rest =>
    if c = '\x00' then true
    else if c = '\n' then (skipLoose .code rest).any (startsAfresh expression signature)
    else if isAsciiBlank c then endsStatement expression signature rest
    else false

end Graft.Lexeme
