import Graft.Grammar.Analysis
import Graft.Grammar.Lexeme

/-! Reading the next token of a text. Which token stands there depends on the tokens that can come next:
a word is a keyword only where that keyword can stand, a slash starts a regular expression only where
one can stand, and a line break ends a statement only where one can end. -/

namespace Graft

/-- A token at the start of a text: the characters of spacing before it, and its own. -/
structure Reading where
  token : Token
  spacing : Nat
  length : Nat
  /-- The token is the text of a keyword, whether it is read as one or not. -/
  isWord : Bool := false

namespace Reading

/-- Of two readings the one that reaches further, and the first if both reach as far. -/
def longer (one two : Reading) : Reading :=
  if one.spacing + one.length < two.spacing + two.length then two else one

def longest : List Reading → Option Reading
  | [] => none
  | one :: others => some (others.foldl longer one)

end Reading

namespace Scanner

/-- A reading of a number of characters, unless there are none. -/
def reading (token : Token) (spacing length : Nat) : Option Reading :=
  if length = 0 then none else some { token, spacing, length }

def keyword? (word : Text) : Option Keyword := Keyword.all.find? fun keyword => keyword.text.toList = word

/-- The set of all names and keywords. -/
def wordSet : TokenSet :=
  Token.identifier.set ||| Grammar.union (Keyword.all.map fun keyword => (Token.word keyword).set)

section
variable (valid : TokenSet)

/-- A name, or a keyword where that can stand. -/
def word? (spacing : Nat) (text : Text) : Option Reading :=
  if valid &&& wordSet = 0 then none
  else
    let length := Lexeme.word text
    if length = 0 then none
    else
      match keyword? (text.take length) with
      | none => some { token := .identifier, spacing, length }
      | some keyword =>
        let token := if (Token.word keyword).isIn valid then .word keyword else .identifier
        some { token, spacing, length, isWord := true }

/-- The longest mark that can stand here. -/
def mark? (spacing : Nat) (text : Text) : Option Reading :=
  Reading.longest (Mark.all.filterMap fun mark =>
    if (Token.mark mark).isIn valid && mark.text.toList.isPrefixOf text then
      some { token := .mark mark, spacing, length := mark.text.toList.length }
    else none)

/-- A token of a class whose members are found by a measure. -/
def class? (token : Token) (measure : Text → Nat) (spacing : Nat) (text : Text) : Option Reading :=
  if token.isIn valid then reading token spacing (measure text) else none

/-- Tokens that must follow directly on what comes before, and that win over all others. -/
def direct? (text : Text) : Option Reading :=
  (class? valid .doubleChars (Lexeme.stringChars '"') 0 text).or <|
  (class? valid .singleChars (Lexeme.stringChars '\'') 0 text).or <|
  (class? valid .doubleAttributeChars (Lexeme.attributeChars '"' · 0) 0 text).or <|
  (class? valid .singleAttributeChars (Lexeme.attributeChars '\'' · 0) 0 text).or <|
  class? valid .regexEnd (fun text => if text.head? = some '/' then 1 else 0) 0 text

def plain? (text : Text) : Option Reading :=
  let spacing := Lexeme.spacing text
  let rest := text.drop spacing
  if rest.isEmpty then some { token := .finish, spacing, length := 0 }
  else
    Reading.longest ([
      class? valid .escape Lexeme.escape 0 text,
      class? valid .regexFlags (Lexeme.run Lexeme.isLower) 0 text,
      reading .comment spacing (Lexeme.comment rest),
      class? valid .hashBang Lexeme.hashBang spacing rest,
      class? valid .number Lexeme.number spacing rest,
      class? valid .privateName Lexeme.privateName spacing rest,
      class? valid .dashedName Lexeme.dashedName spacing rest,
      class? valid .characterReference Lexeme.characterReference spacing rest,
      word? valid spacing rest,
      mark? valid spacing rest,
      class? valid .regexPattern (Lexeme.regexBody · none 0) 0 text].filterMap id)

/-- The end of a statement or the question mark of a conditional expression. -/
def lineEnd? (text : Text) : Option Reading :=
  let blanks := Lexeme.run isAsciiBlank text
  if (Token.lineEnd.isIn valid || Token.headEnd.isIn valid) &&
      Lexeme.endsStatement (Token.isIn (.mark .either) valid) (Token.headEnd.isIn valid) text then
    some { token := .lineEnd, spacing := 0, length := 0 }
  else if Token.condition.isIn valid then
    reading .condition blanks (Lexeme.conditionMark (text.drop blanks))
  else none

/-- A comment in the manner of a page. It is none where an operator could stand, or inside of a string or
a regular expression. Blanks between tags belong to it. -/
def pageComment? (text : Text) : Option Reading :=
  let isBlank (c : Char) : Bool := isAsciiBlank c || c.toNat = 0x2028 || c.toNat = 0x2029
  let blanks := Lexeme.run isBlank text
  let length := Lexeme.pageComment (text.drop blanks)
  if length = 0 then none
  else if Token.markupText.isIn valid then
    some { token := .pageComment, spacing := 0, length := blanks + length }
  else some { token := .pageComment, spacing := blanks, length }

def next? (text : Text) : Option Reading :=
  let plain (_ : Unit) := (direct? valid text).or (plain? valid text)
  if Token.templateChars.isIn valid then
    let length := Lexeme.templateChars text 0
    if (text.drop length).head?.all (· = '\x00') then plain ()
    else (reading .templateChars 0 length).or (plain ())
  else
    match class? valid .markupText Lexeme.markupText 0 text with
    | some reading => some reading
    | none =>
      if Token.lineEnd.isIn valid || Token.headEnd.isIn valid || Token.condition.isIn valid then
        (lineEnd? valid text).or (plain ())
      else if Token.isIn (.mark .either) valid || Token.escape.isIn valid || Token.regexPattern.isIn valid then
        plain ()
      else (pageComment? valid text).or (plain ())

end
end Scanner
end Graft
